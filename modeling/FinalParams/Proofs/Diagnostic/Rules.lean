import FinalParams.Host.Addon
import FinalParams.Proofs.Sequence

/-!
# What the records of a dump add to the rules

Rules that are the same cover the same findings, so it makes no difference that only one of them is
kept.  After the records of a dump were added a finding is suppressed if it was before or if one of
the records covers it.
-/

namespace FinalParams

namespace Suppression

/-- The file is a text. -/
def FileNamed (rule : Suppression) : Prop := ∃ s, rule.file = .text s

theorem fileMatches?_congr {p q : Datum} (hp : ∀ s, p ≠ .text s) (h : p.same q = true)
    (file : Datum) : (fileMatches? file p).toOption = (fileMatches? file q).toOption := by
  have hq : ∀ s, q ≠ .text s := by
    rintro s rfl
    exact hp s (Datum.same_text_iff.mp h)
  have hequals : file.equals p = file.equals q := by
    rw [Datum.equals, Datum.equals, Datum.same_comm file p, Datum.same_comm file q,
      Datum.same_congr h]
  cases file with
  | text s =>
    cases p with
    | text t => exact absurd rfl (hp t)
    | _ =>
      cases q with
      | text t => exact absurd rfl (hq t)
      | _ => rfl
  | _ =>
    simp only [fileMatches?, hequals]

theorem coversFile?_congr {a b : Suppression} (h : a.same b = true) (file : Datum) :
    (a.coversFile? file).toOption = (b.coversFile? file).toOption := by
  rw [same, Bool.and_eq_true, Bool.and_eq_true] at h
  obtain ⟨⟨-, hfile⟩, -⟩ := h
  rw [coversFile?, coversFile?, Datum.truthy_of_same hfile]
  split
  · by_cases ht : ∃ s, a.file = .text s
    · obtain ⟨s, hs⟩ := ht
      rw [hs, Datum.text_same_iff] at hfile
      rw [hs, hfile]
    · exact fileMatches?_congr (fun s hs => ht ⟨s, hs⟩) hfile file
  · rfl

theorem coversFile_eq (rule : Suppression) (file : Datum) :
    rule.coversFile file = (rule.coversFile? file).toOption.getD false := by
  unfold coversFile
  cases rule.coversFile? file <;> rfl

theorem concerns_congr {a b : Suppression} (h : a.same b = true) (errorId : Datum) :
    a.concerns errorId = b.concerns errorId := by
  rw [same, Bool.and_eq_true, Bool.and_eq_true] at h
  obtain ⟨⟨hid, -⟩, -⟩ := h
  have hwild : a.errorId.isText wildcard = b.errorId.isText wildcard := by
    rw [Bool.eq_iff_iff, Datum.isText_iff, Datum.isText_iff, ← Datum.same_text_iff,
      ← Datum.same_text_iff, Datum.same_congr hid]
  rw [concerns, concerns, hwild, Datum.same_congr hid]

/-- Rules that are the same cover the same findings. -/
theorem covers_congr {a b : Suppression} (h : a.same b = true) (d : Diagnostic) :
    a.covers d = b.covers d := by
  have hcoversLine : a.coversLine d.loc.line = b.coversLine d.loc.line := by
    rw [same, Bool.and_eq_true, Bool.and_eq_true] at h
    obtain ⟨-, hline⟩ := h
    rw [coversLine, coversLine, Datum.truthy_of_same hline, Datum.equals, Datum.equals,
      Datum.same_comm _ a.line, Datum.same_comm _ b.line, Datum.same_congr hline]
  rw [covers, covers, concerns_congr h, coversFile_eq, coversFile_eq, coversFile?_congr h,
    hcoversLine]

theorem misfit?_eq_none_iff {rule : Suppression} {d : Diagnostic} :
    rule.misfit? d = none ↔ (rule.concerns d.errorId = true →
      (rule.coversFile? d.loc.file).toOption.isSome = true) := by
  unfold misfit?
  by_cases hc : rule.concerns d.errorId = true
  · cases rule.coversFile? d.loc.file <;> simp [hc, Except.toOption]
  · simp [hc]

/-- Rules that are the same can be tried on the same findings. -/
theorem misfit?_congr {a b : Suppression} (h : a.same b = true) (d : Diagnostic) :
    a.misfit? d = none ↔ b.misfit? d = none := by
  rw [misfit?_eq_none_iff, misfit?_eq_none_iff, concerns_congr h, coversFile?_congr h]

theorem covers_of_eq {d e : Diagnostic} (hid : d.errorId = e.errorId) (hloc : d.loc = e.loc)
    (rule : Suppression) : rule.covers d = rule.covers e := by
  rw [covers, covers, hid, hloc]

end Suppression

/-- Whether the rule of a record covers a finding. -/
def SuppressionRecord.covers (r : SuppressionRecord) (d : Diagnostic) : Bool :=
  match Suppression.ofRecord? r with
  | some (.ok rule) => rule.covers d
  | _ => false

/-- Whether one of the records of a dump covers a finding. -/
def Dump.covers (dump : Dump) (d : Diagnostic) : Bool := dump.suppressions.any (·.covers d)

theorem Dump.covers_of_eq {d e : Diagnostic} (hid : d.errorId = e.errorId) (hloc : d.loc = e.loc)
    (dump : Dump) : dump.covers d = dump.covers e := by
  unfold Dump.covers
  congr 1
  funext r
  unfold SuppressionRecord.covers
  split
  · exact Suppression.covers_of_eq hid hloc _
  · rfl

namespace Suppressions

theorem suppresses_add (rules : Suppressions) (rule : Suppression) (d : Diagnostic) :
    suppresses (add rules rule) d = (suppresses rules d || rule.covers d) := by
  unfold add
  split
  · rename_i hany
    obtain ⟨other, hmem, hsame⟩ := List.any_eq_true.mp hany
    cases hc : rule.covers d with
    | false => rw [Bool.or_false]
    | true =>
      rw [Bool.or_true]
      exact List.any_eq_true.mpr ⟨other, hmem, (Suppression.covers_congr hsame d).trans hc⟩
  · simp [suppresses]

/-- What is suppressed after the records of a dump were added. -/
theorem suppresses_load {records : List SuppressionRecord}
    (h : ∀ r ∈ records, ∀ e, Suppression.ofRecord? r ≠ some (.error e)) (rules : Suppressions)
    (d : Diagnostic) :
    suppresses (load rules records).1 d = (suppresses rules d || records.any (·.covers d)) := by
  induction records generalizing rules with
  | nil => exact (Bool.or_false _).symm
  | cons r rest ih =>
    have hrest := fun rules => ih (fun r' hr' => h r' (List.mem_cons_of_mem _ hr')) rules
    rw [List.any_cons, load, SuppressionRecord.covers]
    split
    · rename_i hr
      rw [hrest, hr, Bool.false_or]
    · rename_i rule hr
      rw [hrest, suppresses_add, hr, Bool.or_assoc]
    · rename_i e hr
      exact absurd hr (h r (List.mem_cons_self ..) e)

theorem sift_ok_iff {rules : Suppressions} {ds kept : List Diagnostic} :
    sift rules ds = .ok kept ↔ (∀ d ∈ ds, misfit? rules d = none) ∧ kept = keep rules ds := by
  rw [← List.findSome?_eq_none_iff, sift]
  cases ds.findSome? (misfit? rules) with
  | some e => simp
  | none => simp [eq_comm]

theorem misfit?_append (rules others : Suppressions) (d : Diagnostic) :
    misfit? (rules ++ others) d
      = if suppresses rules d then misfit? rules d else misfit? rules d <|> misfit? others d := by
  induction rules with
  | nil => rfl
  | cons rule rest ih =>
    simp only [List.cons_append, misfit?, ih, suppresses, List.any_cons]
    by_cases hc : rule.covers d = true
    · simp [hc]
    · cases rule.misfit? d <;> simp [hc]

/-- Where no rule covers a finding all of them have been tried. -/
theorem misfit?_of_mem {rules : Suppressions} {d : Diagnostic} (hs : suppresses rules d = false)
    (h : misfit? rules d = none) {rule : Suppression} (hr : rule ∈ rules) :
    rule.misfit? d = none := by
  induction rules with
  | nil => exact absurd hr List.not_mem_nil
  | cons first rest ih =>
    rw [suppresses, List.any_cons, Bool.or_eq_false_iff] at hs
    rw [misfit?, if_neg (Bool.eq_false_iff.mp hs.1)] at h
    cases hf : first.misfit? d with
    | some e =>
      rw [hf] at h
      cases h
    | none =>
      rw [hf] at h
      rcases List.mem_cons.mp hr with rfl | hr
      · exact hf
      · exact ih hs.2 h hr

/-- A rule that is dropped because another one is the same would not be tried in vain. -/
theorem misfit?_add (rules : Suppressions) (rule : Suppression) (d : Diagnostic) :
    misfit? (add rules rule) d = misfit? (rules ++ [rule]) d := by
  unfold add
  split
  · rename_i hany
    obtain ⟨other, hmem, hsame⟩ := List.any_eq_true.mp hany
    rw [misfit?_append]
    cases hs : suppresses rules d with
    | true => rfl
    | false =>
      cases hm : misfit? rules d with
      | some e => rfl
      | none =>
        have hother : other.covers d = false := by
          simpa using List.any_eq_false.mp hs other hmem
        have hrule : rule.covers d = false := (Suppression.covers_congr hsame d).symm.trans hother
        have htried := (Suppression.misfit?_congr hsame d).mp (misfit?_of_mem hs hm hmem)
        simp [misfit?, hrule, htried]
  · rfl

/-- Adding rules one after the other is the same as having all of them. -/
theorem foldl_add (rules others : List Suppression) (d : Diagnostic) :
    misfit? (others.foldl add rules) d = misfit? (rules ++ others) d
      ∧ suppresses (others.foldl add rules) d = suppresses (rules ++ others) d := by
  induction others generalizing rules with
  | nil => simp
  | cons rule rest ih =>
    obtain ⟨hmisfit, hsuppresses⟩ := ih (add rules rule)
    have hadd : suppresses (add rules rule) d = suppresses (rules ++ [rule]) d := by
      rw [suppresses_add, suppresses, suppresses, List.any_append]
      simp
    rw [List.foldl_cons, List.append_cons]
    constructor
    · rw [hmisfit, misfit?_append, misfit?_append (rules ++ [rule]), hadd, misfit?_add]
    · rw [hsuppresses, suppresses, List.any_append]
      refine (congrArg (· || rest.any (·.covers d)) hadd).trans ?_
      rw [suppresses, suppresses, ← List.any_append]

theorem sift_foldl_add (rules others : List Suppression) (ds : List Diagnostic) :
    sift (others.foldl add rules) ds = sift (rules ++ others) ds := by
  have hmisfit : misfit? (others.foldl add rules) = misfit? (rules ++ others) :=
    funext fun d => (foldl_add rules others d).1
  have hkeep : keep (others.foldl add rules) ds = keep (rules ++ others) ds := by
    unfold keep
    simp only [(foldl_add rules others _).2]
  rw [sift, sift, hmisfit, hkeep]

/-- The records of a dump add the rules that they stand for. -/
theorem load_eq {records : List SuppressionRecord} {others : List Suppression}
    (h : (records.filterMap Suppression.ofRecord?).mapM id = .ok others) (rules : Suppressions) :
    load rules records = (others.foldl add rules, none) := by
  induction records generalizing rules others with
  | nil =>
    obtain rfl := Except.ok.inj h
    rfl
  | cons r rest ih =>
    rw [List.filterMap_cons] at h
    rw [load]
    cases hr : Suppression.ofRecord? r with
    | none =>
      rw [hr] at h
      exact ih h rules
    | some result =>
      rw [hr] at h
      simp only [List.mapM_cons] at h
      obtain ⟨rule, hrule, htail⟩ := exists_of_bind_ok h
      obtain ⟨others', hrest, htail⟩ := exists_of_bind_ok htail
      obtain rfl := Except.ok.inj htail
      obtain rfl : result = .ok rule := hrule
      exact ih hrest _

theorem fileNamed_add {rules : Suppressions} (h : ∀ rule ∈ rules, rule.FileNamed)
    {rule : Suppression} (hr : rule.FileNamed) : ∀ other ∈ add rules rule, other.FileNamed := by
  intro other hother
  rcases mem_of_mem_add hother with hmem | rfl
  · exact h other hmem
  · exact hr

theorem fileNamed_load {records : List SuppressionRecord}
    (hrecords : ∀ r ∈ records, ∀ rule, Suppression.ofRecord? r = some (.ok rule) → rule.FileNamed)
    {rules : Suppressions} (h : ∀ rule ∈ rules, rule.FileNamed) :
    ∀ rule ∈ (load rules records).1, rule.FileNamed := by
  induction records generalizing rules with
  | nil => exact h
  | cons r rest ih =>
    have hrest := fun r' hr' => hrecords r' (List.mem_cons_of_mem _ hr')
    rw [load]
    split
    · exact ih hrest h
    · rename_i rule hr
      exact ih hrest (fileNamed_add h (hrecords r (List.mem_cons_self ..) rule hr))
    · exact h

end Suppressions

theorem Addon.globalRules_fileNamed (ids : List String) :
    ∀ rule ∈ globalRules ids, rule.FileNamed := by
  unfold globalRules
  have hfold : ∀ rules : Suppressions, (∀ rule ∈ rules, rule.FileNamed) →
      ∀ rule ∈ ids.foldl
        (fun rules errorId => Suppressions.add rules { errorId := .text errorId }) rules,
        rule.FileNamed := by
    induction ids with
    | nil => exact fun rules h => h
    | cons errorId rest ih =>
      intro rules h
      exact ih _ (Suppressions.fileNamed_add h ⟨"", rfl⟩)
  exact hfold [] fun rule hrule => absurd hrule List.not_mem_nil

end FinalParams
