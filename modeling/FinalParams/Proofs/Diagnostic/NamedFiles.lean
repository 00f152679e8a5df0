import FinalParams.Proofs.Diagnostic.Rules
import FinalParams.Proofs.Text.Glob

/-!
# Rules that name a file

A rule may name a file by a text without pattern characters.  It is meant for the paths that are
this text or end with it where a component of the path begins.  What it covers are all paths that
end with the text, so it also covers paths in which the text begins in the middle of a component: a
rule for `a.c` covers findings in `data.c`.

`sift_namedFiles` says that this is the only way in which such rules drop a finding in a file that
none of them names.  A rule whose text begins with a slash has no such paths, and every other one
has some.
-/

namespace FinalParams

/-- The path is the name, or it ends with it where a component of the path begins. -/
def NamedBy (path name : String) : Prop :=
  path = name
    ∨ name.toList <:+ path.toList
      ∧ (name.toList.head? = some '/' ∨ '/' :: name.toList <:+ path.toList)

/-- The path ends with the name, but the name begins in the middle of a component. -/
def CutBy (path name : String) : Prop :=
  name.toList.head? ≠ some '/' ∧ ∃ c, c ≠ '/' ∧ c :: name.toList <:+ path.toList

/-- An ending of a path begins with a component or in the middle of one. -/
theorem suffix_iff_namedBy_or_cutBy {path name : String} :
    name.toList <:+ path.toList ↔ NamedBy path name ∨ CutBy path name := by
  constructor
  · intro h
    by_cases hslash : name.toList.head? = some '/'
    · exact .inl (.inr ⟨h, .inl hslash⟩)
    obtain ⟨front, hfront⟩ := id h
    cases front using List.reverseRecOn with
    | nil => exact .inl (.inl (String.toList_inj.mp hfront.symm))
    | append_singleton front c =>
      have hbefore : c :: name.toList <:+ path.toList := ⟨front, by simpa using hfront⟩
      by_cases hc : c = '/'
      · exact .inl (.inr ⟨h, .inr (hc ▸ hbefore)⟩)
      · exact .inr ⟨hslash, c, hc, hbefore⟩
  · rintro ((rfl | ⟨h, -⟩) | ⟨-, c, -, h⟩)
    · exact List.suffix_rfl
    · exact h
    · exact (List.suffix_cons c _).trans h

/-- A path that a name cuts is not named by it. -/
theorem CutBy.not_namedBy {path name : String} (h : CutBy path name) : ¬ NamedBy path name := by
  obtain ⟨hslash, c, hc, hbefore⟩ := h
  rintro (rfl | ⟨-, hhead | hcomponent⟩)
  · exact absurd hbefore.length_le (Nat.not_succ_le_self _)
  · exact hslash hhead
  · -- both characters stand right before the same ending
    have hsuffix := List.suffix_of_suffix_length_le hbefore hcomponent (Nat.le_refl _)
    exact hc (List.cons.inj (hsuffix.eq_of_length rfl)).1

theorem fileMatches_literal {name : String} (h : Glob.Literal name.toList) (path : String) :
    fileMatches path name = true ↔ NamedBy path name ∨ CutBy path name := by
  rw [← suffix_iff_namedBy_or_cutBy, fileMatches, Bool.or_eq_true, Bool.or_eq_true,
    List.isSuffixOf_iff_suffix, beq_iff_eq, globMatches_literal h]
  constructor
  · rintro ((rfl | hsuffix) | rfl)
    · exact List.suffix_rfl
    · exact hsuffix
    · exact List.suffix_rfl
  · exact fun hsuffix => .inl (.inr hsuffix)

namespace Suppression

/-- The rule names a file by a text without pattern characters. -/
structure NamesFile (rule : Suppression) (name : String) : Prop where
  file : rule.file = .text name
  ne_empty : name ≠ ""
  literal : Glob.Literal name.toList

variable {rule : Suppression} {name : String}

theorem NamesFile.coversFile_iff (h : rule.NamesFile name) (file : Datum) :
    rule.coversFile file = true
      ↔ ∃ path, file = .text path ∧ (NamedBy path name ∨ CutBy path name) := by
  cases file with
  | text path =>
    have hempty : (name == "") = false := by simpa using h.ne_empty
    rw [coversFile_text h.file, hempty, Bool.false_or, fileMatches_literal h.literal]
    constructor
    · exact fun hpath => ⟨path, rfl, hpath⟩
    · rintro ⟨other, hother, hpath⟩
      rwa [Datum.text.inj hother]
  | _ =>
    -- a value that is no text is not equal to one and has no ending
    simp [coversFile, coversFile?, h.file, Datum.truthy, h.ne_empty, fileMatches?]

theorem NamesFile.covers_iff (h : rule.NamesFile name) (d : Diagnostic) :
    rule.covers d = true ↔ rule.concerns d.errorId = true ∧ rule.coversLine d.loc.line = true
      ∧ ∃ path, d.loc.file = .text path ∧ (NamedBy path name ∨ CutBy path name) := by
  rw [covers, Bool.and_eq_true, Bool.and_eq_true, h.coversFile_iff, and_right_comm, and_assoc]

/-- A rule whose name does not begin with a slash covers something in a file that it does not name.
Only a line that is no number keeps it from covering anything. -/
theorem NamesFile.exists_cut (h : rule.NamesFile name) (hslash : name.toList.head? ≠ some '/')
    (hline : rule.line.isNaN = false) :
    ∃ d path, d.loc.file = .text path ∧ rule.covers d = true ∧ CutBy path name := by
  have hcut : CutBy ("_" ++ name) name := by
    refine ⟨hslash, '_', by decide, ?_⟩
    rw [String.toList_append]
    exact List.suffix_rfl
  refine ⟨{ errorId := rule.errorId, message := .text "", severity := .error
            loc := { file := .text ("_" ++ name), line := rule.line } }, _, rfl, ?_, hcut⟩
  have hequals : rule.line.equals rule.line = true := by
    rw [Datum.equals, hline, Datum.same_self]
    rfl
  rw [h.covers_iff]
  refine ⟨?_, ?_, _, rfl, .inr hcut⟩
  · rw [concerns, Datum.same_self, Bool.true_or]
  · rw [coversLine, hequals, Bool.or_true]

/-- What a rule covers that names a file: the findings that it concerns in the paths that end with
the name.  It keeps to the paths that it names exactly if the name begins with a slash. -/
structure Reaches (rule : Suppression) (name : String) : Prop where
  covers : ∀ d, rule.covers d = true ↔ rule.concerns d.errorId = true
    ∧ rule.coversLine d.loc.line = true
    ∧ ∃ path, d.loc.file = .text path ∧ (NamedBy path name ∨ CutBy path name)
  /-- No path is both named and cut. -/
  apart : ∀ path, CutBy path name → ¬ NamedBy path name
  strict : rule.line.isNaN = false →
    ((∀ d path, d.loc.file = .text path → rule.covers d = true → NamedBy path name)
      ↔ name.toList.head? = some '/')

theorem NamesFile.reaches (h : rule.NamesFile name) : rule.Reaches name where
  covers := h.covers_iff
  apart := fun _ hcut => hcut.not_namedBy
  strict := by
    intro hline
    constructor
    · intro hkeeps
      by_contra hslash
      obtain ⟨d, path, hfile, hcovers, hcut⟩ := h.exists_cut hslash hline
      exact hcut.not_namedBy (hkeeps d path hfile hcovers)
    · intro hslash d path hfile hcovers
      obtain ⟨-, -, other, hother, hpath⟩ := (h.covers_iff d).mp hcovers
      obtain rfl := Datum.text.inj (hfile.symm.trans hother)
      exact hpath.resolve_right fun hcut => hcut.1 hslash

end Suppression

/-- Where all rules name files, a finding in a file that none of them names is dropped exactly if
the name of a rule that covers its id and line cuts its file. -/
theorem Suppressions.sift_namedFiles {rules : Suppressions}
    (hrules : ∀ rule ∈ rules, ∃ name, rule.NamesFile name) :
    (∀ rule ∈ rules, ∀ name, rule.NamesFile name → rule.Reaches name)
      ∧ ∀ ds : List Diagnostic, (∀ d ∈ ds, ∃ path, d.loc.file = .text path) →
        ∃ kept, sift rules ds = .ok kept
          ∧ ∀ d path, d.loc.file = .text path →
            (∀ rule ∈ rules, ∀ name, rule.NamesFile name → ¬ NamedBy path name) →
              (d ∈ kept ↔ d ∈ ds ∧ ∀ rule ∈ rules, ∀ name, rule.NamesFile name →
                rule.concerns d.errorId = true → rule.coversLine d.loc.line = true →
                  ¬ CutBy path name) := by
  refine ⟨fun rule _ name hname => hname.reaches, fun ds hds => ⟨keep rules ds, ?_, ?_⟩⟩
  · apply sift_of_texts hds
    intro rule hrule
    obtain ⟨name, hname⟩ := hrules rule hrule
    exact ⟨name, hname.file⟩
  intro d path hfile hunnamed
  rw [mem_keep, suppresses, List.any_eq_false]
  apply and_congr_right
  intro _
  constructor
  · intro hnone rule hrule name hname hconcerns hline hcut
    exact hnone rule hrule ((hname.covers_iff d).mpr ⟨hconcerns, hline, path, hfile, .inr hcut⟩)
  · intro huncut rule hrule hcovers
    obtain ⟨name, hname⟩ := hrules rule hrule
    obtain ⟨hconcerns, hline, other, hother, hpath⟩ := (hname.covers_iff d).mp hcovers
    obtain rfl := Datum.text.inj (hfile.symm.trans hother)
    rcases hpath with hnamed | hcut
    · exact hunnamed rule hrule name hname hnamed
    · exact huncut rule hrule name hname hconcerns hline hcut

/-! ## A name that cuts another one -/

def ruleFor (name : String) : Suppression :=
  { errorId := .text "effectivelyFinal", file := .text name }

def findingIn (path : String) : Diagnostic :=
  { errorId := .text "effectivelyFinal", message := .text "m", severity := .error
    loc := { file := .text path, line := .int 3 } }

theorem ruleFor_namesFile : (ruleFor "a.c").NamesFile "a.c" := ⟨rfl, by decide, by decide⟩

theorem cutBy_data : CutBy "data.c" "a.c" := ⟨by decide, 't', by decide, ['d', 'a'], by decide⟩

/-- A rule for `a.c` covers a finding in `data.c`, which it does not name, and drops it. -/
theorem ruleFor_covers_cut :
    (ruleFor "a.c").NamesFile "a.c" ∧ ¬ NamedBy "data.c" "a.c"
      ∧ (ruleFor "a.c").covers (findingIn "data.c") = true
      ∧ Suppressions.sift [ruleFor "a.c"] [findingIn "data.c"] = .ok [] := by
  have hcovers : (ruleFor "a.c").covers (findingIn "data.c") = true :=
    (ruleFor_namesFile.covers_iff _).mpr ⟨by decide, by decide, "data.c", rfl, .inr cutBy_data⟩
  refine ⟨ruleFor_namesFile, cutBy_data.not_namedBy, hcovers, ?_⟩
  rw [Suppressions.sift_of_texts]
  · simp [Suppressions.keep, Suppressions.suppresses, hcovers]
  · intro d hd
    exact ⟨"data.c", by rw [List.mem_singleton.mp hd]; rfl⟩
  · intro rule hrule
    exact ⟨"a.c", by rw [List.mem_singleton.mp hrule]; rfl⟩

/-- Of two findings in files that the rule does not name the one in `data.c` is dropped. -/
theorem sift_namedFiles_short :
    (∀ rule ∈ [ruleFor "a.c"], ∃ name, rule.NamesFile name)
      ∧ (∀ d ∈ [findingIn "data.c", findingIn "a.cc"], ∃ path, d.loc.file = .text path)
      ∧ ∃ kept, Suppressions.sift [ruleFor "a.c"] [findingIn "data.c", findingIn "a.cc"] = .ok kept
        ∧ findingIn "data.c" ∉ kept ∧ findingIn "a.cc" ∈ kept := by
  have hrules : ∀ rule ∈ [ruleFor "a.c"], ∃ name, rule.NamesFile name := by
    intro rule hrule
    rw [List.mem_singleton.mp hrule]
    exact ⟨_, ruleFor_namesFile⟩
  have hds : ∀ d ∈ [findingIn "data.c", findingIn "a.cc"], ∃ path, d.loc.file = .text path := by
    intro d hd
    rcases List.mem_pair.mp hd with rfl | rfl
    · exact ⟨_, rfl⟩
    · exact ⟨_, rfl⟩
  have hname : ∀ rule ∈ [ruleFor "a.c"], ∀ name, rule.NamesFile name → name = "a.c" := by
    intro rule hrule name hname
    rw [List.mem_singleton.mp hrule] at hname
    exact (Datum.text.inj hname.file).symm
  have hneither : ¬ NamedBy "a.cc" "a.c" ∧ ¬ CutBy "a.cc" "a.c" := by
    rw [← not_or, ← suffix_iff_namedBy_or_cutBy, ← List.isSuffixOf_iff_suffix]
    decide
  obtain ⟨-, hsift⟩ := Suppressions.sift_namedFiles hrules
  obtain ⟨kept, hkept, hmem⟩ := hsift _ hds
  refine ⟨hrules, hds, kept, hkept, ?_, ?_⟩
  · rw [hmem _ "data.c" rfl fun rule hrule name hn =>
      hname rule hrule name hn ▸ cutBy_data.not_namedBy]
    rintro ⟨-, huncut⟩
    exact huncut _ (List.mem_singleton_self _) _ ruleFor_namesFile (by decide) (by decide)
      cutBy_data
  · rw [hmem _ "a.cc" rfl fun rule hrule name hn => hname rule hrule name hn ▸ hneither.1]
    refine ⟨List.mem_cons_of_mem _ (List.mem_singleton_self _), ?_⟩
    intro rule hrule name hn _ _
    exact hname rule hrule name hn ▸ hneither.2

end FinalParams
