import FinalParams.Datum.Json
import FinalParams.Proofs.Text.JsonString

/-!
# Values as JSON

The JSON text of any value is made of graphic characters alone, so it is all on one line:
`graphic_json`.

A number ends where its digits end, so that a text or an integer can be told from its JSON text only
if something else comes next.  In a record something always does, and a record of texts and integers
is read back from its JSON text whole: `record_json_inj`.
-/

namespace FinalParams

open Text

/-! ## Graphic characters -/

theorem isDigit_of_mem_toString {n : Nat} {c : Char} (h : c ∈ (toString n).toList) :
    c.isDigit = true := by
  rw [Nat.toString_eq_ofList_toDigits, String.toList_ofList] at h
  exact Nat.isDigit_of_mem_toDigits (by decide) (by decide) h

/-- An integer is written with digits and a minus sign. -/
theorem of_mem_toString_int {P : Char → Prop} (hminus : P '-')
    (hdigit : ∀ c, c.isDigit = true → P c) (n : Int) : ∀ c ∈ (toString n).toList, P c := by
  cases n with
  | ofNat m => exact fun c hc => hdigit c (isDigit_of_mem_toString hc)
  | negSucc m =>
    intro c hc
    have hc' : c ∈ ("-" ++ toString (m + 1)).toList := hc
    rw [String.toList_append, List.mem_append] at hc'
    rcases hc' with hc' | hc'
    · obtain rfl := List.mem_singleton.mp hc'
      exact hminus
    · exact hdigit c (isDigit_of_mem_toString hc')

theorem graphic_toString_int (n : Int) : Graphic (toString n) :=
  of_mem_toString_int (by decide) (fun _ hc => isGraphic_of_isDigit hc) n

theorem graphic_toString (n : Nat) : Graphic (toString n) :=
  fun _ hc => isGraphic_of_isDigit (isDigit_of_mem_toString hc)

namespace Text

theorem Graphic.ofList {cs : List Char} (h : ∀ c ∈ cs, IsGraphic c) : Graphic (String.ofList cs) := by
  rwa [Graphic, String.toList_ofList]

theorem Decimal.graphic_ofNat (n : Nat) (exponent : Int) :
    ∀ c ∈ (Decimal.ofNat n exponent).digits, IsGraphic c := by
  intro c hc
  rw [Decimal.ofNat, List.mem_reverse] at hc
  exact graphic_toString n c (List.mem_reverse.mp ((List.dropWhile_sublist _).mem hc))

theorem graphic_shortest (x : Binary64) : ∀ c ∈ (shortest x).digits, IsGraphic c := by
  unfold shortest
  simp only
  generalize hfound : List.findSome? _ (List.range 17) = found
  cases found with
  | none => exact Decimal.graphic_ofNat _ _
  | some d =>
    obtain ⟨k, -, hk⟩ := List.exists_of_findSome?_eq_some hfound
    obtain ⟨n, -, rfl⟩ := Option.map_eq_some_iff.mp hk
    exact Decimal.graphic_ofNat _ _

theorem graphic_exponentText (e : Int) : Graphic (exponentText e) := by
  have hsign : Graphic (if e < 0 then "-" else "+") := by split <;> decide
  have hzero : Graphic (if e.natAbs < 10 then "0" else "") := by split <;> decide
  exact (hsign.append hzero).append (graphic_toString _)

theorem Decimal.graphic_text {d : Decimal} (h : ∀ c ∈ d.digits, IsGraphic c) : Graphic d.text := by
  have hpoint : IsGraphic '.' := by decide
  have hzeros : ∀ n, ∀ c ∈ List.replicate n '0', IsGraphic c := by
    intro n c hc
    rw [List.eq_of_mem_replicate hc]
    decide
  have htake : ∀ n, ∀ c ∈ d.digits.take n, IsGraphic c := fun n c hc => h c (List.mem_of_mem_take hc)
  have hdrop : ∀ n, ∀ c ∈ d.digits.drop n, IsGraphic c := fun n c hc => h c (List.mem_of_mem_drop hc)
  unfold Decimal.text
  split
  · have he : Graphic "e" := by decide
    refine (Graphic.append (.ofList (List.forall_mem_append.mpr ⟨htake 1, ?_⟩)) he).append
      (graphic_exponentText _)
    split
    · exact fun c hc => absurd hc List.not_mem_nil
    · exact List.forall_mem_cons.mpr ⟨hpoint, hdrop 1⟩
  split
  · have hlead : Graphic "0." := by decide
    exact hlead.append (.ofList (List.forall_mem_append.mpr ⟨hzeros _, h⟩))
  · have hdot : Graphic "." := by decide
    refine (Graphic.append (.ofList (List.forall_mem_append.mpr ⟨htake _, hzeros _⟩)) hdot).append ?_
    split
    · decide
    · exact .ofList (hdrop _)

end Text

theorem Binary64.graphic_text (x : Binary64) : Graphic x.text := by
  unfold Binary64.text
  split
  · decide
  · refine Graphic.append (by split <;> decide) ?_
    split
    · decide
    split
    · decide
    · exact Decimal.graphic_text (graphic_shortest x)

theorem Binary64.graphic_json (x : Binary64) : Graphic x.json := by
  unfold Binary64.json
  split
  · decide
  split
  · split <;> decide
  · exact x.graphic_text

namespace Datum

mutual

theorem graphic_json (d : Datum) : Graphic d.json := by
  match d with
  | null => exact (by decide : Graphic "null")
  | bool b => cases b <;> exact (by decide)
  | int n => exact graphic_toString_int n
  | real x => exact x.graphic_json
  | text s => exact graphic_jsonString s
  | list items =>
    have hopen : Graphic "[" := by decide
    have hclose : Graphic "]" := by decide
    have hsep : Graphic ", " := by decide
    exact (hopen.append (hsep.intercalate (graphic_jsonItems items))).append hclose
  | record fields =>
    have hopen : Graphic "\x7b" := by decide
    have hclose : Graphic "\x7d" := by decide
    have hsep : Graphic ", " := by decide
    exact (hopen.append (hsep.intercalate (graphic_jsonMembers fields))).append hclose

theorem graphic_jsonItems (items : List Datum) : ∀ s ∈ jsonItems items, Graphic s := by
  match items with
  | [] => exact fun s hs => absurd hs List.not_mem_nil
  | d :: rest => exact List.forall_mem_cons.mpr ⟨graphic_json d, graphic_jsonItems rest⟩

theorem graphic_jsonMembers (fields : List (String × Datum)) :
    ∀ s ∈ jsonMembers fields, Graphic s := by
  match fields with
  | [] => exact fun s hs => absurd hs List.not_mem_nil
  | (name, d) :: rest =>
    have hcolon : Graphic ": " := by decide
    exact List.forall_mem_cons.mpr
      ⟨((graphic_jsonString name).append hcolon).append (graphic_json d),
        graphic_jsonMembers rest⟩

end

/-! ## Reading back -/

/-- A text or an integer. -/
def IsAtom (d : Datum) : Prop := (∃ s, d = text s) ∨ ∃ n, d = int n

/-- A character that a numeral may have. -/
def inNumeral (c : Char) : Bool := c.isDigit || c == '-'

theorem inNumeral_json (n : Int) : ∀ c ∈ (int n).json.toList, inNumeral c = true :=
  of_mem_toString_int (P := fun c => inNumeral c = true) rfl
    (fun c hc => by rw [inNumeral, hc, Bool.true_or]) n

/-- The integer that a numeral stands for. -/
def readNumeral : List Char → Int
  | '-' :: digits => -(Nat.ofDigitChars 10 digits 0 : Int)
  | digits => Nat.ofDigitChars 10 digits 0

theorem readNumeral_toDigits (n : Nat) : readNumeral (Nat.toDigits 10 n) = n := by
  unfold readNumeral
  split
  · rename_i digits hsign
    have hminus : '-' ∈ Nat.toDigits 10 n := hsign ▸ List.mem_cons_self ..
    exact absurd (Nat.isDigit_of_mem_toDigits (by decide) (by decide) hminus) (by decide)
  · rw [Nat.ofDigitChars_ten_toDigits]

theorem readNumeral_json (n : Int) : readNumeral (int n).json.toList = n := by
  cases n with
  | ofNat m =>
    have hdigits : (int (.ofNat m)).json.toList = Nat.toDigits 10 m := Nat.toList_repr
    rw [hdigits, readNumeral_toDigits, Int.ofNat_eq_natCast]
  | negSucc m =>
    have hdigits : (int (.negSucc m)).json.toList = '-' :: Nat.toDigits 10 (m + 1) := by
      show ("-" ++ Nat.repr (m + 1)).toList = _
      rw [String.toList_append, Nat.toList_repr]
      rfl
    rw [hdigits, readNumeral, Nat.ofDigitChars_ten_toDigits, Int.negSucc_eq]
    rfl

/-- The text ends, or goes on with something that is no part of a numeral. -/
def Bounded (xs : List Char) : Prop := xs.takeWhile inNumeral = []

/-- An integer tells itself and where it ends. -/
theorem json_int_append_inj {m n : Int} {xs ys : List Char} (hx : Bounded xs) (hy : Bounded ys)
    (h : (int m).json.toList ++ xs = (int n).json.toList ++ ys) : m = n ∧ xs = ys := by
  have hnumeral := congrArg (List.takeWhile inNumeral) h
  rw [List.takeWhile_append_of_pos (inNumeral_json m),
    List.takeWhile_append_of_pos (inNumeral_json n), hx, hy, List.append_nil,
    List.append_nil] at hnumeral
  have hmn : m = n := by rw [← readNumeral_json m, hnumeral, readNumeral_json]
  subst hmn
  exact ⟨rfl, List.append_cancel_left h⟩

theorem json_int_ne_nil (n : Int) : (int n).json.toList ≠ [] := by
  have hne : n.repr ≠ "" := by
    cases n with
    | ofNat m => exact Nat.repr_ne_empty
    | negSucc m => simp [Int.repr]
  exact fun h => hne (String.toList_eq_nil_iff.mp h)

/-- A text is not taken for an integer. -/
theorem json_text_append_ne (s : String) (n : Int) (xs : List Char) {ys : List Char}
    (hy : Bounded ys) : (text s).json.toList ++ xs ≠ (int n).json.toList ++ ys := by
  intro h
  have hquote : ((text s).json.toList ++ xs).takeWhile inNumeral = [] := by
    simp [json, jsonString, inNumeral]
  rw [h, List.takeWhile_append_of_pos (inNumeral_json n), hy, List.append_nil] at hquote
  exact json_int_ne_nil n hquote

/-- An atom tells itself and where it ends. -/
theorem json_append_inj {d e : Datum} (hd : d.IsAtom) (he : e.IsAtom) {xs ys : List Char}
    (hx : Bounded xs) (hy : Bounded ys) (h : d.json.toList ++ xs = e.json.toList ++ ys) :
    d = e ∧ xs = ys := by
  rcases hd with ⟨s, rfl⟩ | ⟨m, rfl⟩ <;> rcases he with ⟨t, rfl⟩ | ⟨n, rfl⟩
  · obtain ⟨rfl, hend⟩ := jsonString_append_inj h
    exact ⟨rfl, hend⟩
  · exact absurd h (json_text_append_ne s n xs hy)
  · exact absurd h.symm (json_text_append_ne t m ys hx)
  · obtain ⟨rfl, hend⟩ := json_int_append_inj hx hy h
    exact ⟨rfl, hend⟩

/-! ## Flat records -/

/-- The members of a record, and what comes after them. -/
def membersOnto (fields : List (String × Datum)) (xs : List Char) : List Char :=
  (", ".intercalate (jsonMembers fields)).toList ++ '\x7d' :: xs

/-- What comes after the first member: the end, or a comma and the other members. -/
def afterMember (fields : List (String × Datum)) (xs : List Char) : List Char :=
  if fields.isEmpty then '\x7d' :: xs else ',' :: ' ' :: membersOnto fields xs

theorem membersOnto_cons (name : String) (d : Datum) (rest : List (String × Datum))
    (xs : List Char) :
    membersOnto ((name, d) :: rest) xs
      = (jsonString name).toList ++ (':' :: ' ' :: (d.json.toList ++ afterMember rest xs)) := by
  cases rest with
  | nil => simp [membersOnto, afterMember, jsonMembers]
  | cons field rest =>
    obtain ⟨other, e⟩ := field
    simp [membersOnto, afterMember, jsonMembers, String.intercalate_cons_cons]

theorem bounded_afterMember (fields : List (String × Datum)) (xs : List Char) :
    Bounded (afterMember fields xs) := by
  unfold afterMember
  split <;> simp [Bounded, inNumeral]

theorem membersOnto_nil (xs : List Char) : membersOnto [] xs = '\x7d' :: xs := rfl

/-- Members that are atoms tell themselves and where they end. -/
theorem membersOnto_inj {fs gs : List (String × Datum)} (hf : ∀ f ∈ fs, f.2.IsAtom)
    (hg : ∀ g ∈ gs, g.2.IsAtom) {xs ys : List Char} (h : membersOnto fs xs = membersOnto gs ys) :
    fs = gs ∧ xs = ys := by
  have hstart : ∀ (f : String × Datum) (rest : List (String × Datum)) (as : List Char),
      (membersOnto (f :: rest) as).head? = some '"' := by
    intro f rest as
    rw [membersOnto_cons]
    simp [jsonString]
  induction fs generalizing gs with
  | nil =>
    cases gs with
    | nil => exact ⟨rfl, (List.cons.inj h).2⟩
    | cons g gs =>
      have hhead := (congrArg List.head? h).trans (hstart g gs ys)
      cases hhead
  | cons f fs ih =>
    cases gs with
    | nil =>
      have hhead := (congrArg List.head? h).symm.trans (hstart f fs xs)
      cases hhead
    | cons g gs =>
      obtain ⟨hf, hfs⟩ := List.forall_mem_cons.mp hf
      obtain ⟨hg, hgs⟩ := List.forall_mem_cons.mp hg
      rw [membersOnto_cons, membersOnto_cons] at h
      obtain ⟨hname, h⟩ := jsonString_append_inj h
      obtain ⟨hvalue, h⟩ := json_append_inj hf hg (bounded_afterMember fs xs)
        (bounded_afterMember gs ys) (List.cons.inj (List.cons.inj h).2).2
      have hrest : membersOnto fs xs = membersOnto gs ys := by
        unfold afterMember at h
        cases fs <;> cases gs <;> simp_all [membersOnto_nil]
      obtain ⟨rfl, hend⟩ := ih hfs hgs hrest
      exact ⟨by rw [Prod.ext hname hvalue], hend⟩

/-- A record of atoms is read back from its JSON text. -/
theorem record_json_inj {fs gs : List (String × Datum)} (hf : ∀ f ∈ fs, f.2.IsAtom)
    (hg : ∀ g ∈ gs, g.2.IsAtom) (h : (record fs).json = (record gs).json) : fs = gs := by
  have hlist : ∀ fields, (record fields).json.toList = '\x7b' :: membersOnto fields [] := by
    intro fields
    simp [json, membersOnto]
  have hmembers := congrArg String.toList h
  rw [hlist, hlist] at hmembers
  exact (membersOnto_inj hf hg (List.cons.inj hmembers).2).1

end Datum
end FinalParams
