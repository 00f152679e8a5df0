import FinalParams.Text.JsonString
import Mathlib.Data.Nat.Digits.Defs

/-!
# JSON strings can be read back

The escapes of a JSON string have different lengths, and a character beyond the first plane takes two
of them.  `readChar?` reads one character, and `readChar?_jsonChar` says that it reads back the one
that was written, whatever comes after it.  So a JSON string tells its text and where it ends:
`jsonString_append_inj`.  It consists of graphic ASCII characters alone, which is
`graphic_jsonString`.
-/

namespace FinalParams
namespace Text

/-! ## Hexadecimal digits -/

def hexValue (c : Char) : Nat := if c.isDigit then c.toNat - 48 else c.toNat - 87

def readHex : List Char → Nat
  | [] => 0
  | d :: rest => hexValue d * 16 ^ rest.length + readHex rest

theorem hexValue_digitChar : ∀ d < 16, hexValue (Nat.digitChar d) = d := by decide

theorem hexDigits_succ (width n : Nat) :
    hexDigits (width + 1) n = Nat.digitChar (n >>> (4 * width) % 16) :: hexDigits width n := by
  simp [hexDigits, List.range_succ]

@[simp] theorem length_hexDigits (width n : Nat) : (hexDigits width n).length = width := by
  simp [hexDigits]

theorem readHex_hexDigits (width n : Nat) : readHex (hexDigits width n) = n % 16 ^ width := by
  induction width with
  | zero => simp [hexDigits, readHex, Nat.mod_one]
  | succ width ih =>
    have hdigit := hexValue_digitChar _ (Nat.mod_lt (n >>> (4 * width)) (by decide : 0 < 16))
    rw [hexDigits_succ, readHex, hdigit, length_hexDigits, ih, Nat.shiftRight_eq_div_pow, Nat.pow_mul,
      Nat.mod_pow_succ, Nat.mul_comm, Nat.add_comm]

/-! ## Characters -/

/-- A character of ASCII that is no control character. -/
def IsGraphic (c : Char) : Prop := 0x20 ≤ c.toNat ∧ c.toNat ≤ 0x7e

instance : DecidablePred IsGraphic := fun _ => inferInstanceAs (Decidable (_ ∧ _))

/-- The character whose escape has this name. -/
def named? (name : Char) : Option Char :=
  [('"', '"'), ('\\', '\\'), ('n', '\n'), ('r', '\r'), ('t', '\t'), ('b', '\x08'),
    ('f', '\x0c')].lookup name

/-- The character whose code begins with these digits, which may be the first half of a pair. -/
def readUnits (digits : List Char) : Char × List Char :=
  let high := readHex (digits.take 4)
  let rest := digits.drop 4
  if 0xd800 ≤ high ∧ high < 0xdc00 then
    let low := readHex ((rest.drop 2).take 4)
    (Char.ofNat (0x10000 + (high - 0xd800) * 0x400 + (low - 0xdc00)), rest.drop 6)
  else (Char.ofNat high, rest)

/-- The first character of a text within quotes and what comes after it.  A quote is the end. -/
def readChar? : List Char → Option (Char × List Char)
  | [] => none
  | c :: rest =>
    if c = '"' then none
    else if c = '\\' then
      match rest with
      | [] => none
      | name :: rest =>
        if name = 'u' then some (readUnits rest) else (named? name).map (·, rest)
    else some (c, rest)

theorem readHex_unit {n : Nat} (hn : n < 0x10000) : readHex (hexDigits 4 n) = n :=
  (readHex_hexDigits 4 n).trans (Nat.mod_eq_of_lt hn)

theorem readUnits_unit {n : Nat} (h : n < 0xd800 ∨ 0xdfff < n) (hn : n < 0x10000)
    (rest : List Char) : readUnits (hexDigits 4 n ++ rest) = (Char.ofNat n, rest) := by
  rw [readUnits, List.take_left' (length_hexDigits 4 n), List.drop_left' (length_hexDigits 4 n),
    readHex_unit hn, if_neg (by omega)]

/-- Both halves of a pair are read, and the number is put together from them. -/
theorem readUnits_pair {n : Nat} (hn : n < 0x100000) (rest : List Char) :
    readUnits (hexDigits 4 (0xd800 + n / 0x400) ++ (unitEscape (0xdc00 + n % 0x400) ++ rest))
      = (Char.ofNat (0x10000 + n), rest) := by
  have hlow : (unitEscape (0xdc00 + n % 0x400) ++ rest).drop 2
      = hexDigits 4 (0xdc00 + n % 0x400) ++ rest := rfl
  have hrest : (unitEscape (0xdc00 + n % 0x400) ++ rest).drop 6 = rest :=
    List.drop_left' (by rw [unitEscape, List.length_cons, List.length_cons, length_hexDigits])
  have hvalue : 0x10000 + (0xd800 + n / 0x400 - 0xd800) * 0x400 + (0xdc00 + n % 0x400 - 0xdc00)
      = 0x10000 + n := by omega
  rw [readUnits, List.take_left' (length_hexDigits ..), List.drop_left' (length_hexDigits ..),
    readHex_unit (by omega), if_pos (by omega), hlow, List.take_left' (length_hexDigits ..), hrest]
  simp only [readHex_unit (show 0xdc00 + n % 0x400 < 0x10000 by omega), hvalue]

theorem toNat_valid (c : Char) :
    c.toNat < 0xd800 ∨ 0xdfff < c.toNat ∧ c.toNat < 0x110000 := c.valid

/-- A character is written as an escape with a name, as itself, or by one or two escapes with four
digits. -/
theorem jsonChar_cases (c : Char) :
    (∃ name, named? name = some c ∧ name ≠ 'u' ∧ IsGraphic name ∧ jsonChar c = ['\\', name])
      ∨ (c ≠ '"' ∧ c ≠ '\\' ∧ IsGraphic c ∧ jsonChar c = [c])
      ∨ (c.toNat < 0x10000 ∧ jsonChar c = unitEscape c.toNat)
      ∨ (0x10000 ≤ c.toNat ∧ jsonChar c = unitEscape (0xd800 + (c.toNat - 0x10000) / 0x400)
        ++ unitEscape (0xdc00 + (c.toNat - 0x10000) % 0x400)) := by
  by_cases hquote : c = '"'
  · exact .inl ⟨'"', by rw [hquote]; decide⟩
  by_cases hslash : c = '\\'
  · exact .inl ⟨'\\', by rw [hslash]; decide⟩
  by_cases hn : c = '\n'
  · exact .inl ⟨'n', by rw [hn]; decide⟩
  by_cases hr : c = '\r'
  · exact .inl ⟨'r', by rw [hr]; decide⟩
  by_cases ht : c = '\t'
  · exact .inl ⟨'t', by rw [ht]; decide⟩
  by_cases hb : c = '\x08'
  · exact .inl ⟨'b', by rw [hb]; decide⟩
  by_cases hf : c = '\x0c'
  · exact .inl ⟨'f', by rw [hf]; decide⟩
  have hplain : jsonChar c = if IsGraphic c then [c]
      else if c.toNat < 0x10000 then unitEscape c.toNat
      else unitEscape (0xd800 + (c.toNat - 0x10000) / 0x400)
        ++ unitEscape (0xdc00 + (c.toNat - 0x10000) % 0x400) := by
    simp only [jsonChar, beq_iff_eq, hquote, hslash, hn, hr, ht, hb, hf, if_false,
      Bool.and_eq_true, decide_eq_true_eq]
    rfl
  rw [hplain]
  by_cases hgraphic : IsGraphic c
  · exact .inr (.inl ⟨hquote, hslash, hgraphic, if_pos hgraphic⟩)
  rw [if_neg hgraphic]
  by_cases hunit : c.toNat < 0x10000
  · exact .inr (.inr (.inl ⟨hunit, if_pos hunit⟩))
  · exact .inr (.inr (.inr ⟨Nat.le_of_not_lt hunit, if_neg hunit⟩))

/-- What is written for a character is read back as the character. -/
theorem readChar?_jsonChar (c : Char) (rest : List Char) :
    readChar? (jsonChar c ++ rest) = some (c, rest) := by
  have hvalid := toNat_valid c
  rcases jsonChar_cases c with ⟨name, hnamed, hu, -, h⟩ | ⟨hquote, hslash, -, h⟩ | ⟨hunit, h⟩ |
    ⟨hunit, h⟩ <;> rw [h]
  · show (if name = 'u' then some (readUnits rest) else (named? name).map (·, rest)) = _
    rw [if_neg hu, hnamed]
    rfl
  · show readChar? (c :: rest) = _
    simp only [readChar?, hquote, hslash, if_false]
  · show some (readUnits (hexDigits 4 c.toNat ++ rest)) = _
    rw [readUnits_unit (by omega) hunit, Char.ofNat_toNat]
  · show some (readUnits (hexDigits 4 _ ++ unitEscape _ ++ rest)) = _
    rw [List.append_assoc, readUnits_pair (by omega), Nat.add_sub_cancel' hunit,
      Char.ofNat_toNat]

/-! ## Strings -/

theorem flatMap_jsonChar_inj {cs ds xs ys : List Char}
    (h : cs.flatMap jsonChar ++ '"' :: xs = ds.flatMap jsonChar ++ '"' :: ys) :
    cs = ds ∧ xs = ys := by
  induction cs generalizing ds with
  | nil =>
    cases ds with
    | nil => exact ⟨rfl, (List.cons.inj h).2⟩
    | cons d ds =>
      have hread := congrArg readChar? h
      rw [List.flatMap_cons, List.append_assoc, readChar?_jsonChar] at hread
      cases hread
  | cons c cs ih =>
    have hread := congrArg readChar? h
    rw [List.flatMap_cons, List.append_assoc, readChar?_jsonChar] at hread
    cases ds with
    | nil => cases hread
    | cons d ds =>
      rw [List.flatMap_cons, List.append_assoc, readChar?_jsonChar] at hread
      obtain ⟨rfl, hrest⟩ := Prod.mk.inj (Option.some.inj hread)
      obtain ⟨rfl, hend⟩ := ih hrest
      exact ⟨rfl, hend⟩

/-- A JSON string tells its text and where it ends. -/
theorem jsonString_append_inj {s t : String} {xs ys : List Char}
    (h : (jsonString s).toList ++ xs = (jsonString t).toList ++ ys) : s = t ∧ xs = ys := by
  simp only [jsonString, String.toList_ofList, List.cons_append, List.append_assoc,
    List.nil_append] at h
  obtain ⟨hst, hend⟩ := flatMap_jsonChar_inj (List.cons.inj h).2
  exact ⟨String.toList_inj.mp hst, hend⟩

/-! ## Graphic texts -/

/-- All characters are graphic ones. -/
def Graphic (s : String) : Prop := ∀ c ∈ s.toList, IsGraphic c

instance : DecidablePred Graphic := fun s => List.decidableBAll _ s.toList

theorem isGraphic_of_isDigit {c : Char} (h : c.isDigit = true) : IsGraphic c := by
  rw [Char.isDigit, Bool.and_eq_true, decide_eq_true_eq, decide_eq_true_eq] at h
  have hlow : 0x30 ≤ c.toNat := h.1
  have hhigh : c.toNat ≤ 0x39 := h.2
  exact ⟨by omega, by omega⟩

theorem Graphic.append {s t : String} (hs : Graphic s) (ht : Graphic t) : Graphic (s ++ t) := by
  intro c hc
  rw [String.toList_append, List.mem_append] at hc
  rcases hc with hc | hc
  · exact hs c hc
  · exact ht c hc

/-- What stands in joined texts is part of the separator or of one of them. -/
theorem of_mem_intercalate {sep : String} {parts : List String} {c : Char}
    (h : c ∈ (sep.intercalate parts).toList) : c ∈ sep.toList ∨ ∃ s ∈ parts, c ∈ s.toList := by
  induction parts with
  | nil => exact absurd h List.not_mem_nil
  | cons s rest ih =>
    cases rest with
    | nil =>
      rw [String.intercalate_singleton] at h
      exact .inr ⟨s, List.mem_cons_self .., h⟩
    | cons t rest =>
      rw [String.intercalate_cons_cons, String.toList_append, String.toList_append,
        List.mem_append, List.mem_append] at h
      rcases h with (h | h) | h
      · exact .inr ⟨s, List.mem_cons_self .., h⟩
      · exact .inl h
      · rcases ih h with h | ⟨u, hu, h⟩
        · exact .inl h
        · exact .inr ⟨u, List.mem_cons_of_mem _ hu, h⟩

theorem Graphic.intercalate {sep : String} (hsep : Graphic sep) {parts : List String}
    (h : ∀ s ∈ parts, Graphic s) : Graphic (sep.intercalate parts) := by
  intro c hc
  rcases of_mem_intercalate hc with hc | ⟨s, hs, hc⟩
  · exact hsep c hc
  · exact h s hs c hc

theorem graphic_hexDigits (width n : Nat) : ∀ c ∈ hexDigits width n, IsGraphic c := by
  have hdigit : ∀ d < 16, IsGraphic (Nat.digitChar d) := by decide
  intro c hc
  obtain ⟨i, -, rfl⟩ := List.mem_map.mp hc
  exact hdigit _ (Nat.mod_lt _ (by decide))

theorem graphic_unitEscape (n : Nat) : ∀ c ∈ unitEscape n, IsGraphic c := by
  intro c hc
  rcases List.mem_cons.mp hc with rfl | hc
  · decide
  rcases List.mem_cons.mp hc with rfl | hc
  · decide
  · exact graphic_hexDigits 4 n c hc

theorem graphic_jsonChar (c : Char) : ∀ x ∈ jsonChar c, IsGraphic x := by
  rcases jsonChar_cases c with ⟨name, -, -, hname, h⟩ | ⟨-, -, hgraphic, h⟩ | ⟨-, h⟩ | ⟨-, h⟩ <;>
    rw [h]
  · exact List.forall_mem_cons.mpr ⟨by decide, by simpa using hname⟩
  · intro x hx
    rw [List.mem_singleton.mp hx]
    exact hgraphic
  · exact graphic_unitEscape _
  · exact List.forall_mem_append.mpr ⟨graphic_unitEscape _, graphic_unitEscape _⟩

theorem graphic_jsonString (s : String) : Graphic (jsonString s) := by
  intro c hc
  simp only [jsonString, String.toList_ofList, List.cons_append, List.mem_cons, List.mem_append,
    List.not_mem_nil, or_false] at hc
  rcases hc with rfl | hc | rfl
  · decide
  · obtain ⟨d, -, hd⟩ := List.mem_flatMap.mp hc
    exact graphic_jsonChar d c hd
  · decide

end Text
end FinalParams
