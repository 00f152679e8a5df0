import FinalParams.Diagnostic.Basic
import FinalParams.Text.Glob

/-! Which findings the user asked not to see.

Rules come from comments in the source, which cppcheck records in the dump, from the configuration
and from the command line.  The order and the origin of the rules make no difference, except where
a finding lies in a file that is no text or a rule is for such a file: unless the two are equal,
they cannot be compared.  Rules that are the same, however they are written, count as one. -/

namespace FinalParams

/-- A rule without a file covers every file, and one with line zero every line. -/
structure Suppression where
  errorId : Datum
  file : Datum := .text ""
  line : Datum := .int 0
  deriving DecidableEq, Repr

/-- What a dump says about a suppression comment. -/
structure SuppressionRecord where
  errorId : Datum := .null
  fileName : Datum := .null
  lineNumber : Datum := .null
  deriving Inhabited, Repr

/-- The id that stands for all. -/
def wildcard : String := "*"

/-- A file is named by its path, by the end of its path or by a pattern. -/
def fileMatches (path pattern : String) : Bool :=
  path == pattern || pattern.toList.isSuffixOf path.toList || globMatches pattern path

/-- Whether a file is named by a value.  Values that are not both texts have to be equal. -/
def fileMatches? (file pattern : Datum) : Except Misfit Bool :=
  match file, pattern with
  | .text path, .text pattern => .ok (fileMatches path pattern)
  | .text _, other => .error (.ending other.typeName)
  | file, other =>
    if file.equals other then .ok true else .error (.lacking file.typeName "endswith")

namespace Suppression

/-- Whether two rules are for the same id, the same file and the same line. -/
def same (a b : Suppression) : Bool :=
  a.errorId.same b.errorId && a.file.same b.file && a.line.same b.line

/-- Whether the rule is about findings of this id. -/
def concerns (rule : Suppression) (errorId : Datum) : Bool :=
  rule.errorId.same errorId || rule.errorId.isText wildcard

def coversFile? (rule : Suppression) (file : Datum) : Except Misfit Bool :=
  if rule.file.truthy then fileMatches? file rule.file else .ok true

def coversFile (rule : Suppression) (file : Datum) : Bool :=
  match rule.coversFile? file with
  | .ok covered => covered
  | .error _ => false

def coversLine (rule : Suppression) (line : Datum) : Bool :=
  !rule.line.truthy || line.equals rule.line

def covers (rule : Suppression) (d : Diagnostic) : Bool :=
  rule.concerns d.errorId && rule.coversFile d.loc.file && rule.coversLine d.loc.line

/-- Why a rule cannot be tried on a finding that it concerns. -/
def misfit? (rule : Suppression) (d : Diagnostic) : Option Misfit :=
  if rule.concerns d.errorId then
    match rule.coversFile? d.loc.file with
    | .ok _ => none
    | .error e => some e
  else none

/-- The rule that a record stands for.  A record without an id stands for none. -/
def ofRecord? (r : SuppressionRecord) : Option (Except IntegerError Suppression) :=
  if r.errorId.truthy then
    let file := if r.fileName.truthy then r.fileName else .text ""
    some (r.lineNumber.toIntIfAny.map fun line => ⟨r.errorId, file, .int line⟩)
  else none

theorem coversFile_text {rule : Suppression} {pattern : String} (hr : rule.file = .text pattern)
    (path : String) :
    rule.coversFile (.text path) = (pattern == "" || fileMatches path pattern) := by
  by_cases hp : pattern = "" <;>
    simp [coversFile, coversFile?, hr, fileMatches?, Datum.truthy, hp]

theorem misfit?_of_text {rule : Suppression} {d : Diagnostic} {path pattern : String}
    (hd : d.loc.file = .text path) (hr : rule.file = .text pattern) : rule.misfit? d = none := by
  have h : rule.coversFile? d.loc.file = .ok (rule.coversFile d.loc.file) := by
    unfold coversFile coversFile?
    rw [hd, hr]
    by_cases ht : (Datum.text pattern).truthy = true <;> simp [ht, fileMatches?]
  simp [misfit?, h]

end Suppression

/-- Rules of which no two are the same, in the order in which they came. -/
abbrev Suppressions := List Suppression

namespace Suppressions

def add (rules : Suppressions) (rule : Suppression) : Suppressions :=
  if rules.any (·.same rule) then rules else rules ++ [rule]

/-- The rules after those of a dump were added.  The first record whose line is no number stops the
import, and what came before it stays. -/
def load (rules : Suppressions) : List SuppressionRecord → Suppressions × Option IntegerError
  | [] => (rules, none)
  | r :: rest =>
    match Suppression.ofRecord? r with
    | none => load rules rest
    | some (.ok rule) => load (add rules rule) rest
    | some (.error e) => (rules, some e)

def suppresses (rules : Suppressions) (d : Diagnostic) : Bool := rules.any (·.covers d)

/-- The findings that no rule covers. -/
def keep (rules : Suppressions) (ds : List Diagnostic) : List Diagnostic :=
  ds.filter fun d => !suppresses rules d

/-- Why the rules cannot be tried on a finding, one after the other until one covers it. -/
def misfit? (rules : Suppressions) (d : Diagnostic) : Option Misfit :=
  match rules with
  | [] => none
  | rule :: rest => if rule.covers d then none else rule.misfit? d <|> misfit? rest d

/-- The findings that no rule covers, if the rules can be tried on all of them. -/
def sift (rules : Suppressions) (ds : List Diagnostic) : Except Misfit (List Diagnostic) :=
  match ds.findSome? (misfit? rules) with
  | some e => .error e
  | none => .ok (keep rules ds)

theorem misfit?_of_texts {rules : Suppressions} {d : Diagnostic} {path : String}
    (hd : d.loc.file = .text path) (hr : ∀ rule ∈ rules, ∃ pattern, rule.file = .text pattern) :
    misfit? rules d = none := by
  induction rules with
  | nil => rfl
  | cons rule rest ih =>
    obtain ⟨pattern, hp⟩ := hr rule (List.mem_cons_self ..)
    simp [misfit?, Suppression.misfit?_of_text hd hp,
      ih fun r h => hr r (List.mem_cons_of_mem rule h)]

/-- Where all files are named by their paths nothing can go wrong. -/
theorem sift_of_texts {rules : Suppressions} {ds : List Diagnostic}
    (hd : ∀ d ∈ ds, ∃ path, d.loc.file = .text path)
    (hr : ∀ rule ∈ rules, ∃ pattern, rule.file = .text pattern) :
    sift rules ds = .ok (keep rules ds) := by
  have hn : ds.findSome? (misfit? rules) = none := by
    rw [List.findSome?_eq_none_iff]
    intro d h
    obtain ⟨path, hp⟩ := hd d h
    exact misfit?_of_texts hp hr
  simp [sift, hn]

theorem mem_of_mem_add {rules : Suppressions} {rule other : Suppression}
    (h : other ∈ add rules rule) : other ∈ rules ∨ other = rule := by
  unfold add at h
  split at h
  · exact .inl h
  · simpa using h

/-- Adding a rule keeps the rules apart. -/
theorem pairwise_add {rules : Suppressions} (h : rules.Pairwise fun a b => a.same b = false)
    (rule : Suppression) : (add rules rule).Pairwise fun a b => a.same b = false := by
  unfold add
  split
  · exact h
  · rename_i hr
    refine List.pairwise_append.mpr ⟨h, by simp, ?_⟩
    intro a ha b hb
    rw [List.mem_singleton.mp hb]
    simpa using List.any_eq_false.mp (Bool.eq_false_iff.mpr hr) a ha

theorem mem_keep {rules : Suppressions} {ds : List Diagnostic} {d : Diagnostic} :
    d ∈ keep rules ds ↔ d ∈ ds ∧ suppresses rules d = false := by
  simp [keep]

end Suppressions
end FinalParams
