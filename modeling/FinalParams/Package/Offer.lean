import FinalParams.Package.Part
import FinalParams.Text.Quoted

/-! What the package offers, and how names are taken from one of its parts.

A part is asked for by its path, in which dots separate a part from what would be inside it.  No
part has anything inside, so every longer path fails, and the failure names the first step that
leads nowhere.  The package can be named as one of its own parts, but there it has no parts, and
what fails is its own start.

Names can be taken from a part if the part has all of them.  Every part has those that it hands on,
so the package can offer all that it lists. -/

namespace FinalParams
namespace Package

def name : String := "effectively_final"

def version : String := "0.1.0"

def license : String := "MIT"

/-- The names that the package offers, part by part, and its version. -/
def offered : List String := parts.flatMap Part.handedOn ++ ["__version__"]

inductive OfferError where
  /-- The path leads to no part. -/
  | noSuchPart (path first : String)
  /-- The path leads into a part. -/
  | nothingInside (path part inside : String)
  /-- The path begins with the package itself. -/
  | itself (path : String)
  /-- The part does not have the name. -/
  | noSuchName (part name : String)
  deriving DecidableEq, Repr

def failedImport (path reason : String) : String :=
  name ++ ": required submodule '" ++ path ++ "' failed to import: " ++ reason

def ownName : String := "__init__"

/-- What is said where something is looked for inside of a part. -/
def nothingInsideReason (part inside : String) : String :=
  let parent := name ++ "." ++ part
  "No module named " ++ Text.quoted (parent ++ "." ++ inside) ++ "; " ++ Text.quoted parent
    ++ " is not a package"

def OfferError.message : OfferError → String
  | noSuchPart path first =>
    failedImport path ("No module named " ++ Text.quoted (Package.name ++ "." ++ first))
  | nothingInside path part inside => failedImport path (nothingInsideReason part inside)
  | itself path =>
    failedImport path (failedImport nodes.name (nothingInsideReason ownName nodes.name))
  | noSuchName part missing =>
    Package.name ++ "." ++ part ++ " does not export '" ++ missing ++ "'"

/-- The steps of a path. -/
def steps (path : String) : List String := (path.toList.splitOn '.').map String.ofList

theorem eq_of_steps_eq_singleton {path first : String} (h : steps path = [first]) :
    path = first := by
  obtain ⟨cs, hsplit, hfirst⟩ := List.map_eq_singleton_iff.mp h
  have hjoin : ['.'].intercalate (path.toList.splitOn '.') = path.toList :=
    List.intercalate_splitOn '.'
  rw [hsplit, List.intercalate_singleton] at hjoin
  rw [← hfirst, hjoin, String.ofList_toList]

def findPart (path : String) : Except OfferError Part :=
  match steps path with
  | [] => .error (.noSuchPart path path)
  | first :: rest =>
    if first = ownName then .error (.itself path)
    else match parts.find? (·.name == first), rest with
    | none, _ => .error (.noSuchPart path first)
    | some p, [] => .ok p
    | some p, inside :: _ => .error (.nothingInside path p.name inside)

theorem findPart_ok_iff {path : String} {p : Part} :
    findPart path = .ok p ↔ p ∈ parts ∧ p.name = path := by
  constructor
  · intro h
    unfold findPart at h
    split at h
    · contradiction
    · rename_i first rest hsteps
      split at h
      · contradiction
      split at h
      · contradiction
      · rename_i hfind
        rw [← Except.ok.inj h, eq_of_steps_eq_singleton hsteps]
        exact ⟨List.mem_of_find?_eq_some hfind, by simpa using List.find?_some hfind⟩
      · contradiction
  · rintro ⟨hp, rfl⟩
    simp only [parts, List.mem_cons, List.not_mem_nil, or_false] at hp
    rcases hp with rfl | rfl | rfl | rfl | rfl | rfl | rfl | rfl | rfl <;> rfl

/-- Takes names from the part at a path.  The first name that is missing ends it. -/
def take (path : String) (names : List String) : Except OfferError Unit := do
  let part ← findPart path
  match part.missing? names with
  | some missing => .error (.noSuchName part.name missing)
  | none => .ok ()

/-- Names can be taken from a part that has all of them. -/
theorem take_ok_iff {path : String} {names : List String} :
    take path names = .ok () ↔ ∃ p ∈ parts, p.name = path ∧ ∀ n ∈ names, p.offers n = true := by
  constructor
  · intro h
    cases hpart : findPart path with
    | error e => simp [take, hpart, bind, Except.bind] at h
    | ok p =>
      obtain ⟨hp, hname⟩ := findPart_ok_iff.mp hpart
      refine ⟨p, hp, hname, Part.missing?_eq_none_iff.mp ?_⟩
      cases hmissing : p.missing? names with
      | none => rfl
      | some missing => simp [take, hpart, hmissing, bind, Except.bind] at h
  · rintro ⟨p, hp, hname, hall⟩
    have hpart := findPart_ok_iff.mpr ⟨hp, hname⟩
    have hnone := Part.missing?_eq_none_iff.mpr hall
    simp [take, hpart, hnone, bind, Except.bind]

/-- A part has the names that it hands on, so that nothing of what the package offers is missing. -/
theorem take_handedOn {p : Part} (h : p ∈ parts) : take p.name p.handedOn = .ok () :=
  take_ok_iff.mpr ⟨p, h, rfl, fun _ hn => p.offers_of_mem_handedOn hn⟩

end Package
end FinalParams
