import FinalParams.Datum.Equality
import FinalParams.Datum.Key
import FinalParams.Datum.Shown

/-! Places in source files.

A token may give any value as its file, and so may whoever reports a finding for its line and its
column.  Such a value is shown as it is. -/

namespace FinalParams

/-- A file with a line and a column.  Column zero means that only the line is known. -/
structure Loc where
  file : Datum := .text ""
  line : Datum := .int 0
  column : Datum := .int 0
  deriving DecidableEq, Inhabited, Repr

namespace Loc

def text (l : Loc) : String :=
  let place := l.file.shown ++ ":" ++ l.line.shown
  if l.column.truthy then place ++ ":" ++ l.column.shown else place

/-- The same place, in `file` if it names no file of its own. -/
def inFile (l : Loc) (file : Datum) : Loc :=
  if !l.file.truthy && file.truthy then { l with file := file } else l

/-- The place as it is reported: without a file of its own it is in the file `default`. -/
def reported (l : Loc) (default : Datum) : Loc :=
  if l.file.truthy then l else { l with file := default }

def lookUp (l : Loc) : Except Misfit Unit := do
  discard l.file.key?
  discard l.line.key?
  discard l.column.key?

/-- Whether two places are the same.  A place that cannot be looked up is the same as none. -/
def agrees (a b : Loc) : Bool :=
  a.file.agrees b.file && a.line.agrees b.line && a.column.agrees b.column

@[simp] theorem inFile_empty (l : Loc) : l.inFile (.text "") = l := by
  simp [inFile, Datum.truthy]

theorem inFile_of_empty {l : Loc} (h : l.file = .text "") (s : String) :
    l.inFile (.text s) = { l with file := .text s } := by
  by_cases hs : s = ""
  · rw [hs, inFile_empty, ← h]
  · simp [inFile, h, Datum.truthy, hs]

theorem inFile_of_truthy {l : Loc} (h : l.file.truthy = true) (file : Datum) :
    l.inFile file = l := by
  simp [inFile, h]

/-- Where the file is a path and line and column are numbers, only equal places agree. -/
theorem agrees_iff {f g : String} {m n j k : Int} :
    (Loc.mk (.text f) (.int m) (.int j)).agrees ⟨.text g, .int n, .int k⟩ = true
      ↔ f = g ∧ m = n ∧ j = k := by
  simp [agrees, and_assoc]

end Loc
end FinalParams
