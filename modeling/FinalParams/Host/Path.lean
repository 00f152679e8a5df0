/-! Paths, as a file system looks them up.

A path is cut at its slashes, and empty parts and single dots lead nowhere.  Every other name is
looked up in the directory to which the names before it lead.  The file system refuses a path of
more than 4095 bytes, and any path on which it meets a name of more than 255 bytes.  Behind a name
that is no directory it meets nothing. -/

namespace FinalParams

structure Path where
  /-- The slashes at the front: none for a path that begins in the working directory. -/
  root : String
  names : List String
  deriving DecidableEq, Repr

namespace Path

/-- Two slashes at the front are not the same as one, but three are. -/
def ofText (s : String) : Path :=
  let slashes := (s.toList.takeWhile (· == '/')).length
  { root := if slashes == 0 then "" else if slashes == 2 then "//" else "/"
    names := (s.splitOn "/").filter fun name => name != "" && name != "." }

/-- The path with single slashes and without dots. -/
def text (p : Path) : String :=
  if p.root = "" ∧ p.names = [] then "." else p.root ++ "/".intercalate p.names

def longestPath : Nat := 4095

def longestName : Nat := 255

/-- The directory around a directory.  Around the working directory there are others, but the root
is around itself. -/
def parent (p : Path) : Path :=
  if p.names = [] ∨ p.names.getLast? = some ".." then
    if p.root = "" then { p with names := p.names ++ [".."] } else p
  else { p with names := p.names.dropLast }

/-- Whether a name that is too long is met among `names`, when they are looked up from the directory
to which the path `reached` leads. -/
def meetsLongName (isDirectory : Path → Bool) (reached : Path) : List String → Bool
  | [] => false
  | name :: rest =>
    if longestName < name.utf8ByteSize then true
    else if name = ".." then meetsLongName isDirectory reached.parent rest
    else
      let next := { reached with names := reached.names ++ [name] }
      isDirectory next && meetsLongName isDirectory next rest

/-- Whether the file system refuses to look a path up. -/
def isTooLong (isDirectory : Path → Bool) (p : Path) : Bool :=
  longestPath < p.text.utf8ByteSize || meetsLongName isDirectory { p with names := [] } p.names

/-- The directories on the way to a path. -/
def parents (p : Path) : List Path :=
  (List.range p.names.length).map fun n => { p with names := p.names.take n }

example : (ofText "").text = "." := by cbv

end Path
end FinalParams
