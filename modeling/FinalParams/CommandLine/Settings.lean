import FinalParams.CommandLine.Word

/-
What a command line asks for.

An option with any number of arguments takes all words up to the next option or double hyphen, and
an option that is given again replaces what it said before.  An argument behind an equals sign that
is itself a double hyphen is dropped.  The first run of words that no option takes names the dump
files; the first double hyphen in it is dropped.  Whatever remains is an error, but only when
everything else was read, so that the request for help comes before it.
-/

namespace FinalParams
namespace CommandLine

structure Settings where
  dumpFiles : List String := []
  cli : Bool := false
  /-- The output format, or nothing where the argument that names it was dropped. -/
  output : Option String := some "gcc"
  checkers : Option (List String) := none
  plainOnly : Bool := false
  suppress : Option (List String) := none
  listCheckers : Bool := false
  verbose : Nat := 0
  deriving DecidableEq, Repr

inductive Stop where
  | help
  | usage (e : UsageError)
  deriving DecidableEq, Repr

/-- The effect of an option with its arguments. -/
def Settings.apply (s : Settings) (o : Opt) (arguments : List String) : Except Stop Settings :=
  match o with
  | .help => .error .help
  | .cli => .ok { s with cli := true }
  | .output =>
    match arguments with
    | a :: _ =>
      if outputNames.contains a then .ok { s with output := some a }
      else .error (.usage (.invalidOutput a))
    | [] => .ok { s with output := none }
  | .checkers => .ok { s with checkers := some arguments }
  | .plainOnly => .ok { s with plainOnly := true }
  | .suppress => .ok { s with suppress := some arguments }
  | .listCheckers => .ok { s with listCheckers := true }
  | .verbose => .ok { s with verbose := s.verbose + 1 }

/-- How many of the words behind an option belong to it. -/
inductive Arity where
  | none
  | one
  | many
  deriving DecidableEq, Repr

def Opt.arity : Opt → Arity
  | output => .one
  | checkers | suppress => .many
  | help | cli | plainOnly | listCheckers | verbose => .none

/-- The options of a word such as `-vv`: the first one is `o`, and the rest are named by the letters
behind it. -/
def cluster (o : Opt) : List Char → Except UsageError (List Opt)
  | [] => .ok [o]
  | c :: rest =>
    match spelled? (String.ofList ['-', c]) with
    | some next => (cluster next rest).map (o :: ·)
    | none => .error (.ignoredArgument o (String.ofList (c :: rest)))

/-- The options of a word with the arguments that they have in it. -/
def Word.options : Word → Except UsageError (List (Opt × List String))
  | .long o (some a) =>
    if o.arity = .none then .error (.ignoredArgument o a)
    else .ok [(o, if a = "--" then [] else [a])]
  | .short o (some a) =>
    if a = "" then .error (.ignoredArgument o a)
    else (cluster o a.toList).map fun os => os.map (·, [])
  | .long o none | .short o none => .ok [(o, [])]
  | _ => .ok []

/-- The words at the front that an option without an argument of its own takes. -/
def followers (o : Opt) (rest : List Word) : Except UsageError (List Word) :=
  let words := rest.takeWhile fun w => match w with
    | .plain _ => true
    | _ => false
  match o.arity with
  | .none => .ok []
  | .many => .ok words
  | .one =>
    match words with
    | w :: _ => .ok [w]
    | [] => .error (.missingArgument o)

structure Progress where
  settings : Settings := {}
  filesNamed : Bool := false
  unrecognized : List String := []

/-- A run of words that no option takes. -/
def Progress.takeRun (p : Progress) (run : List Word) : Progress :=
  if run.isEmpty then p
  else if p.filesNamed then { p with unrecognized := p.unrecognized ++ run.map Word.text }
  else
    { p with
      filesNamed := true
      settings := { p.settings with dumpFiles := (run.erase .separator).map Word.text } }

/-- Reads one option, given the words behind it, and says how many of them it takes. -/
def Progress.takeOption (p : Progress) (w : Word) (rest : List Word) :
    Except Stop (Progress × Nat) :=
  match w with
  | .unknown text => .ok ({ p with unrecognized := p.unrecognized ++ [text] }, 0)
  | .long o none | .short o none =>
    match followers o rest with
    | .error e => .error (.usage e)
    | .ok words => do
      let settings ← p.settings.apply o (words.map Word.text)
      return ({ p with settings }, words.length)
  | w =>
    match w.options with
    | .error e => .error (.usage e)
    | .ok options => do
      let settings ← options.foldlM (fun s (o, arguments) => s.apply o arguments) p.settings
      return ({ p with settings }, 0)

def Progress.read (p : Progress) (words : List Word) : Except Stop Progress :=
  let p := p.takeRun (words.takeWhile fun w => !w.isOption)
  match _h : words.dropWhile fun w => !w.isOption with
  | [] => .ok p
  | w :: rest =>
    match p.takeOption w rest with
    | .error e => .error e
    | .ok (p, taken) => p.read (rest.drop taken)
termination_by words.length
decreasing_by
  have h₁ : (words.dropWhile fun w => !w.isOption).length ≤ words.length :=
    (List.dropWhile_suffix _).length_le
  rw [_h] at h₁
  simp only [List.length_cons] at h₁
  simp only [List.length_drop]
  omega

def parse (arguments : List String) : Except Stop Settings :=
  match readWords arguments with
  | .error e => .error (.usage e)
  | .ok words =>
    match ({} : Progress).read words with
    | .error stop => .error stop
    | .ok p =>
      if p.unrecognized = [] then .ok p.settings
      else .error (.usage (.unrecognized p.unrecognized))

end CommandLine
end FinalParams
