import FinalParams.Text.Digit
import FinalParams.Text.Quoted

/-
The words of a command line.

A word that begins with a hyphen is an option, unless it is nothing but the hyphen, reads as a
negative number or has a space in it.  A long option may be shortened to any beginning that no
other one has, and may carry its argument behind an equals sign.  A short option may carry text
right behind its letter.  From a double hyphen on, every word is taken as it is.
-/

namespace FinalParams
namespace CommandLine

inductive Opt where
  | help
  | cli
  | output
  | checkers
  | plainOnly
  | suppress
  | listCheckers
  | verbose
  deriving DecidableEq, Repr

/-- The spellings of the options, in the order in which they are listed. -/
def spellings : List (String × Opt) :=
  [("-h", .help), ("--help", .help), ("--cli", .cli), ("--output", .output),
    ("--checkers", .checkers), ("--plain-only", .plainOnly), ("--suppress", .suppress),
    ("--list-checkers", .listCheckers), ("-v", .verbose), ("--verbose", .verbose)]

def spelled? (s : String) : Option Opt :=
  (spellings.find? (·.1 == s)).map (·.2)

def beginningWith (cs : List Char) : List (String × Opt) :=
  spellings.filter fun p => cs.isPrefixOf p.1.toList

namespace Opt

/-- All spellings of an option, as error messages name it. -/
def name (o : Opt) : String :=
  "/".intercalate ((spellings.filter fun p => p.2 == o).map (·.1))

end Opt

inductive UsageError where
  | ambiguous (word : String) (candidates : List String)
  | ignoredArgument (o : Opt) (argument : String)
  | missingArgument (o : Opt)
  | invalidOutput (argument : String)
  | unrecognized (words : List String)
  | noDumpFiles
  deriving DecidableEq, Repr

def outputNames : List String := ["json", "gcc", "summary"]

namespace UsageError

def message : UsageError → String
  | ambiguous word candidates =>
    "ambiguous option: " ++ word ++ " could match " ++ ", ".intercalate candidates
  | ignoredArgument o argument =>
    "argument " ++ o.name ++ ": ignored explicit argument " ++ Text.quoted argument
  | missingArgument o => "argument " ++ o.name ++ ": expected one argument"
  | invalidOutput argument =>
    "argument --output: invalid choice: " ++ Text.quoted argument ++ " (choose from "
      ++ ", ".intercalate (outputNames.map Text.quoted) ++ ")"
  | unrecognized words => "unrecognized arguments: " ++ " ".intercalate words
  | noDumpFiles => "no dump files given"

end UsageError

inductive Word where
  /-- A word that is no option. -/
  | plain (text : String)
  /-- The double hyphen. -/
  | separator
  /-- An option with the argument it carries. -/
  | long (o : Opt) (argument : Option String)
  /-- A short option with the text right behind its letter. -/
  | short (o : Opt) (behind : Option String)
  /-- An option that does not exist. -/
  | unknown (text : String)
  deriving DecidableEq, Repr

namespace Word

def isOption : Word → Bool
  | plain _ | separator => false
  | long _ _ | short _ _ | unknown _ => true

/-- The word as it was written.  Only words that are no options of this program are shown. -/
def text : Word → String
  | plain t | unknown t => t
  | separator => "--"
  | long _ _ | short _ _ => ""

end Word

/-! ## Reading a word -/

def isDigit (c : Char) : Bool := (Text.digitValue? c).isSome

/-- A hyphen and a number with or without a fraction.  One line end may follow. -/
def isNegativeNumber (cs : List Char) : Bool :=
  let cs := if cs.getLast? = some '\n' then cs.dropLast else cs
  match cs with
  | '-' :: number =>
    match number.dropWhile isDigit with
    | [] => !number.isEmpty
    | '.' :: fraction => !fraction.isEmpty && fraction.all isDigit
    | _ => false
  | _ => false

/-- The text before the first equals sign and, if there is one, the text behind it. -/
def splitEquals (cs : List Char) : List Char × Option (List Char) :=
  match cs.dropWhile (· != '=') with
  | [] => (cs, none)
  | _ :: behind => (cs.takeWhile (· != '='), some behind)

def ofSpelling (spelling : String) (o : Opt) (argument : Option String) : Word :=
  if spelling.toList[1]? = some '-' then .long o argument else .short o argument

/-- A word that begins with a hyphen and is no full spelling. -/
def readHyphenated (word : String) : Except UsageError Word :=
  let cs := word.toList
  let (start, argument) := splitEquals cs
  let argument := argument.map String.ofList
  match argument, spelled? (String.ofList start) with
  | some _, some o => .ok (ofSpelling (String.ofList start) o argument)
  | _, _ =>
    let candidates : List Word × List String :=
      if cs[1]? = some '-' then
        let found := beginningWith start
        (found.map fun p => .long p.2 argument, found.map (·.1))
      else
        match spelled? (String.ofList (cs.take 2)) with
        | some o => ([.short o (some (String.ofList (cs.drop 2)))], [])
        | none => ([], [])
    match candidates with
    | ([w], _) => .ok w
    | ([], _) =>
      if isNegativeNumber cs || cs.contains ' ' then .ok (.plain word) else .ok (.unknown word)
    | (_, names) => .error (.ambiguous word names)

def readWord (word : String) : Except UsageError Word :=
  match word.toList with
  | '-' :: rest =>
    match spelled? word with
    | some o => .ok (ofSpelling word o none)
    | none => if rest.isEmpty then .ok (.plain word) else readHyphenated word
  | _ => .ok (.plain word)

def readWords : List String → Except UsageError (List Word)
  | [] => .ok []
  | w :: rest =>
    if w = "--" then .ok (.separator :: rest.map .plain)
    else do
      let word ← readWord w
      let others ← readWords rest
      return word :: others

end CommandLine
end FinalParams
