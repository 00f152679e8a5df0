import FinalParams.Diagnostic.Basic
import FinalParams.Lowering.Parameters
import FinalParams.Scan

/-! What can go wrong around the check itself: a dump that cannot be loaded, and a checker that
stops before it is done. -/

namespace FinalParams

/-- The numbered causes of a failed load. -/
inductive ErrorCode where
  | internal
  | dumpNotFound
  | dumpUnreadable
  | parserMissing
  deriving DecidableEq, Inhabited, Repr

namespace ErrorCode

def all : List ErrorCode := [internal, dumpNotFound, dumpUnreadable, parserMissing]

def text : ErrorCode → String
  | internal => "EF-9000"
  | dumpNotFound => "EF-1000"
  | dumpUnreadable => "EF-1001"
  | parserMissing => "EF-1002"

def ofText? (s : String) : Option ErrorCode := all.find? (·.text == s)

/-- The code that a value names. -/
def ofDatum? : Datum → Option ErrorCode
  | .text s => ofText? s
  | _ => none

/-- What is said of a value that is no code. -/
def unknown (d : Datum) : String := d.quoted ++ " is not a valid ErrorCode"

end ErrorCode

/-- What the parser of dumps may raise. -/
inductive FaultKind where
  | os
  | fileNotFound
  | value
  | unicode
  | syntaxFault
  | key
  | runtime
  | type
  | internal
  deriving DecidableEq, Repr

/-- Whether a fault means that the dump cannot be read.  Any other fault is one of the parser. -/
def FaultKind.isUnreadable : FaultKind → Bool
  | os | fileNotFound | value | unicode | syntaxFault => true
  | key | runtime | type | internal => false

structure Fault where
  kind : FaultKind
  message : Datum
  deriving DecidableEq, Repr

/-- The text of an error with a code. -/
def coded (code : ErrorCode) (message : String) : String :=
  "[" ++ code.text ++ "] " ++ message

def Fault.text (f : Fault) : String :=
  match f.kind with
  | .key => f.message.quoted
  | .internal => coded .internal f.message.shown
  | _ => f.message.shown

/-- What is behind a failed load. -/
inductive Cause where
  | parserMissing
  | fault (kind : FaultKind)
  deriving DecidableEq, Repr

/-- A dump that gave no configurations. -/
structure LoadError where
  path : String
  reason : String
  code : ErrorCode := .dumpUnreadable
  cause : Option Cause := none
  deriving DecidableEq, Repr

namespace LoadError

def message (e : LoadError) : String := e.path ++ ": " ++ e.reason

def text (e : LoadError) : String := coded e.code e.message

end LoadError

/-- Everything that can stop a checker or escape from the host. -/
inductive Failure where
  | scan (e : ScanError)
  | lowering (e : LowerError)
  | number (e : IntegerError)
  | misfit (e : Misfit)
  /-- A value in the place of a severity is none. -/
  | notASeverity (d : Datum)
  /-- A path that the file system cannot look up. -/
  | nameTooLong (path : String)
  | crash (message : String)
  | load (e : LoadError)
  | parser (f : Fault)
  deriving DecidableEq, Repr

namespace Failure

def text : Failure → String
  | scan e => e.message
  | lowering e => e.message
  | number e => e.message
  | misfit e => e.message
  | notASeverity d => Severity.unknown d
  | nameTooLong path => "[Errno 36] File name too long: " ++ Text.quoted path
  | crash message => message
  | load e => e.text
  | parser f => f.text

/-- Whether the failure carries an error code, so that the command line reports it. -/
def isCoded : Failure → Bool
  | load _ => true
  | parser f => f.kind == .internal
  | _ => false

end Failure
end FinalParams
