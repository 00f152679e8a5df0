/-! Log lines. -/

namespace FinalParams

namespace Log

inductive Level where
  | debug
  | info
  | warning
  | error
  | critical
  deriving DecidableEq, Repr

def Level.text : Level → String
  | debug => "DEBUG"
  | info => "INFO"
  | warning => "WARNING"
  | error => "ERROR"
  | critical => "CRITICAL"

def Level.rank : Level → Nat
  | debug => 10
  | info => 20
  | warning => 30
  | error => 40
  | critical => 50

inductive Origin where
  | lowering
  | scan
  | host
  deriving DecidableEq, Repr

def Origin.text : Origin → String
  | lowering => "effectively_final.cppcheck_frontend"
  | scan => "effectively_final.scanner"
  | host => "effectively_final.checkers"

structure Line where
  level : Level
  origin : Origin
  message : String
  deriving DecidableEq, Repr

def Line.text (l : Line) : String :=
  l.level.text ++ " " ++ l.origin.text ++ ": " ++ l.message ++ "\n"

/-- The lines of at least a level, as they are written. -/
def shown (least : Level) (lines : List Line) : String :=
  String.join ((lines.filter fun l => least.rank ≤ l.level.rank).map Line.text)

/-- How much is shown when the user asks for more so many times. -/
def levelFor (verbosity : Nat) : Level :=
  match verbosity with
  | 0 => .warning
  | 1 => .info
  | _ => .debug

end Log
end FinalParams
