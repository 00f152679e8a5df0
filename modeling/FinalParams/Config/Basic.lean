import FinalParams.Config.Token

/-! One configuration of a dump: the tokens, scopes, functions and variables that remain under one
choice of preprocessor symbols.

Each kind of object has a pool, and objects refer to each other by their place in it.  The place is
what makes an object itself: two objects that look alike are still two.  A reference that leads out
of its pool leads to a blank object. -/

namespace FinalParams

structure Scope where
  /-- The kind of the scope, such as `Function`, `Lambda`, `If` or `Class`. -/
  kind : Datum := .null
  className : Datum := .null
  nestedIn : Option Nat := none
  function : Option Nat := none
  bodyStart : Option Nat := none
  bodyEnd : Option Nat := none
  vars : List Nat := []
  deriving Inhabited, Repr

/-- The arguments of a function: a plain list, or a table whose keys are the argument numbers. -/
inductive ArgumentTable where
  | listed (arguments : List (Option Nat))
  | numbered (arguments : List (Datum × Option Nat))
  deriving Inhabited, Repr

namespace ArgumentTable

/-- A key that is there already keeps its place and takes the later argument. -/
def enter (table : List (Datum × Option Nat)) (key : Datum) (argument : Option Nat) :
    List (Datum × Option Nat) :=
  match table with
  | [] => [(key, argument)]
  | (k, old) :: rest =>
    if k.agrees key then (k, argument) :: rest else (k, old) :: enter rest key argument

def ofEntries (entries : List (Datum × Option Nat)) : ArgumentTable :=
  .numbered (entries.foldl (fun table (key, argument) => enter table key argument) [])

end ArgumentTable

structure Function where
  name : Datum := .null
  kind : Datum := .null
  /-- The name where it is declared. -/
  declaredAt : Option Nat := none
  /-- The name where it is defined. -/
  definedAt : Option Nat := none
  arguments : Option ArgumentTable := none
  deriving Inhabited, Repr

structure Variable where
  isConst : Bool := false
  isArgument : Bool := false
  nameToken : Option Nat := none
  deriving Inhabited, Repr

structure Config where
  name : Datum := .text ""
  tokens : Array Token := #[]
  scopes : Array Scope := #[]
  functions : Array Function := #[]
  vars : Array Variable := #[]
  /-- The tokens in source order. -/
  tokenList : List Nat := []
  /-- The scopes and functions that the configuration lists as its own. -/
  scopeList : List Nat := []
  functionList : List Nat := []
  deriving Inhabited, Repr

namespace Config

def token (c : Config) (t : Nat) : Token := c.tokens.getD t {}

def scope (c : Config) (s : Nat) : Scope := c.scopes.getD s {}

def function (c : Config) (f : Nat) : Function := c.functions.getD f {}

def variableAt (c : Config) (v : Nat) : Variable := c.vars.getD v {}

/-- The token referred to, or a blank one where there is no reference. -/
def tokenIfAny (c : Config) (t : Option Nat) : Token :=
  match t with
  | some t => c.token t
  | none => {}

theorem token_of_size_le {c : Config} {t : Nat} (h : c.tokens.size ≤ t) : c.token t = {} := by
  simp [token, Array.getD, Nat.not_lt.mpr h]

theorem scope_of_size_le {c : Config} {s : Nat} (h : c.scopes.size ≤ s) : c.scope s = {} := by
  simp [scope, Array.getD, Nat.not_lt.mpr h]

end Config
end FinalParams
