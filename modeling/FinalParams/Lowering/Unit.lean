import FinalParams.Lowering.Expression
import FinalParams.Text.Lowercase

/-
From the scopes and tokens of a configuration to the tree of its functions and lambdas.

The body of a function or lambda is read token by token.  Where the body of another one begins that
lies directly inside, it becomes a statement of its own and reading goes on behind it.  Of the other
tokens, the tops of expressions that belong to the function become statements, so that the blocks of
control flow leave no trace in the tree.

Both the nesting of bodies and the chain of tokens are followed for as many steps as there are
scopes and tokens.  Whatever takes more goes in a circle.
-/

namespace FinalParams
namespace Config

def unitName (c : Config) (s : Nat) : Datum :=
  let scope := c.scope s
  let own := (scope.function.map fun f => (c.function f).name).getD .null
  if own.truthy then own
  else if scope.isLambda then .text "<lambda>"
  else if scope.className.truthy then scope.className
  else .text "<anonymous>"

def functionKind (f : Function) : Except Misfit String :=
  match f.kind with
  | .text kind => .ok (if kind = "" then "function" else Text.lowercase kind)
  | kind => if kind.truthy then .error (.lacking kind.typeName "lower") else .ok "function"

def unitKind (c : Config) (s : Nat) : Except Misfit String :=
  let scope := c.scope s
  if scope.isLambda then .ok "lambda"
  else functionKind ((scope.function.map c.function).getD {})

structure Heading where
  name : Datum
  params : Option (List Parameter)
  kind : String
  loc : Loc
  deriving Repr

def Heading.node (h : Heading) (body : Option Node) : Node :=
  .callable h.name (h.params.map (·.map some)) body (.text h.kind) h.loc

/-- A heading from its name and parts that may fail, of which the first failure counts. -/
def heading (name : Datum) (params : Except IntegerError (Option (List Parameter)))
    (kind : Except Misfit String) (token : Token) : Except LowerError Heading := do
  let params ← params.mapError .number
  let kind ← kind.mapError .misfit
  let loc ← token.loc?.mapError .number
  return ⟨name, params, kind, loc⟩

/-- The heading of a scope, located where its body begins. -/
def unitHeading (c : Config) (s : Nat) : Except LowerError Heading :=
  heading (c.unitName s) (c.scopeParameters s) (c.unitKind s)
    (c.tokenIfAny (c.scope s).bodyStart)

/-- The scope of `index` whose body begins at `t`.  Of several, the last one counts. -/
def bodyAt (c : Config) (index : List Nat) (t : Nat) : Option Nat :=
  index.reverse.find? fun s => (c.scope s).bodyStart == some t

/-- The scope whose body begins at `t` directly inside the function or lambda `s`. -/
def nestedAt (c : Config) (index : List Nat) (s : Nat) (t : Nat) : Except Misfit (Option Nat) :=
  match c.bodyAt index t with
  | some u =>
    if u = s then .ok none
    else (c.belongsTo (c.scope u).nestedIn s).map fun inside => if inside then some u else none
  | none => .ok none

/-- Whether `t` is the top of an expression that belongs to the function or lambda `s`. -/
def isStatement (c : Config) (s t : Nat) : Except Misfit Bool :=
  if (c.token t).isRoot then c.belongsTo (c.token t).scope s else .ok false

/-- The token at which reading goes on behind a nested body that begins at `t`.  A body without an
end is passed over as a single token. -/
def behindBody (c : Config) (u t : Nat) : Option Nat :=
  match (c.scope u).bodyEnd with
  | some e => (c.token e).next
  | none => (c.token t).next

/-- The statements of `s` from the token `t` on, at most `steps` tokens far.  `descend` makes the
node of a nested function or lambda. -/
def statements (c : Config) (index : List Nat) (descend : Nat → Except LowerError Node) (s : Nat) :
    Nat → Option Nat → Except LowerError (List Node)
  | _, none => .ok []
  | 0, some _ => .error .endless
  | steps + 1, some t =>
    if (c.scope s).bodyEnd = some t then .ok []
    else do
      match ← (c.nestedAt index s t).mapError .misfit with
      | some u =>
        let unit ← descend u
        let rest ← c.statements index descend s steps (c.behindBody u t)
        return unit :: rest
      | none =>
        if ← (c.isStatement s t).mapError .misfit then
          let statement ← c.expression (some s) (some t)
          let rest ← c.statements index descend s steps (c.token t).next
          return statement :: rest
        else c.statements index descend s steps (c.token t).next

/-- The node of the function or lambda `s`, with at most `depth` bodies inside one another. -/
def unitWithin (c : Config) (index : List Nat) : Nat → Nat → Except LowerError Node
  | 0, _ => .error .bottomless
  | depth + 1, s =>
    match c.unitHeading s with
    | .error e => .error e
    | .ok head =>
      match (c.scope s).bodyStart with
      | none => .ok (head.node none)
      | some start => do
        let body ← c.statements index (c.unitWithin index depth) s (c.tokens.size + 1)
          (c.token start).next
        return head.node (some (.block body head.loc))

/-- The node of the function or lambda `s`.  The scopes of `index` are the ones whose bodies are
recognised inside. -/
def unit (c : Config) (index : List Nat) (s : Nat) : Except LowerError Node :=
  c.unitWithin index (c.scopes.size + 1) s

/-! ## The compilation unit -/

/-- The functions and lambdas among the listed scopes. -/
def callableScopes (c : Config) : List Nat :=
  c.scopeList.filter fun s => (c.scope s).isCallable

/-- Why it cannot be told which of the listed scopes are functions and lambdas. -/
def scopeMisfit? (c : Config) : Option Misfit :=
  c.scopeList.findSome? fun s =>
    match (c.scope s).isCallable? with
    | .error e => some e
    | .ok _ => none

/-- The scope whose body begins at `t` outside of every function and lambda. -/
def outermostAt (c : Config) (t : Nat) : Except Misfit (Option Nat) :=
  match c.bodyAt c.callableScopes t with
  | some s =>
    (c.callableAround (c.scope s).nestedIn).map fun around => if around.isSome then none else some s
  | none => .ok none

/-- The function or lambda whose body begins at `t`, if it is an outermost one. -/
def outermostUnit (c : Config) (t : Nat) : Except LowerError (Option Node) := do
  match ← (c.outermostAt t).mapError .misfit with
  | some s => return some (← c.unit c.callableScopes s)
  | none => return none

/-- The functions that are declared but not defined here. -/
def declaredFunctions (c : Config) : List Nat :=
  let defined := c.callableScopes.filterMap fun s => (c.scope s).function
  c.functionList.filter fun f => !defined.contains f

/-- The node of a function without a body. -/
def declaration (c : Config) (f : Nat) : Except LowerError Node :=
  let function := c.function f
  let token := c.tokenIfAny (function.declaredAt <|> function.definedAt)
  let name :=
    if function.name.truthy then function.name
    else if token.spelling.truthy then token.spelling
    else .text "<anonymous>"
  (heading name (c.functionParameters f) (functionKind function) token).map (·.node none)

/-- The path under which a configuration is shown: the one given, or that of its first token. -/
def shownPath (c : Config) (path : Datum) : Datum :=
  if path.truthy then path
  else
    match c.tokenList.head? with
    | some t => (c.token t).file
    | none => path

/-- The tree of the whole configuration: the outermost functions and lambdas in source order, and
then the functions that are only declared. -/
def compilationUnit (c : Config) (path : Datum) : Except LowerError Node :=
  match c.scopeMisfit? with
  | some e => .error (.misfit e)
  | none => do
    let units ← c.tokenList.mapM c.outermostUnit
    let declarations ← c.declaredFunctions.mapM c.declaration
    let shown := c.shownPath path
    return .file shown (units.filterMap id ++ declarations) { file := shown }

end Config
end FinalParams
