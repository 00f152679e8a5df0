import FinalParams.Config.Basic

/-! Links between tokens that follow from others.

A token that is an operand has the operator as its parent, and a listed token is followed by the
next one of the list.  A dump may also state these links itself, and what it states counts. -/

namespace FinalParams

/-- What a dump states about each link of a token: nothing, that there is none, or its target. -/
structure StatedLinks where
  parent : Option (Option Nat) := none
  next : Option (Option Nat) := none
  deriving Inhabited, Repr

namespace Config

/-- Makes every token the parent of its operands.  Of several parents the last one counts. -/
def withParents (tokens : Array Token) : Array Token :=
  (List.range tokens.size).foldl (fun ts i =>
    (ts.getD i {}).operands.foldl (fun ts o => ts.modify o ({ · with parent := some i })) ts) tokens

def withSuccessors (order : List Nat) (tokens : Array Token) : Array Token :=
  (order.zip (order.drop 1)).foldl (fun ts (a, b) => ts.modify a ({ · with next := some b })) tokens

def withStated (stated : List StatedLinks) (tokens : Array Token) : Array Token :=
  stated.zipIdx.foldl (fun ts (s, i) =>
    ts.modify i fun t => { t with parent := s.parent.getD t.parent, next := s.next.getD t.next })
    tokens

/-- The tokens with all their links, where `order` lists them in source order. -/
def linkTokens (stated : List StatedLinks) (order : List Nat) (tokens : Array Token) :
    Array Token :=
  withStated stated (withSuccessors order (withParents tokens))

end Config
end FinalParams
