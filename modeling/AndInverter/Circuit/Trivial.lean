import AndInverter.Circuit.Merge
import AndInverter.Circuit.Pass
import AndInverter.Circuit.Walk

namespace AndInverter

namespace Kind

/-- The edge that a conjunction comes down to when a fanin is constant or both fanins read the
    same node. -/
def conjoin? (left right : Edge) : Option Edge :=
  if left.IsLow ∨ right.IsLow then some .low
  else if left.IsHigh then some right
  else if right.IsHigh then some left
  else if left = right then some left
  else if left.Opposes right then some .low
  else none

/-- The edge that a gate comes down to, if it is trivial. -/
def trivial? : Kind → Option Edge
  | gate left right => conjoin? left right
  | _ => none

end Kind

namespace Circuit

/-- Replaces the trivial ones among the given nodes. Each is looked at as the replacements before
    it have left it. -/
def replaceTrivial : List NodeId → Pass (List (NodeId × Edge))
  | [] => return []
  | id :: rest => do
    match (← Pass.ask (·.node id)).kind.trivial? with
    | none => replaceTrivial rest
    | some e =>
      Pass.step (·.redirect id e)
      return (id, e) :: (← replaceTrivial rest)

/-- Lets the consumers of every trivial live gate read what the gate comes down to. Producers come
    first, so that what one replacement makes trivial is replaced by the same pass. -/
def simplify : Pass (List (NodeId × Edge)) := do
  replaceTrivial (← Pass.ask liveOrder)

end Circuit

end AndInverter
