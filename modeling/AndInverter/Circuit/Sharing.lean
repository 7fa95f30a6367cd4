import AndInverter.Circuit.Classes
import AndInverter.Circuit.Merge

namespace AndInverter

/-- The fanins of a gate, the smaller edge first: conjunction does not depend on their order. -/
structure FaninPair where
  first : Edge
  second : Edge
deriving DecidableEq

namespace FaninPair

instance : Ord FaninPair := ⟨compareLex (compareOn FaninPair.first) (compareOn FaninPair.second)⟩

instance : Std.TransOrd FaninPair :=
  inferInstanceAs (Std.TransCmp (compareLex (compareOn FaninPair.first) (compareOn FaninPair.second)))

instance : Std.LawfulEqOrd FaninPair where
  eq_of_compare {a b} h := by
    have hparts : (compare a.first b.first).then (compare a.second b.second) = .eq := h
    rw [Ordering.then_eq_eq] at hparts
    obtain ⟨hfirst, hsecond⟩ := hparts
    cases a
    cases b
    simp_all

def ofFanins (left right : Edge) : FaninPair :=
  if compare left right = .gt then ⟨right, left⟩ else ⟨left, right⟩

end FaninPair

namespace Circuit

/-- Merges each of the given gates into the gate that `known` has for its fanins, and otherwise
    makes it known. -/
def mergeShared : Std.TreeMap FaninPair NodeId → List NodeId → Pass (List (NodeId × NodeId))
  | _, [] => return []
  | known, id :: rest => do
    match (← Pass.ask (·.node id)).kind with
    | .gate left right =>
      match known[FaninPair.ofFanins left right]? with
      | some survivor =>
        Pass.step (·.merge id survivor false)
        return (id, survivor) :: (← mergeShared known rest)
      | none => mergeShared (known.insert (.ofFanins left right) id) rest
    | _ => mergeShared known rest

/-- Structural hashing: merges every live gate into the first one with the same fanins, and tells
    the pairs of victim and survivor. Producers come first, so that gates whose fanins a merge has
    made equal are merged by the same pass. The candidates are grouped anew. -/
def share : Pass (List (NodeId × NodeId)) := do
  let merges ← mergeShared ∅ (← Pass.ask liveOrder)
  Pass.step classify
  return merges

end Circuit

end AndInverter
