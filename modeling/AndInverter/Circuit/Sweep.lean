import AndInverter.Circuit.Pass
import AndInverter.Circuit.Walk

namespace AndInverter.Circuit

/-- A node may go when it is a gate or undefined and all its consumers go too. -/
def checkRemovable (c : Circuit) (leaving : List NodeId) (id : NodeId) : Except Error Unit := do
  let n ← c.node id
  unless n.kind.isGate || n.kind.isUndefined do
    throw (.invalid (.notRemovable n.kind.tag id))
  match n.fanouts.toList.find? (!leaving.contains ·) with
  | some consumer => throw (.invalid (.stillUsed id consumer))
  | none => return

/-- Takes out a node and its entries among the fanouts of its fanins. -/
def erase (c : Circuit) (id : NodeId) : Circuit :=
  match c.node? id with
  | none => c
  | some n =>
    n.fanins.foldl (fun c e => c.update e.node fun m => { m with fanouts := m.fanouts.erase id })
      { c with nodes := c.nodes.erase id }

/-- Takes out several nodes, or none if one of them has to stay. -/
def remove (c : Circuit) (ids : List NodeId) : Except Error Circuit := do
  ids.forM (c.checkRemovable ids)
  return ids.foldl erase c

/-- The gates and undefined nodes that no output depends on, ascending. -/
def dead (c : Circuit) : Except Error (List NodeId) := do
  let live := Std.TreeSet.ofList (← c.liveOrder)
  return c.idsWhere fun n => (n.kind.isGate || n.kind.isUndefined) && !live.contains n.id

/-- Takes the dead nodes out, and tells which they were. Inputs stay even when nothing reads
    them. -/
def sweep : Pass (List NodeId) := do
  let ids ← Pass.ask dead
  Pass.step (·.remove ids)
  return ids

end AndInverter.Circuit
