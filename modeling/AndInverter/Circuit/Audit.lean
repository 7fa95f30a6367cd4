import AndInverter.Circuit.Walk

namespace AndInverter.Circuit

/-- The consumer's edge has to point at a node that may be read and that lists the consumer. -/
def auditEdge (c : Circuit) (consumer : NodeId) (e : Edge) : Except Error Unit :=
  match c.node? e.node with
  | none => .error (.invalid (.danglingFanin consumer e.node))
  | some target =>
    if target.kind.isOutput then .error (.outputAsFanin e.node)
    else if target.fanouts.contains consumer then .ok ()
    else .error (.invalid (.unlistedFanout consumer e.node))

/-- A listed consumer has to be there and to read the node. -/
def auditFanout (c : Circuit) (id consumer : NodeId) : Except Error Unit :=
  match c.node? consumer with
  | none => .error (.invalid (.missingFanout id consumer))
  | some n => if n.reads id then .ok () else .error (.invalid (.unusedFanout id consumer))

def auditNode (c : Circuit) (n : Node) : Except Error Unit := do
  if n.kind.isConstant then
    unless n.id = 0 do throw (.invalid .secondConstant)
  else if n.id = 0 then throw .reservedId
  n.fanins.forM (c.auditEdge n.id)
  if n.kind.isOutput && !n.fanouts.isEmpty then
    throw (.invalid (.outputWithFanouts n.id n.fanouts.toList))
  n.fanouts.toList.forM (c.auditFanout n.id)

/-- What a search for cycles knows: the nodes it has entered and not left, and the first of them
    that it came upon again. -/
structure CycleSearch where
  entered : Std.TreeSet NodeId
  cycle : Option NodeId

/-- A node met again before the walk has left it depends on itself. -/
def cycleFinder : Visitor CycleSearch where
  descend := Visitor.always
  enter visit s := { s with entered := s.entered.insert visit.node.id }
  again visit s :=
    if s.cycle.isNone && s.entered.contains visit.node.id then
      { s with cycle := some visit.node.id }
    else s
  leave visit s := { s with entered := s.entered.erase visit.node.id }

/-- Looks for a cycle among all nodes, whether outputs depend on them or not. Nodes are taken in
    ascending order and fanins from the right, which decides the node that is named. -/
def auditCycles (c : Circuit) : Except Error Unit :=
  let starts := c.ids.map fun id => Frame.enter ⟨id, false⟩ 0
  match c.explore (fun n => .ok n.fanins.reverse) cycleFinder starts ⟨∅, ∅, none⟩ with
  | .error failure _ => .error failure
  | .ok _ w =>
    match w.state.cycle with
    | some id => .error (.invalid (.cyclic id))
    | none => .ok ()

/-- Checks that every node is stored under its own id and only the constant has id zero, that
    both records of every edge are there, that outputs are not read, that the lists name inputs
    and outputs, and that no node depends on itself. -/
def audit (c : Circuit) : Except Error Unit := do
  c.nodes.toList.forM fun (key, n) => do
    unless n.id = key do throw (.invalid (.misplaced key n.id))
    c.auditNode n
  c.inputs.forM fun id =>
    if (c.node? id).any (·.kind.isInput) then .ok () else .error (.invalid (.notAnInput id))
  c.outputs.forM fun id =>
    if (c.node? id).any (·.kind.isOutput) then .ok () else .error (.invalid (.notAnOutput id))
  c.auditCycles

end AndInverter.Circuit
