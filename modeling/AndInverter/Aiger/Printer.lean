import AndInverter.Circuit.Walk

namespace AndInverter.Aiger

/-- The literal of an edge in decimal. -/
def literalText (e : Edge) : String := toString e.literal

/-- The line of a gate, if the node is one. -/
def gateText? (n : Node) : Option String :=
  match n.kind with
  | .gate left right =>
    some (" ".intercalate ([⟨n.id, false⟩, left, right].map literalText))
  | _ => none

/-- The line of an input. -/
def inputText (c : Circuit) (id : NodeId) : Except Error String := do
  match (← c.node id).kind with
  | .input inverted => return literalText ⟨id, inverted⟩
  | _ => return literalText ⟨id, false⟩

/-- The symbol lines of the named ones among some nodes. Positions count from `position`. -/
def symbolTexts (c : Circuit) (tag : String) : Nat → List NodeId → Except Error (List String)
  | _, [] => return []
  | position, id :: rest => do
    let n ← c.node id
    let others ← symbolTexts c tag (position + 1) rest
    match n.name with
    | some name => return s!"{tag}{position} {name}" :: others
    | none => return others

/-- The lines that describe a circuit: the header, the inputs, the drivers of the outputs, the
    gates that the outputs depend on, producers first, and the names. Other gates are left out. -/
def lines (c : Circuit) : Except Error (List String) := do
  let live ← (← c.liveOrder).mapM c.node
  let gates := live.filterMap gateText?
  let header :=
    s!"aag {c.maxVar} {c.inputs.length} 0 {c.outputs.length} {gates.length}"
  let inputs ← c.inputs.mapM (inputText c)
  let outputs ← c.outputs.mapM fun id => do return literalText (← c.outputFanin id)
  let inputNames ← symbolTexts c "i" 0 c.inputs
  let outputNames ← symbolTexts c "o" 0 c.outputs
  return header :: (inputs ++ outputs ++ gates ++ inputNames ++ outputNames)

/-- The description of a circuit, each line ended by a line feed. -/
def print (c : Circuit) : Except Error String := do
  return String.join ((← lines c).map (· ++ "\n"))

end AndInverter.Aiger
