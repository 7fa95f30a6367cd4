import AndInverter.Circuit.Classes

namespace AndInverter.Report

def spaced (ids : List NodeId) : String := " ".intercalate (ids.map toString)

/-- The text, filled up with spaces on the left. -/
def padLeft (width : Nat) (text : String) : String :=
  String.ofList (List.replicate (width - text.length) ' ') ++ text

def column (label : String) (width count : Nat) : String :=
  s!"  {label}{padLeft width (toString count)}\n"

/-- The table of sizes. -/
def summary (c : Circuit) : String :=
  let inputs := c.inputs.length
  let outputs := c.outputs.length
  let gates := c.gates.length
  "Circuit Statistics\n" ++ "==================\n" ++
    column "PI" 12 inputs ++ column "PO" 12 outputs ++ column "AIG" 11 gates ++
    "------------------\n" ++ column "Total" 9 (inputs + outputs + gates)

/-- A fanin in the netlist: a star before an undefined node, and then a mark for an inverter. -/
def faninText (c : Circuit) (e : Edge) : Except Error String := do
  let star := if (← c.node e.node).kind.isUndefined then "*" else ""
  let mark := if e.inverted then "!" else ""
  return s!"{star}{mark}{e.node}"

/-- A node in the netlist, without its place and name. -/
def nodeText (c : Circuit) (id : NodeId) (kind : Kind) : Except Error String :=
  match kind with
  | .constant => .ok "CONST 0"
  | .output fanin => do
    let source ← faninText c fanin
    return s!"PO {id} {source}"
  | .gate left right => do
    let first ← faninText c left
    let second ← faninText c right
    return s!"AIG {id} {first} {second}"
  | _ => .ok s!"{kind.tag} {id}"

def nameSuffix (n : Node) : String :=
  match n.name with
  | some name => s!" ({name})"
  | none => ""

def netlistLines (c : Circuit) : Nat → List NodeId → Except Error String
  | _, [] => return ""
  | place, id :: rest => do
    let n ← c.node id
    let text ← nodeText c id n.kind
    return s!"[{place}] {text}{nameSuffix n}\n" ++ (← netlistLines c (place + 1) rest)

/-- The nodes that the outputs depend on, producers first. -/
def netlist (c : Circuit) : Except Error String := do
  netlistLines c 0 (← c.liveOrder)

def inputs (c : Circuit) : String := s!"PIs of the circuit: {spaced c.inputs}\n"

def outputs (c : Circuit) : String := s!"POs of the circuit: {spaced c.outputs}\n"

/-- The gates and outputs that read an undefined node, ascending. -/
def floating (c : Circuit) : Except Error (List NodeId) := do
  let found ← c.nodes.toList.filterM fun (_, n) =>
    n.fanins.anyM fun e => do return (← c.node e.node).kind.isUndefined
  return found.map (·.2.id)

/-- The inputs and gates that nothing reads, ascending. -/
def unused (c : Circuit) : List NodeId :=
  c.idsWhere fun n => (n.kind.isInput || n.kind.isGate) && n.fanouts.isEmpty

def lineIfAny (label : String) (ids : List NodeId) : String :=
  if ids.isEmpty then "" else s!"{label}: {spaced ids}\n"

/-- What is floating and what is unused, a line for each if there is any. -/
def defects (c : Circuit) : Except Error String := do
  return lineIfAny "Gates with floating fanin(s)" (← floating c) ++
    lineIfAny "Gates defined but not used  " (unused c)

def peersText (c : Circuit) (id : NodeId) : String :=
  match c.peers? id with
  | none => ""
  | some (same, opposite) =>
    String.join (same.map fun peer => s!" {peer}") ++
      String.join (opposite.map fun peer => s!" !{peer}")

/-- The kind, name and line of a node, the peers of a gate, and the simulated values. -/
def node (c : Circuit) (id : NodeId) : Except Error String := do
  let n ← c.node id
  let name := match n.name with
    | some name => s!"\"{name}\""
    | none => ""
  let peers := if n.kind.isGate then s!"FECs:{peersText c id}\n" else ""
  return s!"{n.kind.tag}({id}){name}, line {n.line}\n{peers}Value: {n.signatureText}\n"

/-- A line of a cone, indented by the depth. A star marks a node that was printed before. -/
def visitText (visit : Visit) : String :=
  String.join (List.replicate visit.depth "  ") ++ (if visit.inverted then "!" else "") ++
    s!"{visit.node.kind.tag} {visit.node.id}" ++ (if visit.again then " (*)" else "") ++ "\n"

/-- Prints nodes as they are met, and goes no deeper than `level`. -/
def conePrinter (level : Nat) : Visitor String :=
  .ordered .preorder (fun _ depth text => (depth < level, text))
    fun visit text => text ++ visitText visit

/-- The nodes met on the way down from a node, a line each. A node that is met again is not
    expanded again. -/
def cone (c : Circuit) (direction : Direction) (id : NodeId) (level : Nat) :
    Except Error String := do
  let _ ← c.node id
  match c.walk direction (conePrinter level) [⟨id, false⟩] "" with
  | .ok _ w => return w.state
  | .error failure _ => throw failure

def candidateLines : Nat → List (List NodeId) → String
  | _, [] => ""
  | place, group :: rest => s!"[{place}] {spaced group}\n" ++ candidateLines (place + 1) rest

/-- The candidate groups, a line each. -/
def candidates (c : Circuit) : String := candidateLines 0 c.classes.candidates

end AndInverter.Report
