import AndInverter.Circuit

namespace AndInverter.Circuit

/-- A new node needs an id of its own. -/
def checkId (c : Circuit) (id : NodeId) : Except Error Unit :=
  if id = 0 then .error .reservedId
  else if (c.node? id).isSome then .error (.duplicateId id)
  else .ok ()

/-- A new edge has to point at a node, and outputs drive nothing. -/
def checkFanin (c : Circuit) (e : Edge) : Except Error Unit := do
  if (← c.node e.node).kind.isOutput then throw (.outputAsFanin e.node)

/-- Inserts an id into an ascending list. -/
def insertSorted (id : NodeId) : List NodeId → List NodeId
  | [] => [id]
  | x :: xs => if x < id then x :: insertSorted id xs else id :: x :: xs

/-- Enters a node into the circuit and its lists. Its fanins do not list it yet. -/
def insert (c : Circuit) (n : Node) : Circuit :=
  let c := { c with nodes := c.nodes.insert n.id n }
  match n.kind with
  | .input _ => { c with inputs := insertSorted n.id c.inputs, maxVar := max c.maxVar n.id }
  | .output _ => { c with outputs := c.outputs ++ [n.id] }
  | .gate _ _ => { c with maxVar := max c.maxVar n.id }
  | _ => c

/-- Enters a node under a fresh id. -/
def declare (c : Circuit) (n : Node) : Except Error Circuit := do
  c.checkId n.id
  return c.insert n

/-- Lists `consumer` among the fanouts of `target`. -/
def addFanout (c : Circuit) (consumer target : NodeId) : Circuit :=
  c.update target fun n => { n with fanouts := n.fanouts.insert consumer }

/-- Enters a node whose fanins are already there. -/
def attach (c : Circuit) (n : Node) : Except Error Circuit := do
  let c ← c.declare n
  return n.fanins.foldl (fun c e => c.addFanout n.id e.node) c

def addInput (c : Circuit) (id : NodeId) : Except Error Circuit :=
  c.attach (.fresh id (.input false) 0)

def addGate (c : Circuit) (id : NodeId) (left right : Edge) : Except Error Circuit := do
  c.checkFanin left
  c.checkFanin right
  c.attach (.fresh id (.gate left right) 0)

/-- The largest id in use or set aside for inputs and gates. -/
def lastId (c : Circuit) : NodeId := c.ids.foldl max c.maxVar

/-- The id for a new output, above all others. -/
def outputId (c : Circuit) : Except Error NodeId :=
  if c.lastId + 1 = 0 then .error (.idsExhausted c.lastId) else .ok (c.lastId + 1)

/-- Adds an output, and tells its id. -/
def addOutput (c : Circuit) (driver : Edge) : Except Error (NodeId × Circuit) := do
  c.checkFanin driver
  let id ← c.outputId
  return (id, ← c.attach (.fresh id (.output driver) 0))

/-- Gives an undefined node to an id that lacks one. -/
def ensure (c : Circuit) (id : NodeId) (line : Nat) : Circuit :=
  if (c.node? id).isSome then c else { c with nodes := c.nodes.insert id (.fresh id .undefined line) }

/-- Completes a circuit whose nodes were entered without regard to their fanins. Consumers are
    taken by ascending id and their edges in order, so an undefined node has the line of the first
    consumer in that order. -/
def connect (c : Circuit) : Circuit :=
  let uses := c.nodes.toList.flatMap fun (_, n) => n.fanins.map fun e => (n.id, n.line, e.node)
  uses.foldl (fun c (consumer, line, target) => (c.ensure target line).addFanout consumer target) c

end AndInverter.Circuit
