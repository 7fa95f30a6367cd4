import AndInverter.Node
import Std.Data.TreeMap

namespace AndInverter

/-- Gates grouped by signature, each group in the order in which its gates were met. -/
structure Classes where
  groups : Std.TreeMap Signature (List NodeId)

namespace Classes

def empty : Classes := ⟨∅⟩

/-- Puts a gate behind the gates of the same signature. -/
def insert (classes : Classes) (signature : Signature) (id : NodeId) : Classes :=
  ⟨classes.groups.alter signature fun group => some (group.getD [] ++ [id])⟩

/-- The gates with exactly this signature. -/
def group (classes : Classes) (signature : Signature) : List NodeId :=
  classes.groups.getD signature []

/-- The gates with the opposite signature. -/
def opposites (classes : Classes) (signature : Signature) : List NodeId :=
  classes.group signature.complement

/-- The groups that suggest a merge: those of at least two gates, by ascending signature. -/
def candidates (classes : Classes) : List (List NodeId) :=
  classes.groups.values.filter (1 < ·.length)

end Classes

/-- A combinational circuit of two-input conjunctions and inverters.

    Edges refer to nodes by id, and every node lists the nodes that read it. Nothing in the type
    ties these two records of an edge together: the operations do, and `Circuit.audit` tells
    whether a circuit is consistent. -/
structure Circuit where
  nodes : Std.TreeMap NodeId Node
  /-- Ascending. -/
  inputs : List NodeId
  /-- In the order of declaration. -/
  outputs : List NodeId
  /-- A bound on the ids of inputs and gates. -/
  maxVar : NodeId
  classes : Classes

namespace Circuit

/-- The circuit of the constant alone. -/
def empty : Circuit :=
  ⟨Std.TreeMap.empty.insert 0 (Node.fresh 0 .constant 0), [], [], 0, .empty⟩

instance : Inhabited Circuit := ⟨empty⟩

def node? (c : Circuit) (id : NodeId) : Option Node := c.nodes[id]?

/-- The node with this id, which the circuit has to have. -/
def node (c : Circuit) (id : NodeId) : Except Error Node :=
  match c.node? id with
  | some n => .ok n
  | none => .error (.missingNode id)

/-- The ids of all nodes, ascending. -/
def ids (c : Circuit) : List NodeId := c.nodes.keys

/-- The ids of the nodes of some kind, ascending. -/
def idsWhere (c : Circuit) (p : Node → Bool) : List NodeId :=
  (c.nodes.toList.filter fun (_, n) => p n).map (·.2.id)

def gates (c : Circuit) : List NodeId := c.idsWhere (·.kind.isGate)

def undefineds (c : Circuit) : List NodeId := c.idsWhere (·.kind.isUndefined)

/-- Changes one node and leaves the rest, also when there is no such node. -/
def update (c : Circuit) (id : NodeId) (f : Node → Node) : Circuit :=
  { c with nodes := c.nodes.modify id f }

/-- The edge that drives an output. -/
def outputFanin (c : Circuit) (id : NodeId) : Except Error Edge := do
  match (← c.node id).kind with
  | .output fanin => return fanin
  | _ => throw .noFanin

/-- Two circuits are told apart by their lists and by the ids and kinds of their nodes. -/
def agrees (a b : Circuit) : Bool :=
  a.inputs == b.inputs && a.outputs == b.outputs &&
    a.nodes.size == b.nodes.size &&
    (a.nodes.toList.zip b.nodes.toList).all fun ((i, m), (j, n)) => i == j && m.agrees n

theorem node?_update (c : Circuit) (id other : NodeId) (f : Node → Node) :
    (c.update id f).node? other = if id = other then (c.node? id).map f else c.node? other := by
  simp [node?, update, Std.TreeMap.getElem?_modify]

theorem node_eq_ok_iff {c : Circuit} {id : NodeId} {n : Node} :
    c.node id = .ok n ↔ c.node? id = some n := by
  unfold node
  split <;> simp_all

end Circuit

end AndInverter
