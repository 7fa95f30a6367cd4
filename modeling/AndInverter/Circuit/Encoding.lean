import AndInverter.Circuit.Walk
import AndInverter.Sat.Cnf

open AndInverter.Sat

namespace AndInverter

/-- A circuit as clauses, with the variable of each node that was encoded. -/
structure Encoding where
  vars : Std.TreeMap NodeId Nat
  cnf : Cnf

namespace Encoding

def empty : Encoding := ⟨∅, .empty⟩

/-- The positive literal of a node, if the node was encoded. -/
def lit? (enc : Encoding) (id : NodeId) : Option Lit := enc.vars[id]?.map Lit.pos

def nodeLit (enc : Encoding) (id : NodeId) : Except Error Lit :=
  match enc.lit? id with
  | some l => .ok l
  | none => .error (.invalid (.notEncoded id))

/-- The literal that is true when the signal on the edge is high. -/
def edgeLit (enc : Encoding) (e : Edge) : Except Error Lit := do
  return (← enc.nodeLit e.node).negateIf e.inverted

/-- Gives a node the next variable, and constrains it by the clauses made from its literal. -/
def extend (enc : Encoding) (id : NodeId) (clauses : Lit → List Clause) : Encoding :=
  let (z, cnf) := enc.cnf.fresh
  ⟨enc.vars.insert id z.var, (clauses z).foldl Cnf.add cnf⟩

/-- Encodes a node whose fanins are encoded. An output has no variable of its own, an input is
    free, and the constant and undefined nodes are low. -/
def encodeNode (enc : Encoding) (id : NodeId) : Kind → Except Error Encoding
  | .output _ => .ok enc
  | .constant | .undefined => .ok (enc.extend id fun z => [[z.negate]])
  | .input _ => .ok (enc.extend id fun _ => [])
  | .gate left right => do
    let a ← enc.edgeLit left
    let b ← enc.edgeLit right
    return enc.extend id (Cnf.andClauses a b)

end Encoding

namespace Circuit

/-- Encodes the nodes that the outputs depend on, producers first. -/
def encode (c : Circuit) : Except Error Encoding := do
  (← c.liveOrder).foldlM (fun enc id => do enc.encodeNode id (← c.node id).kind) .empty

end Circuit

end AndInverter
