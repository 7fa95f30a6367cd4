import AndInverter.Error
import Std.Data.TreeSet

namespace AndInverter

/-- What a node computes. A gate is the conjunction of its two fanins; an undefined node stands
    for an id that is used and never declared, and reads as the low constant. -/
inductive Kind where
  | constant
  | input (inverted : Bool)
  | output (fanin : Edge)
  | gate (left right : Edge)
  | undefined
deriving DecidableEq

namespace Kind

/-- The edges that a node reads, in order. -/
def fanins : Kind → List Edge
  | output fanin => [fanin]
  | gate left right => [left, right]
  | _ => []

/-- The short name of a kind in listings and messages. -/
def tag : Kind → String
  | constant => "CONST"
  | input _ => "PI"
  | output _ => "PO"
  | gate _ _ => "AIG"
  | undefined => "UNDEF"

def isConstant : Kind → Bool
  | constant => true
  | _ => false

def isInput : Kind → Bool
  | input _ => true
  | _ => false

def isOutput : Kind → Bool
  | output _ => true
  | _ => false

def isGate : Kind → Bool
  | gate _ _ => true
  | _ => false

def isUndefined : Kind → Bool
  | undefined => true
  | _ => false

/-- The kind with its edges on `victim` moved to `replacement`. The inverter of an edge stays in
    place, in front of the one that the replacement brings. -/
def retarget (victim : NodeId) (replacement : Edge) : Kind → Kind
  | output fanin => output (move fanin)
  | gate left right => gate (move left) (move right)
  | kind => kind
where
  move (e : Edge) : Edge := if e.node = victim then replacement.invertIf e.inverted else e

theorem fanins_retarget (victim : NodeId) (replacement : Edge) (kind : Kind) :
    (kind.retarget victim replacement).fanins =
      kind.fanins.map (retarget.move victim replacement) := by
  cases kind <;> rfl

end Kind

/-- One value per simulated pattern, first pattern first. -/
abbrev Signature := Array Bool

namespace Signature

/-- The signature of the opposite signal. -/
def complement (s : Signature) : Signature := s.map (!·)

end Signature

/-- The digits of a row of bits. -/
def bitsText (bits : List Bool) : String :=
  String.ofList (bits.map fun bit => if bit then '1' else '0')

/-- A node of a circuit, with what the last simulation left in it. -/
structure Node where
  id : NodeId
  kind : Kind
  /-- The source line of the declaration, or of the first use of an undefined node. -/
  line : Nat
  name : Option String
  /-- The nodes that read this one. A consumer that reads it twice counts once. -/
  fanouts : Std.TreeSet NodeId
  value : Bool
  signature : Signature

namespace Node

/-- A node that nothing reads and no simulation has reached. -/
def fresh (id : NodeId) (kind : Kind) (line : Nat) : Node :=
  ⟨id, kind, line, none, ∅, false, #[]⟩

def fanins (n : Node) : List Edge := n.kind.fanins

/-- Gives the node its value for one more pattern. -/
def record (n : Node) (value : Bool) : Node :=
  { n with value, signature := n.signature.push value }

/-- The node reads `target` through at least one of its edges. -/
def reads (n : Node) (target : NodeId) : Bool := n.fanins.any (·.node == target)

/-- The edge at a position. An output has only the first one. -/
def fanin (n : Node) (position : Nat) : Except Error Edge :=
  match n.fanins[position]? with
  | some edge => .ok edge
  | none => .error .noFanin

/-- Nodes are told apart by id and kind alone. -/
def agrees (a b : Node) : Bool := a.id == b.id && a.kind == b.kind

/-- The text of the signature. -/
def signatureText (n : Node) : String := bitsText n.signature.toList

end Node

/-- Zero belongs to the constant: neither a gate nor an output may be made with it. -/
inductive Reserved where
  | gate
  | output
  | literal
deriving DecidableEq, Repr

namespace Reserved

def message : Reserved → String
  | gate => "Hey, you are trying to create an AND gate with id=0. " ++
      "Id=0 is reserved for the constant node NodeKind::False."
  | output => "Hey, you are trying to create an output with id=0. " ++
      "Id=0 is reserved for the constant node NodeKind::False."
  | literal =>
    "Tried to create a Lit from 0. 0 is not a valid literal in DIMACS format."

end Reserved

/-- A node of the given kind outside any circuit. -/
def Node.make (id : NodeId) (kind : Kind) (line : Nat) : Except Reserved Node :=
  match kind with
  | .constant => .ok (.fresh 0 .constant 0)
  | .gate _ _ => if id = 0 then .error .gate else .ok (.fresh id kind line)
  | .output _ => if id = 0 then .error .output else .ok (.fresh id kind line)
  | _ => .ok (.fresh id kind line)

end AndInverter
