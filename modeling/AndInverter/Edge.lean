import Std.Data.TreeMap

namespace AndInverter

/-- The number of a node. Zero belongs to the constant. -/
abbrev NodeId := UInt64

/-- A reference to a node, read through an inverter when `inverted` is set. -/
structure Edge where
  node : NodeId
  inverted : Bool
deriving DecidableEq, Inhabited

namespace Edge

/-- Edges are ordered by node, the plain edge before the inverted one. -/
instance : Ord Edge := ⟨compareLex (compareOn Edge.node) (compareOn Edge.inverted)⟩

instance : Std.TransOrd Edge :=
  inferInstanceAs (Std.TransCmp (compareLex (compareOn Edge.node) (compareOn Edge.inverted)))

instance : Std.LawfulEqOrd Edge where
  eq_of_compare {a b} h := by
    have hparts : (compare a.node b.node).then (compare a.inverted b.inverted) = .eq := h
    rw [Ordering.then_eq_eq] at hparts
    obtain ⟨hnode, hinverted⟩ := hparts
    cases a
    cases b
    simp_all

/-- The constant signals. -/
def low : Edge := ⟨0, false⟩

def high : Edge := ⟨0, true⟩

/-- The edge with its inverter added or removed when `flip` is set. -/
def invertIf (e : Edge) (flip : Bool) : Edge := ⟨e.node, e.inverted ^^ flip⟩

/-- The same node read through the opposite polarity. -/
def invert (e : Edge) : Edge := e.invertIf true

def IsLow (e : Edge) : Prop := e.node = 0 ∧ e.inverted = false

instance (e : Edge) : Decidable e.IsLow := inferInstanceAs (Decidable (_ ∧ _))

def IsHigh (e : Edge) : Prop := e.node = 0 ∧ e.inverted = true

instance (e : Edge) : Decidable e.IsHigh := inferInstanceAs (Decidable (_ ∧ _))

/-- The two edges read one node through opposite polarities. -/
def Opposes (a b : Edge) : Prop := a.node = b.node ∧ a.inverted ≠ b.inverted

instance (a b : Edge) : Decidable (a.Opposes b) := inferInstanceAs (Decidable (_ ∧ _))

/-- The literal of an edge: twice the node, plus one for an inverter. A literal is a 64-bit word,
    so the top bit of the node is lost. -/
def literal (e : Edge) : UInt64 := 2 * e.node + e.inverted.toUInt64

/-- The edge that a literal denotes. -/
def ofLiteral (l : UInt64) : Edge := ⟨l / 2, l % 2 == 1⟩

@[simp]
theorem invertIf_node (e : Edge) (flip : Bool) : (e.invertIf flip).node = e.node := rfl

end Edge

end AndInverter
