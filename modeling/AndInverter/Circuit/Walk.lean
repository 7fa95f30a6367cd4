import AndInverter.Circuit

namespace AndInverter

/-- A node as a walk meets it. -/
structure Visit where
  node : Node
  /-- The number of edges walked since the start. -/
  depth : Nat
  /-- The edge that led here carries an inverter. -/
  inverted : Bool
  /-- The walk has been here before. -/
  again : Bool

/-- What a walk does with the nodes it meets, over a state of its own. `descend` is asked once
    for each node, before the node is entered, whether to go on below it. -/
structure Visitor (σ : Type) where
  descend : Node → Nat → σ → Bool × σ
  enter : Visit → σ → σ
  again : Visit → σ → σ
  leave : Visit → σ → σ

inductive Order where
  | preorder
  | postorder
deriving DecidableEq

namespace Visitor

variable {σ : Type}

/-- Visits a node either before or after what lies below it. Meeting a node again counts as a
    visit in preorder only. -/
def ordered (order : Order) (descend : Node → Nat → σ → Bool × σ) (visit : Visit → σ → σ) :
    Visitor σ :=
  match order with
  | .preorder => ⟨descend, visit, visit, fun _ s => s⟩
  | .postorder => ⟨descend, fun _ s => s, fun _ s => s, visit⟩

/-- Goes below every node. -/
def always (_ : Node) (_ : Nat) (s : σ) : Bool × σ := (true, s)

end Visitor

/-- How far a walk has come. -/
structure Walk (σ : Type) where
  /-- The nodes that are marked. -/
  reached : Std.TreeSet NodeId
  state : σ

/-- Takes the marks off all nodes. -/
def Walk.unmarked {σ : Type} (w : Walk σ) : Walk σ := { w with reached := ∅ }

/-- What a walk has still to do: arrive at a node, or turn back from one. -/
inductive Frame where
  | enter (edge : Edge) (depth : Nat)
  | leave (node : Node) (depth : Nat) (inverted : Bool)

namespace Circuit

variable {σ : Type}

/-- What is walked below a node: what `next` gives, unless the visitor declined. -/
def below (next : Node → Except Error (List Edge)) (wanted : Bool) (n : Node) :
    Except Error (List Edge) :=
  if wanted then next n else .ok []

/-- The most frames that a node can add to a walk. -/
def weight (c : Circuit) (next : Node → Except Error (List Edge)) (id : NodeId) : Nat :=
  match c.node? id with
  | none => 0
  | some n =>
    match next n with
    | .ok children => children.length + 1
    | .error _ => 1

def sumOver (f : NodeId → Nat) : List NodeId → Nat
  | [] => 0
  | id :: ids => f id + sumOver f ids

/-- The most frames that the nodes outside `reached` can add to a walk. -/
def pending (c : Circuit) (next : Node → Except Error (List Edge))
    (reached : Std.TreeSet NodeId) : Nat :=
  sumOver (c.weight next) (c.ids.filter (!reached.contains ·))

theorem sumOver_filter_le_of_imp (f : NodeId → Nat) {p q : NodeId → Bool}
    (himp : ∀ x, p x = true → q x = true) (l : List NodeId) :
    sumOver f (l.filter p) ≤ sumOver f (l.filter q) := by
  induction l with
  | nil => simp
  | cons x l ih =>
    have hx := himp x
    cases hp : p x <;> cases hq : q x <;> simp_all [sumOver]
    omega

/-- Leaving out one more member takes its share off the sum. -/
theorem sumOver_filter_add_le (f : NodeId → Nat) {p q : NodeId → Bool}
    (himp : ∀ x, p x = true → q x = true) {a : NodeId} (hp : p a = false) (hq : q a = true)
    {l : List NodeId} (hmem : a ∈ l) :
    sumOver f (l.filter p) + f a ≤ sumOver f (l.filter q) := by
  induction l with
  | nil => cases hmem
  | cons x l ih =>
    rcases List.mem_cons.1 hmem with rfl | hmem
    · have hrest := sumOver_filter_le_of_imp f himp l
      simp only [List.filter_cons, hp, hq, sumOver, if_true, Bool.false_eq_true, if_false]
      omega
    · have hrest := ih hmem
      have hx := himp x
      cases hpx : p x <;> cases hqx : q x <;> simp_all [sumOver] <;> omega

/-- Entering a node that has not been reached leaves less to be done, its children included. This is
    why a walk comes to an end. -/
theorem pending_insert_lt {c : Circuit} {next : Node → Except Error (List Edge)}
    {reached : Std.TreeSet NodeId} {id : NodeId} {n : Node} (hnode : c.node? id = some n)
    (hfresh : ¬ reached.contains id = true) {wanted : Bool} {children : List Edge}
    (hchildren : below next wanted n = .ok children) :
    c.pending next (reached.insert id) + children.length < c.pending next reached := by
  have hmem : id ∈ c.ids := by
    simp only [node?] at hnode
    simp [ids, Std.TreeMap.mem_keys, Std.TreeMap.mem_iff_isSome_getElem?, hnode]
  have hsum := sumOver_filter_add_le (c.weight next) (p := (!(reached.insert id).contains ·))
    (q := (!reached.contains ·)) (by simp) (by simp)
    (by simpa only [Bool.not_eq_true', Bool.not_eq_true] using hfresh) hmem
  have hweight : children.length + 1 ≤ c.weight next id := by
    simp only [weight, hnode]
    cases wanted with
    | true =>
      simp only [below, if_true] at hchildren
      simp [hchildren]
    | false =>
      simp only [below, Bool.false_eq_true, if_false, Except.ok.injEq] at hchildren
      subst hchildren
      split <;> simp
  simp only [pending]
  omega

/-- Works off the frames of a depth-first walk, the first one first. A node is reached when it is
    entered, and what `next` gives for it is walked before the frames behind it. The walk stops at
    an edge to a missing node and where `next` fails. -/
def explore (c : Circuit) (next : Node → Except Error (List Edge)) (v : Visitor σ) :
    List Frame → Walk σ → EStateM.Result Error (Walk σ) Unit
  | [], w => .ok () w
  | .leave n depth inverted :: rest, w =>
    c.explore next v rest { w with state := v.leave ⟨n, depth, inverted, false⟩ w.state }
  | .enter e depth :: rest, w =>
    match _ : c.node? e.node with
    | none => .error (.missingNode e.node) w
    | some n =>
      if _ : w.reached.contains e.node then
        c.explore next v rest
          { w with state := v.again ⟨n, depth, e.inverted, true⟩ w.state }
      else
        let asked := v.descend n depth w.state
        match _ : below next asked.1 n with
        | .error failure => .error failure { w with state := asked.2 }
        | .ok children =>
          c.explore next v
            (children.map (Frame.enter · (depth + 1)) ++ .leave n depth e.inverted :: rest)
            ⟨w.reached.insert e.node, v.enter ⟨n, depth, e.inverted, false⟩ asked.2⟩
termination_by frames w => c.pending next w.reached + frames.length
decreasing_by
  · simp
  · simp
  · have hlt := pending_insert_lt ‹_› ‹_› ‹_›
    simp
    omega

end Circuit

inductive Direction where
  | fanin
  | fanout
deriving DecidableEq

namespace Circuit

variable {σ : Type}

/-- The consumers of a node, ascending, each with the inverter of its first edge on the node. -/
def consumers (c : Circuit) (n : Node) : Except Error (List Edge) :=
  n.fanouts.toList.mapM fun consumer => do
    match (← c.node consumer).fanins.find? (·.node == n.id) with
    | some e => return ⟨consumer, e.inverted⟩
    | none => throw (.invalid (.strayFanout n.id consumer))

/-- The edges that a walk in some direction follows from a node, in order. -/
def next (c : Circuit) : Direction → Node → Except Error (List Edge)
  | .fanin, n => .ok n.fanins
  | .fanout, n => c.consumers n

/-- A depth-first walk from each start in turn. What earlier walks have marked is forgotten first,
    and what this one reaches stays marked. -/
def traverse (c : Circuit) (direction : Direction) (v : Visitor σ) (starts : List Edge)
    (w : Walk σ) : EStateM.Result Error (Walk σ) Unit :=
  c.explore (c.next direction) v (starts.map (Frame.enter · 0)) w.unmarked

/-- A walk through a circuit in which nothing is marked. -/
def walk (c : Circuit) (direction : Direction) (v : Visitor σ) (starts : List Edge) (s : σ) :
    EStateM.Result Error (Walk σ) Unit :=
  c.traverse direction v starts ⟨∅, s⟩

/-- Collects ids, the latest first, as the walk turns back from the nodes. -/
def collector : Visitor (List NodeId) :=
  .ordered .postorder Visitor.always fun visit found => visit.node.id :: found

/-- The nodes that the outputs depend on, the outputs included. Outputs are taken in order and
    fanins from the left; a node comes after its fanins, unless it depends on itself. -/
def liveOrder (c : Circuit) : Except Error (List NodeId) :=
  match c.walk .fanin collector (c.outputs.map (⟨·, false⟩)) [] with
  | .ok _ w => .ok w.state.reverse
  | .error failure _ => .error failure

end Circuit

end AndInverter
