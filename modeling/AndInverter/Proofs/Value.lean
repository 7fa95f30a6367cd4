import AndInverter.Proofs.Acyclic
import AndInverter.Proofs.WellFormed.Sweep

namespace AndInverter

/-- One bit for every input. Bits of other nodes mean nothing. -/
abbrev Stimulus := NodeId → Bool

/-- What arrives at the consumer's end of an edge. -/
def Edge.signal (read : NodeId → Bool) (e : Edge) : Bool := read e.node ^^ e.inverted

@[simp]
theorem Edge.signal_plain (read : NodeId → Bool) (id : NodeId) :
    Edge.signal read ⟨id, false⟩ = read id := Bool.xor_false _

namespace Kind

/-- What a node of some kind computes from what it reads. Only an input uses its bit. -/
def eval (bit : Bool) (read : NodeId → Bool) : Kind → Bool
  | constant | undefined => false
  | input inverted => bit ^^ inverted
  | output fanin => fanin.signal read
  | gate left right => left.signal read && right.signal read

theorem eval_congr {bit : Bool} {read read' : NodeId → Bool} {kind : Kind}
    (h : ∀ e ∈ kind.fanins, read e.node = read' e.node) :
    kind.eval bit read = kind.eval bit read' := by
  cases kind <;> simp_all [eval, Edge.signal, fanins]

theorem signal_move {victim : NodeId} {replacement : Edge} {read : NodeId → Bool}
    (h : read victim = replacement.signal read) (e : Edge) :
    (retarget.move victim replacement e).signal read = e.signal read := by
  unfold retarget.move
  split
  · next heq =>
    subst heq
    simp only [Edge.signal, Edge.invertIf] at h ⊢
    rw [h, Bool.xor_assoc]
  · rfl

/-- Reading something else that has the same value makes no difference. -/
theorem eval_retarget {victim : NodeId} {replacement : Edge} {bit : Bool} {read : NodeId → Bool}
    (h : read victim = replacement.signal read) (kind : Kind) :
    (kind.retarget victim replacement).eval bit read = kind.eval bit read := by
  cases kind with
  | output fanin => exact signal_move h fanin
  | gate left right => simp only [retarget, eval, signal_move h]
  | _ => rfl

end Kind

namespace Circuit

/-- The value of a node, as far as it can be computed in a number of steps. -/
def valueWithin (c : Circuit) (p : Stimulus) : Nat → NodeId → Bool
  | 0, _ => false
  | depth + 1, id =>
    match c.kind? id with
    | some kind => kind.eval (p id) (c.valueWithin p depth)
    | none => false

/-- The value of a node when the inputs are given. Without cycles no path is longer than there are
    nodes, so the number of steps is enough. A node that is missing or undefined is low. -/
def value (c : Circuit) (p : Stimulus) (id : NodeId) : Bool := c.valueWithin p c.ids.length id

/-- The nodes have the same value on all inputs. -/
def SameFunction (c : Circuit) (a b : NodeId) : Prop := ∀ p, c.value p a = c.value p b

variable {c d : Circuit} {p : Stimulus}

theorem valueWithin_missing {id : NodeId} (h : c.kind? id = none) (depth : Nat) :
    c.valueWithin p depth id = false := by
  cases depth with
  | zero => rfl
  | succ depth => simp [valueWithin, h]

theorem value_missing {id : NodeId} (h : c.kind? id = none) : c.value p id = false :=
  valueWithin_missing h _

theorem valueWithin_succ {id : NodeId} {kind : Kind} (h : c.kind? id = some kind) (depth : Nat) :
    c.valueWithin p (depth + 1) id = kind.eval (p id) (c.valueWithin p depth) := by
  rw [valueWithin, h]

/-- The depth to which a value is computed does not matter once it exceeds the rank of the node. -/
theorem Ranked.valueWithin_eq {rank : NodeId → Nat} (hrank : c.Ranked rank) {depth other : Nat}
    {id : NodeId} (hdepth : rank id < depth) (hother : rank id < other) :
    c.valueWithin p depth id = c.valueWithin p other id := by
  induction depth generalizing other id with
  | zero => omega
  | succ depth ih =>
    obtain _ | other := other
    · omega
    cases hkind : c.kind? id with
    | none => rw [valueWithin_missing hkind, valueWithin_missing hkind]
    | some kind =>
      rw [valueWithin_succ hkind, valueWithin_succ hkind]
      apply Kind.eval_congr
      intro e he
      have hlt := hrank _ _ ⟨kind, hkind, e, he, rfl⟩
      exact ih (by omega) (by omega)

/-- The equation of values: a node is what its kind makes of the values of its fanins. -/
theorem WellFormed.value_eq (hc : c.WellFormed) (hacyclic : c.Acyclic) {id : NodeId} {kind : Kind}
    (hkind : c.kind? id = some kind) : c.value p id = kind.eval (p id) (c.value p) := by
  obtain ⟨rank, hrank, hbound⟩ := hc.exists_ranked hacyclic
  have hid := hbound id (mem_ids.2 (by simp [hkind]))
  unfold value
  obtain ⟨depth, hdepth⟩ : ∃ depth, c.ids.length = depth + 1 := ⟨c.ids.length - 1, by omega⟩
  rw [hdepth] at hid ⊢
  rw [valueWithin_succ hkind]
  apply Kind.eval_congr
  intro e he
  have hlt := hrank _ _ ⟨kind, hkind, e, he, rfl⟩
  exact hrank.valueWithin_eq (by omega) (by omega)

/-- Without cycles the equation determines the values. -/
theorem WellFormed.eq_value (hc : c.WellFormed) (hacyclic : c.Acyclic) {v : NodeId → Bool}
    (hv : ∀ id kind, c.kind? id = some kind → v id = kind.eval (p id) v) {id : NodeId}
    (hid : (c.kind? id).isSome = true) : v id = c.value p id := by
  obtain ⟨rank, hrank, _⟩ := hc.exists_ranked hacyclic
  induction hn : rank id using Nat.strong_induction_on generalizing id with
  | _ n ih =>
    obtain ⟨kind, hkind⟩ := Option.isSome_iff_exists.1 hid
    rw [hv id kind hkind, hc.value_eq hacyclic hkind]
    apply Kind.eval_congr
    intro e he
    have hfeeds : c.Feeds e.node id := ⟨kind, hkind, e, he, rfl⟩
    have hlt := hrank _ _ hfeeds
    exact ih (rank e.node) (by omega) (hc.isSome_of_feeds hfeeds) rfl

/-- Circuits of the same shape compute the same values. -/
theorem SameShape.value (h : c.SameShape d) (hc : c.WellFormed) (hacyclic : c.Acyclic) :
    d.value p = c.value p := by
  have hdacyclic := h.acyclic hacyclic
  funext id
  cases hkind : d.kind? id with
  | none => rw [value_missing hkind, value_missing (h.kind? id ▸ hkind)]
  | some kind =>
    refine ((h.wellFormed hc).eq_value hdacyclic (fun other kind hother => ?_) (by simp [hkind])).symm
    exact hc.value_eq hacyclic (h.kind? other ▸ hother)

/-- A redirection to something of the same value changes no value. -/
theorem Redirected.value {victim : NodeId} {replacement : Edge}
    (h : c.Redirected victim replacement d) (hc : c.WellFormed) (hd : d.WellFormed)
    (hcacyclic : c.Acyclic) (hdacyclic : d.Acyclic)
    (hvalue : c.value p victim = replacement.signal (c.value p)) : d.value p = c.value p := by
  funext id
  cases hkind : c.kind? id with
  | none => rw [value_missing hkind, value_missing (by rw [h.kind?, hkind]; rfl)]
  | some kind =>
    refine (hd.eq_value hdacyclic (fun other kind hother => ?_) (by simp [h.kind?, hkind])).symm
    rw [h.kind?] at hother
    obtain ⟨old, hold, rfl⟩ := Option.map_eq_some_iff.1 hother
    rw [Kind.eval_retarget hvalue]
    exact hc.value_eq hcacyclic hold

/-- The nodes that stay keep their values. -/
theorem Without.value {gone : List NodeId} (h : c.Without gone d) (hc : c.WellFormed)
    (hd : d.WellFormed) (hcacyclic : c.Acyclic) (hdacyclic : d.Acyclic) {id : NodeId}
    (hid : (d.kind? id).isSome = true) : d.value p id = c.value p id := by
  refine (hd.eq_value hdacyclic (fun other kind hother => ?_) hid).symm
  rw [h.kind?] at hother
  split at hother
  · cases hother
  · exact hc.value_eq hcacyclic hother

end Circuit

end AndInverter
