import AndInverter.Proofs.Preservation.Sweep
import AndInverter.Proofs.Relabeled
import AndInverter.Proofs.Simulation

open Relation

namespace AndInverter

namespace Circuit

/-- No output depends on a node that depends on itself. Dead nodes may. -/
def LiveAcyclic (c : Circuit) : Prop := ∀ id, c.Live id → ¬ TransGen c.Feeds id id

variable {c d : Circuit} {ids : List NodeId}

theorem Acyclic.liveAcyclic (h : c.Acyclic) : c.LiveAcyclic := fun id _ => h id

theorem unread_dropFanout (c : Circuit) (consumer target id : NodeId) :
    ((c.dropFanout consumer target).node? id).map Node.unread =
      (c.node? id).map Node.unread := by
  unfold dropFanout
  rw [node?_update]
  split
  · next heq =>
    subst heq
    rw [Option.map_map]
    rfl
  · rfl

theorem unread_foldl_dropFanout (c : Circuit) (consumer id : NodeId) (edges : List Edge) :
    ((edges.foldl (fun c e => c.dropFanout consumer e.node) c).node? id).map Node.unread =
      (c.node? id).map Node.unread := by
  induction edges generalizing c with
  | nil => rfl
  | cons e edges ih => rw [List.foldl_cons, ih, unread_dropFanout]

/-- Besides the node that goes only fanouts change. -/
theorem unread_erase (c : Circuit) (id other : NodeId) :
    ((c.erase id).node? other).map Node.unread =
      if other = id then none else (c.node? other).map Node.unread := by
  cases hn : c.node? id with
  | none =>
    rw [erase_of_missing hn]
    split
    · next heq => rw [heq, hn, Option.map_none]
    · rfl
  | some n =>
    rw [erase_of_node? hn, unread_foldl_dropFanout, node?_eraseNode]
    by_cases heq : id = other
    · simp [heq]
    · simp [heq, Ne.symm heq]

theorem unread_foldl_erase (c : Circuit) (ids : List NodeId) (id : NodeId) :
    ((ids.foldl erase c).node? id).map Node.unread =
      if id ∈ ids then none else (c.node? id).map Node.unread := by
  induction ids generalizing c with
  | nil => simp
  | cons first ids ih =>
    rw [List.foldl_cons, ih, unread_erase]
    by_cases heq : id = first <;> simp [heq]

/-- The node stays when the circuit is swept: it is live, or neither a gate nor undefined. -/
def Stays (c : Circuit) (id : NodeId) : Prop :=
  c.Live id ∨ ∃ kind, c.kind? id = some kind ∧ (kind.isGate || kind.isUndefined) = false

/-- What sweeping leaves. The nodes that stay lose consumers, and nothing else. -/
structure Swept (c d : Circuit) : Prop where
  inputs : d.inputs = c.inputs
  outputs : d.outputs = c.outputs
  maxVar : d.maxVar = c.maxVar
  wellFormed : d.WellFormed
  unread : ∀ {id}, c.Stays id → (d.node? id).map Node.unread = (c.node? id).map Node.unread
  missing : ∀ {id}, ¬ c.Stays id → d.node? id = none

/-- Sweeping never fails, and leaves the live nodes, the constant, the inputs and the outputs. -/
theorem WellFormed.exists_swept (hc : c.WellFormed) :
    ∃ ids d, Circuit.sweep c = .ok ids d ∧ c.Swept d := by
  obtain ⟨ids, d, hsweep, hremove, hwithout, hd⟩ := hc.exists_sweep
  obtain ⟨dead, hdead, hmem⟩ := hc.exists_dead
  obtain rfl : ids = dead := Except.ok.inj ((sweep_eq_ok_iff.1 hsweep).1.symm.trans hdead)
  obtain ⟨_, rfl⟩ := remove_eq_ok_iff.1 hremove
  have hstays : ∀ {id}, c.Stays id ↔ id ∉ ids ∧ (c.kind? id).isSome = true := by
    intro id
    rw [hmem, Stays]
    constructor
    · rintro (hlive | ⟨kind, hkind, hother⟩)
      · exact ⟨fun h => h.1 hlive, hlive.isSome hc⟩
      · refine ⟨?_, by simp [hkind]⟩
        rintro ⟨_, kind', hkind', hgate⟩
        obtain rfl := Option.some.inj (hkind.symm.trans hkind')
        rw [hother] at hgate
        cases hgate
    · rintro ⟨hkept, hsome⟩
      obtain ⟨kind, hkind⟩ := Option.isSome_iff_exists.1 hsome
      refine or_iff_not_imp_left.2 fun hdead => ⟨kind, hkind, ?_⟩
      rw [Bool.eq_false_iff]
      exact fun hgate => hkept ⟨hdead, kind, hkind, hgate⟩
  refine ⟨ids, _, hsweep, hwithout.inputs, hwithout.outputs, hwithout.maxVar, hd, fun hid => ?_,
    fun {id} hid => ?_⟩
  · rw [unread_foldl_erase, if_neg (hstays.1 hid).1]
  · rw [← kind?_eq_none_iff, hwithout.kind?]
    split
    · rfl
    · next hkept => simpa [hkept] using mt hstays.2 hid

namespace Swept

variable {source consumer : NodeId}

theorem kind?_of_stays (h : c.Swept d) {id : NodeId} (hid : c.Stays id) :
    d.kind? id = c.kind? id := by
  have hkind := congrArg (Option.map Node.kind) (h.unread hid)
  rwa [Option.map_map, Option.map_map] at hkind

theorem stays_of_isSome (h : c.Swept d) {id : NodeId} (hid : (d.kind? id).isSome = true) :
    c.Stays id := by
  by_contra hgone
  rw [isSome_kind?, h.missing hgone] at hid
  cases hid

/-- The edges that stay are those of the live nodes. -/
theorem feeds_iff (h : c.Swept d) (hc : c.WellFormed) :
    d.Feeds source consumer ↔ c.Feeds source consumer ∧ c.Live consumer := by
  constructor
  · rintro ⟨kind, hkind, hedge⟩
    have hstays : c.Stays consumer := h.stays_of_isSome (by simp [hkind])
    rw [h.kind?_of_stays hstays] at hkind
    refine ⟨⟨kind, hkind, hedge⟩, hstays.elim id ?_⟩
    rintro ⟨kind', hkind', hother⟩
    obtain rfl := Option.some.inj (hkind.symm.trans hkind')
    obtain ⟨e, he, _⟩ := hedge
    cases kind with
    | output fanin => exact ⟨consumer, hc.mem_outputs.2 ⟨fanin, hkind⟩, ReflTransGen.refl⟩
    | gate left right => cases hother
    | _ => cases he
  · rintro ⟨⟨kind, hkind, hedge⟩, hlive⟩
    exact ⟨kind, (h.kind?_of_stays (.inl hlive)).trans hkind, hedge⟩

/-- After sweeping there is a cycle only if live nodes made one. -/
theorem acyclic_iff (h : c.Swept d) (hc : c.WellFormed) : d.Acyclic ↔ c.LiveAcyclic := by
  constructor
  · intro hd id hlive hcycle
    -- All nodes of a cycle through a live node are live.
    have hstays : ∀ other, TransGen c.Feeds other id → TransGen d.Feeds other id := by
      intro other hpath
      induction hpath using TransGen.head_induction_on with
      | single hfeeds => exact .single ((h.feeds_iff hc).2 ⟨hfeeds, hlive⟩)
      | head hfeeds hpath ih =>
        obtain ⟨output, houtput, hreach⟩ := hlive
        have hmiddle : c.Live _ := ⟨output, houtput, hpath.to_reflTransGen.trans hreach⟩
        exact .head ((h.feeds_iff hc).2 ⟨hfeeds, hmiddle⟩) ih
    exact hd id (hstays id hcycle)
  · intro hlive id hcycle
    obtain ⟨reader, _, hlast⟩ := TransGen.tail'_iff.1 hcycle
    refine hlive id ((h.feeds_iff hc).1 hlast).2 ?_
    exact TransGen.mono (fun _ _ hfeeds => ((h.feeds_iff hc).1 hfeeds).1) _ _ hcycle

/-- Sweeping leaves the live nodes in place. -/
theorem relabeled (h : c.Swept d) : c.Relabeled id d where
  outputs := by rw [h.outputs, List.map_id]
  injective _ _ heq := heq
  label_of_feeds _ := rfl
  kind? hlive := h.kind?_of_stays (.inl hlive)

theorem liveOrder (h : c.Swept d) (hc : c.WellFormed) {order : List NodeId}
    (horder : c.liveOrder = .ok order) : d.liveOrder = .ok order := by
  rw [h.relabeled.liveOrder hc h.wellFormed.own_id horder, List.map_id]

theorem live_iff (h : c.Swept d) (hc : c.WellFormed) {id : NodeId} : d.Live id ↔ c.Live id := by
  obtain ⟨order, horder, hlive⟩ := hc.exists_liveOrder
  have hdlive := h.wellFormed.isLiveOrder (h.liveOrder hc horder)
  rw [← hdlive.mem_iff, hlive.mem_iff]

end Swept

end Circuit

end AndInverter
