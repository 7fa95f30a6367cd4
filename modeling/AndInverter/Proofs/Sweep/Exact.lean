import AndInverter.Proofs.LiveGates
import AndInverter.Proofs.LiveCone
import AndInverter.Proofs.Session
import AndInverter.Report

open Relation

namespace AndInverter.Circuit

/-- The second circuit is the first one without some nodes. The nodes that stay lose these
    consumers, and nothing else. -/
structure Purged (c : Circuit) (gone : List NodeId) (d : Circuit) : Prop where
  inputs : d.inputs = c.inputs
  outputs : d.outputs = c.outputs
  maxVar : d.maxVar = c.maxVar
  classes : d.classes = c.classes
  unread : ∀ id, (d.node? id).map Node.unread =
    if id ∈ gone then none else (c.node? id).map Node.unread
  fanouts : ∀ id n m, c.node? id = some n → d.node? id = some m →
    m.fanouts.toList = n.fanouts.toList.filter (!gone.contains ·)

variable {c d : Circuit} {ids : List NodeId} {id : NodeId} {kind : Kind}

/-- A removal strikes the nodes that go from all fanouts, and changes nothing else. -/
theorem WellFormed.purged_of_remove (hc : c.WellFormed) (hremove : c.remove ids = .ok d) :
    c.Purged ids d := by
  obtain ⟨hwithout, _⟩ := hc.of_remove hremove
  obtain ⟨_, rfl⟩ := remove_eq_ok_iff.1 hremove
  refine ⟨hwithout.inputs, hwithout.outputs, hwithout.maxVar, hwithout.classes,
    unread_foldl_erase c ids, fun id n m hn hm => ?_⟩
  have hstays : id ∉ ids := by
    intro hgone
    have hkind := hwithout.kind? id
    rw [kind?_of_node? hm, if_pos hgone] at hkind
    cases hkind
  refine eq_of_sorted (sorted_toList m.fanouts) ((sorted_toList n.fanouts).filter _) ?_
  intro consumer
  rw [List.mem_filter, Std.TreeSet.mem_toList, Std.TreeSet.mem_toList, ← lists_iff_mem hm,
    ← lists_iff_mem hn, hwithout.lists]
  simp [hstays]

/-- What a sweep takes out: the gates and undefined nodes that no output depends on. -/
def Dies (c : Circuit) (id : NodeId) : Prop :=
  (∃ kind, c.kind? id = some kind ∧ (kind.isGate || kind.isUndefined) = true) ∧ ¬ c.Live id

/-- What a sweep that succeeds has done: the ids are in order, and they are those of the nodes that
    die. -/
theorem WellFormed.of_sweep (hc : c.WellFormed) (hsweep : Circuit.sweep c = .ok ids d) :
    c.Swept d ∧ c.Purged ids d ∧ ids.Pairwise (· < ·) ∧ ∀ id, id ∈ ids ↔ c.Dies id := by
  obtain ⟨hdead, hremove⟩ := sweep_eq_ok_iff.1 hsweep
  obtain ⟨_, _, hsweep', hswept⟩ := hc.exists_swept
  obtain ⟨rfl, rfl⟩ := EStateM.Result.ok.inj (hsweep'.symm.trans hsweep)
  refine ⟨hswept, hc.purged_of_remove hremove, ?_, ?_⟩
  · obtain ⟨order, _, hids⟩ := except_bind_eq_ok_iff.1 hdead
    obtain rfl := Except.ok.inj hids
    exact hc.sorted_idsWhere _
  · obtain ⟨found, hfound, hmem⟩ := hc.exists_dead
    obtain rfl := Except.ok.inj (hdead.symm.trans hfound)
    exact fun id => (hmem id).trans and_comm

/-- After a sweep nothing is left to be taken out. -/
theorem Swept.not_dies (h : c.Swept d) (hc : c.WellFormed) : ¬ d.Dies id := by
  rintro ⟨⟨kind, hkind, hgate⟩, hdead⟩
  have hstays : c.Stays id := h.stays_of_isSome (by simp [hkind])
  rw [h.kind?_of_stays hstays] at hkind
  rcases hstays with hlive | ⟨kind', hkind', hother⟩
  · exact hdead ((h.live_iff hc).2 hlive)
  · obtain rfl := Option.some.inj (hkind.symm.trans hkind')
    rw [hgate] at hother
    cases hother

theorem WellFormed.sweep_eq_nil (hc : c.WellFormed) (hnone : ∀ id, ¬ c.Dies id) :
    Circuit.sweep c = .ok [] c := by
  obtain ⟨ids, d, hsweep, hremove, _⟩ := hc.exists_sweep
  obtain ⟨_, _, _, hmem⟩ := hc.of_sweep hsweep
  obtain rfl : ids = [] := List.eq_nil_iff_forall_not_mem.2 fun id hid => hnone id ((hmem id).1 hid)
  obtain ⟨_, rfl⟩ := remove_eq_ok_iff.1 hremove
  exact hsweep

/-- A gate that nothing reads is dead, so where all gates are live only inputs are unused. -/
theorem WellFormed.mem_inputs_of_unused (hc : c.WellFormed) (hlive : ∀ id, c.IsGate id → c.Live id)
    (hid : id ∈ Report.unused c) : id ∈ c.inputs := by
  obtain ⟨n, hn, hunused⟩ := hc.mem_idsWhere.1 hid
  obtain ⟨hkind, hempty⟩ := Bool.and_eq_true_iff.1 hunused
  rcases Bool.or_eq_true_iff.1 hkind with hinput | hgate
  · have hkind := kind?_of_node? hn
    generalize n.kind = kind at hinput hkind
    cases kind with
    | input inverted => exact hc.mem_inputs.2 ⟨inverted, hkind⟩
    | _ => cases hinput
  · have hisGate : c.IsGate id := ⟨n.kind, kind?_of_node? hn, hgate⟩
    have hliveGate : c.LiveGate id := ⟨hlive id hisGate, hisGate⟩
    obtain ⟨consumer, hfeeds⟩ := hliveGate.exists_feeds hc
    have hconsumer := (lists_iff_mem hn consumer).1 (hc.mirror.1 hfeeds)
    exact absurd hconsumer (Std.TreeSet.not_mem_of_isEmpty hempty)

/-- In any session, also when there are cycles: sweeping succeeds. It takes out the gates and
    undefined nodes that no output depends on, and tells them in ascending order. The other nodes
    lose the record of these consumers and nothing else, and no edge and no fanout leads to a node
    that is gone. The gates that are left are live, only inputs are unused, and a second sweep finds
    nothing. -/
theorem sweep_exact (ops : List Operation) :
    ∃ ids d, Circuit.sweep (empty.after ops) = .ok ids d ∧ ids.Pairwise (· < ·) ∧
      (∀ id, id ∈ ids ↔ (empty.after ops).Dies id) ∧ (empty.after ops).Purged ids d ∧
      (∀ source consumer, d.Feeds source consumer ∨ d.Lists source consumer →
        source ∉ ids ∧ consumer ∉ ids) ∧
      (∀ id, d.IsGate id → d.Live id) ∧ (∀ id ∈ Report.unused d, id ∈ d.inputs) ∧
      Circuit.sweep d = .ok [] d := by
  have hc := wellFormed_after ops
  obtain ⟨ids, d, hsweep, _, hwithout, hd⟩ := hc.exists_sweep
  obtain ⟨hswept, hpurged, hsorted, hmem⟩ := hc.of_sweep hsweep
  have hlive : ∀ id, d.IsGate id → d.Live id := by
    rintro id ⟨kind, hkind, hgate⟩
    by_contra hdead
    exact hswept.not_dies hc ⟨⟨kind, hkind, by simp [hgate]⟩, hdead⟩
  refine ⟨ids, d, hsweep, hsorted, hmem, hpurged, fun source consumer hedge => ?_, hlive,
    fun id hid => hd.mem_inputs_of_unused hlive hid, hd.sweep_eq_nil fun id => hswept.not_dies hc⟩
  rw [hd.mirror, or_self, hwithout.lists] at hedge
  exact hedge.2

end AndInverter.Circuit
