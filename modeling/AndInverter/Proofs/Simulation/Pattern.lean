import AndInverter.Proofs.LiveCone

namespace AndInverter.Circuit

variable {c d : Circuit} {order : List NodeId} {pattern : List Bool}

/-- A pattern gives each live node its value under the stimulus that it stands for. -/
theorem WellFormed.signal_applyPattern (hc : c.WellFormed) (hacyclic : c.Acyclic)
    (hlive : c.IsLiveOrder order) (pattern : List Bool) {e : Edge} (he : c.Live e.node) :
    (c.applyPattern order pattern).signal e = e.signal (c.value (c.stimulusOf pattern)) := by
  have hshape := (Simulated.applyBits c (c.inputs.zip pattern)).toSameShape
  have hdwell := hshape.wellFormed hc
  have hdacyclic := hshape.acyclic hacyclic
  have hdlive := hlive.sameShape hshape
  obtain ⟨kind, hkind⟩ := Option.isSome_iff_exists.1 ((hshape.live.2 he).isSome hdwell)
  obtain ⟨n, hn, _⟩ := kind?_eq_some_iff.1 hkind
  have hmem : e.node ∈ order.reverse := List.mem_reverse.2 (hlive.mem_iff.2 he)
  rw [Circuit.applyPattern, signal, hdwell.node?_settleLive hdacyclic hdlive, hn, Option.map_some,
    Option.any_some, hdwell.value_settledNode hdacyclic hn hmem, hc.stimulus_applyBits,
    hshape.value hc hacyclic]
  rfl

/-- The circuits have the same inputs, and on a set of nodes the same kinds and values. -/
structure AgreesOn (s : NodeId → Prop) (c d : Circuit) : Prop where
  inputs : d.inputs = c.inputs
  node? : ∀ {id}, s id → (d.node? id).map (fun n => (n.kind, n.value)) =
    (c.node? id).map (fun n => (n.kind, n.value))

namespace AgreesOn

variable {s : NodeId → Prop} {id : NodeId}

theorem kind? (h : c.AgreesOn s d) (hid : s id) : d.kind? id = c.kind? id := by
  have hkind := congrArg (Option.map Prod.fst) (h.node? hid)
  rwa [Option.map_map, Option.map_map] at hkind

theorem signal (h : c.AgreesOn s d) {e : Edge} (he : s e.node) : d.signal e = c.signal e := by
  have hvalue := congrArg (Option.any Prod.snd) (h.node? he)
  rw [Option.any_map, Option.any_map] at hvalue
  exact congrArg (· ^^ e.inverted) hvalue

/-- Recording the same in both circuits keeps them in agreement. -/
theorem update_record (h : c.AgreesOn s d) (id : NodeId) (value : Kind → Bool) :
    (c.update id fun n => n.record (value n.kind)).AgreesOn s
      (d.update id fun n => n.record (value n.kind)) where
  inputs := h.inputs
  node? {other} hother := by
    rw [node?_update, node?_update]
    split
    · next heq =>
      subst heq
      have hkind := congrArg (Option.map fun k => (k, value k)) (h.kind? hother)
      rw [Circuit.kind?, Circuit.kind?, Option.map_map, Option.map_map] at hkind
      rw [Option.map_map, Option.map_map]
      exact hkind
    · exact h.node? hother

theorem valueOf? (h : c.AgreesOn s d) {kind : Kind} (hfanins : ∀ e ∈ kind.fanins, s e.node) :
    d.valueOf? kind = c.valueOf? kind := by
  cases kind with
  | output fanin => exact congrArg some (h.signal (hfanins fanin List.mem_cons_self))
  | gate left right =>
    have hleft := h.signal (hfanins left List.mem_cons_self)
    have hright := h.signal (hfanins right (List.mem_cons_of_mem left List.mem_cons_self))
    rw [Circuit.valueOf?, Circuit.valueOf?, hleft, hright]
  | _ => rfl

/-- Settling a node in both circuits keeps them in agreement where all that feeds it does agree. -/
theorem settle (h : c.AgreesOn s d) (hid : s id)
    (hclosed : ∀ source, c.Feeds source id → s source) :
    (c.settle id).AgreesOn s (d.settle id) := by
  have hvalue : ∀ e : Circuit, (e.node? id).bind (e.valueOf? ·.kind) =
      (e.kind? id).bind e.valueOf? := by
    intro e
    rw [Circuit.kind?, Option.bind_map]
    rfl
  have hsame : (d.kind? id).bind d.valueOf? = (c.kind? id).bind c.valueOf? := by
    rw [h.kind? hid]
    cases hkind : c.kind? id with
    | none => rfl
    | some kind =>
      exact h.valueOf? fun e he => hclosed e.node ⟨kind, hkind, e, he, rfl⟩
  unfold Circuit.settle
  rw [hvalue, hvalue, hsame]
  split
  · next value _ => exact h.update_record id fun _ => value
  · exact h

theorem applyBits (h : c.AgreesOn s d) (bits : List (NodeId × Bool)) :
    (c.applyBits bits).AgreesOn s (d.applyBits bits) := by
  unfold Circuit.applyBits
  induction bits generalizing c d with
  | nil => exact h
  | cons bit bits ih => exact ih (h.update_record bit.1 fun k => bit.2 ^^ k == .input true)

theorem settleAll (h : c.AgreesOn s d) (hclosed : ∀ id source, s id → c.Feeds source id → s source)
    (horder : ∀ id ∈ order, s id) :
    (order.foldl Circuit.settle c).AgreesOn s (order.foldl Circuit.settle d) := by
  induction order generalizing c d with
  | nil => exact h
  | cons id order ih =>
    obtain ⟨hid, horder⟩ := List.forall_mem_cons.1 horder
    refine ih (h.settle hid fun source => hclosed id source hid)
      (fun other source hother hfeeds => ?_) horder
    exact hclosed other source hother ((Simulated.settle c id).feeds.1 hfeeds)

/-- A pattern does the same on a set of nodes that holds all fanins of its nodes. -/
theorem applyPattern (h : c.AgreesOn s d) (hclosed : ∀ id source, s id → c.Feeds source id → s source)
    (horder : ∀ id ∈ order, s id) (pattern : List Bool) :
    (c.applyPattern order pattern).AgreesOn s (d.applyPattern order pattern) := by
  rw [Circuit.applyPattern, Circuit.applyPattern, h.inputs]
  refine (h.applyBits _).settleAll (fun id source hid hfeeds => ?_) horder
  exact hclosed id source hid ((Simulated.applyBits c _).feeds.1 hfeeds)

end AgreesOn

namespace Swept

theorem agreesOn (h : c.Swept d) : c.AgreesOn c.Live d where
  inputs := h.inputs
  node? hlive := by
    have hnode := congrArg (Option.map fun n => (n.kind, n.value)) (h.unread (.inl hlive))
    rwa [Option.map_map, Option.map_map] at hnode

/-- A pattern gives each live node its value in what sweeping leaves, where no cycle is left that
    could disturb the values. -/
theorem signal_applyPattern (h : c.Swept d) (hc : c.WellFormed) (hlive : c.LiveAcyclic)
    (horder : c.liveOrder = .ok order) (pattern : List Bool) {e : Edge} (he : c.Live e.node) :
    (c.applyPattern order pattern).signal e = e.signal (d.value (d.stimulusOf pattern)) := by
  obtain ⟨order', hdorder, hdlive⟩ := h.wellFormed.exists_liveOrder
  obtain rfl := Except.ok.inj ((h.liveOrder hc horder).symm.trans hdorder)
  have hagree := h.agreesOn.applyPattern (fun id source hid hfeeds => hid.of_feeds hfeeds)
    (fun id hid => (h.live_iff hc).1 (hdlive.mem_iff.1 hid)) pattern
  rw [← hagree.signal he]
  exact h.wellFormed.signal_applyPattern ((h.acyclic_iff hc).2 hlive) hdlive pattern
    ((h.live_iff hc).2 he)

end Swept

end AndInverter.Circuit
