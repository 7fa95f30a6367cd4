import AndInverter.Circuit.Sweep
import AndInverter.Proofs.WellFormed.Redirect
import Mathlib.Tactic.ByContra

namespace AndInverter.Circuit

/-- The second circuit is the first one without some nodes, and without what their fanins knew
    of them. -/
structure Without (c : Circuit) (gone : List NodeId) (d : Circuit) : Prop where
  inputs : d.inputs = c.inputs
  outputs : d.outputs = c.outputs
  maxVar : d.maxVar = c.maxVar
  classes : d.classes = c.classes
  own_id : ∀ {id n}, d.node? id = some n → n.id = id
  kind? : ∀ id, d.kind? id = if id ∈ gone then none else c.kind? id
  lists : ∀ source consumer,
    d.Lists source consumer ↔ c.Lists source consumer ∧ source ∉ gone ∧ consumer ∉ gone

/-- Takes out a node and leaves the fanouts of its fanins as they are. -/
def eraseNode (c : Circuit) (id : NodeId) : Circuit := { c with nodes := c.nodes.erase id }

theorem node?_eraseNode (c : Circuit) (id other : NodeId) :
    (c.eraseNode id).node? other = if id = other then none else c.node? other := by
  simp [node?, eraseNode, Std.TreeMap.getElem?_erase]

theorem kind?_eraseNode (c : Circuit) (id other : NodeId) :
    (c.eraseNode id).kind? other = if id = other then none else c.kind? other := by
  rw [kind?, node?_eraseNode]
  split <;> rfl

theorem lists_eraseNode (c : Circuit) (id source consumer : NodeId) :
    (c.eraseNode id).Lists source consumer ↔ id ≠ source ∧ c.Lists source consumer := by
  unfold Lists
  rw [node?_eraseNode]
  split <;> simp_all

theorem kind?_foldl_dropFanout (c : Circuit) (consumer id : NodeId) (edges : List Edge) :
    (edges.foldl (fun c e => c.dropFanout consumer e.node) c).kind? id = c.kind? id := by
  induction edges generalizing c with
  | nil => rfl
  | cons e edges ih => rw [List.foldl_cons, ih, kind?_dropFanout]

theorem lists_foldl_dropFanout (c : Circuit) (consumer source other : NodeId)
    (edges : List Edge) :
    (edges.foldl (fun c e => c.dropFanout consumer e.node) c).Lists source other ↔
      c.Lists source other ∧ ¬ ((∃ e ∈ edges, e.node = source) ∧ consumer = other) := by
  induction edges generalizing c with
  | nil => simp
  | cons e edges ih =>
    rw [List.foldl_cons, ih, lists_dropFanout]
    simp only [List.mem_cons, exists_eq_or_imp]
    simp only [or_and_right, not_or, and_assoc]

theorem own_id_foldl_dropFanout {c : Circuit} (hc : ∀ {id n}, c.node? id = some n → n.id = id)
    (consumer : NodeId) (edges : List Edge) {id : NodeId} {n : Node}
    (hn : (edges.foldl (fun c e => c.dropFanout consumer e.node) c).node? id = some n) :
    n.id = id := by
  induction edges generalizing c with
  | nil => exact hc hn
  | cons e edges ih =>
    have hdrop : ∀ {id n}, (c.dropFanout consumer e.node).node? id = some n → n.id = id :=
      fun hm => own_id_update hc hm fun _ => rfl
    exact ih hdrop hn

theorem foldl_dropFanout_lists (c : Circuit) (consumer : NodeId) (edges : List Edge) :
    let d := edges.foldl (fun c e => c.dropFanout consumer e.node) c
    d.inputs = c.inputs ∧ d.outputs = c.outputs ∧ d.maxVar = c.maxVar ∧ d.classes = c.classes := by
  induction edges generalizing c with
  | nil => exact ⟨rfl, rfl, rfl, rfl⟩
  | cons e edges ih => exact ih (c.dropFanout consumer e.node)

variable {c d : Circuit} {ids gone : List NodeId}

theorem Without.refl (hc : c.Indexed) : c.Without [] c :=
  ⟨rfl, rfl, rfl, rfl, hc.own_id, by simp, by simp⟩

theorem erase_of_missing {id : NodeId} (hn : d.node? id = none) : d.erase id = d := by
  unfold Circuit.erase
  rw [hn]

theorem erase_of_node? {id : NodeId} {n : Node} (hn : d.node? id = some n) :
    d.erase id = n.fanins.foldl (fun d e => d.dropFanout id e.node) (d.eraseNode id) := by
  unfold Circuit.erase
  rw [hn]
  rfl

theorem Without.mem_of_missing (hd : c.Without gone d) {id : NodeId} (hn : d.node? id = none)
    (hkind : (c.kind? id).isSome = true) : id ∈ gone := by
  by_contra hstays
  have hold := hd.kind? id
  rw [kind?_eq_none_iff.2 hn, if_neg hstays] at hold
  rw [← hold] at hkind
  cases hkind

/-- What is not there has gone already. -/
theorem Without.of_missing (hc : c.WellFormed) (hd : c.Without gone d) {id : NodeId}
    (hn : d.node? id = none) : c.Without (id :: gone) d := by
  refine ⟨hd.inputs, hd.outputs, hd.maxVar, hd.classes, hd.own_id, fun other => ?_, ?_⟩
  · rw [hd.kind?]
    by_cases heq : other = id
    · subst heq
      rw [← hd.kind?, kind?_eq_none_iff.2 hn, if_pos List.mem_cons_self]
    · simp [heq]
  · intro source consumer
    rw [hd.lists, List.mem_cons, List.mem_cons, not_or, not_or]
    refine and_congr_right fun hlists => ?_
    obtain ⟨kind, hkind, _⟩ := hc.mirror.2 hlists
    obtain ⟨n, hsourceNode, _⟩ := hlists
    have hsourceGone : source = id → source ∈ gone := by
      rintro rfl
      exact hd.mem_of_missing hn (by simp [kind?_of_node? hsourceNode])
    have hconsumerGone : consumer = id → consumer ∈ gone := by
      rintro rfl
      exact hd.mem_of_missing hn (by simp [hkind])
    tauto

/-- A node that is taken out is struck from the fanouts of those that it reads, and these are all
    that list it. -/
theorem Without.lists_erase (hc : c.WellFormed) (hd : c.Without gone d) {id : NodeId} {n : Node}
    (hn : d.node? id = some n) (source consumer : NodeId) :
    (d.erase id).Lists source consumer ↔
      c.Lists source consumer ∧ source ∉ id :: gone ∧ consumer ∉ id :: gone := by
  rw [erase_of_node? hn, lists_foldl_dropFanout, lists_eraseNode, hd.lists, List.mem_cons,
    List.mem_cons, not_or, not_or]
  constructor
  · rintro ⟨⟨hne, hlisted, hsource, hconsumer⟩, hkept⟩
    refine ⟨hlisted, ⟨Ne.symm hne, hsource⟩, ?_, hconsumer⟩
    rintro rfl
    obtain ⟨kind, hkind, hedge⟩ := hc.mirror.2 hlisted
    have hold := hd.kind? consumer
    rw [kind?_of_node? hn, if_neg hconsumer, hkind] at hold
    obtain rfl := Option.some.inj hold
    exact hkept ⟨hedge, rfl⟩
  · rintro ⟨hlisted, ⟨hne, hsource⟩, hother, hconsumer⟩
    exact ⟨⟨Ne.symm hne, hlisted, hsource, hconsumer⟩, fun h => hother h.2.symm⟩

/-- Nodes are taken out one by one. The ones that go later may still read the ones that went
    before, so the circuits on the way need not be well-formed. -/
theorem Without.erase (hc : c.WellFormed) (hd : c.Without gone d) (id : NodeId) :
    c.Without (id :: gone) (d.erase id) := by
  cases hn : d.node? id with
  | none =>
    rw [erase_of_missing hn]
    exact hd.of_missing hc hn
  | some n =>
    have herased : ∀ {other m}, (d.eraseNode id).node? other = some m → m.id = other := by
      intro other m hm
      rw [node?_eraseNode] at hm
      split at hm
      · cases hm
      · exact hd.own_id hm
    obtain ⟨hinputs, houtputs, hmaxVar, hclasses⟩ :=
      foldl_dropFanout_lists (d.eraseNode id) id n.fanins
    have hlists := hd.lists_erase hc hn
    rw [erase_of_node? hn] at hlists ⊢
    refine ⟨hinputs.trans hd.inputs, houtputs.trans hd.outputs, hmaxVar.trans hd.maxVar,
      hclasses.trans hd.classes, fun hm => own_id_foldl_dropFanout herased id n.fanins hm,
      fun other => ?_, hlists⟩
    rw [kind?_foldl_dropFanout, kind?_eraseNode, hd.kind?]
    by_cases heq : id = other
    · simp [heq]
    · simp [heq, Ne.symm heq]

theorem Without.foldl_erase (hc : c.WellFormed) (hd : c.Without gone d) :
    c.Without (ids.reverse ++ gone) (ids.foldl Circuit.erase d) := by
  induction ids generalizing gone d with
  | nil => exact hd
  | cons id ids ih =>
    rw [List.foldl_cons, List.reverse_cons, List.append_assoc]
    exact ih (hd.erase hc id)

/-- A node may be removed if it is a gate or undefined and all that read it leave as well. -/
theorem checkRemovable_eq_ok_iff {leaving : List NodeId} {id : NodeId} :
    c.checkRemovable leaving id = .ok () ↔
      ∃ n, c.node? id = some n ∧ (n.kind.isGate || n.kind.isUndefined) = true ∧
        ∀ consumer ∈ n.fanouts, consumer ∈ leaving := by
  unfold checkRemovable
  rw [except_bind_eq_ok_iff]
  refine exists_congr fun n => and_congr node_eq_ok_iff ?_
  cases hkind : (n.kind.isGate || n.kind.isUndefined) with
  | false => simp [Bind.bind, Except.bind, throw, throwThe, MonadExceptOf.throw]
  | true =>
    simp only [if_true, Bind.bind, Except.bind, pure, Except.pure, true_and]
    cases hfind : n.fanouts.toList.find? (!leaving.contains ·) with
    | some consumer =>
      have hmem := Std.TreeSet.mem_toList.1 (List.mem_of_find?_eq_some hfind)
      have hstays : consumer ∉ leaving := by simpa using List.find?_some hfind
      simp only [throw, throwThe, MonadExceptOf.throw, reduceCtorEq, false_iff]
      exact fun hall => hstays (hall consumer hmem)
    | none =>
      simp only [List.find?_eq_none, Std.TreeSet.mem_toList] at hfind
      simpa using hfind

theorem remove_eq_ok_iff :
    c.remove ids = .ok d ↔
      (∀ id ∈ ids, c.checkRemovable ids id = .ok ()) ∧ d = ids.foldl Circuit.erase c := by
  unfold remove
  rw [except_bind_eq_ok_iff]
  constructor
  · rintro ⟨⟨⟩, hcheck, hd⟩
    exact ⟨except_forM_eq_ok_iff.1 hcheck, (Except.ok.inj hd).symm⟩
  · rintro ⟨hcheck, rfl⟩
    exact ⟨(), except_forM_eq_ok_iff.2 hcheck, rfl⟩

theorem Without.kind?_eq_some_iff (h : c.Without gone d) {id : NodeId} {kind : Kind} :
    d.kind? id = some kind ↔ id ∉ gone ∧ c.kind? id = some kind := by
  rw [h.kind?]
  split
  · next hgoes => simp [hgoes]
  · next hstays => simp [hstays]

theorem Without.feeds (h : c.Without gone d) {source consumer : NodeId} :
    d.Feeds source consumer ↔ c.Feeds source consumer ∧ consumer ∉ gone := by
  simp only [Feeds, h.kind?_eq_some_iff, and_assoc, exists_and_left]
  exact and_comm

/-- Neither the constant nor an input nor an output goes. -/
theorem Without.indexed (h : c.Without gone d) (hc : c.Indexed)
    (hgone : ∀ {id kind}, id ∈ gone → c.kind? id = some kind →
      (kind.isGate || kind.isUndefined) = true) : d.Indexed := by
  have hkept : ∀ {id kind}, (kind.isGate || kind.isUndefined) = false →
      (d.kind? id = some kind ↔ c.kind? id = some kind) := by
    intro id kind hother
    rw [h.kind?_eq_some_iff, and_iff_right_iff_imp]
    intro hkind hid
    rw [hgone hid hkind] at hother
    cases hother
  refine ⟨h.own_id, ?_, ?_, ?_, ?_, ?_, ?_⟩
  · intro id
    rw [hkept rfl, hc.constant_iff]
  · exact h.inputs ▸ hc.inputs_sorted
  · intro id
    rw [h.inputs, hc.mem_inputs]
    exact exists_congr fun inverted => (hkept rfl).symm
  · exact h.outputs ▸ hc.outputs_sorted
  · intro id
    rw [h.outputs, hc.mem_outputs]
    exact exists_congr fun fanin => (hkept rfl).symm
  · intro id kind hkind houtput
    rw [h.maxVar]
    exact hc.id_le (h.kind?_eq_some_iff.1 hkind).2 houtput

/-- Gates may go when no node that stays reads them, and so may nodes without a meaning. -/
theorem Without.wellFormed (h : c.Without gone d) (hc : c.WellFormed)
    (hgone : ∀ {id kind}, id ∈ gone → c.kind? id = some kind →
      (kind.isGate || kind.isUndefined) = true)
    (hclosed : ∀ {source consumer}, c.Feeds source consumer → consumer ∉ gone → source ∉ gone) :
    d.WellFormed := by
  refine ⟨h.indexed hc.toIndexed hgone, ?_, ?_⟩
  · intro id kind hkind e he
    obtain ⟨hstays, hkind⟩ := h.kind?_eq_some_iff.1 hkind
    obtain ⟨source, hsource, houtput⟩ := hc.fanin hkind e he
    have hsourceStays := hclosed ⟨kind, hkind, e, he, rfl⟩ hstays
    exact ⟨source, by rw [h.kind?, if_neg hsourceStays, hsource], houtput⟩
  · intro source consumer
    rw [h.lists, ← hc.mirror, h.feeds]
    constructor
    · intro hfeeds
      exact ⟨hfeeds.1, hclosed hfeeds.1 hfeeds.2, hfeeds.2⟩
    · intro hfeeds
      exact ⟨hfeeds.1, hfeeds.2.2⟩

/-- What may be removed are gates and nodes without a meaning that no node that stays reads. -/
theorem WellFormed.of_remove (hc : c.WellFormed) (hremove : c.remove ids = .ok d) :
    c.Without ids d ∧ d.WellFormed := by
  obtain ⟨hcheck, rfl⟩ := remove_eq_ok_iff.1 hremove
  have hfold : c.Without (ids.reverse ++ []) (ids.foldl Circuit.erase c) :=
    (Without.refl hc.toIndexed).foldl_erase hc
  have hwithout : c.Without ids (ids.foldl Circuit.erase c) := by
    refine ⟨hfold.inputs, hfold.outputs, hfold.maxVar, hfold.classes, hfold.own_id, ?_, ?_⟩
    · intro id
      simpa using hfold.kind? id
    · intro source consumer
      simpa using hfold.lists source consumer
  refine ⟨hwithout, hwithout.wellFormed hc ?_ ?_⟩
  · intro id kind hid hkind
    obtain ⟨n, hn, hgate, _⟩ := checkRemovable_eq_ok_iff.1 (hcheck id hid)
    rw [kind?_of_node? hn] at hkind
    exact Option.some.inj hkind ▸ hgate
  · intro source consumer hfeeds hstays hgoes
    obtain ⟨n, hn, _, hconsumers⟩ := checkRemovable_eq_ok_iff.1 (hcheck source hgoes)
    exact hstays (hconsumers consumer ((lists_iff_mem hn consumer).1 (hc.mirror.1 hfeeds)))

end AndInverter.Circuit
