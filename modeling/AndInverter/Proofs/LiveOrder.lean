import AndInverter.Proofs.DepthFirst

open Relation

namespace AndInverter.Circuit

/-- The live nodes, each once. Without cycles a node comes after its fanins. -/
structure IsLiveOrder (c : Circuit) (order : List NodeId) : Prop where
  nodup : order.Nodup
  mem_iff : ∀ {id}, id ∈ order ↔ c.Live id
  topological : c.Acyclic → c.Topological order.reverse

/-- The latest node comes first, and each node comes after its fanins, except for those that depend
    on it in turn. -/
def Postordered (c : Circuit) : List NodeId → Prop
  | [] => True
  | id :: earlier =>
    (∀ source, c.Feeds source id → source ∈ earlier ∨ TransGen c.Feeds id source) ∧
      c.Postordered earlier

variable {c d : Circuit} {order : List NodeId}

theorem Topological.of_feeds {ids : List NodeId} (h : c.Topological ids)
    (hfeeds : ∀ id ∈ ids, ∀ source, d.Feeds source id → c.Feeds source id) : d.Topological ids := by
  induction ids with
  | nil => trivial
  | cons id earlier ih =>
    obtain ⟨hid, hearlier⟩ := List.forall_mem_cons.1 hfeeds
    exact ⟨fun source hsource => h.1 source (hid source hsource), ih h.2 hearlier⟩

theorem Topological.sameShape {ids : List NodeId} (h : c.Topological ids) (hd : c.SameShape d) :
    d.Topological ids :=
  h.of_feeds fun _ _ _ => hd.feeds.1

theorem SameShape.live (h : c.SameShape d) {id : NodeId} : d.Live id ↔ c.Live id := by
  have hfeeds : d.Feeds = c.Feeds := by
    funext source consumer
    exact propext h.feeds
  rw [Live, Live, h.outputs, hfeeds]

theorem IsLiveOrder.mem_of_feeds (h : c.IsLiveOrder order) {source consumer : NodeId}
    (hfeeds : c.Feeds source consumer) (hconsumer : consumer ∈ order) : source ∈ order :=
  h.mem_iff.2 ((h.mem_iff.1 hconsumer).of_feeds hfeeds)

theorem IsLiveOrder.isSome (h : c.IsLiveOrder order) (hc : c.WellFormed) :
    ∀ id ∈ order, (c.kind? id).isSome = true := fun _ hid => Live.isSome hc (h.mem_iff.1 hid)

theorem IsLiveOrder.sameShape (h : c.IsLiveOrder order) (hd : c.SameShape d) :
    d.IsLiveOrder order where
  nodup := h.nodup
  mem_iff := h.mem_iff.trans hd.live.symm
  topological hacyclic := (h.topological (hd.symm.acyclic hacyclic)).sameShape hd

/-- The walk that lists the live nodes comes to its end, also when there are cycles. -/
theorem WellFormed.exists_explored (hc : c.WellFormed) :
    ∃ reached finished, c.liveOrder = .ok finished.reverse ∧
      c.Exploring c.outputs [] reached finished c.Acyclic ∧ c.Postordered finished := by
  have hstarts : ∀ e ∈ c.outputs.map (⟨·, false⟩ : NodeId → Edge),
      (c.kind? e.node).isSome = true := by
    intro e he
    obtain ⟨output, houtput, rfl⟩ := List.mem_map.1 he
    exact hc.isSome_of_mem_outputs houtput
  have hmap : (c.outputs.map (⟨·, false⟩ : NodeId → Edge)).map (·.node) = c.outputs := by
    simp [Function.comp_def]
  have hstart : c.Exploring c.outputs ((c.outputs.map (⟨·, false⟩)).map (.enter · 0)) ∅ []
      c.Acyclic := by
    have h : c.Exploring _ _ _ _ c.Acyclic := Exploring.start hstarts
    rwa [hmap] at h
  have hwalk : ∃ w, c.walk .fanin collector (c.outputs.map (⟨·, false⟩)) [] = .ok () w ∧
      c.Exploring c.outputs [] w.reached w.state c.Acyclic ∧ c.Postordered w.state := by
    refine explore_induction
      (P := fun frames w => c.Exploring c.outputs frames w.reached w.state c.Acyclic ∧
        c.Postordered w.state) rfl ?_ ?_ ?_ ?_ ⟨hstart, trivial⟩
    · rintro n depth inverted rest w ⟨h, hpostordered⟩
      exact ⟨h.leave, fun source hfeeds => h.left_or_above hfeeds, hpostordered⟩
    · rintro e depth rest w ⟨h, _⟩
      obtain ⟨kind, hkind⟩ := Option.isSome_iff_exists.1 (h.present e.node List.mem_cons_self)
      obtain ⟨n, hn, _⟩ := kind?_eq_some_iff.1 hkind
      exact ⟨n, hn⟩
    · rintro e depth rest w n ⟨h, hpostordered⟩ hn hmem
      exact ⟨h.again hmem fun hacyclic =>
        ⟨hacyclic, fun hpath => h.not_acyclic hpath hacyclic⟩, hpostordered⟩
    · rintro e depth rest w n ⟨h, hpostordered⟩ hn hmem
      exact ⟨n.fanins, rfl, h.fresh hmem (kind?_of_node? hn) (hc.own_id hn) (fun _ => Iff.rfl)
        (hc.present_fanins hn), hpostordered⟩
  obtain ⟨w, hexplore, hdone, hpostordered⟩ := hwalk
  refine ⟨w.reached, w.state, ?_, hdone, hpostordered⟩
  unfold liveOrder
  rw [hexplore]

/-- Listing the live nodes cannot fail, also when there are cycles. -/
theorem WellFormed.exists_liveOrder (hc : c.WellFormed) :
    ∃ order, c.liveOrder = .ok order ∧ c.IsLiveOrder order := by
  obtain ⟨reached, finished, horder, hdone, _⟩ := hc.exists_explored
  refine ⟨finished.reverse, horder, List.nodup_reverse.2 hdone.nodup, ?_, ?_⟩
  · intro id
    rw [List.mem_reverse, hdone.mem_finished_iff]
    rfl
  · intro hacyclic
    rw [List.reverse_reverse]
    exact hdone.topological hacyclic

theorem WellFormed.postordered (hc : c.WellFormed) (horder : c.liveOrder = .ok order) :
    c.Postordered order.reverse := by
  obtain ⟨reached, finished, hfound, _, hpostordered⟩ := hc.exists_explored
  obtain rfl := Except.ok.inj (horder.symm.trans hfound)
  rwa [List.reverse_reverse]

theorem WellFormed.isLiveOrder (hc : c.WellFormed) (horder : c.liveOrder = .ok order) :
    c.IsLiveOrder order := by
  obtain ⟨found, hfound, hlive⟩ := hc.exists_liveOrder
  obtain rfl := Except.ok.inj (horder.symm.trans hfound)
  exact hlive

/-- Walks do not look at the candidate groups. -/
theorem liveOrder_classes (c : Circuit) (classes : Classes) :
    { c with classes }.liveOrder = c.liveOrder := by
  have hwalk : { c with classes }.walk .fanin collector (c.outputs.map (⟨·, false⟩)) [] =
      c.walk .fanin collector (c.outputs.map (⟨·, false⟩)) [] := by
    have hnext : { c with classes }.next .fanin = c.next .fanin := rfl
    rw [walk, traverse, hnext]
    exact explore_congr (c := c) (d := { c with classes }) (fun _ => rfl) _ _
  unfold liveOrder
  dsimp only
  rw [hwalk]

end AndInverter.Circuit
