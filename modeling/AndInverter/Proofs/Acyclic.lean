import AndInverter.Proofs.WellFormed.Build
import Mathlib.Data.Finset.Card
import Mathlib.Logic.Relation

open Relation

namespace AndInverter.Circuit

/-- No node depends on itself. -/
def Acyclic (c : Circuit) : Prop := ∀ id, ¬ TransGen c.Feeds id id

/-- The numbers ascend along every edge. -/
def Ranked (c : Circuit) (rank : NodeId → Nat) : Prop :=
  ∀ source consumer, c.Feeds source consumer → rank source < rank consumer

/-- An output depends on the node, or the node is an output. -/
def Live (c : Circuit) (id : NodeId) : Prop := ∃ output ∈ c.outputs, ReflTransGen c.Feeds id output

variable {c : Circuit} {rank : NodeId → Nat}

theorem Ranked.lt_of_transGen (h : c.Ranked rank) {a b : NodeId} (hab : TransGen c.Feeds a b) :
    rank a < rank b := by
  induction hab with
  | single hfeeds => exact h _ _ hfeeds
  | tail _ hfeeds ih => exact ih.trans (h _ _ hfeeds)

theorem Ranked.acyclic (h : c.Ranked rank) : c.Acyclic := fun _ hcycle =>
  Nat.lt_irrefl _ (h.lt_of_transGen hcycle)

theorem Acyclic.of_feeds {d : Circuit} (h : c.Acyclic)
    (hfeeds : ∀ {source consumer}, d.Feeds source consumer → c.Feeds source consumer) :
    d.Acyclic := fun id hcycle => h id (TransGen.mono (fun _ _ => hfeeds) id id hcycle)

theorem SameShape.acyclic {d : Circuit} (h : c.SameShape d) (hc : c.Acyclic) : d.Acyclic :=
  hc.of_feeds h.feeds.1

theorem Feeds.isSome {source consumer : NodeId} (h : c.Feeds source consumer) :
    (c.kind? consumer).isSome = true := by
  obtain ⟨kind, hkind, _⟩ := h
  simp [hkind]

theorem Live.isSome (hc : c.WellFormed) {id : NodeId} (h : c.Live id) :
    (c.kind? id).isSome = true := by
  obtain ⟨output, houtput, hreach⟩ := h
  cases hreach using ReflTransGen.head_induction_on with
  | refl => exact hc.isSome_of_mem_outputs houtput
  | head hfeeds _ => exact hc.isSome_of_feeds hfeeds

theorem Live.of_feeds {source consumer : NodeId} (h : c.Live consumer)
    (hfeeds : c.Feeds source consumer) : c.Live source := by
  obtain ⟨output, houtput, hreach⟩ := h
  exact ⟨output, houtput, ReflTransGen.head hfeeds hreach⟩

open Classical in
/-- The nodes that a node depends on. -/
noncomputable def dependencies (c : Circuit) (id : NodeId) : Finset NodeId :=
  c.ids.toFinset.filter fun other => TransGen c.Feeds other id

open Classical in
theorem dependencies_subset (c : Circuit) (id : NodeId) : c.dependencies id ⊆ c.ids.toFinset :=
  Finset.filter_subset _ _

theorem WellFormed.mem_dependencies (hc : c.WellFormed) {id other : NodeId} :
    other ∈ c.dependencies id ↔ TransGen c.Feeds other id := by
  simp only [dependencies, Finset.mem_filter, List.mem_toFinset, mem_ids, and_iff_right_iff_imp]
  intro hdepends
  obtain ⟨next, hfeeds, _⟩ := TransGen.head'_iff.1 hdepends
  exact hc.isSome_of_feeds hfeeds

/-- In a circuit without cycles the number of dependencies ascends along every edge, and it is
    smaller than the number of nodes. -/
theorem WellFormed.exists_ranked (hc : c.WellFormed) (hacyclic : c.Acyclic) :
    ∃ rank, c.Ranked rank ∧ ∀ id ∈ c.ids, rank id < c.ids.length := by
  refine ⟨fun id => (c.dependencies id).card, ?_, ?_⟩
  · intro source consumer hfeeds
    refine Finset.card_lt_card ⟨fun other hother => ?_, fun hsubset => ?_⟩
    · rw [hc.mem_dependencies] at hother ⊢
      exact hother.tail hfeeds
    · have hself := hsubset (hc.mem_dependencies.2 (TransGen.single hfeeds))
      exact hacyclic source (hc.mem_dependencies.1 hself)
  · intro id hid
    have hproper : c.dependencies id ⊂ c.ids.toFinset := by
      refine ⟨c.dependencies_subset id, fun hsubset => ?_⟩
      have hself := hsubset (List.mem_toFinset.2 hid)
      exact hacyclic id (hc.mem_dependencies.1 hself)
    exact (Finset.card_lt_card hproper).trans_le (List.toFinset_card_le c.ids)

/-- The latest node comes first, and each node comes after all its fanins. -/
def Topological (c : Circuit) : List NodeId → Prop
  | [] => True
  | id :: earlier => (∀ source, c.Feeds source id → source ∈ earlier) ∧ c.Topological earlier

theorem Topological.mem_of_feeds {ids : List NodeId} (h : c.Topological ids)
    {source consumer : NodeId} (hfeeds : c.Feeds source consumer) (hmem : consumer ∈ ids) :
    source ∈ ids := by
  induction ids with
  | nil => cases hmem
  | cons id earlier ih =>
    rcases List.mem_cons.1 hmem with rfl | hearlier
    · exact List.mem_cons_of_mem _ (h.1 source hfeeds)
    · exact List.mem_cons_of_mem _ (ih h.2 hearlier)

theorem Topological.of_append {later earlier : List NodeId} (h : c.Topological (later ++ earlier)) :
    c.Topological earlier := by
  induction later with
  | nil => exact h
  | cons id later ih => exact ih h.2

/-- Counting from the end numbers the nodes of a topological list. -/
theorem Topological.exists_rank {ids : List NodeId} (h : c.Topological ids) (hnodup : ids.Nodup) :
    ∃ rank : NodeId → Nat, (∀ id ∈ ids, rank id < ids.length) ∧
      (ids.Pairwise fun later earlier => rank earlier < rank later) ∧
      ∀ source consumer, consumer ∈ ids → c.Feeds source consumer → rank source < rank consumer := by
  induction ids with
  | nil => exact ⟨fun _ => 0, by simp, List.Pairwise.nil, by simp⟩
  | cons id earlier ih =>
    obtain ⟨hfresh, hnodup⟩ := List.nodup_cons.1 hnodup
    obtain ⟨rank, hlt, hpairwise, hranked⟩ := ih h.2 hnodup
    have hne : ∀ {other}, other ∈ earlier → other ≠ id := fun hother heq => hfresh (heq ▸ hother)
    refine ⟨fun other => if other = id then earlier.length else rank other, ?_, ?_, ?_⟩
    · intro other hother
      rw [List.length_cons]
      rcases List.mem_cons.1 hother with rfl | hother
      · simp
      · have hbound := hlt other hother
        simp only [hne hother, if_false]
        omega
    · refine List.pairwise_cons.2 ⟨fun other hother => ?_, ?_⟩
      · simpa [hne hother] using hlt other hother
      · apply hpairwise.imp_of_mem
        intro _ _ ha hb hab
        simpa [hne ha, hne hb] using hab
    · intro source consumer hconsumer hfeeds
      rcases List.mem_cons.1 hconsumer with rfl | hconsumer
      · have hsource := h.1 source hfeeds
        simpa [hne hsource] using hlt source hsource
      · have hsource := h.2.mem_of_feeds hfeeds hconsumer
        simpa [hne hsource, hne hconsumer] using hranked source consumer hconsumer hfeeds

/-- No node of a topological list depends on itself: along a path the nodes come ever later. -/
theorem Topological.not_cyclic {ids : List NodeId} (h : c.Topological ids) (hnodup : ids.Nodup)
    {id : NodeId} (hid : id ∈ ids) : ¬ TransGen c.Feeds id id := by
  obtain ⟨rank, _, _, hranked⟩ := h.exists_rank hnodup
  intro hcycle
  have hlater : ∀ {other}, TransGen c.Feeds other id → other ∈ ids ∧ rank other < rank id := by
    intro other hpath
    induction hpath using TransGen.head_induction_on with
    | single hfeeds => exact ⟨h.mem_of_feeds hfeeds hid, hranked _ _ hid hfeeds⟩
    | head hfeeds _ ih =>
      exact ⟨h.mem_of_feeds hfeeds ih.1, (hranked _ _ ih.1 hfeeds).trans ih.2⟩
  exact Nat.lt_irrefl _ (hlater hcycle).2

end AndInverter.Circuit
