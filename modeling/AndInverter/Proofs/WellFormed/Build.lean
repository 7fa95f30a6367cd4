import AndInverter.Proofs.Sequencing
import AndInverter.Proofs.WellFormed
import Mathlib.Tactic.Tauto

namespace AndInverter.Circuit

theorem mem_insertSorted {id other : NodeId} {ids : List NodeId} :
    other ∈ insertSorted id ids ↔ other = id ∨ other ∈ ids := by
  induction ids with
  | nil => simp [insertSorted]
  | cons x ids ih =>
    unfold insertSorted
    split
    · rw [List.mem_cons, ih, List.mem_cons]
      exact or_left_comm
    · simp

/-- A new id goes to the place that keeps the list sorted. -/
theorem pairwise_insertSorted {id : NodeId} {ids : List NodeId} (hsorted : ids.Pairwise (· < ·))
    (hfresh : id ∉ ids) : (insertSorted id ids).Pairwise (· < ·) := by
  induction ids with
  | nil => simp [insertSorted]
  | cons x ids ih =>
    obtain ⟨hx, hids⟩ := List.pairwise_cons.1 hsorted
    rw [List.mem_cons, not_or] at hfresh
    unfold insertSorted
    split
    · next hlt =>
      refine List.pairwise_cons.2 ⟨fun y hy => ?_, ih hids hfresh.2⟩
      rcases mem_insertSorted.1 hy with rfl | hy
      · exact hlt
      · exact hx y hy
    · next hge =>
      have hlt : id < x := by
        have hle := UInt64.not_lt.1 hge
        exact UInt64.lt_of_le_of_ne hle hfresh.1
      refine List.pairwise_cons.2 ⟨fun y hy => ?_, hsorted⟩
      rcases List.mem_cons.1 hy with rfl | hy
      · exact hlt
      · exact UInt64.lt_trans hlt (hx y hy)

theorem node?_insert (c : Circuit) (n : Node) (id : NodeId) :
    (c.insert n).node? id = if n.id = id then some n else c.node? id := by
  unfold insert node?
  split <;> simp [Std.TreeMap.getElem?_insert]

theorem kind?_insert (c : Circuit) (n : Node) (id : NodeId) :
    (c.insert n).kind? id = if n.id = id then some n.kind else c.kind? id := by
  rw [kind?, node?_insert]
  split <;> rfl

theorem lists_insert {c : Circuit} {n : Node} {source consumer : NodeId}
    (hfresh : c.node? n.id = none) (hnew : n.fanouts = ∅) :
    (c.insert n).Lists source consumer ↔ c.Lists source consumer := by
  unfold Lists
  rw [node?_insert]
  split
  · next heq =>
    subst heq
    simp [hfresh, hnew]
  · rfl

theorem inputs_insert (c : Circuit) (n : Node) :
    (c.insert n).inputs = if n.kind.isInput then insertSorted n.id c.inputs else c.inputs := by
  unfold insert
  split <;> simp_all [Kind.isInput]

theorem outputs_insert (c : Circuit) (n : Node) :
    (c.insert n).outputs = if n.kind.isOutput then c.outputs ++ [n.id] else c.outputs := by
  unfold insert
  split <;> simp_all [Kind.isOutput]

theorem maxVar_insert (c : Circuit) (n : Node) :
    (c.insert n).maxVar =
      if n.kind.isInput || n.kind.isGate then max c.maxVar n.id else c.maxVar := by
  unfold insert
  split <;> simp_all [Kind.isInput, Kind.isGate]

theorem classes_insert (c : Circuit) (n : Node) : (c.insert n).classes = c.classes := by
  unfold insert
  split <;> rfl

theorem max_eq_ite (a b : NodeId) : max a b = if a ≤ b then b else a := rfl

theorem le_max_left (a b : NodeId) : a ≤ max a b := by
  rw [max_eq_ite]
  split
  · assumption
  · exact UInt64.le_refl a

theorem le_max_right (a b : NodeId) : b ≤ max a b := by
  rw [max_eq_ite]
  split
  · exact UInt64.le_refl b
  · next h => exact UInt64.le_of_lt (UInt64.not_le.1 h)

namespace Indexed

section Insert

variable {c : Circuit} {n : Node}

theorem own_id_insert (hc : c.Indexed) {id : NodeId} {m : Node}
    (hm : (c.insert n).node? id = some m) : m.id = id := by
  rw [node?_insert] at hm
  split at hm
  · next heq =>
    obtain rfl := Option.some.inj hm
    exact heq
  · exact hc.own_id hm

/-- The list of inputs is sorted also where an input comes that is none of the largest. -/
theorem inputs_sorted_insert (hc : c.Indexed) (hfresh : c.node? n.id = none) :
    (c.insert n).inputs.Pairwise (· < ·) := by
  rw [inputs_insert]
  split
  · apply pairwise_insertSorted hc.inputs_sorted
    intro hmem
    obtain ⟨inverted, hinput⟩ := hc.mem_inputs.1 hmem
    rw [kind?_eq_none_iff.2 hfresh] at hinput
    cases hinput
  · exact hc.inputs_sorted

theorem mem_inputs_insert (hc : c.Indexed) (hfresh : c.node? n.id = none) {id : NodeId} :
    id ∈ (c.insert n).inputs ↔ ∃ inverted, (c.insert n).kind? id = some (.input inverted) := by
  have hnone : c.kind? n.id = none := kind?_eq_none_iff.2 hfresh
  rw [inputs_insert, kind?_insert]
  by_cases heq : n.id = id
  · subst heq
    rw [if_pos rfl]
    cases hkind : n.kind <;> simp [Kind.isInput, mem_insertSorted, hc.mem_inputs, hnone]
  · rw [if_neg heq, ← hc.mem_inputs]
    split
    · simp [mem_insertSorted, Ne.symm heq]
    · rfl

/-- Outputs are appended, so a new one has to be larger than those before it. -/
theorem outputs_sorted_insert (hc : c.Indexed)
    (houtput : n.kind.isOutput = true → ∀ output ∈ c.outputs, output < n.id) :
    (c.insert n).outputs.Pairwise (· < ·) := by
  rw [outputs_insert]
  split
  · next hout =>
    refine List.pairwise_append.2 ⟨hc.outputs_sorted, List.pairwise_singleton _ _, ?_⟩
    intro output hmem id hid
    rw [List.mem_singleton] at hid
    exact hid ▸ houtput hout output hmem
  · exact hc.outputs_sorted

theorem mem_outputs_insert (hc : c.Indexed) (hfresh : c.node? n.id = none) {id : NodeId} :
    id ∈ (c.insert n).outputs ↔ ∃ fanin, (c.insert n).kind? id = some (.output fanin) := by
  have hnone : c.kind? n.id = none := kind?_eq_none_iff.2 hfresh
  rw [outputs_insert, kind?_insert]
  by_cases heq : n.id = id
  · subst heq
    rw [if_pos rfl]
    cases hkind : n.kind <;> simp [Kind.isOutput, hc.mem_outputs, hnone]
  · rw [if_neg heq, ← hc.mem_outputs]
    split
    · simp [Ne.symm heq]
    · rfl

/-- The bound is raised to a new input or gate. It has to be large enough for an undefined node
    beforehand. -/
theorem id_le_insert (hc : c.Indexed) (hconstant : n.kind ≠ .constant)
    (hundefined : n.kind = .undefined → n.id ≤ c.maxVar) {id : NodeId} {kind : Kind}
    (hkind : (c.insert n).kind? id = some kind) (hout : kind.isOutput = false) :
    id ≤ (c.insert n).maxVar := by
  rw [kind?_insert] at hkind
  rw [maxVar_insert]
  split at hkind
  · next heq =>
    subst heq
    obtain rfl := Option.some.inj hkind
    cases hn : n.kind with
    | constant => exact absurd hn hconstant
    | output fanin => simp [hn, Kind.isOutput] at hout
    | undefined => simpa [Kind.isInput, Kind.isGate] using hundefined hn
    | input inverted => simpa [Kind.isInput] using le_max_right _ _
    | gate left right => simpa [Kind.isGate] using le_max_right _ _
  · have hle := hc.id_le hkind hout
    split
    · exact UInt64.le_trans hle (le_max_left _ _)
    · exact hle

/-- A node may come under a fresh id. An output has to come after the others, and an undefined
    node must not exceed the bound, which it does not raise. -/
theorem insert (hc : c.Indexed) (hfresh : c.node? n.id = none) (hzero : n.id ≠ 0)
    (hconstant : n.kind ≠ .constant)
    (houtput : n.kind.isOutput = true → ∀ output ∈ c.outputs, output < n.id)
    (hundefined : n.kind = .undefined → n.id ≤ c.maxVar) : (c.insert n).Indexed where
  own_id := hc.own_id_insert
  constant_iff {id} := by
    rw [kind?_insert]
    split
    · next heq =>
      subst heq
      simp [hconstant, hzero]
    · exact hc.constant_iff
  inputs_sorted := hc.inputs_sorted_insert hfresh
  mem_inputs := hc.mem_inputs_insert hfresh
  outputs_sorted := hc.outputs_sorted_insert houtput
  mem_outputs := hc.mem_outputs_insert hfresh
  id_le := hc.id_le_insert hconstant hundefined

end Insert

end Indexed

theorem kind?_update (c : Circuit) (id other : NodeId) {f : Node → Node}
    (hkind : ∀ n, (f n).kind = n.kind) : (c.update id f).kind? other = c.kind? other := by
  rw [kind?, node?_update]
  split
  · next heq =>
    subst heq
    simp only [kind?, Option.map_map, Function.comp_def, hkind]
  · rfl

theorem own_id_update {c : Circuit} (hc : ∀ {id n}, c.node? id = some n → n.id = id) {id : NodeId}
    {f : Node → Node} {other : NodeId} {n : Node} (hn : (c.update id f).node? other = some n)
    (hid : ∀ n, (f n).id = n.id) : n.id = other := by
  rw [node?_update] at hn
  split at hn
  · next heq =>
    subst heq
    obtain ⟨m, hm, rfl⟩ := Option.map_eq_some_iff.1 hn
    rw [hid]
    exact hc hm
  · exact hc hn

/-- An update that keeps id and kind keeps the index in step. -/
theorem Indexed.update {c : Circuit} (hc : c.Indexed) (id : NodeId) {f : Node → Node}
    (hid : ∀ n, (f n).id = n.id) (hkind : ∀ n, (f n).kind = n.kind) :
    (c.update id f).Indexed := by
  have hkinds := fun other => kind?_update c id other hkind
  refine ⟨fun hn => own_id_update hc.own_id hn hid, ?_, hc.inputs_sorted, ?_, hc.outputs_sorted, ?_, ?_⟩
  · intro other
    rw [hkinds]
    exact hc.constant_iff
  · intro other
    rw [hkinds]
    exact hc.mem_inputs
  · intro other
    rw [hkinds]
    exact hc.mem_outputs
  · intro other kind h hout
    rw [hkinds] at h
    exact hc.id_le h hout

theorem kind?_addFanout (c : Circuit) (consumer target id : NodeId) :
    (c.addFanout consumer target).kind? id = c.kind? id :=
  kind?_update c target id fun _ => rfl

theorem Indexed.addFanout {c : Circuit} (hc : c.Indexed) (consumer target : NodeId) :
    (c.addFanout consumer target).Indexed :=
  hc.update target (fun _ => rfl) fun _ => rfl

/-- A fanout is recorded at its source, if the source is there. -/
theorem lists_addFanout (c : Circuit) (consumer target source other : NodeId) :
    (c.addFanout consumer target).Lists source other ↔ c.Lists source other ∨
      (target = source ∧ consumer = other ∧ (c.node? source).isSome = true) := by
  unfold Lists addFanout
  rw [node?_update]
  split
  · next heq =>
    subst heq
    cases c.node? target with
    | none => simp
    | some n => simp [Std.TreeSet.mem_insert, or_comm]
  · next hne => simp [hne]

/-- The consumer enters the fanouts of every node that one of the edges is on. -/
theorem lists_foldl_addFanout (c : Circuit) (consumer source other : NodeId) (edges : List Edge) :
    (edges.foldl (fun c e => c.addFanout consumer e.node) c).Lists source other ↔
      c.Lists source other ∨
        ((∃ e ∈ edges, e.node = source) ∧ consumer = other ∧ (c.node? source).isSome = true) := by
  induction edges generalizing c with
  | nil => simp
  | cons e edges ih =>
    rw [List.foldl_cons, ih, lists_addFanout, ← isSome_kind? (c.addFanout consumer e.node),
      kind?_addFanout, isSome_kind?]
    simp only [List.mem_cons, or_and_right, exists_or, exists_eq_left]
    tauto

theorem kind?_foldl_addFanout (c : Circuit) (consumer id : NodeId) (edges : List Edge) :
    (edges.foldl (fun c e => c.addFanout consumer e.node) c).kind? id = c.kind? id := by
  induction edges generalizing c with
  | nil => rfl
  | cons e edges ih => rw [List.foldl_cons, ih, kind?_addFanout]

theorem Indexed.foldl_addFanout {c : Circuit} (hc : c.Indexed) (consumer : NodeId)
    (edges : List Edge) : (edges.foldl (fun c e => c.addFanout consumer e.node) c).Indexed := by
  induction edges generalizing c with
  | nil => exact hc
  | cons e edges ih => exact ih (hc.addFanout consumer e.node)

theorem checkId_eq_ok_iff {c : Circuit} {id : NodeId} :
    c.checkId id = .ok () ↔ id ≠ 0 ∧ c.node? id = none := by
  unfold checkId
  split
  · simp_all
  · next hzero =>
    cases hnode : c.node? id <;> simp [hzero]

/-- A node is attached under a fresh id that is not zero, and recorded at each of its fanins. -/
theorem attach_eq_ok_iff {c d : Circuit} {n : Node} :
    c.attach n = .ok d ↔ n.id ≠ 0 ∧ c.node? n.id = none ∧
      d = n.fanins.foldl (fun c e => c.addFanout n.id e.node) (c.insert n) := by
  unfold attach declare
  rw [except_bind_eq_ok_iff]
  constructor
  · rintro ⟨inserted, hdeclare, hd⟩
    rw [except_bind_eq_ok_iff] at hdeclare
    obtain ⟨_, hcheck, hinserted⟩ := hdeclare
    obtain ⟨hzero, hfresh⟩ := checkId_eq_ok_iff.1 hcheck
    obtain rfl := Except.ok.inj hinserted
    exact ⟨hzero, hfresh, (Except.ok.inj hd).symm⟩
  · rintro ⟨hzero, hfresh, rfl⟩
    refine ⟨c.insert n, ?_, rfl⟩
    rw [except_bind_eq_ok_iff]
    exact ⟨(), checkId_eq_ok_iff.2 ⟨hzero, hfresh⟩, rfl⟩

theorem kind?_of_attach {c d : Circuit} {n : Node} (hattach : c.attach n = .ok d) (id : NodeId) :
    d.kind? id = if n.id = id then some n.kind else c.kind? id := by
  obtain ⟨_, _, rfl⟩ := attach_eq_ok_iff.1 hattach
  rw [kind?_foldl_addFanout, kind?_insert]

theorem foldl_addFanout_lists (c : Circuit) (consumer : NodeId) (edges : List Edge) :
    let d := edges.foldl (fun c e => c.addFanout consumer e.node) c
    d.inputs = c.inputs ∧ d.outputs = c.outputs ∧ d.maxVar = c.maxVar ∧ d.classes = c.classes := by
  induction edges generalizing c with
  | nil => exact ⟨rfl, rfl, rfl, rfl⟩
  | cons e edges ih => exact ih (c.addFanout consumer e.node)

theorem classes_of_attach {c d : Circuit} {n : Node} (hattach : c.attach n = .ok d) :
    d.classes = c.classes := by
  obtain ⟨_, _, rfl⟩ := attach_eq_ok_iff.1 hattach
  rw [(foldl_addFanout_lists _ _ _).2.2.2, classes_insert]

theorem maxVar_le_of_attach {c d : Circuit} {n : Node} (hattach : c.attach n = .ok d) :
    c.maxVar ≤ d.maxVar := by
  obtain ⟨_, _, rfl⟩ := attach_eq_ok_iff.1 hattach
  rw [(foldl_addFanout_lists _ _ _).2.2.1, maxVar_insert]
  split
  · exact le_max_left _ _
  · exact UInt64.le_refl _

theorem feeds_of_attach {c d : Circuit} {n : Node} (hattach : c.attach n = .ok d)
    (source consumer : NodeId) : d.Feeds source consumer ↔
      (consumer = n.id ∧ ∃ e ∈ n.fanins, e.node = source) ∨
        consumer ≠ n.id ∧ c.Feeds source consumer := by
  unfold Feeds
  rw [kind?_of_attach hattach]
  by_cases heq : n.id = consumer
  · subst heq
    simp [Node.fanins]
  · simp [heq, Ne.symm heq]

/-- A node whose fanins are there may be attached. -/
theorem WellFormed.attach {c d : Circuit} (hc : c.WellFormed) {n : Node}
    (hnew : n.fanouts = ∅) (hconstant : n.kind ≠ .constant) (hundefined : n.kind ≠ .undefined)
    (houtput : n.kind.isOutput = true → ∀ output ∈ c.outputs, output < n.id)
    (hfanins : ∀ e ∈ n.fanins, ∃ source, c.kind? e.node = some source ∧ source.isOutput = false)
    (hattach : c.attach n = .ok d) : d.WellFormed := by
  have hkind := kind?_of_attach hattach
  have hfeeds := feeds_of_attach hattach
  obtain ⟨hzero, hfresh, rfl⟩ := attach_eq_ok_iff.1 hattach
  have hindexed := (hc.insert hfresh hzero hconstant houtput
    fun h => absurd h hundefined).foldl_addFanout n.id n.fanins
  have hother : ∀ {id kind}, c.kind? id = some kind → n.id ≠ id := by
    rintro id kind hid rfl
    rw [kind?_eq_none_iff.2 hfresh] at hid
    cases hid
  refine ⟨hindexed, ?_, ?_⟩
  · intro id kind h e he
    have hold : ∃ source, c.kind? e.node = some source ∧ source.isOutput = false := by
      rw [hkind] at h
      split at h
      · obtain rfl := Option.some.inj h
        exact hfanins e he
      · exact hc.fanin h e he
    obtain ⟨source, hsource, hout⟩ := hold
    exact ⟨source, by rw [hkind, if_neg (hother hsource), hsource], hout⟩
  · intro source consumer
    rw [hfeeds, lists_foldl_addFanout, lists_insert hfresh hnew, ← hc.mirror]
    constructor
    · rintro (⟨rfl, e, he, rfl⟩ | ⟨_, hold⟩)
      · obtain ⟨source, hsource, _⟩ := hfanins e he
        refine .inr ⟨⟨e, he, rfl⟩, rfl, ?_⟩
        rw [← isSome_kind?, kind?_insert, if_neg (hother hsource), hsource]
        rfl
      · exact .inl hold
    · rintro (⟨kind, hconsumer, hedge⟩ | ⟨hedge, rfl, _⟩)
      · exact .inr ⟨(hother hconsumer).symm, kind, hconsumer, hedge⟩
      · exact .inl ⟨rfl, hedge⟩

/-- An edge may come from any node that is there and is no output. -/
theorem checkFanin_eq_ok_iff {c : Circuit} {e : Edge} :
    c.checkFanin e = .ok () ↔ ∃ source, c.kind? e.node = some source ∧ source.isOutput = false := by
  unfold checkFanin
  rw [except_bind_eq_ok_iff]
  simp only [node_eq_ok_iff, kind?_eq_some_iff]
  constructor
  · rintro ⟨n, hn, hcheck⟩
    refine ⟨n.kind, ⟨n, hn, rfl⟩, ?_⟩
    split at hcheck
    · cases hcheck
    · next hout => simpa using hout
  · rintro ⟨kind, ⟨n, hn, rfl⟩, hout⟩
    exact ⟨n, hn, by simp [hout, pure, Except.pure]⟩

theorem WellFormed.addInput {c d : Circuit} (hc : c.WellFormed) {id : NodeId}
    (hadd : c.addInput id = .ok d) : d.WellFormed :=
  hc.attach rfl (by simp [Node.fresh]) (by simp [Node.fresh]) (by simp [Node.fresh, Kind.isOutput])
    (by simp [Node.fresh, Node.fanins, Kind.fanins]) hadd

theorem of_addGate {c d : Circuit} {id : NodeId} {left right : Edge}
    (hadd : c.addGate id left right = .ok d) :
    c.attach (.fresh id (.gate left right) 0) = .ok d ∧ ∀ e ∈ (Kind.gate left right).fanins,
      ∃ source, c.kind? e.node = some source ∧ source.isOutput = false := by
  unfold addGate at hadd
  rw [except_bind_eq_ok_iff] at hadd
  obtain ⟨_, hleft, hadd⟩ := hadd
  rw [except_bind_eq_ok_iff] at hadd
  obtain ⟨_, hright, hadd⟩ := hadd
  refine ⟨hadd, fun e he => ?_⟩
  simp only [Kind.fanins, List.mem_cons, List.not_mem_nil, or_false] at he
  rcases he with rfl | rfl
  · exact checkFanin_eq_ok_iff.1 hleft
  · exact checkFanin_eq_ok_iff.1 hright

theorem WellFormed.addGate {c d : Circuit} (hc : c.WellFormed) {id : NodeId} {left right : Edge}
    (hadd : c.addGate id left right = .ok d) : d.WellFormed := by
  obtain ⟨hattach, hfanins⟩ := of_addGate hadd
  exact hc.attach (n := .fresh id (.gate left right) 0) rfl (by simp [Node.fresh])
    (by simp [Node.fresh]) (by simp [Node.fresh, Kind.isOutput]) hfanins hattach

theorem le_foldl_max (ids : List NodeId) (bound : NodeId) :
    bound ≤ ids.foldl max bound ∧ ∀ id ∈ ids, id ≤ ids.foldl max bound := by
  induction ids generalizing bound with
  | nil => simp
  | cons x ids ih =>
    obtain ⟨hbound, hids⟩ := ih (max bound x)
    refine ⟨UInt64.le_trans (le_max_left _ _) hbound, fun id hid => ?_⟩
    rcases List.mem_cons.1 hid with rfl | hid
    · exact UInt64.le_trans (le_max_right _ _) hbound
    · exact hids id hid

theorem sorted_ids (c : Circuit) : c.ids.Pairwise (· < ·) :=
  (Std.TreeMap.ordered_keys (t := c.nodes)).imp Std.compare_eq_lt.1

theorem mem_ids {c : Circuit} {id : NodeId} : id ∈ c.ids ↔ (c.kind? id).isSome = true := by
  rw [isSome_kind?, ids, Std.TreeMap.mem_keys]
  exact Std.TreeMap.mem_iff_isSome_getElem?

theorem le_lastId {c : Circuit} {id : NodeId} (hid : (c.kind? id).isSome = true) : id ≤ c.lastId :=
  (le_foldl_max c.ids c.maxVar).2 id (mem_ids.2 hid)

theorem outputId_eq_ok_iff {c : Circuit} {id : NodeId} :
    c.outputId = .ok id ↔ c.lastId + 1 ≠ 0 ∧ id = c.lastId + 1 := by
  unfold outputId
  split <;> simp_all [eq_comm]

theorem lt_add_one {a b : NodeId} (hroom : b + 1 ≠ 0) (hle : a ≤ b) : a < b + 1 := by
  grind

theorem lt_outputId {c : Circuit} {id output : NodeId} (houtput : c.outputId = .ok output)
    (hid : (c.kind? id).isSome = true) : id < output := by
  obtain ⟨hroom, rfl⟩ := outputId_eq_ok_iff.1 houtput
  exact lt_add_one hroom (le_lastId hid)

theorem maxVar_lt_outputId {c : Circuit} {output : NodeId} (houtput : c.outputId = .ok output) :
    c.maxVar < output := by
  obtain ⟨hroom, rfl⟩ := outputId_eq_ok_iff.1 houtput
  exact lt_add_one hroom (le_foldl_max c.ids c.maxVar).1

theorem of_addOutput {c d : Circuit} {driver : Edge} {id : NodeId}
    (hadd : c.addOutput driver = .ok (id, d)) :
    c.outputId = .ok id ∧ c.attach (.fresh id (.output driver) 0) = .ok d ∧
      ∃ source, c.kind? driver.node = some source ∧ source.isOutput = false := by
  unfold addOutput at hadd
  rw [except_bind_eq_ok_iff] at hadd
  obtain ⟨_, hdriver, hadd⟩ := hadd
  rw [except_bind_eq_ok_iff] at hadd
  obtain ⟨output, houtput, hadd⟩ := hadd
  rw [except_bind_eq_ok_iff] at hadd
  obtain ⟨e, hattach, hadd⟩ := hadd
  obtain ⟨rfl, rfl⟩ := Prod.mk.inj (Except.ok.inj hadd)
  exact ⟨houtput, hattach, checkFanin_eq_ok_iff.1 hdriver⟩

theorem WellFormed.addOutput {c d : Circuit} (hc : c.WellFormed) {driver : Edge} {id : NodeId}
    (hadd : c.addOutput driver = .ok (id, d)) : d.WellFormed := by
  obtain ⟨houtput, hattach, hdriver⟩ := of_addOutput hadd
  refine hc.attach rfl (by simp [Node.fresh]) (by simp [Node.fresh]) ?_ ?_ hattach
  · intro _ other hother
    obtain ⟨fanin, hkind⟩ := hc.mem_outputs.1 hother
    exact lt_outputId houtput (by simp [hkind])
  · intro e he
    rw [List.mem_singleton.1 he]
    exact hdriver

end AndInverter.Circuit
