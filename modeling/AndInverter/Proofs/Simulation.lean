import AndInverter.Proofs.Classes
import AndInverter.Proofs.Passes
import AndInverter.Proofs.Value

namespace AndInverter.Circuit

variable {c d : Circuit} {order settled : List NodeId}

/-- The stimulus that puts on the inputs what they hold. -/
def stimulus (c : Circuit) : Stimulus := fun id =>
  (c.node? id).any fun n => n.value ^^ n.kind == .input true

theorem WellFormed.value_stimulus (hc : c.WellFormed) (hacyclic : c.Acyclic) {id : NodeId}
    {n : Node} (hn : c.node? id = some n) (hinput : n.kind.isInput = true) :
    c.value c.stimulus id = n.value := by
  rw [hc.value_eq hacyclic (kind?_of_node? hn)]
  cases hkind : n.kind with
  | input inverted =>
    have hpolarity : (Kind.input inverted == .input true) = inverted := by cases inverted <;> rfl
    simp [Kind.eval, stimulus, hn, hkind, hpolarity]
  | _ => simp [hkind, Kind.isInput] at hinput

/-- What settling a list of nodes makes of a node. -/
def settledNode (c : Circuit) (settled : List NodeId) (id : NodeId) (n : Node) : Node :=
  if id ∈ settled ∧ n.kind.isInput = false then n.record (c.value c.stimulus id) else n

theorem WellFormed.value_settledNode (hc : c.WellFormed) (hacyclic : c.Acyclic) {id : NodeId}
    {n : Node} (hn : c.node? id = some n) (hid : id ∈ settled) :
    (c.settledNode settled id n).value = c.value c.stimulus id := by
  unfold settledNode
  cases hinput : n.kind.isInput with
  | false => simp [hid, Node.record]
  | true => simp [hc.value_stimulus hacyclic hn hinput]

theorem settledNode_cons_of_ne {id other : NodeId} (h : other ≠ id) :
    c.settledNode (id :: settled) other = c.settledNode settled other := by
  funext n
  simp [settledNode, h]

/-- What is computed for a node whose fanins are settled is its value. -/
theorem WellFormed.valueOf?_eq (hc : c.WellFormed) (hacyclic : c.Acyclic) {id : NodeId} {n : Node}
    (hn : c.node? id = some n) (hfanins : ∀ source, c.Feeds source id → source ∈ settled)
    (hd : ∀ other, d.node? other = (c.node? other).map (c.settledNode settled other)) :
    d.valueOf? n.kind = if n.kind.isInput then none else some (c.value c.stimulus id) := by
  have hsignal : ∀ e ∈ n.kind.fanins, d.signal e = e.signal (c.value c.stimulus) := by
    intro e he
    have hfeeds : c.Feeds e.node id := ⟨n.kind, kind?_of_node? hn, e, he, rfl⟩
    obtain ⟨source, hsource⟩ := Option.isSome_iff_exists.1 (hc.isSome_of_feeds hfeeds)
    obtain ⟨m, hm, _⟩ := kind?_eq_some_iff.1 hsource
    rw [signal, hd, hm, Edge.signal, ← hc.value_settledNode hacyclic hm (hfanins _ hfeeds)]
    rfl
  rw [hc.value_eq hacyclic (kind?_of_node? hn)]
  cases hkind : n.kind with
  | output fanin =>
    have hfanin := hsignal fanin (by simp [hkind, Kind.fanins])
    simp [valueOf?, Kind.isInput, Kind.eval, hfanin]
  | gate left right =>
    have hleft := hsignal left (by simp [hkind, Kind.fanins])
    have hright := hsignal right (by simp [hkind, Kind.fanins])
    simp [valueOf?, Kind.isInput, Kind.eval, hleft, hright]
  | _ => simp [valueOf?, Kind.isInput, Kind.eval]

/-- Settling a node whose fanins are settled gives it its value, and touches no other node. -/
theorem WellFormed.node?_settle (hc : c.WellFormed) (hacyclic : c.Acyclic) {id : NodeId}
    (hid : id ∉ settled) (hfanins : ∀ source, c.Feeds source id → source ∈ settled)
    (hd : ∀ other, d.node? other = (c.node? other).map (c.settledNode settled other))
    (other : NodeId) :
    (d.settle id).node? other = (c.node? other).map (c.settledNode (id :: settled) other) := by
  have hnode : d.node? id = c.node? id := by
    have hkept : c.settledNode settled id = fun n => n := by
      funext n
      simp [settledNode, hid]
    rw [hd, hkept, Option.map_id']
  unfold settle
  rw [hnode]
  cases hn : c.node? id with
  | none =>
    dsimp only [Option.bind_none]
    by_cases heq : other = id
    · rw [heq, hnode, hn]
      rfl
    · rw [settledNode_cons_of_ne heq, hd]
  | some n =>
    rw [Option.bind_some, hc.valueOf?_eq hacyclic hn hfanins hd]
    by_cases heq : other = id
    · subst heq
      cases hinput : n.kind.isInput <;> simp [node?_update, hnode, hn, settledNode, hinput]
    · rw [settledNode_cons_of_ne heq, ← hd]
      cases n.kind.isInput <;> simp [node?_update, Ne.symm heq]

/-- Settling nodes in a topological order gives each of them its value. -/
theorem WellFormed.node?_foldl_settle (hc : c.WellFormed) (hacyclic : c.Acyclic)
    {rest : List NodeId} (horder : c.Topological (rest.reverse ++ settled))
    (hnodup : (rest.reverse ++ settled).Nodup)
    (hd : ∀ id, d.node? id = (c.node? id).map (c.settledNode settled id)) (id : NodeId) :
    (rest.foldl settle d).node? id =
      (c.node? id).map (c.settledNode (rest.reverse ++ settled) id) := by
  induction rest generalizing settled d with
  | nil => exact hd id
  | cons next rest ih =>
    rw [List.reverse_cons, List.append_assoc, List.singleton_append] at horder hnodup ⊢
    have hfresh := (List.nodup_cons.1 (List.nodup_append.1 hnodup).2.1).1
    exact ih horder hnodup (hc.node?_settle hacyclic hfresh horder.of_append.1 hd)

/-- Settling the live nodes gives each of them its value. -/
theorem WellFormed.node?_settleLive (hc : c.WellFormed) (hacyclic : c.Acyclic)
    (hlive : c.IsLiveOrder order) (id : NodeId) :
    (order.foldl settle c).node? id = (c.node? id).map (c.settledNode order.reverse id) := by
  rw [← List.append_nil order.reverse]
  refine hc.node?_foldl_settle hacyclic ?_ ?_ (fun other => ?_) id
  · simpa using hlive.topological hacyclic
  · simpa using List.nodup_reverse.2 hlive.nodup
  · cases c.node? other <;> simp [settledNode]

/-- Each input is set to its own bit, for no input comes twice. -/
theorem node?_applyBits {bits : List (NodeId × Bool)} (hnodup : (bits.map (·.1)).Nodup)
    (id : NodeId) :
    (c.applyBits bits).node? id = (c.node? id).map fun n => match bits.lookup id with
      | some bit => n.record (bit ^^ n.kind == .input true)
      | none => n := by
  unfold applyBits
  induction bits generalizing c with
  | nil => simp
  | cons first bits ih =>
    obtain ⟨input, bit⟩ := first
    obtain ⟨hfresh, hnodup⟩ := List.nodup_cons.1 hnodup
    rw [List.foldl_cons, ih hnodup, List.lookup_cons]
    unfold applyBit
    rw [node?_update]
    by_cases heq : input = id
    · subst heq
      have hlater : bits.lookup input = none := by
        rw [List.lookup_eq_none_iff]
        intro other hother
        have hne : input ≠ other.1 := fun hid => hfresh (List.mem_map.2 ⟨other, hother, hid.symm⟩)
        simpa using hne
      simp [hlater, Function.comp_def]
    · have hne : (id == input) = false := beq_false_of_ne (Ne.symm heq)
      simp [heq, hne]

/-- The stimulus that a pattern puts on the inputs. An input beyond the pattern keeps its bit. -/
def stimulusOf (c : Circuit) (pattern : List Bool) : Stimulus := fun id =>
  ((c.inputs.zip pattern).lookup id).getD (c.stimulus id)

theorem WellFormed.nodup_zip_inputs (hc : c.WellFormed) (pattern : List Bool) :
    ((c.inputs.zip pattern).map (·.1)).Nodup := by
  rw [List.zip_eq_zip_take_min, List.map_fst_zip (by simp)]
  exact (List.take_sublist ..).nodup hc.nodup_inputs

/-- The bits of a pattern go to inputs alone. -/
theorem WellFormed.isInput_of_lookup (hc : c.WellFormed) {pattern : List Bool} {id : NodeId}
    {bit : Bool} (hbit : (c.inputs.zip pattern).lookup id = some bit) :
    ∃ inverted, c.kind? id = some (.input inverted) := by
  obtain ⟨before, after, hzip, _⟩ := List.lookup_eq_some_iff.1 hbit
  have hmem : (id, bit) ∈ c.inputs.zip pattern := by simp [hzip]
  exact hc.mem_inputs.1 (List.of_mem_zip hmem).1

theorem WellFormed.lookup_eq_none (hc : c.WellFormed) {pattern : List Bool} {id : NodeId} {n : Node}
    (hn : c.node? id = some n) (hinput : n.kind.isInput = false) :
    (c.inputs.zip pattern).lookup id = none := by
  by_contra hsome
  obtain ⟨bit, hbit⟩ := Option.ne_none_iff_exists'.1 hsome
  obtain ⟨inverted, hkind⟩ := hc.isInput_of_lookup hbit
  rw [Option.some.inj ((kind?_of_node? hn).symm.trans hkind)] at hinput
  cases hinput

/-- What the inputs have been set to is the stimulus of the pattern. -/
theorem WellFormed.stimulus_applyBits (hc : c.WellFormed) (pattern : List Bool) :
    (c.applyBits (c.inputs.zip pattern)).stimulus = c.stimulusOf pattern := by
  funext id
  rw [stimulus, node?_applyBits (hc.nodup_zip_inputs pattern), stimulusOf]
  cases hbit : (c.inputs.zip pattern).lookup id with
  | none =>
    rw [Option.map_id', stimulus]
    rfl
  | some bit =>
    obtain ⟨inverted, hkind⟩ := hc.isInput_of_lookup hbit
    obtain ⟨n, hn, _⟩ := kind?_eq_some_iff.1 hkind
    simp [hn, Node.record]

/-- What a pattern makes of a node: an input takes its bit, and any other live node its value under
    the stimulus that the pattern stands for. -/
theorem WellFormed.node?_applyPattern (hc : c.WellFormed) (hacyclic : c.Acyclic)
    (hlive : c.IsLiveOrder order) (pattern : List Bool) (id : NodeId) :
    (c.applyPattern order pattern).node? id = (c.node? id).map fun n =>
      match (c.inputs.zip pattern).lookup id with
      | some bit => n.record (bit ^^ n.kind == .input true)
      | none => if id ∈ order ∧ n.kind.isInput = false then
          n.record (c.value (c.stimulusOf pattern) id) else n := by
  have hshape := (Simulated.applyBits c (c.inputs.zip pattern)).toSameShape
  rw [applyPattern, (hshape.wellFormed hc).node?_settleLive (hshape.acyclic hacyclic)
    (hlive.sameShape hshape), node?_applyBits (hc.nodup_zip_inputs pattern), Option.map_map]
  refine Option.map_congr fun n hn => ?_
  unfold settledNode
  rw [hc.stimulus_applyBits, hshape.value hc hacyclic, Function.comp_apply]
  cases hbit : (c.inputs.zip pattern).lookup id with
  | none => simp
  | some bit =>
    obtain ⟨inverted, hkind⟩ := hc.isInput_of_lookup hbit
    rw [kind?_of_node? hn] at hkind
    simp [Option.some.inj hkind, Node.record, Kind.isInput]

/-- The node is a gate that an output depends on. -/
def LiveGate (c : Circuit) (id : NodeId) : Prop := c.Live id ∧ c.IsGate id

/-- No pattern has told apart live gates that compute the same. -/
def Aligned (c : Circuit) : Prop :=
  ∀ a b, c.LiveGate a → c.LiveGate b → c.SameFunction a b → c.signature? a = c.signature? b

theorem SameShape.liveGate (h : c.SameShape d) {id : NodeId} : d.LiveGate id ↔ c.LiveGate id := by
  rw [LiveGate, LiveGate, h.live, IsGate, IsGate, h.kind?]

theorem SameShape.sameFunction (h : c.SameShape d) (hc : c.WellFormed) (hacyclic : c.Acyclic)
    {a b : NodeId} : d.SameFunction a b ↔ c.SameFunction a b := by
  simp only [SameFunction, h.value hc hacyclic]

/-- What gates compute decides what a pattern adds to their signatures. -/
theorem Aligned.applyPattern (h : c.Aligned) (hc : c.WellFormed) (hacyclic : c.Acyclic)
    (hlive : c.IsLiveOrder order) (pattern : List Bool) :
    (c.applyPattern order pattern).Aligned := by
  have hshape := (Simulated.applyPattern c order pattern).toSameShape
  have hsignature : ∀ id, c.LiveGate id → (c.applyPattern order pattern).signature? id =
      (c.signature? id).map (·.push (c.value (c.stimulusOf pattern) id)) := by
    intro id hgate
    obtain ⟨hid, kind, hkind, hgate⟩ := hgate
    obtain ⟨n, hn, rfl⟩ := kind?_eq_some_iff.1 hkind
    have hinput : n.kind.isInput = false := by
      cases hcase : n.kind <;> simp_all [Kind.isInput, Kind.isGate]
    rw [signature?, signature?, hc.node?_applyPattern hacyclic hlive, hn,
      hc.lookup_eq_none hn hinput, Option.map_some, if_pos ⟨hlive.mem_iff.2 hid, hinput⟩]
    rfl
  intro a b ha hb hsame
  rw [hshape.liveGate] at ha hb
  rw [hshape.sameFunction hc hacyclic] at hsame
  rw [hsignature a ha, hsignature b hb, h a b ha hb hsame, hsame]

theorem signature?_resetSignatures (c : Circuit) (id : NodeId) :
    c.resetSignatures.signature? id = (c.kind? id).map fun _ => #[] := by
  simp [signature?, kind?, node?, resetSignatures, Std.TreeMap.getElem?_map, Function.comp_def]

variable {τ : Type} {sink : Sink τ} {log log' : τ} {source : PatternSource}
  {report : SimulationReport}

end AndInverter.Circuit
