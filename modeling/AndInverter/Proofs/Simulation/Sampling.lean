import AndInverter.Proofs.Simulation.Pattern

namespace AndInverter

namespace Circuit

variable {c d e : Circuit} {order : List NodeId} {bits : List Bool} {patterns : List (List Bool)}
  {id : NodeId}

/-- The stimulus that a pattern stands for: its bits go to the inputs, by ascending id. -/
def presented (c : Circuit) (bits : List Bool) : Stimulus := fun id =>
  ((c.inputs.zip bits).lookup id).getD false

/-- A pattern of the right length has a bit for each input. -/
theorem exists_lookup_zip {ids : List NodeId} (hlength : bits.length = ids.length) (hid : id ∈ ids) :
    ∃ bit, (ids.zip bits).lookup id = some bit := by
  induction ids generalizing bits with
  | nil => cases hid
  | cons first ids ih =>
    cases bits with
    | nil => cases hlength
    | cons bit bits =>
      rw [List.zip_cons_cons, List.lookup_cons]
      by_cases heq : id = first
      · exact ⟨bit, by simp [heq]⟩
      · rw [beq_false_of_ne heq]
        exact ih (Nat.succ.inj hlength) ((List.mem_cons.1 hid).resolve_left heq)

/-- The values depend on the bits of the inputs alone. -/
theorem value_congr {p q : Stimulus}
    (h : ∀ id inverted, c.kind? id = some (.input inverted) → p id = q id) :
    c.value p = c.value q := by
  have hwithin : ∀ depth id, c.valueWithin p depth id = c.valueWithin q depth id := by
    intro depth
    induction depth with
    | zero => exact fun _ => rfl
    | succ depth ih =>
      intro id
      cases hkind : c.kind? id with
      | none => rw [valueWithin_missing hkind, valueWithin_missing hkind]
      | some kind =>
        rw [valueWithin_succ hkind, valueWithin_succ hkind, Kind.eval_congr fun e _ => ih e.node]
        cases kind with
        | input inverted => rw [Kind.eval, Kind.eval, h id inverted hkind]
        | _ => rfl
  exact funext fun id => hwithin _ id

theorem SameShape.value_presented (h : c.SameShape d) (hc : c.WellFormed) (hacyclic : c.Acyclic)
    (bits : List Bool) : d.value (d.presented bits) = c.value (c.presented bits) := by
  rw [h.value hc hacyclic]
  unfold presented
  rw [h.inputs]

/-- A whole pattern leaves nothing of what the inputs held before. -/
theorem WellFormed.value_stimulusOf (hc : c.WellFormed) (hlength : bits.length = c.inputs.length) :
    c.value (c.stimulusOf bits) = c.value (c.presented bits) := by
  refine value_congr fun id inverted hkind => ?_
  obtain ⟨bit, hbit⟩ := exists_lookup_zip hlength (hc.mem_inputs.2 ⟨inverted, hkind⟩)
  rw [stimulusOf, presented, hbit]
  rfl

/-- What a whole pattern makes of a node: an input or live node takes its value, and no other node
    changes. -/
theorem WellFormed.node?_applyWhole (hc : c.WellFormed) (hacyclic : c.Acyclic)
    (hlive : c.IsLiveOrder order) (hlength : bits.length = c.inputs.length) (id : NodeId) :
    (c.applyPattern order bits).node? id = (c.node? id).map fun n =>
      if n.kind.isInput = true ∨ id ∈ order then n.record (c.value (c.presented bits) id)
      else n := by
  rw [hc.node?_applyPattern hacyclic hlive, hc.value_stimulusOf hlength]
  refine Option.map_congr fun n hn => ?_
  have hkind := kind?_of_node? hn
  cases hinput : n.kind.isInput with
  | true =>
    obtain ⟨inverted, hinverted⟩ : ∃ inverted, n.kind = .input inverted := by
      cases hcase : n.kind <;> simp_all [Kind.isInput]
    rw [hinverted] at hkind
    obtain ⟨bit, hbit⟩ := exists_lookup_zip hlength (hc.mem_inputs.2 ⟨inverted, hkind⟩)
    have hpolarity : (Kind.input inverted == .input true) = inverted := by cases inverted <;> rfl
    simp [hbit, hc.value_eq hacyclic hkind, Kind.eval, presented, hinverted, hpolarity]
  | false => simp [hc.lookup_eq_none hn hinput]

/-- A simulation looks at the node: it is an input, or an output depends on it. -/
def Observed (c : Circuit) (id : NodeId) : Prop :=
  (∃ inverted, c.kind? id = some (.input inverted)) ∨ c.Live id

/-- What patterns leave in a circuit: every observed node has one value for each pattern in its
    signature, namely its value under that pattern. All other signatures are empty. -/
structure Sampled (c : Circuit) (patterns : List (List Bool)) (d : Circuit) : Prop where
  shape : c.SameShape d
  observed : ∀ id, c.Observed id →
    d.signature? id = some (patterns.map fun bits => c.value (c.presented bits) id).toArray
  silent : ∀ id, (c.kind? id).isSome = true → ¬ c.Observed id → d.signature? id = some #[]

theorem IsLiveOrder.observed_iff (hlive : c.IsLiveOrder order) {n : Node} (hn : c.node? id = some n) :
    c.Observed id ↔ n.kind.isInput = true ∨ id ∈ order := by
  rw [Observed, hlive.mem_iff, kind?_of_node? hn]
  cases n.kind <;> simp [Kind.isInput]

/-- A pattern adds one value to the signature of each node that the run looks at, and leaves the
    others. -/
theorem WellFormed.signature?_applyPattern (hc : c.WellFormed) (hacyclic : c.Acyclic)
    (hlive : c.IsLiveOrder order) (hlength : bits.length = c.inputs.length) (id : NodeId) :
    (c.Observed id → (c.applyPattern order bits).signature? id =
      (c.signature? id).map (·.push (c.value (c.presented bits) id))) ∧
    (¬ c.Observed id → (c.applyPattern order bits).signature? id = c.signature? id) := by
  unfold signature?
  rw [hc.node?_applyWhole hacyclic hlive hlength]
  cases hn : c.node? id with
  | none => exact ⟨fun _ => rfl, fun _ => rfl⟩
  | some n =>
    have hobserved := hlive.observed_iff hn
    refine ⟨fun h => ?_, fun h => ?_⟩
    · rw [Option.map_some, if_pos (hobserved.1 h)]
      rfl
    · rw [Option.map_some, if_neg (mt hobserved.2 h)]

theorem WellFormed.outputValues_applyPattern (hc : c.WellFormed) (hacyclic : c.Acyclic)
    (hlive : c.IsLiveOrder order) (hlength : bits.length = c.inputs.length) :
    (c.applyPattern order bits).outputValues = c.outputs.map (c.value (c.presented bits)) := by
  rw [outputValues, (Simulated.applyPattern c order bits).outputs]
  refine List.map_congr_left fun id hid => ?_
  have hreached : c.Live id := ⟨id, hid, .refl⟩
  rw [hc.signal_applyPattern hacyclic hlive bits hreached, hc.value_stimulusOf hlength,
    Edge.signal_plain]

theorem Observed.isSome (hc : c.WellFormed) (h : c.Observed id) : (c.kind? id).isSome = true := by
  rcases h with ⟨inverted, hkind⟩ | hlive
  · simp [hkind]
  · exact hlive.isSome hc

theorem SameShape.observed_iff (h : c.SameShape d) : d.Observed id ↔ c.Observed id := by
  rw [Observed, Observed, h.kind?, h.live]

namespace Sampled

theorem resetSignatures (hc : c.WellFormed) : c.Sampled [] c.resetSignatures := by
  have hempty : ∀ id, (c.kind? id).isSome = true → c.resetSignatures.signature? id = some #[] := by
    intro id hid
    obtain ⟨kind, hkind⟩ := Option.isSome_iff_exists.1 hid
    rw [signature?_resetSignatures, hkind, Option.map_some]
  exact ⟨(Simulated.resetSignatures c).toSameShape, fun id hid => hempty id (hid.isSome hc),
    fun id hid _ => hempty id hid⟩

/-- One more pattern puts one more value into the signature of every observed node. -/
theorem applyPattern (h : c.Sampled patterns e) (hc : c.WellFormed) (hacyclic : c.Acyclic)
    (hlive : c.IsLiveOrder order) (hlength : bits.length = c.inputs.length) :
    c.Sampled (patterns ++ [bits]) (e.applyPattern order bits) := by
  have hsignature := (h.shape.wellFormed hc).signature?_applyPattern (h.shape.acyclic hacyclic)
    (hlive.sameShape h.shape) (h.shape.inputs ▸ hlength)
  refine ⟨h.shape.trans (Simulated.applyPattern e order bits).toSameShape, fun id hid => ?_,
    fun id hsome hid => ?_⟩
  · rw [(hsignature id).1 (h.shape.observed_iff.2 hid), h.observed id hid,
      h.shape.value_presented hc hacyclic]
    simp
  · rw [(hsignature id).2 (mt h.shape.observed_iff.1 hid), h.silent id hsome hid]

theorem outputValues_applyPattern (h : c.Sampled patterns e) (hc : c.WellFormed)
    (hacyclic : c.Acyclic) (hlive : c.IsLiveOrder order) (hlength : bits.length = c.inputs.length) :
    (e.applyPattern order bits).outputValues = c.outputs.map (c.value (c.presented bits)) := by
  rw [(h.shape.wellFormed hc).outputValues_applyPattern (h.shape.acyclic hacyclic)
    (hlive.sameShape h.shape) (h.shape.inputs ▸ hlength), h.shape.outputs,
    h.shape.value_presented hc hacyclic]

theorem classify (h : c.Sampled patterns e) (hc : c.WellFormed) (hclassify : e.classify = .ok d) :
    c.Sampled patterns d := by
  obtain ⟨hshape, hsignature, _⟩ := (h.shape.wellFormed hc).of_classify hclassify
  refine ⟨h.shape.trans hshape, fun id hid => ?_, fun id hsome hid => ?_⟩
  · rw [hsignature, h.observed id hid]
  · rw [hsignature, h.silent id hsome hid]

end Sampled

/-- The line of the log for a pattern: its bits, a space, and the values of the outputs. -/
def responseLine (c : Circuit) (bits : List Bool) : String :=
  bitsText bits ++ " " ++ bitsText (c.outputs.map (c.value (c.presented bits))) ++ "\n"

/-- A simulation succeeded after these patterns, and passed over these lines: its report says so,
    the values under the patterns are left, and one line was logged for each pattern. -/
def Ran {τ : Type} (c : Circuit) (take : String → τ → τ) (log : τ) (patterns : List (List Bool))
    (skipped : List (Nat × PatternError)) (result : Except Error SimulationReport × Circuit × τ) :
    Prop :=
  ∃ d, c.Sampled patterns d ∧ result = (.ok ⟨patterns.length, skipped.toArray⟩, d,
    patterns.foldl (fun log bits => take (c.responseLine bits) log) log)

end Circuit

namespace PatternLine

/-- The pattern of the line, if it holds one. -/
def bits? : PatternLine → Option (List Bool)
  | pattern bits => some bits
  | _ => none

/-- Why the line is passed over, if it is and is not blank. -/
def reason? : PatternLine → Option PatternError
  | rejected reason => some reason
  | _ => none

/-- The lines that are passed over, with their numbers, the first of which is given. -/
def rejections (number : Nat) (lines : List PatternLine) : List (Nat × PatternError) :=
  (lines.zipIdx number).filterMap fun (line, number) => line.reason?.map (number, ·)

theorem rejections_cons (number : Nat) (line : PatternLine) (lines : List PatternLine) :
    rejections number (line :: lines) =
      (line.reason?.map (number, ·)).toList ++ rejections (number + 1) lines := by
  rw [rejections, List.zipIdx_cons, List.filterMap_cons]
  cases hreason : line.reason? <;> simp [hreason, rejections]

/-- The line can be read, and if it is a pattern it has this number of bits. -/
def Fits (width : Nat) (line : PatternLine) : Prop :=
  line ≠ .unreadable ∧ ∀ bits, line = .pattern bits → bits.length = width

end PatternLine

/-- The sink takes everything, and this is what it makes of it. -/
def Sink.Accepts {τ : Type} (sink : Sink τ) (take : String → τ → τ) : Prop :=
  ∀ text log, sink.write text log = .ok () (take text log)

end AndInverter
