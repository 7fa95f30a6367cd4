import AndInverter.Proofs.Simulation.Exact

open Relation

namespace AndInverter

namespace PatternSource

/-- The patterns that a source holds. -/
def patterns (width : Nat) (source : PatternSource) : List (List Bool) :=
  (source.lines width).filterMap (·.bits?)

/-- All patterns of the source have this number of bits. -/
def FitsWidth (width : Nat) (source : PatternSource) : Prop :=
  ∀ line ∈ source.lines width, ∀ bits, line = .pattern bits → bits.length = width

end PatternSource

namespace Circuit

variable {c d : Circuit} {order : List NodeId} {patterns : List (List Bool)} {id : NodeId}
  {signature : Signature}

/-- A simulation that succeeds leaves the values under the patterns of its source, counts these, and
    groups the gates. -/
theorem WellFormed.sampled_of_simulate {τ : Type} {sink : Sink τ} {log log' : τ}
    {source : PatternSource} {report : SimulationReport} (hc : c.WellFormed) (hacyclic : c.Acyclic)
    (hsource : source.FitsWidth c.inputs.length)
    (h : c.simulate sink log source = (.ok report, d, log')) :
    c.Sampled (source.patterns c.inputs.length) d ∧
      report.patterns = (source.patterns c.inputs.length).length ∧ ∃ order, d.Grouped order := by
  obtain ⟨e, he, _, hresult, hclasses, _⟩ := Simulation.simulate_course hc hacyclic hsource sink log rfl
  obtain ⟨houtcome, hrest⟩ := Prod.mk.inj (h.symm.trans hresult)
  obtain ⟨rfl, _⟩ := Prod.mk.inj hrest
  obtain ⟨hfailure, rfl⟩ := Simulation.Course.outcome_eq_ok_iff.1 houtcome.symm
  obtain ⟨hpatterns, hcount⟩ := Simulation.course_of_completed hfailure
  rw [hpatterns] at he
  have hclassify : d.classify = .ok d := except_bind_eq_ok_iff.2 ⟨d.classes, hclasses hfailure, rfl⟩
  refine ⟨he, hcount.trans (Nat.zero_add _), ?_⟩
  exact ((he.shape.wellFormed hc).of_classify hclassify).2.2

/-- What patterns have left is what the circuit itself computes under them. -/
theorem Sampled.self (h : c.Sampled patterns d) (hc : c.WellFormed) (hacyclic : c.Acyclic) :
    d.Sampled patterns d where
  shape := SameShape.refl d
  observed id hid := by
    simp only [h.observed id (h.shape.observed_iff.1 hid), h.shape.value_presented hc hacyclic]
  silent id hsome hid := h.silent id (h.shape.kind? id ▸ hsome) (mt h.shape.observed_iff.2 hid)

/-- The nodes have the same value under each of the patterns. -/
def AgreeUnder (c : Circuit) (patterns : List (List Bool)) (a b : NodeId) : Prop :=
  ∀ bits ∈ patterns, c.value (c.presented bits) b = c.value (c.presented bits) a

/-- The nodes have opposite values under each of the patterns. -/
def OpposeUnder (c : Circuit) (patterns : List (List Bool)) (a b : NodeId) : Prop :=
  ∀ bits ∈ patterns, c.value (c.presented bits) b = !c.value (c.presented bits) a

/-- The groups are the classes of live gates that agree under the patterns, each with producers
    first, and the peers of a gate can be read off them. -/
structure GroupedBy (c : Circuit) (patterns : List (List Bool)) : Prop where
  nodup : c.classes.groups.values.flatten.Nodup
  mem_iff : ∀ id, id ∈ c.classes.groups.values.flatten ↔ c.LiveGate id
  together_iff : ∀ a b, c.LiveGate a → c.LiveGate b →
    ((∃ group ∈ c.classes.groups.values, a ∈ group ∧ b ∈ group) ↔ c.AgreeUnder patterns a b)
  sublist : ∀ group ∈ c.classes.groups.values,
    ∃ order, c.liveOrder = .ok order ∧ group.Sublist order
  ordered : ∀ group ∈ c.classes.groups.values,
    group.Pairwise fun earlier later => ¬ TransGen c.Feeds later earlier
  peers_none : ∀ id, c.peers? id = none ↔ ¬ c.LiveGate id
  peers_some : ∀ id same opposite, c.peers? id = some (same, opposite) →
    same.Nodup ∧ opposite.Nodup ∧
      (∀ other, other ∈ same ↔ c.LiveGate other ∧ other ≠ id ∧ c.AgreeUnder patterns id other) ∧
      ∀ other, other ∈ opposite ↔ c.LiveGate other ∧ c.OpposeUnder patterns id other

section Signatures

variable {a b : NodeId}

theorem Sampled.signature?_of_liveGate (h : c.Sampled patterns c) (hid : c.LiveGate id) :
    c.signature? id = some (patterns.map fun bits => c.value (c.presented bits) id).toArray :=
  h.observed id (.inr hid.1)

theorem Sampled.agreeUnder_iff (h : c.Sampled patterns c) (ha : c.LiveGate a) (hb : c.LiveGate b) :
    c.AgreeUnder patterns a b ↔ c.signature? b = c.signature? a := by
  rw [h.signature?_of_liveGate ha, h.signature?_of_liveGate hb, Option.some_inj, AgreeUnder]
  simp

theorem Sampled.opposeUnder_iff (h : c.Sampled patterns c) (ha : c.LiveGate a) (hb : c.LiveGate b) :
    c.OpposeUnder patterns a b ↔ c.signature? b = (c.signature? a).map (·.complement) := by
  rw [h.signature?_of_liveGate ha, h.signature?_of_liveGate hb, Option.map_some, Option.some_inj,
    OpposeUnder]
  simp [Signature.complement]

end Signatures

section Groups

theorem Grouped.mem_group_iff (h : c.Grouped order) :
    id ∈ c.classes.group signature ↔ c.LiveGate id ∧ c.signature? id = some signature := by
  rw [h.group, List.mem_filter, isGateWith_eq_true_iff, h.isLiveOrder.mem_iff, LiveGate, and_assoc]

theorem LiveGate.exists_signature (h : c.LiveGate id) :
    ∃ signature, c.signature? id = some signature := by
  obtain ⟨_, kind, hkind, _⟩ := h
  obtain ⟨n, hn, _⟩ := kind?_eq_some_iff.1 hkind
  exact ⟨n.signature, by simp [signature?, hn]⟩

/-- Live gates are in one group exactly if their signatures are equal. -/
theorem Grouped.exists_group_iff (h : c.Grouped order) {a b : NodeId} (ha : c.LiveGate a)
    (hb : c.LiveGate b) : (∃ group ∈ c.classes.groups.values, a ∈ group ∧ b ∈ group) ↔
      c.signature? b = c.signature? a := by
  constructor
  · rintro ⟨group, hgroup, hamem, hbmem⟩
    obtain ⟨signature, rfl⟩ := Classes.exists_eq_group_of_mem_values hgroup
    rw [(h.mem_group_iff.1 hamem).2, (h.mem_group_iff.1 hbmem).2]
  · intro hsame
    obtain ⟨signature, hsignature⟩ := ha.exists_signature
    have hamem := h.mem_group_iff.2 ⟨ha, hsignature⟩
    have hbmem := h.mem_group_iff.2 ⟨hb, hsame.trans hsignature⟩
    exact ⟨_, Classes.group_mem_values (List.ne_nil_of_mem hamem), hamem, hbmem⟩

/-- No gate depends on a gate behind it in the group. -/
theorem Grouped.pairwise_group (h : c.Grouped order) (hc : c.WellFormed) (hacyclic : c.Acyclic)
    (signature : Signature) :
    (c.classes.group signature).Pairwise fun earlier later => ¬ TransGen c.Feeds later earlier := by
  obtain ⟨rank, hranked, _, hpairwise⟩ := hc.exists_rank_of_liveOrder hacyclic h.isLiveOrder
  have hsublist : (c.classes.group signature).Sublist order :=
    h.group signature ▸ List.filter_sublist
  refine (hpairwise.sublist hsublist).imp_of_mem fun {earlier later} _ hlater hlt hpath => ?_
  have hne := (h.mem_group_iff.1 hlater).1.2.ne_zero hc.toIndexed
  exact Nat.lt_asymm (hlt hne) (hranked.lt_of_transGen hpath)

theorem Grouped.peers?_of_liveGate (h : c.Grouped order) (hid : c.LiveGate id)
    (hsignature : c.signature? id = some signature) :
    c.peers? id = some ((c.classes.group signature).filter (· != id),
      c.classes.group signature.complement) := by
  obtain ⟨n, hn, rfl⟩ := Option.map_eq_some_iff.1 hsignature
  have hmem := h.mem_group_iff.2 ⟨hid, hsignature⟩
  unfold peers?
  rw [hn]
  simp [hmem, Classes.opposites]

theorem Grouped.peers?_eq_none (h : c.Grouped order) (hid : ¬ c.LiveGate id) :
    c.peers? id = none := by
  unfold peers?
  cases hn : c.node? id with
  | none => rfl
  | some n =>
    have hmem : id ∉ c.classes.group n.signature := fun hmem => hid (h.mem_group_iff.1 hmem).1
    simp [hmem]

/-- Right after a simulation, signatures are lists of values, so that groups and peers can be told
    from these. -/
theorem Grouped.groupedBy (h : c.Grouped order) (hc : c.WellFormed) (hacyclic : c.Acyclic)
    (hsampled : c.Sampled patterns c) : c.GroupedBy patterns where
  nodup := h.nodup_values
  mem_iff id := by
    rw [Classes.mem_flatten_values_iff]
    constructor
    · rintro ⟨signature, hid⟩
      exact (h.mem_group_iff.1 hid).1
    · intro hid
      obtain ⟨signature, hsignature⟩ := hid.exists_signature
      exact ⟨signature, h.mem_group_iff.2 ⟨hid, hsignature⟩⟩
  together_iff a b ha hb := by rw [h.exists_group_iff ha hb, hsampled.agreeUnder_iff ha hb]
  sublist group hgroup := by
    obtain ⟨signature, rfl⟩ := Classes.exists_eq_group_of_mem_values hgroup
    exact ⟨order, h.liveOrder, h.group signature ▸ List.filter_sublist⟩
  ordered group hgroup := by
    obtain ⟨signature, rfl⟩ := Classes.exists_eq_group_of_mem_values hgroup
    exact h.pairwise_group hc hacyclic signature
  peers_none id := by
    refine ⟨fun hnone hid => ?_, h.peers?_eq_none⟩
    obtain ⟨signature, hsignature⟩ := hid.exists_signature
    rw [h.peers?_of_liveGate hid hsignature] at hnone
    cases hnone
  peers_some id same opposite hpeers := by
    have hid : c.LiveGate id := by
      by_contra hnot
      rw [h.peers?_eq_none hnot] at hpeers
      cases hpeers
    obtain ⟨signature, hsignature⟩ := hid.exists_signature
    rw [h.peers?_of_liveGate hid hsignature] at hpeers
    cases hpeers
    have hnodup : ∀ signature, (c.classes.group signature).Nodup := fun signature =>
      h.group signature ▸ h.isLiveOrder.nodup.filter _
    refine ⟨(hnodup _).filter _, hnodup _, fun other => ?_, fun other => ?_⟩
    · rw [List.mem_filter, h.mem_group_iff, bne_iff_ne, and_assoc]
      refine and_congr_right fun hother => ?_
      rw [hsampled.agreeUnder_iff hid hother, hsignature, and_comm]
    · rw [h.mem_group_iff]
      refine and_congr_right fun hother => ?_
      rw [hsampled.opposeUnder_iff hid hother, hsignature, Option.map_some]

end Groups

section Sources

theorem fitsWidth_textSource (c : Circuit) (text : ByteArray) :
    (c.textSource text).FitsWidth c.inputs.length := by
  intro line hline bits hbits
  obtain ⟨chars?, _, rfl⟩ := List.mem_map.1 hline
  cases chars? with
  | none => cases hbits
  | some chars => exact (PatternLine.fits_ofLine c.inputs.length chars).2 bits hbits

theorem patterns_textSource (c : Circuit) (text : String) :
    (c.textSource text.toUTF8).patterns c.inputs.length = c.patternsIn text := by
  rw [PatternSource.patterns, lines_textSource, filterMap_bits?_patternLines]

theorem patterns_randomSource (c : Circuit) (seed : UInt64) (count : Option Nat) :
    (c.randomSource seed count).patterns c.inputs.length = c.patternsDrawn seed count :=
  PatternLine.filterMap_bits?_map_pattern _

theorem fitsWidth_randomSource (c : Circuit) (seed : UInt64) (count : Option Nat) :
    (c.randomSource seed count).FitsWidth c.inputs.length := by
  intro line hline bits hbits
  obtain ⟨row, hrow, rfl⟩ := List.mem_map.1 hline
  obtain rfl := PatternLine.pattern.inj hbits
  exact Generator.length_of_mem_rows hrow

end Sources

variable {τ : Type}

/-- What a simulation has done that succeeded after these patterns: it has counted them, has left
    the circuit as it was but for what it computed, and has grouped the gates by them. -/
def Classified (c : Circuit) (patterns : List (List Bool)) (report : SimulationReport)
    (d : Circuit) : Prop :=
  report.patterns = patterns.length ∧ c.SameShape d ∧ d.GroupedBy patterns

theorem WellFormed.classified_of_simulate {sink : Sink τ} {log log' : τ} {source : PatternSource}
    {report : SimulationReport} (hc : c.WellFormed) (hacyclic : c.Acyclic)
    (hsource : source.FitsWidth c.inputs.length)
    (h : c.simulate sink log source = (.ok report, d, log')) :
    c.Classified (source.patterns c.inputs.length) report d := by
  obtain ⟨hsampled, hcount, order, hgrouped⟩ := hc.sampled_of_simulate hacyclic hsource h
  have hd := hsampled.shape.wellFormed hc
  have hdacyclic := hsampled.shape.acyclic hacyclic
  exact ⟨hcount, hsampled.shape, hgrouped.groupedBy hd hdacyclic (hsampled.self hc hacyclic)⟩

/-- On a circuit that a session has built without cycles: whatever text is simulated, or whatever is
    drawn, and wherever the log goes, if the simulation succeeds then the groups are the classes of
    live gates that agree under all its patterns. -/
theorem simulation_classifies (ops : List Operation) (hacyclic : (empty.after ops).Acyclic)
    (sink : Sink τ) (log : τ) :
    (∀ text report d log',
      (empty.after ops).simulateText sink log text = (.ok report, d, log') →
        (empty.after ops).Classified
          (((empty.after ops).textSource text).patterns (empty.after ops).inputs.length) report d) ∧
      ∀ seed count report d log',
        (empty.after ops).simulateRandom sink log seed count = (.ok report, d, log') →
          (empty.after ops).Classified ((empty.after ops).patternsDrawn seed count) report d := by
  have hc := wellFormed_after ops
  refine ⟨fun text report d log' h => ?_, fun seed count report d log' h => ?_⟩
  · exact hc.classified_of_simulate hacyclic (fitsWidth_textSource _ text) h
  · rw [← patterns_randomSource]
    exact hc.classified_of_simulate hacyclic (fitsWidth_randomSource _ seed count) h

/-- Two gates that compute the same, the opposite of one of them, a gate apart, and a dead gate. -/
def related : List Operation :=
  [.addInput 1, .addInput 2, .addGate 3 ⟨1, false⟩ ⟨2, false⟩, .addGate 4 ⟨2, false⟩ ⟨1, false⟩,
    .addGate 5 ⟨3, true⟩ ⟨0, true⟩, .addGate 6 ⟨1, false⟩ ⟨2, true⟩,
    .addGate 7 ⟨4, false⟩ ⟨6, false⟩, .addOutput ⟨4, false⟩, .addOutput ⟨5, false⟩,
    .addOutput ⟨6, false⟩]

theorem simulation_classifies_related :
    (empty.after related).Acyclic ∧
      ∃ d, (empty.after related).simulateText Sink.discard () "00\n10\n1x\n11\n".toUTF8 =
          (.ok ⟨3, #[(3, .nonBinary "1x" 'x')]⟩, d, ()) ∧
        (empty.after related).Classified [[false, false], [true, false], [true, true]]
          ⟨3, #[(3, .nonBinary "1x" 'x')]⟩ d ∧
        d.classes.groups.values = [[4, 3], [6], [5]] ∧
        [3, 4, 5, 6, 7].map d.peers? =
          [some ([4], [5]), some ([3], [5]), some ([], [4, 3]), some ([], []), none] := by
  have haudit : (empty.after related).audit = .ok () := by decide +kernel
  have hacyclic := (wellFormed_after related).audit_eq_ok_iff.1 haudit
  have hresult : (empty.after related).simulateText Sink.discard () "00\n10\n1x\n11\n".toUTF8 =
      (.ok ⟨3, #[(3, .nonBinary "1x" 'x')]⟩, ((empty.after related).simulateText Sink.discard ()
        "00\n10\n1x\n11\n".toUTF8).2.1, ()) :=
    Prod.ext (by decide +kernel) (Prod.ext rfl rfl)
  have hgroups := (simulation_classifies related hacyclic Sink.discard ()).1 _ _ _ _ hresult
  have hpatterns : (empty.after related).patternsIn "00\n10\n1x\n11\n" =
      [[false, false], [true, false], [true, true]] := by decide +kernel
  rw [patterns_textSource, hpatterns] at hgroups
  refine ⟨hacyclic, _, hresult, hgroups, ?_, ?_⟩
  · decide +kernel
  · decide +kernel

end Circuit

end AndInverter
