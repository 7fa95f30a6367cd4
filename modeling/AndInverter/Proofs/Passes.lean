import AndInverter.Circuit.Reduction
import AndInverter.Circuit.Sharing
import AndInverter.Circuit.Sweep
import AndInverter.Circuit.Trivial
import AndInverter.Proofs.WellFormed
import AndInverter.Proofs.Sequencing
import AndInverter.Proofs.Simulation.Whole

open AndInverter.Sat

namespace AndInverter

namespace Circuit

/-- What a simulation writes into a circuit on the way shows in values and signatures alone. -/
structure Simulated (c d : Circuit) : Prop extends c.SameShape d where
  classes : d.classes = c.classes
  name : ∀ id, (d.node? id).map (·.name) = (c.node? id).map (·.name)

namespace Simulated

theorem refl (c : Circuit) : c.Simulated c := ⟨SameShape.refl c, rfl, fun _ => rfl⟩

theorem trans {c d e : Circuit} (hcd : c.Simulated d) (hde : d.Simulated e) : c.Simulated e :=
  ⟨hcd.toSameShape.trans hde.toSameShape, hde.classes.trans hcd.classes,
    fun id => (hde.name id).trans (hcd.name id)⟩

theorem resetSignatures (c : Circuit) : c.Simulated c.resetSignatures := by
  refine ⟨⟨rfl, rfl, rfl, fun id => ?_⟩, rfl, fun id => ?_⟩ <;>
    simp [Circuit.resetSignatures, node?, Std.TreeMap.getElem?_map, Function.comp_def]

theorem update_record (c : Circuit) (id : NodeId) (value : Node → Bool) :
    c.Simulated (c.update id fun n => n.record (value n)) := by
  refine ⟨sameShape_update c id (fun _ => rfl) (fun _ => rfl) fun _ => rfl, rfl, fun other => ?_⟩
  rw [node?_update]
  split
  · next heq =>
    rw [Option.map_map, heq]
    rfl
  · rfl

theorem settle (c : Circuit) (id : NodeId) : c.Simulated (c.settle id) := by
  unfold Circuit.settle
  split
  · next value _ => exact update_record c id fun _ => value
  · exact refl c

theorem foldl {α : Type} {f : Circuit → α → Circuit}
    (h : ∀ (c : Circuit) (a : α), c.Simulated (f c a)) (l : List α) (c : Circuit) :
    c.Simulated (l.foldl f c) := by
  induction l generalizing c with
  | nil => exact refl c
  | cons a l ih => exact (h c a).trans (ih (f c a))

theorem applyBits (c : Circuit) (bits : List (NodeId × Bool)) :
    c.Simulated (c.applyBits bits) :=
  foldl (fun c (id, bit) => update_record c id fun n => bit ^^ n.kind == .input true) bits c

theorem applyPattern (c : Circuit) (order : List NodeId) (pattern : List Bool) :
    c.Simulated (c.applyPattern order pattern) :=
  (applyBits c (c.inputs.zip pattern)).trans (foldl settle order _)

end Simulated

end Circuit

/-- A property of circuits that simulations and new groups do not break. -/
structure Steady (P : Circuit → Prop) : Prop where
  classify : ∀ {c d : Circuit}, P c → c.classify = .ok d → P d
  simulated : ∀ {c d : Circuit}, P c → c.Simulated d → P d

theorem exists_classes_of_classify {c d : Circuit} (h : c.classify = .ok d) :
    ∃ classes, d = { c with classes } := by
  obtain ⟨classes, _, hd⟩ := except_bind_eq_ok_iff.1 h
  exact ⟨classes, (Except.ok.inj hd).symm⟩

/-- A property of circuits that no elementary change breaks. All passes are made of these
    changes, so they do not break it either, wherever they fail. -/
structure Lasting (P : Circuit → Prop) : Prop extends Steady P where
  redirect : ∀ {c d : Circuit} {victim : NodeId} {replacement : Edge}, P c →
    c.redirect victim replacement = .ok d → P d
  remove : ∀ {c d : Circuit} {ids : List NodeId}, P c → c.remove ids = .ok d → P d

namespace Pass

variable {α : Type} {P : Circuit → Prop}

theorem ask_of_ok {question : Circuit → Except Error α} {c : Circuit} {a : α}
    (h : question c = .ok a) : ask question c = .ok a c := by
  rw [ask, h]

theorem step_of_ok {change : Circuit → Except Error Circuit} {c d : Circuit}
    (h : change c = .ok d) : step change c = .ok () d := by
  rw [step, h]

theorem ask_eq_ok_iff {question : Circuit → Except Error α} {c d : Circuit} {a : α} :
    ask question c = .ok a d ↔ question c = .ok a ∧ c = d := by
  unfold ask
  cases question c <;> simp

theorem step_eq_ok_iff {change : Circuit → Except Error Circuit} {c d : Circuit} :
    step change c = .ok () d ↔ change c = .ok d := by
  unfold step
  cases change c <;> simp

theorem keeps_ask (P : Circuit → Prop) (question : Circuit → Except Error α) :
    Keeps P (ask question) := by
  intro c hc
  unfold ask
  cases question c <;> exact hc

theorem keeps_step {change : Circuit → Except Error Circuit}
    (h : ∀ c d, P c → change c = .ok d → P d) : Keeps P (step change) := by
  intro c hc
  unfold step
  cases hchange : change c with
  | ok d => exact h c d hc hchange
  | error failure => exact hc

end Pass

namespace Circuit

variable {c d : Circuit}

/-- Structural hashing is the run over the order of the walk, and then the grouping. -/
theorem share_eq_ok_iff {merges : List (NodeId × NodeId)} : share c = .ok merges d ↔
    ∃ order e, c.liveOrder = .ok order ∧ mergeShared ∅ order c = .ok merges e ∧ e.classify = .ok d := by
  constructor
  · intro h
    obtain ⟨order, _, hask, h⟩ := estateM_bind_eq_ok_iff.1 h
    obtain ⟨horder, rfl⟩ := Pass.ask_eq_ok_iff.1 hask
    obtain ⟨_, e, hmerges, h⟩ := estateM_bind_eq_ok_iff.1 h
    obtain ⟨_, _, hstep, h⟩ := estateM_bind_eq_ok_iff.1 h
    cases h
    exact ⟨order, e, horder, hmerges, Pass.step_eq_ok_iff.1 hstep⟩
  · rintro ⟨order, e, horder, hmerges, hclassify⟩
    have hask : Pass.ask liveOrder c = .ok order c := Pass.ask_of_ok horder
    have hstep : Pass.step classify e = .ok () d := Pass.step_of_ok hclassify
    rw [share, estateM_bind_of_ok hask, estateM_bind_of_ok hmerges, estateM_bind_of_ok hstep]
    rfl

theorem simplify_eq_ok_iff {replaced : List (NodeId × Edge)} : simplify c = .ok replaced d ↔
    ∃ order, c.liveOrder = .ok order ∧ replaceTrivial order c = .ok replaced d := by
  constructor
  · intro h
    obtain ⟨order, _, hask, h⟩ := estateM_bind_eq_ok_iff.1 h
    obtain ⟨horder, rfl⟩ := Pass.ask_eq_ok_iff.1 hask
    exact ⟨order, horder, h⟩
  · rintro ⟨order, horder, hreplaced⟩
    have hask : Pass.ask liveOrder c = .ok order c := Pass.ask_of_ok horder
    rw [simplify, estateM_bind_of_ok hask, hreplaced]

/-- Sweeping removes the dead nodes, all at once. -/
theorem sweep_eq_ok_iff {ids : List NodeId} :
    sweep c = .ok ids d ↔ c.dead = .ok ids ∧ c.remove ids = .ok d := by
  constructor
  · intro h
    obtain ⟨_, _, hask, h⟩ := estateM_bind_eq_ok_iff.1 h
    obtain ⟨hdead, rfl⟩ := Pass.ask_eq_ok_iff.1 hask
    obtain ⟨_, _, hstep, h⟩ := estateM_bind_eq_ok_iff.1 h
    cases h
    exact ⟨hdead, Pass.step_eq_ok_iff.1 hstep⟩
  · rintro ⟨hdead, hremove⟩
    have hask : Pass.ask dead c = .ok ids c := Pass.ask_of_ok hdead
    have hstep : Pass.step (·.remove ids) c = .ok () d := Pass.step_of_ok hremove
    rw [sweep, estateM_bind_of_ok hask, estateM_bind_of_ok hstep]
    rfl

end Circuit

namespace Lasting

variable {P : Circuit → Prop}

/-- Structural hashing edits the circuit by redirections alone. -/
theorem mergeShared (h : Lasting P) (known : Std.TreeMap FaninPair NodeId) (ids : List NodeId) :
    Keeps P (Circuit.mergeShared known ids) := by
  induction ids generalizing known with
  | nil => exact Keeps.pure P []
  | cons id rest ih =>
    apply (Pass.keeps_ask P _).bind
    intro n
    split
    · split
      · apply (Pass.keeps_step fun c d hc hd => h.redirect hc hd).bind
        intro _
        exact (ih known).bind fun _ => Keeps.pure P _
      · exact ih _
    · exact ih known

theorem share (h : Lasting P) : Keeps P Circuit.share := by
  apply (Pass.keeps_ask P _).bind
  intro order
  apply (h.mergeShared ∅ order).bind
  intro merges
  exact (Pass.keeps_step fun c d hc hd => h.classify hc hd).bind fun _ => Keeps.pure P merges

/-- Simplification edits the circuit by redirections alone. -/
theorem replaceTrivial (h : Lasting P) (ids : List NodeId) :
    Keeps P (Circuit.replaceTrivial ids) := by
  induction ids with
  | nil => exact Keeps.pure P []
  | cons id rest ih =>
    apply (Pass.keeps_ask P _).bind
    intro n
    split
    · exact ih
    · apply (Pass.keeps_step fun c d hc hd => h.redirect hc hd).bind
      intro _
      exact ih.bind fun _ => Keeps.pure P _

theorem simplify (h : Lasting P) : Keeps P Circuit.simplify :=
  (Pass.keeps_ask P _).bind fun order => h.replaceTrivial order

theorem sweep (h : Lasting P) : Keeps P Circuit.sweep := by
  apply (Pass.keeps_ask P _).bind
  intro ids
  exact (Pass.keeps_step fun c d hc hd => h.remove hc hd).bind fun _ => Keeps.pure P ids

end Lasting

namespace Reducer

variable {σ α : Type} {P : Circuit → Prop}

theorem keeps_consult (P : Circuit → Prop) (action : EStateM String σ α) :
    Keeps (fun r : Reduction σ => P r.circuit) (consult action) := by
  intro r hr
  unfold consult
  cases action r.oracle <;> exact hr

theorem keeps_ask (P : Circuit → Prop) (question : Reduction σ → Except Error α) :
    Keeps (fun r => P r.circuit) (ask question) := by
  intro r hr
  unfold ask
  cases question r <;> exact hr

theorem keeps_changeCircuit {change : Circuit → Except Error Circuit}
    (h : ∀ c d, P c → change c = .ok d → P d) :
    Keeps (fun r : Reduction σ => P r.circuit) (changeCircuit change) := by
  intro r hr
  unfold changeCircuit
  cases hchange : change r.circuit with
  | ok d => exact h r.circuit d hr hchange
  | error failure => exact hr

theorem keeps_note (P : Circuit → Prop) (f : ReductionReport → ReductionReport) :
    Keeps (fun r : Reduction σ => P r.circuit) (note f) :=
  Keeps.modify fun _ hr => hr

/-- A question to the oracle does not touch the circuit. -/
theorem keeps_proveEqual (P : Circuit → Prop) (oracle : Oracle σ) (a b : NodeId) :
    Keeps (fun r => P r.circuit) (proveEqual oracle a b) := by
  apply (keeps_ask P _).bind
  intro la
  apply (keeps_ask P _).bind
  intro lb
  apply (Keeps.get _).bind
  intro r
  split
  refine Keeps.bind (Keeps.modify fun _ hr => hr) fun _ => ?_
  apply (Keeps.forM fun clause _ => keeps_consult P _).bind
  intro _
  exact (keeps_consult P _).bind fun answer => Keeps.pure _ _

end Reducer

namespace Lasting

variable {σ τ : Type} {P : Circuit → Prop}

/-- Comparing candidates edits the circuit by redirections alone, also when the oracle fails half
    way. -/
theorem mergeEqual (h : Lasting P) (oracle : Oracle σ) (first : NodeId) (group : List NodeId) :
    Keeps (fun r => P r.circuit) (Reducer.mergeEqual oracle first group) := by
  induction group with
  | nil => exact Keeps.pure _ []
  | cons other rest ih =>
    apply (Reducer.keeps_note P _).bind
    intro _
    apply (Reducer.keeps_proveEqual P oracle first other).bind
    intro equal
    split
    · apply (Reducer.keeps_changeCircuit fun c d hc hd => h.redirect hc hd).bind
      intro _
      exact (Reducer.keeps_note P _).bind fun _ => ih
    · exact (Reducer.keeps_note P _).bind fun _ => ih.bind fun _ => Keeps.pure _ _

theorem reduceGroup (h : Lasting P) (oracle : Oracle σ) (rounds : Nat) (group : List NodeId) :
    Keeps (fun r => P r.circuit) (Reducer.reduceGroup oracle rounds group) := by
  induction rounds generalizing group with
  | zero => exact Keeps.pure _ _
  | succ rounds ih =>
    cases group with
    | nil => exact Keeps.pure _ _
    | cons first rest => exact (h.mergeEqual oracle first rest).bind fun left => ih left

theorem run (h : Lasting P) (oracle : Oracle σ) :
    Keeps (fun r => P r.circuit) (Reducer.run oracle) := by
  apply (Keeps.get _).bind
  intro start
  apply (Keeps.forM fun clause _ => Reducer.keeps_consult P _).bind
  intro _
  apply (Keeps.forM fun group _ => h.reduceGroup oracle _ group).bind
  intro _
  exact Reducer.keeps_changeCircuit fun c d hc hd => h.classify hc hd

theorem reduceWith (h : Lasting P) (oracle : Oracle σ) (s : σ) {c : Circuit} (hc : P c) :
    P (c.reduceWith oracle s).2.1 := by
  unfold Circuit.reduceWith
  split
  · exact hc
  · next encoding _ =>
    have hkept := h.run oracle ⟨c, encoding, s, ⟨[], 0, 0⟩⟩ hc
    split at hkept <;> simp_all

end Lasting

namespace Simulation

variable {τ α : Type}

theorem keeps_ask (P : Circuit → Prop) (question : Circuit → Except Error α) :
    Keeps (fun s : Simulation τ => P s.circuit) (ask question) := by
  intro s hs
  unfold ask
  cases question s.circuit <;> exact hs

theorem of_ask {question : Circuit → Except Error α} {s t : Simulation τ} {a : α}
    (h : ask question s = .ok a t) : question s.circuit = .ok a ∧ s = t := by
  unfold ask at h
  cases hanswer : question s.circuit with
  | ok b =>
    rw [hanswer] at h
    cases h
    exact ⟨rfl, rfl⟩
  | error failure =>
    rw [hanswer] at h
    cases h

theorem keeps_write (P : Circuit → Prop) (sink : Sink τ) (text : String) :
    Keeps (fun s : Simulation τ => P s.circuit) (write sink text) := by
  intro s hs
  unfold write
  cases sink.write text s.log <;> exact hs

theorem keeps_logPattern (P : Circuit → Prop) (sink : Sink τ) (pattern : List Bool) :
    Keeps (fun s : Simulation τ => P s.circuit) (logPattern sink pattern) := by
  unfold logPattern
  split
  · exact (keeps_ask P _).bind fun text => keeps_write P sink text
  · exact Keeps.pure _ _

variable {P : Circuit → Prop} {order : List NodeId}

theorem keeps_onCircuit {pass : Pass α} (h : Keeps P pass) :
    Keeps (fun s : Simulation τ => P s.circuit) (onCircuit pass) := by
  intro s hs
  have hkept := h s.circuit hs
  unfold onCircuit
  cases hresult : pass s.circuit <;> simpa [hresult] using hkept

/-- Recording values in nodes is all that a pattern does, also when it is broken off. -/
theorem keeps_present (h : ∀ c id (value : Node → Bool), P c →
    P (c.update id fun n => n.record (value n))) (order : List NodeId) (pattern : List Bool) :
    Keeps P (present order pattern) := by
  have hinput : ∀ bit : NodeId × Bool, Keeps P (setInput bit.1 bit.2) := fun bit =>
    Pass.keeps_step fun c d hc hd => by
      obtain ⟨_, _, hd⟩ := except_bind_eq_ok_iff.1 hd
      obtain rfl := Except.ok.inj hd
      exact h c bit.1 _ hc
  have hsettle : ∀ id, Keeps P (settleNode id) := fun id =>
    Pass.keeps_step fun c d hc hd => by
      obtain ⟨_, _, hd⟩ := except_bind_eq_ok_iff.1 hd
      obtain ⟨value, _, hd⟩ := except_bind_eq_ok_iff.1 hd
      cases value with
      | some value =>
        obtain rfl := Except.ok.inj hd
        exact h c id (fun _ => value) hc
      | none =>
        obtain rfl := Except.ok.inj hd
        exact hc
  refine (Keeps.get P).bind fun c => ?_
  exact (Keeps.forM fun bit _ => hinput bit).bind fun _ => Keeps.forM fun id _ => hsettle id

/-- Patterns are all that a simulation does to a circuit before it groups the gates. -/
theorem keeps_runLines (h : ∀ bits, Keeps P (present order bits)) (sink : Sink τ)
    (number : Nat) (lines : List PatternLine) :
    Keeps (fun s => P s.circuit) (runLines sink order number lines) := by
  induction lines generalizing number with
  | nil => exact Keeps.pure _ _
  | cons line rest ih =>
    have hrest := ih (number + 1)
    cases line with
    | blank => exact hrest
    | pattern bits =>
      refine Keeps.bind ?_ fun _ => hrest
      apply (keeps_onCircuit (h bits)).bind
      intro _
      exact (keeps_logPattern P sink bits).bind fun _ => Keeps.modify fun _ hs => hs
    | rejected reason => exact Keeps.bind (Keeps.modify fun _ hs => hs) fun _ => hrest
    | unreadable => exact (Keeps.throw _ _).bind fun _ => hrest

theorem keeps_runSource (h : ∀ bits, Keeps P (present order bits)) (sink : Sink τ)
    (width : Nat) (source : PatternSource) :
    Keeps (fun s => P s.circuit) (runSource sink order width source) := by
  rw [runSource_eq_runLines]
  exact keeps_runLines h sink 1 _

/-- A simulation that succeeds has gone through the lines of its source, and then grouped the
    gates. -/
theorem exists_runLines_of_simulate {c d : Circuit} {sink : Sink τ} {log log' : τ}
    {source : PatternSource} {report : SimulationReport}
    (h : c.simulate sink log source = (.ok report, d, log')) :
    ∃ order s, c.resetSignatures.liveOrder = .ok order ∧
      runLines sink order 1 (source.lines c.inputs.length) ⟨c.resetSignatures, log, ⟨0, #[]⟩⟩ =
        .ok () s ∧
      s.report = report ∧ s.circuit.classify = .ok d := by
  unfold Circuit.simulate at h
  cases hrun : run sink source ⟨c, log, ⟨0, #[]⟩⟩ with
  | error failure t =>
    rw [hrun] at h
    cases (Prod.mk.inj h).1
  | ok _ t =>
    rw [hrun] at h
    obtain ⟨hreport, hresult⟩ := Prod.mk.inj h
    obtain ⟨rfl, _⟩ := Prod.mk.inj hresult
    unfold run at hrun
    obtain ⟨_, s, hs, hrun⟩ := estateM_bind_eq_ok_iff.1 hrun
    obtain ⟨order, s', horder, hrun⟩ := estateM_bind_eq_ok_iff.1 hrun
    obtain ⟨_, _, ⟨⟩, hrun⟩ := estateM_bind_eq_ok_iff.1 hrun
    obtain ⟨_, u, hsource, hrun⟩ := estateM_bind_eq_ok_iff.1 hrun
    obtain ⟨classes, u', hclasses, hrun⟩ := estateM_bind_eq_ok_iff.1 hrun
    cases hs
    obtain ⟨hlive, rfl⟩ := of_ask horder
    obtain ⟨hgroups, rfl⟩ := of_ask hclasses
    cases hrun
    rw [runSource_eq_runLines] at hsource
    exact ⟨order, u, hlive, hsource, Except.ok.inj hreport,
      except_bind_eq_ok_iff.2 ⟨classes, hgroups, rfl⟩⟩

/-- A simulation that succeeds runs its patterns on the live nodes, and then groups the gates. -/
theorem of_simulate {c d : Circuit} {sink : Sink τ} {log log' : τ} {source : PatternSource}
    {report : SimulationReport} (h : c.simulate sink log source = (.ok report, d, log'))
    (hreset : P c.resetSignatures)
    (hpattern : ∀ order, c.resetSignatures.liveOrder = .ok order →
      ∀ bits, Keeps P (present order bits)) :
    ∃ e, P e ∧ e.classify = .ok d := by
  obtain ⟨order, s, horder, hlines, _, hclassify⟩ := exists_runLines_of_simulate h
  have hkept := (keeps_runLines (hpattern order horder) sink 1 _).of_ok hreset hlines
  exact ⟨s.circuit, hkept, hclassify⟩

end Simulation

namespace Steady

variable {τ : Type} {P : Circuit → Prop}

/-- Grouping the gates at the end of a simulation is the same as grouping them afterwards. -/
theorem regroup (h : Steady P) :
    Keeps (fun s : Simulation τ => P s.circuit) (do
      let classes ← Simulation.ask Circuit.liveClasses
      Simulation.changeCircuit ({ · with classes })) := by
  intro s hs
  cases hclasses : s.circuit.liveClasses with
  | error failure =>
    have hask : Simulation.ask Circuit.liveClasses s = .error failure s := by
      rw [Simulation.ask, hclasses]
    rw [estateM_bind_of_error hask]
    exact hs
  | ok classes =>
    have hask : Simulation.ask Circuit.liveClasses s = .ok classes s := by
      rw [Simulation.ask, hclasses]
    have hclassify : s.circuit.classify = .ok { s.circuit with classes } :=
      except_bind_eq_ok_iff.2 ⟨classes, hclasses, rfl⟩
    rw [estateM_bind_of_ok hask]
    exact h.classify hs hclassify

/-- A simulation keeps what does not depend on values, signatures and groups. -/
theorem simulate (h : Steady P) (sink : Sink τ) (log : τ) (source : PatternSource) {c : Circuit}
    (hc : P c) : P (c.simulate sink log source).2.1 := by
  have hrun : Keeps (fun s => P s.circuit) (Simulation.run sink source) := by
    refine Keeps.bind (Keeps.modify fun s hs => ?_) fun _ => ?_
    · exact h.simulated hs (Circuit.Simulated.resetSignatures s.circuit)
    apply (Simulation.keeps_ask P _).bind
    intro order
    apply (Keeps.get _).bind
    intro s
    have hpattern := Simulation.keeps_present (P := P) (fun c id value hc =>
      h.simulated hc (Circuit.Simulated.update_record c id value)) order
    exact (Simulation.keeps_runSource hpattern sink _ source).bind fun _ => h.regroup
  have hkept := hrun ⟨c, log, ⟨0, #[]⟩⟩ hc
  unfold Circuit.simulate
  split at hkept <;> simp_all

end Steady

end AndInverter
