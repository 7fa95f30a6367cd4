import AndInverter.Proofs.Relabeled
import AndInverter.Proofs.Simulation.Sampling

namespace AndInverter

/-- The node without what simulations write into it. -/
def Node.unsimulated (n : Node) : Node := { n with value := false, signature := #[] }

namespace Circuit

variable {c d : Circuit}

/-- Nothing differs but what simulations write, and the groups. -/
structure Untouched (c d : Circuit) : Prop where
  inputs : d.inputs = c.inputs
  outputs : d.outputs = c.outputs
  maxVar : d.maxVar = c.maxVar
  node : ∀ id, (d.node? id).map Node.unsimulated = (c.node? id).map Node.unsimulated

namespace Untouched

theorem resetSignatures (c : Circuit) : c.Untouched c.resetSignatures := by
  refine ⟨rfl, rfl, rfl, fun id => ?_⟩
  rw [node?, Circuit.resetSignatures, Std.TreeMap.getElem?_map, Option.map_map]
  rfl

theorem update_record (h : c.Untouched d) (id : NodeId) (value : Node → Bool) :
    c.Untouched (d.update id fun n => n.record (value n)) := by
  refine ⟨h.inputs, h.outputs, h.maxVar, fun other => ?_⟩
  rw [← h.node other, node?_update]
  split
  · next heq =>
    rw [Option.map_map, heq]
    rfl
  · rfl

end Untouched

/-- The walk to the live nodes depends on the outputs and the edges alone. -/
theorem WellFormed.liveOrder_congr (hc : c.WellFormed) (hd : d.WellFormed)
    (houtputs : d.outputs = c.outputs) (hkind : ∀ id, d.kind? id = c.kind? id) :
    d.liveOrder = c.liveOrder := by
  have hrelabeled : c.Relabeled id d := {
    outputs := houtputs.trans (List.map_id c.outputs).symm
    injective := fun _ _ heq => heq
    label_of_feeds := fun _ => rfl
    kind? := fun _ => hkind _ }
  obtain ⟨order, horder, _⟩ := hc.exists_liveOrder
  rw [hrelabeled.liveOrder hc hd.own_id horder, horder, List.map_id]

/-- Grouping looks at edges and signatures only. -/
theorem WellFormed.liveClasses_congr (hc : c.WellFormed) (hshape : c.SameShape d)
    (hsignature : ∀ id, d.signature? id = c.signature? id) : d.liveClasses = c.liveClasses := by
  have horder := hc.liveOrder_congr (hshape.wellFormed hc) hshape.outputs hshape.kind?
  have hstep : ∀ (classes : Classes) (id : NodeId),
      (do
        let n ← d.node id
        return if n.kind.isGate then classes.insert n.signature id else classes) =
      (do
        let n ← c.node id
        return if n.kind.isGate then classes.insert n.signature id else classes :
          Except Error Classes) := by
    intro classes id
    have hkind := hshape.kind? id
    have hsame := hsignature id
    unfold kind? at hkind
    unfold signature? at hsame
    unfold node
    cases hm : d.node? id <;> cases hn : c.node? id <;> simp_all [Bind.bind, Except.bind]
  unfold liveClasses
  rw [horder]
  refine congrArg (c.liveOrder >>= ·) (funext fun order => ?_)
  exact congrArg (order.foldlM · .empty) (funext fun classes => funext (hstep classes))

end Circuit

namespace Simulation

open Circuit

variable {τ : Type}

/-- What a run over lines comes to: the patterns that it has applied, the log and the report that it
    leaves, and the failure that has ended it, if one has. -/
structure Course (τ : Type) where
  patterns : List (List Bool)
  log : τ
  report : SimulationReport
  failure : Option Error

/-- The course of a run over lines, the first of which has the given number. `respond` tells what is
    logged for a pattern: nothing else about the circuit matters. -/
def course (sink : Sink τ) (respond : List Bool → String) :
    Nat → List PatternLine → τ → SimulationReport → Course τ
  | _, [], log, report => ⟨[], log, report, none⟩
  | number, .blank :: rest, log, report => course sink respond (number + 1) rest log report
  | number, .pattern bits :: rest, log, report =>
    match sink.write (respond bits) log with
    | .ok () log =>
      let later := course sink respond (number + 1) rest log
        { report with patterns := report.patterns + 1 }
      { later with patterns := bits :: later.patterns }
    | .error reason log => ⟨[bits], log, report, some (.io (.refused reason))⟩
  | number, .rejected reason :: rest, log, report =>
    course sink respond (number + 1) rest log
      { report with skipped := report.skipped.push (number, reason) }
  | _, .unreadable :: _, log, report => ⟨[], log, report, some (.io .notText)⟩

/-- What a step returns that took this course and left this circuit. -/
def Course.result (course : Course τ) (d : Circuit) : EStateM.Result Error (Simulation τ) Unit :=
  match course.failure with
  | none => .ok () ⟨d, course.log, course.report⟩
  | some failure => .error failure ⟨d, course.log, course.report⟩

variable {sink : Sink τ} {c : Circuit} {order : List NodeId} {bits : List Bool}
  {patterns : List (List Bool)} {s : Simulation τ}

theorem changeCircuit_eq (change : Circuit → Circuit) (s : Simulation τ) :
    changeCircuit change s = .ok () { s with circuit := change s.circuit } := rfl

theorem ask_of_ok {α : Type} {question : Circuit → Except Error α} {a : α}
    (h : question s.circuit = .ok a) : ask question s = .ok a s := by
  rw [ask, h]

/-- A sink that does not listen cannot be told from one that is offered the line. -/
theorem logPattern_eq (sink : Sink τ) {text : String} (h : logLine bits s.circuit = .ok text) :
    logPattern sink bits s = write sink text s := by
  unfold logPattern
  cases hlistens : sink.listens with
  | true => exact estateM_bind_of_ok (ask_of_ok h) _
  | false =>
    rw [write, sink.deaf hlistens]
    rfl

section Run

variable (hc : c.WellFormed) (hacyclic : c.Acyclic) (hlive : c.IsLiveOrder order)
  (hs : c.Sampled patterns s.circuit)

include hc hacyclic hlive hs

/-- No step of a pattern fails, and what the log is given for it is what the circuit itself
    computes. -/
theorem runPattern_eq (sink : Sink τ) (hlength : bits.length = c.inputs.length) :
    runPattern sink order bits s = match sink.write (c.responseLine bits) s.log with
      | .ok () log => .ok () ⟨s.circuit.applyPattern order bits, log,
          ⟨s.report.patterns + 1, s.report.skipped⟩⟩
      | .error reason log => .error (.io (.refused reason))
          ⟨s.circuit.applyPattern order bits, log, s.report⟩ := by
  have hwell := hs.shape.wellFormed hc
  have hshape := (Simulated.applyPattern s.circuit order bits).toSameShape
  have hpresent : onCircuit (present order bits) s =
      .ok () { s with circuit := s.circuit.applyPattern order bits } := by
    rw [onCircuit, present_eq hwell ((hlive.sameShape hs.shape).isSome hwell)]
  have hline : logLine bits (s.circuit.applyPattern order bits) = .ok (c.responseLine bits) := by
    rw [logLine_eq (hshape.wellFormed hwell),
      hs.outputValues_applyPattern hc hacyclic hlive hlength]
    rfl
  have hlog := logPattern_eq sink (s := { s with circuit := s.circuit.applyPattern order bits })
    hline
  rw [runPattern, estateM_bind_of_ok hpresent]
  cases hwrite : sink.write (c.responseLine bits) s.log with
  | ok _ log => exact estateM_bind_of_ok (hlog.trans (by rw [write, hwrite])) _
  | error reason log => exact estateM_bind_of_error (hlog.trans (by rw [write, hwrite])) _

/-- A run over lines takes its course, whatever the circuit was used for before, and leaves the
    values under the patterns that it has applied. -/
theorem runLines_course (sink : Sink τ) {lines : List PatternLine}
    (hlines : ∀ line ∈ lines, ∀ bits, line = .pattern bits → bits.length = c.inputs.length)
    (number : Nat) :
    ∃ d, c.Sampled
        (patterns ++ (course sink c.responseLine number lines s.log s.report).patterns) d ∧
      runLines sink order number lines s =
        (course sink c.responseLine number lines s.log s.report).result d := by
  induction lines generalizing patterns s number with
  | nil => exact ⟨s.circuit, by simpa [course] using hs, rfl⟩
  | cons line lines ih =>
    obtain ⟨hwidth, hrest⟩ := List.forall_mem_cons.1 hlines
    cases line with
    | blank => exact ih hs hrest (number + 1)
    | rejected reason =>
      exact ih (s := { s with report :=
        { s.report with skipped := s.report.skipped.push (number, reason) } }) hs hrest (number + 1)
    | unreadable => exact ⟨s.circuit, by simpa [course] using hs, rfl⟩
    | pattern bits =>
      have hlength := hwidth bits rfl
      have happlied := hs.applyPattern hc hacyclic hlive hlength
      rw [course, runLines]
      have hrun := runPattern_eq hc hacyclic hlive hs sink hlength
      cases hwrite : sink.write (c.responseLine bits) s.log with
      | error reason log =>
        rw [hwrite] at hrun
        exact ⟨_, happlied, estateM_bind_of_error hrun _⟩
      | ok _ log =>
        rw [hwrite] at hrun
        obtain ⟨d, hd, hlater⟩ := ih (s := ⟨s.circuit.applyPattern order bits, log,
          ⟨s.report.patterns + 1, s.report.skipped⟩⟩) happlied hrest (number + 1)
        rw [List.append_assoc] at hd
        exact ⟨d, hd, (estateM_bind_of_ok hrun _).trans hlater⟩

end Run

/-- What a run returns that took this course: its report or its failure. -/
def Course.outcome (course : Course τ) : Except Error SimulationReport :=
  match course.failure with
  | none => .ok course.report
  | some failure => .error failure

theorem Course.outcome_eq_ok_iff {course : Course τ} {report : SimulationReport} :
    course.outcome = .ok report ↔ course.failure = none ∧ course.report = report := by
  unfold outcome
  cases course.failure <;> simp

theorem Course.outcome_eq_error_iff {course : Course τ} {failure : Error} :
    course.outcome = .error failure ↔ course.failure = some failure := by
  unfold outcome
  cases course.failure <;> simp

/-- A simulation takes the course of its lines, and groups the gates anew if this does not fail. -/
theorem simulate_course (hc : c.WellFormed) (hacyclic : c.Acyclic) {source : PatternSource}
    (hsource : ∀ line ∈ source.lines c.inputs.length, ∀ bits, line = .pattern bits →
      bits.length = c.inputs.length) (sink : Sink τ) (log : τ) {taken : Course τ}
    (htaken : course sink c.responseLine 1 (source.lines c.inputs.length) log ⟨0, #[]⟩ = taken) :
    ∃ d, c.Sampled taken.patterns d ∧ c.Untouched d ∧
      c.simulate sink log source = (taken.outcome, d, taken.log) ∧
      (taken.failure = none → d.liveClasses = .ok d.classes) ∧
      (taken.failure ≠ none → d.classes = c.classes) := by
  have hreset := (Simulated.resetSignatures c).toSameShape
  obtain ⟨order, horder, hlive⟩ := (hreset.wellFormed hc).exists_liveOrder
  obtain ⟨e, he, hrun⟩ := runLines_course (s := ⟨c.resetSignatures, log, ⟨0, #[]⟩⟩)
    hc hacyclic (hlive.sameShape hreset.symm) (Sampled.resetSignatures hc) sink hsource 1
  dsimp only at he hrun
  rw [htaken] at he hrun
  have hkept : c.Untouched e ∧ e.classes = c.classes := by
    have hpresent := keeps_present (P := fun e => c.Untouched e ∧ e.classes = c.classes)
      (fun e id value he => ⟨he.1.update_record id value, he.2⟩) order
    have hkeeps := keeps_runLines hpresent sink 1 (source.lines c.inputs.length)
      ⟨c.resetSignatures, log, ⟨0, #[]⟩⟩ ⟨Untouched.resetSignatures c, rfl⟩
    rw [hrun, Course.result] at hkeeps
    cases hfailure : taken.failure <;> simpa [hfailure] using hkeeps
  have hget : ∀ s : Simulation τ, (get : Step τ (Simulation τ)) s = .ok s s := fun _ => rfl
  have hinputs : c.resetSignatures.inputs.length = c.inputs.length := rfl
  unfold Circuit.simulate run
  rw [estateM_bind_of_ok (changeCircuit_eq ..), estateM_bind_of_ok (ask_of_ok horder),
    estateM_bind_of_ok (hget _), hinputs, runSource_eq_runLines]
  unfold Course.outcome
  unfold Course.result at hrun
  cases hfailure : taken.failure with
  | some failure =>
    rw [hfailure] at hrun
    rw [estateM_bind_of_error hrun]
    exact ⟨e, he, hkept.1, rfl, nofun, fun _ => hkept.2⟩
  | none =>
    rw [hfailure] at hrun
    obtain ⟨_, _, hclassify, _⟩ := (he.shape.wellFormed hc).exists_classify
    obtain ⟨classes, hclasses, _⟩ := except_bind_eq_ok_iff.1 hclassify
    refine ⟨{ e with classes }, he.classify hc (except_bind_eq_ok_iff.2 ⟨classes, hclasses, rfl⟩),
      ⟨hkept.1.inputs, hkept.1.outputs, hkept.1.maxVar, hkept.1.node⟩, ?_, fun _ => ?_,
      fun h => absurd rfl h⟩
    · rw [estateM_bind_of_ok hrun, estateM_bind_of_ok (ask_of_ok hclasses), changeCircuit_eq]
    · exact ((he.shape.wellFormed hc).liveClasses_congr (sameShape_classes e classes)
        fun _ => rfl).trans hclasses

section Course

variable {respond : List Bool → String} {lines : List PatternLine} {number : Nat} {log : τ}
  {report : SimulationReport}

/-- A run over lines that can all be read, for which the sink takes everything. -/
theorem course_of_accepts {take : String → τ → τ} (haccepts : sink.Accepts take)
    (hreadable : .unreadable ∉ lines) :
    course sink respond number lines log report = ⟨lines.filterMap (·.bits?),
      (lines.filterMap (·.bits?)).foldl (fun log bits => take (respond bits) log) log,
      ⟨report.patterns + (lines.filterMap (·.bits?)).length,
        report.skipped ++ PatternLine.rejections number lines⟩, none⟩ := by
  induction lines generalizing number log report with
  | nil => simp [course, PatternLine.rejections]
  | cons line lines ih =>
    rw [List.mem_cons, not_or] at hreadable
    rw [PatternLine.rejections_cons]
    cases line with
    | blank => exact ih hreadable.2
    | rejected reason =>
      rw [course, ih hreadable.2]
      simp [PatternLine.bits?, PatternLine.reason?]
    | unreadable => exact absurd rfl hreadable.1
    | pattern bits =>
      rw [course, haccepts]
      dsimp only
      rw [ih hreadable.2]
      simp [PatternLine.bits?, PatternLine.reason?]
      omega

/-- A run that nothing has ended has applied all patterns, and has counted them. -/
theorem course_of_completed (h : (course sink respond number lines log report).failure = none) :
    (course sink respond number lines log report).patterns = lines.filterMap (·.bits?) ∧
      (course sink respond number lines log report).report.patterns =
        report.patterns + (lines.filterMap (·.bits?)).length := by
  induction lines generalizing number log report with
  | nil => exact ⟨rfl, rfl⟩
  | cons line lines ih =>
    cases line with
    | blank => exact ih h
    | rejected reason => exact ih h
    | unreadable => cases h
    | pattern bits =>
      rw [course] at h ⊢
      cases hwrite : sink.write (respond bits) log with
      | error reason log =>
        rw [hwrite] at h
        cases h
      | ok _ log =>
        rw [hwrite] at h
        obtain ⟨hpatterns, hcount⟩ := ih h
        refine ⟨congrArg (bits :: ·) hpatterns, hcount.trans ?_⟩
        simp [PatternLine.bits?]
        omega

end Course

/-- A simulation of lines that can all be read succeeds on a circuit without cycles. -/
theorem simulate_ran {take : String → τ → τ} (hc : c.WellFormed) (hacyclic : c.Acyclic)
    (haccepts : sink.Accepts take) {source : PatternSource} {lines : List PatternLine}
    (hsource : source.lines c.inputs.length = lines)
    (hlines : ∀ line ∈ lines, line.Fits c.inputs.length) (log : τ) :
    c.Ran take log (lines.filterMap (·.bits?)) (PatternLine.rejections 1 lines)
      (c.simulate sink log source) := by
  subst hsource
  have hreadable : .unreadable ∉ source.lines c.inputs.length := fun hmem => (hlines _ hmem).1 rfl
  obtain ⟨d, hd, _, hresult, _⟩ := simulate_course hc hacyclic (fun line hline =>
    (hlines line hline).2) sink log (course_of_accepts haccepts hreadable)
  refine ⟨d, hd, hresult.trans ?_⟩
  simp [Course.outcome]

end Simulation

end AndInverter
