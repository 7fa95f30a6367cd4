import AndInverter.Proofs.Simulation.Groups

namespace AndInverter

namespace Simulation

open Circuit

variable {τ : Type} {sink : Sink τ} {respond : List Bool → String} {log left : τ}
  {lines : List PatternLine} {line : PatternLine} {bits : List Bool} {patterns : List (List Bool)}
  {number : Nat} {report : SimulationReport} {failure : Error}

/-- All these lines can be read, and the sink has taken what is logged for the patterns among
    them. -/
structure Taken (sink : Sink τ) (respond : List Bool → String) (log : τ) (lines : List PatternLine)
    (left : τ) : Prop where
  readable : .unreadable ∉ lines
  written : (lines.filterMap (·.bits?)).forM (fun bits => sink.write (respond bits)) log =
    .ok () left

/-- Where a run over lines breaks off, with what failure, and after which patterns: at the first
    line that is not text, or at the first pattern whose response the sink refuses, which is then
    one of the patterns. -/
inductive Interrupted (sink : Sink τ) (respond : List Bool → String) (log : τ)
    (lines : List PatternLine) : Error → τ → List (List Bool) → Prop where
  | unreadable {before after : List PatternLine} {left : τ}
    (hlines : lines = before ++ .unreadable :: after) (htaken : Taken sink respond log before left) :
    Interrupted sink respond log lines (.io .notText) left (before.filterMap (·.bits?))
  | refused {before after : List PatternLine} {bits : List Bool} {taken left : τ} {reason : String}
    (hlines : lines = before ++ .pattern bits :: after) (htaken : Taken sink respond log before taken)
    (hrefused : sink.write (respond bits) taken = .error reason left) :
    Interrupted sink respond log lines (.io (.refused reason)) left
      (before.filterMap (·.bits?) ++ [bits])

theorem Taken.nil : Taken sink respond log [] log := ⟨nofun, rfl⟩

theorem Taken.skip (h : Taken sink respond log lines left) (hreadable : line ≠ .unreadable)
    (hline : line.bits? = none) : Taken sink respond log (line :: lines) left := by
  refine ⟨?_, ?_⟩
  · rw [List.mem_cons, not_or]
    exact ⟨hreadable.symm, h.readable⟩
  · rw [List.filterMap_cons_none hline]
    exact h.written

theorem Taken.write {taken : τ} (h : Taken sink respond taken lines left)
    (hwrite : sink.write (respond bits) log = .ok () taken) :
    Taken sink respond log (.pattern bits :: lines) left := by
  refine ⟨?_, ?_⟩
  · rw [List.mem_cons, not_or]
    exact ⟨nofun, h.readable⟩
  · exact (estateM_bind_of_ok hwrite _).trans h.written

theorem Interrupted.skip (h : Interrupted sink respond log lines failure left patterns)
    (hreadable : line ≠ .unreadable) (hline : line.bits? = none) :
    Interrupted sink respond log (line :: lines) failure left patterns := by
  cases h with
  | unreadable hlines htaken =>
    have hinterrupted := unreadable (congrArg (line :: ·) hlines) (htaken.skip hreadable hline)
    rwa [List.filterMap_cons_none hline] at hinterrupted
  | refused hlines htaken hrefused =>
    have hinterrupted :=
      refused (congrArg (line :: ·) hlines) (htaken.skip hreadable hline) hrefused
    rwa [List.filterMap_cons_none hline] at hinterrupted

theorem Interrupted.write {taken : τ} (h : Interrupted sink respond taken lines failure left patterns)
    (hwrite : sink.write (respond bits) log = .ok () taken) :
    Interrupted sink respond log (.pattern bits :: lines) failure left (bits :: patterns) := by
  cases h with
  | unreadable hlines htaken =>
    exact unreadable (congrArg (.pattern bits :: ·) hlines) (htaken.write hwrite)
  | refused hlines htaken hrefused =>
    exact refused (congrArg (.pattern bits :: ·) hlines) (htaken.write hwrite) hrefused

/-- A run that fails breaks off where its course ends. -/
theorem interrupted_of_course (h : (course sink respond number lines log report).failure = some failure) :
    Interrupted sink respond log lines failure (course sink respond number lines log report).log
      (course sink respond number lines log report).patterns := by
  induction lines generalizing number log report with
  | nil => cases h
  | cons line lines ih =>
    cases line with
    | blank => exact (ih h).skip nofun rfl
    | rejected reason => exact (ih h).skip nofun rfl
    | unreadable =>
      cases h
      exact .unreadable rfl .nil
    | pattern bits =>
      rw [course] at h ⊢
      cases hwrite : sink.write (respond bits) log with
      | error reason log =>
        rw [hwrite] at h
        cases h
        exact .refused rfl .nil hwrite
      | ok _ log =>
        rw [hwrite] at h
        exact (ih h).write hwrite

/-- Lines that have been taken bring a run to the line behind them. -/
theorem course_of_taken {before : List PatternLine} (h : Taken sink respond log before left)
    (rest : List PatternLine) (number : Nat) (report : SimulationReport) :
    ∃ number' report', course sink respond number (before ++ rest) log report =
      { course sink respond number' rest left report' with
        patterns := before.filterMap (·.bits?) ++
          (course sink respond number' rest left report').patterns } := by
  induction before generalizing number log report with
  | nil =>
    cases h.written
    exact ⟨number, report, rfl⟩
  | cons line before ih =>
    obtain ⟨hreadable, hwritten⟩ := h
    rw [List.mem_cons, not_or] at hreadable
    cases line with
    | blank => exact ih ⟨hreadable.2, hwritten⟩ (number + 1) report
    | rejected reason => exact ih ⟨hreadable.2, hwritten⟩ (number + 1) _
    | unreadable => exact absurd rfl hreadable.1
    | pattern bits =>
      obtain ⟨_, taken, hwrite, hwritten⟩ := estateM_bind_eq_ok_iff.1 hwritten
      obtain ⟨number', report', hcourse⟩ := ih ⟨hreadable.2, hwritten⟩ (number + 1)
        { report with patterns := report.patterns + 1 }
      have hwrite : sink.write (respond bits) log = .ok () taken := hwrite
      refine ⟨number', report', ?_⟩
      rw [List.cons_append, course, hwrite]
      dsimp only
      rw [hcourse]
      rfl

/-- The failure of a run, and what it leaves, is determined by where it breaks off. -/
theorem interrupted_iff (number : Nat) (report : SimulationReport) :
    Interrupted sink respond log lines failure left patterns ↔
      (course sink respond number lines log report).failure = some failure ∧
        (course sink respond number lines log report).log = left ∧
        (course sink respond number lines log report).patterns = patterns := by
  constructor
  · rintro (⟨rfl, htaken⟩ | ⟨rfl, htaken, hrefused⟩)
    · obtain ⟨number', report', hcourse⟩ := course_of_taken htaken (.unreadable :: _) number report
      rw [hcourse]
      simp [course]
    · obtain ⟨number', report', hcourse⟩ := course_of_taken htaken (.pattern _ :: _) number report
      rw [hcourse]
      simp [course, hrefused]
  · rintro ⟨hfailure, rfl, rfl⟩
    exact interrupted_of_course hfailure

/-- What has been applied stands in the lines. -/
theorem Interrupted.mem_lines (h : Interrupted sink respond log lines failure left patterns)
    (hbits : bits ∈ patterns) : .pattern bits ∈ lines := by
  have hfound : ∀ {before : List PatternLine}, bits ∈ before.filterMap (·.bits?) →
      .pattern bits ∈ before := by
    intro before hmem
    obtain ⟨line, hline, hsome⟩ := List.mem_filterMap.1 hmem
    cases line with
    | pattern found =>
      cases hsome
      exact hline
    | _ => cases hsome
  cases h with
  | unreadable hlines _ =>
    rw [hlines]
    exact List.mem_append_left _ (hfound hbits)
  | refused hlines _ _ =>
    rw [hlines]
    rcases List.mem_append.1 hbits with hbefore | hlast
    · exact List.mem_append_left _ (hfound hbefore)
    · rw [List.mem_singleton.1 hlast]
      exact List.mem_append_right _ List.mem_cons_self

end Simulation

namespace Circuit

variable {τ : Type} {c d e : Circuit} {patterns : List (List Bool)} {source : PatternSource}

/-- The circuit can be simulated with this source: it is a text, or rows that are drawn. -/
def Offers (c : Circuit) (source : PatternSource) : Prop :=
  (∃ text, source = c.textSource text) ∨ ∃ seed count, source = c.randomSource seed count

theorem Offers.fitsWidth (h : c.Offers source) : source.FitsWidth c.inputs.length := by
  obtain ⟨text, rfl⟩ | ⟨seed, count, rfl⟩ := h
  · exact fitsWidth_textSource c text
  · exact fitsWidth_randomSource c seed count

namespace Sampled

/-- What patterns leave is the same for circuits that differ in nothing but what they were used
    for. -/
theorem of_sameShape (h : d.Sampled patterns e) (hshape : c.SameShape d) (hc : c.WellFormed)
    (hacyclic : c.Acyclic) : c.Sampled patterns e where
  shape := hshape.trans h.shape
  observed id hid := by
    simp only [h.observed id (hshape.observed_iff.2 hid), hshape.value_presented hc hacyclic]
  silent id hsome hid := h.silent id (hshape.kind? id ▸ hsome) (mt hshape.observed_iff.1 hid)

/-- A signature is determined by the patterns. -/
theorem signature?_eq (hd : c.Sampled patterns d) (he : c.Sampled patterns e) (id : NodeId) :
    d.signature? id = e.signature? id := by
  by_cases hobserved : c.Observed id
  · rw [hd.observed id hobserved, he.observed id hobserved]
  · cases hkind : c.kind? id with
    | none =>
      have hmissing : ∀ {f : Circuit}, c.SameShape f → f.signature? id = none := by
        intro f hshape
        have hnone := (hshape.kind? id).trans hkind
        rw [signature?, kind?_eq_none_iff.1 hnone]
        rfl
      rw [hmissing hd.shape, hmissing he.shape]
    | some kind =>
      have hsome : (c.kind? id).isSome = true := by rw [hkind]; rfl
      rw [hd.silent id hsome hobserved, he.silent id hsome hobserved]

/-- The same signatures come from a run over exactly these patterns that nothing ends. -/
theorem replayed (h : c.Sampled patterns d) (hc : c.WellFormed) (hacyclic : c.Acyclic)
    (hlength : ∀ bits ∈ patterns, bits.length = c.inputs.length) :
    ∃ report e, c.simulate Sink.discard () (.text (patterns.map .pattern)) = (.ok report, e, ()) ∧
      ∀ id, d.signature? id = e.signature? id := by
  have haccepts : Sink.discard.Accepts fun _ _ => () := fun _ _ => rfl
  have hlines : ∀ line ∈ patterns.map PatternLine.pattern, line.Fits c.inputs.length := by
    intro line hline
    obtain ⟨bits, hbits, rfl⟩ := List.mem_map.1 hline
    refine ⟨nofun, fun _ heq => ?_⟩
    obtain rfl := PatternLine.pattern.inj heq
    exact hlength bits hbits
  have hsource : (PatternSource.text (patterns.map .pattern)).lines c.inputs.length =
    patterns.map .pattern := rfl
  obtain ⟨e, he, hresult⟩ := Simulation.simulate_ran hc hacyclic haccepts hsource hlines ()
  rw [PatternLine.filterMap_bits?_map_pattern] at he
  exact ⟨_, e, hresult, h.signature?_eq he⟩

end Sampled

/-- Two simulations cannot be told apart: they succeed or fail alike, have logged the same, and
    leave the same signatures and groups. -/
structure Alike (one other : Except Error SimulationReport × Circuit × τ) : Prop where
  outcome : one.1 = other.1
  log : one.2.2 = other.2.2
  signature? : ∀ id, one.2.1.signature? id = other.2.1.signature? id
  classes : one.2.1.classes = other.2.1.classes

/-- Simulations start from the shape of a circuit. What earlier ones have left in it does not
    matter. -/
theorem SameShape.alike_simulate (hshape : c.SameShape d) (hclasses : d.classes = c.classes)
    (hc : c.WellFormed) (hacyclic : c.Acyclic) (hsource : source.FitsWidth c.inputs.length)
    (sink : Sink τ) (log : τ) : Alike (d.simulate sink log source) (c.simulate sink log source) := by
  have hd := hshape.wellFormed hc
  have hrespond : d.responseLine = c.responseLine := by
    funext bits
    rw [responseLine, responseLine, hshape.outputs, hshape.value_presented hc hacyclic]
  have hcourse : Simulation.course sink d.responseLine 1 (source.lines d.inputs.length) log ⟨0, #[]⟩ =
      Simulation.course sink c.responseLine 1 (source.lines c.inputs.length) log ⟨0, #[]⟩ := by
    rw [hrespond, hshape.inputs]
  obtain ⟨e, he, _, hresult, hgroups, hkept⟩ :=
    Simulation.simulate_course hc hacyclic hsource sink log rfl
  obtain ⟨e', he', _, hresult', hgroups', hkept'⟩ := Simulation.simulate_course hd
    (hshape.acyclic hacyclic) (hshape.inputs ▸ hsource) sink log hcourse
  have hsignature := (he'.of_sameShape hshape hc hacyclic).signature?_eq he
  rw [hresult, hresult']
  refine ⟨rfl, rfl, hsignature, ?_⟩
  by_cases hfailure : (Simulation.course sink c.responseLine 1 (source.lines c.inputs.length) log
      ⟨0, #[]⟩).failure = none
  · have hsame : e'.liveClasses = e.liveClasses := (he.shape.wellFormed hc).liveClasses_congr
      (he.shape.symm.trans (hshape.trans he'.shape)) hsignature
    rw [hgroups hfailure, hgroups' hfailure] at hsame
    exact Except.ok.inj hsame
  · rw [hkept hfailure, hkept' hfailure, hclasses]

/-- What a simulation leaves that broke off after these patterns. -/
structure LeftBehind (c : Circuit) (patterns : List (List Bool)) (d : Circuit) : Prop where
  sampled : c.Sampled patterns d
  /-- The signatures are those of a run over exactly these patterns that nothing ends. -/
  replayed : ∃ report e, c.simulate Sink.discard () (.text (patterns.map .pattern)) =
    (.ok report, e, ()) ∧ ∀ id, d.signature? id = e.signature? id
  untouched : c.Untouched d
  classes : d.classes = c.classes
  /-- A later simulation does as if this one had not happened. -/
  forgotten : ∀ {τ : Type} (sink : Sink τ) (log : τ) (source : PatternSource), c.Offers source →
    Alike (d.simulate sink log source) (c.simulate sink log source)

/-- On a circuit that a session has built without cycles, whatever is simulated and wherever the log
    goes: a simulation fails exactly if it comes to a line that is not text or to a pattern whose
    response the sink refuses. It leaves the values under the patterns up to there, that pattern
    among them, and nothing else. -/
theorem simulation_interrupted (ops : List Operation) (hacyclic : (empty.after ops).Acyclic)
    (source : PatternSource) (hsource : (empty.after ops).Offers source) (sink : Sink τ) (log : τ) :
    let c := empty.after ops
    let lines := source.lines c.inputs.length
    (∀ failure d left, c.simulate sink log source = (.error failure, d, left) → ∃ patterns,
      Simulation.Interrupted sink c.responseLine log lines failure left patterns ∧
        c.LeftBehind patterns d) ∧
    ∀ failure left patterns,
      Simulation.Interrupted sink c.responseLine log lines failure left patterns →
        ∃ d, c.simulate sink log source = (.error failure, d, left) := by
  intro c lines
  have hc : c.WellFormed := wellFormed_empty.after ops
  obtain ⟨e, he, huntouched, hresult, _, hkept⟩ :=
    Simulation.simulate_course hc hacyclic hsource.fitsWidth sink log rfl
  refine ⟨fun failure d left hfails => ?_, fun failure left patterns hinterrupted => ?_⟩
  · obtain ⟨houtcome, hrest⟩ := Prod.mk.inj (hfails.symm.trans hresult)
    obtain ⟨rfl, hleft⟩ := Prod.mk.inj hrest
    have hfailure := Simulation.Course.outcome_eq_error_iff.1 houtcome.symm
    have hclasses : d.classes = c.classes := hkept (by rw [hfailure]; nofun)
    have hinterrupted := (Simulation.interrupted_iff 1 ⟨0, #[]⟩).2 ⟨hfailure, hleft.symm, rfl⟩
    refine ⟨_, hinterrupted, he, ?_, huntouched, hclasses, fun sink' log' source' hsource' => ?_⟩
    · exact he.replayed hc hacyclic fun bits hbits =>
        hsource.fitsWidth _ (hinterrupted.mem_lines hbits) bits rfl
    · exact he.shape.alike_simulate hclasses hc hacyclic hsource'.fitsWidth sink' log'
  · obtain ⟨hfailure, rfl, _⟩ := (Simulation.interrupted_iff 1 ⟨0, #[]⟩).1 hinterrupted
    exact ⟨e, hresult.trans (by rw [Simulation.Course.outcome_eq_error_iff.2 hfailure])⟩

/-- Two gates that a simulation of one pattern has put into one group. -/
def halting : List Operation :=
  [.addInput 1, .addInput 2, .addGate 3 ⟨1, false⟩ ⟨2, true⟩, .addGate 4 ⟨1, true⟩ ⟨2, false⟩,
    .addOutput ⟨3, false⟩, .addOutput ⟨4, true⟩, .simulateText Sink.discard () "00\n".toUTF8]

/-- A sink with room for one response. The second pattern has been applied, the third has not, and
    the gates are still in one group. -/
theorem simulation_interrupted_halting :
    (empty.after halting).Acyclic ∧
      ∃ d, (empty.after halting).simulateText (.bounded 6) 0 "01\n10\n11\n".toUTF8 =
          (.error (.io (.refused "sink full")), d, 6) ∧
        (∃ patterns, (empty.after halting).LeftBehind patterns d) ∧
        [3, 4].map d.signature? = [some #[false, true], some #[true, false]] ∧
        d.classes.groups.values = [[3, 4]] := by
  have haudit : (empty.after halting).audit = .ok () := by decide +kernel
  have hacyclic := (wellFormed_empty.after halting).audit_eq_ok_iff.1 haudit
  have hfails : (empty.after halting).simulateText (.bounded 6) 0 "01\n10\n11\n".toUTF8 =
      (.error (.io (.refused "sink full")), ((empty.after halting).simulateText (.bounded 6) 0
        "01\n10\n11\n".toUTF8).2.1, 6) :=
    Prod.ext (by decide +kernel) (Prod.ext rfl (by decide +kernel))
  obtain ⟨patterns, _, hleft⟩ := (simulation_interrupted halting hacyclic _ (.inl ⟨_, rfl⟩)
    (.bounded 6) 0).1 _ _ _ hfails
  refine ⟨hacyclic, _, hfails, ⟨patterns, hleft⟩, ?_, ?_⟩
  · decide +kernel
  · decide +kernel

end Circuit

end AndInverter
