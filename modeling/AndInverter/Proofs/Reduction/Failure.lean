import AndInverter.Proofs.Grouping
import AndInverter.Proofs.Merge
import AndInverter.Proofs.Reduction.AnyOracle
import AndInverter.Proofs.Reduction.Transcript

open AndInverter.Sat

namespace AndInverter

namespace Sat.Call

variable {calls plan : List Call} {reason : String}

/-- What fails is not answered, so that at least one answer is missing if the plan ends with a
    question. -/
theorem BreaksOff.answers_prefix (h : BreaksOff reason calls plan) :
    answers calls <+: answers plan.dropLast := by
  obtain ⟨before, call, after, rfl, rfl⟩ := h
  have hfailing : answers [call.failing reason] = [] := by
    simp [answers, answer?_failing]
  rw [answers_append, hfailing, List.append_nil,
    List.dropLast_append_of_ne_nil (List.cons_ne_nil call after), answers_append]
  exact List.prefix_append ..

theorem BreaksOff.answers_adds {clauses : List Clause} (h : BreaksOff reason calls (adds clauses)) :
    answers calls = [] := by
  have hprefix := h.answers_prefix
  rw [adds, ← List.map_dropLast] at hprefix
  exact List.prefix_nil.1 (Call.answers_adds _ ▸ hprefix)

theorem BreaksOff.answers_query {enc : Encoding} {z : Nat} {comparison : Comparison}
    (h : BreaksOff reason calls (enc.query z comparison)) : answers calls = [] := by
  have hprefix := h.answers_prefix
  rw [Encoding.query, List.dropLast_concat, Call.answers_adds] at hprefix
  exact List.prefix_nil.1 hprefix

end Sat.Call

namespace Circuit

variable {c d : Circuit} {victim : NodeId} {replacement : Edge} {enc : Encoding}
  {calls : List Call} {reason : String}

/-- A redirection does not ask the oracle. -/
theorem WellFormed.redirect_ne_oracle (hc : c.WellFormed) (reason : String) :
    c.redirect victim replacement ≠ .error (.oracle reason) := by
  intro hrefused
  obtain ⟨⟨_, hfailure⟩, _⟩ | ⟨_, hfailure | hfailure⟩ := hc.redirect_error_cases hrefused
  all_goals cases hfailure

/-- A failure of the oracle leaves the circuit as the comparisons answered before have made it. The
    call that failed is the last one, and it is the next one of the transcript. -/
theorem WellFormed.of_oracle_failure (hc : c.WellFormed)
    (h : Reducer.Ending c enc (.error (.oracle reason)) d calls) :
    ∃ log more, enc.Fits c.classes (log ++ more) ∧
      Call.BreaksOff reason calls (enc.transcript (log ++ more)) ∧
      Call.answers calls = log.map (!·.equal) ∧
      Circuit.mergeAll (Comparison.merges log) c = .ok () d := by
  cases h with
  | unloaded hbreaks =>
    refine ⟨[], [], nofun, hbreaks, ?_, rfl⟩
    rw [enc.transcript_nil] at hbreaks
    exact hbreaks.answers_adds
  | @unanswered log _ next _ _ broken hlog hmerged hbreaks =>
    refine ⟨log, [next], Encoding.fits_of_schedule_next hlog next.equal, ?_, ?_, hmerged⟩
    · rw [enc.transcript_concat]
      exact hbreaks.prepend _
    · rw [Call.answers_append, enc.answers_transcript, hbreaks.answers_query, List.append_nil]
  | refused _ hmerged hmerge =>
    obtain ⟨hd, _⟩ := hc.of_mergeAll hmerged
    exact (hd.redirect_ne_oracle reason hmerge).elim

/-- Reduction is safe with any oracle, right or wrong, if the groups are those of a circuit without
    cycles. It fails only with a failure of the oracle, and then the circuit is what the comparisons
    answered so far have made of it, in order: each edge is on the node that stands in for its
    source, and nothing else is changed, not the groups either. In every case the circuit it leaves
    passes the audit. -/
theorem reduceWith_failure {σ : Type} (ops : List Operation) (hops : CollectedAcyclic ops)
    (oracle : Oracle σ) (start : σ) :
    ∃ enc result d s calls, (empty.after ops).encode = .ok enc ∧
      (empty.after ops).reduceWith oracle start = (result, d, s) ∧
      (empty.after ops).reduceWith oracle.recorded (start, []) = (result, d, s, calls) ∧
      d.audit = .ok () ∧
      ∀ failure, result = .error failure → ∃ reason log more, failure = .oracle reason ∧
        enc.Fits (empty.after ops).classes (log ++ more) ∧
        Call.BreaksOff reason calls (enc.transcript (log ++ more)) ∧
        Call.answers calls = log.map (!·.equal) ∧
        mergeAll (Comparison.merges log) (empty.after ops) = .ok () d ∧
        (empty.after ops).OnlyMerged (Comparison.merges log) d ∧
        d.classes = (empty.after ops).classes := by
  obtain ⟨hsound, hlists⟩ := hops.sound
  generalize empty.after ops = c at hsound hlists ⊢
  have hc := hsound.wellFormed
  obtain ⟨enc, hencode, _⟩ := hc.exists_encode hsound.acyclic
  obtain ⟨result, d, s, calls, hrecorded, hreduce, hending⟩ := hc.exists_ending hencode oracle start
  have hcases := hsound.reduceWith_cases hlists oracle start
  rw [hreduce] at hcases
  refine ⟨enc, result, d, s, calls, hencode, hreduce, hrecorded, ?_, ?_⟩
  · cases result with
    | ok report =>
      obtain ⟨_, e, _, _, he, hacyclic, hclassify, _⟩ := hcases
      obtain ⟨hshape, _⟩ := he.of_classify hclassify
      exact (hshape.wellFormed he).audit_eq_ok_iff.2 (hshape.acyclic hacyclic)
    | error failure =>
      obtain ⟨_, _, _, _, _, hd, hacyclic⟩ := hcases
      exact hd.audit_eq_ok_iff.2 hacyclic
  · rintro failure rfl
    obtain ⟨⟨reason, rfl, _⟩, _⟩ := hcases
    obtain ⟨log, more, hfits, hbreaks, hanswers, hmerged⟩ := hc.of_oracle_failure hending
    have honly := hc.onlyMerged_of_mergeAll hmerged
    exact ⟨reason, log, more, rfl, hfits, hbreaks, hanswers, hmerged, honly, honly.classes⟩

/-- An oracle that wrongly refutes the first question and fails at the second. -/
def exhausted : Oracle Nat where
  add _ := pure ()
  solve _ := fun used => if used = 0 then .ok false 1 else .error "no answers left" used

/-- The wrong merge before the failure stays, and makes no cycle: gate 5 has come to read gate 3 in
    place of gate 4. -/
theorem reduceWith_failure_row :
    CollectedAcyclic row ∧ (empty.after row).kind? 5 = some (.gate ⟨4, false⟩ ⟨1, false⟩) ∧
      ∃ d s log,
        (empty.after row).reduceWith exhausted 0 = (.error (.oracle "no answers left"), d, s) ∧
        log.map (!·.equal) = [false] ∧
        mergeAll (Comparison.merges log) (empty.after row) = .ok () d ∧
        (empty.after row).OnlyMerged (Comparison.merges log) d ∧
        d.kind? 4 = some (.gate ⟨3, false⟩ ⟨2, true⟩) ∧
        d.kind? 5 = some (.gate ⟨3, false⟩ ⟨1, false⟩) ∧ d.audit = .ok () := by
  have haudit : (empty.after row).audit = .ok () := by decide +kernel
  have hacyclic := (wellFormed_after row).audit_eq_ok_iff.1 haudit
  have hops : CollectedAcyclic row :=
    @CollectedAcyclic.collected row.dropLast .classify trivial (by decide +kernel) hacyclic
  have hfails : ((empty.after row).reduceWith exhausted 0).1 =
      .error (.oracle "no answers left") := by decide +kernel
  have hvictim : ((empty.after row).reduceWith exhausted 0).2.1.kind? 4 =
      some (.gate ⟨3, false⟩ ⟨2, true⟩) := by decide +kernel
  have hmoved : ((empty.after row).reduceWith exhausted 0).2.1.kind? 5 =
      some (.gate ⟨3, false⟩ ⟨1, false⟩) := by decide +kernel
  have hanswers : Call.answers ((empty.after row).reduceWith exhausted.recorded
      (0, [])).2.2.2 = [false] := by decide +kernel
  obtain ⟨enc, result, d, s, calls, _, hreduce, hrecorded, hsafe, hfailure⟩ :=
    reduceWith_failure row hops exhausted 0
  rw [hreduce] at hfails hvictim hmoved
  rw [hrecorded] at hanswers
  obtain ⟨_, log, _, _, _, _, hlog, hmerged, honly, _⟩ := hfailure _ hfails
  exact ⟨hops, by decide +kernel, d, s, log, hreduce.trans (by rw [← hfails]),
    hlog.symm.trans hanswers, hmerged, honly, hvictim, hmoved, hsafe⟩

end Circuit

end AndInverter
