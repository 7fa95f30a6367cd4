import AndInverter.Proofs.Audit
import AndInverter.Proofs.Grouping
import AndInverter.Proofs.Reduction.AnyOracle
import AndInverter.Proofs.Sharing.Congruence
import AndInverter.Proofs.Simplification

open AndInverter.Sat

namespace AndInverter

namespace Operation

/-- The nodes that the call reports as replaced, if it succeeds. -/
def replaced : Operation → Circuit → List NodeId
  | share, c =>
    match Circuit.share c with
    | .ok merges _ => merges.map (·.1)
    | .error _ _ => []
  | simplify, c =>
    match Circuit.simplify c with
    | .ok replaced _ => replaced.map (·.1)
    | .error _ _ => []
  | reduceWith oracle start, c =>
    match (c.reduceWith oracle start).1 with
    | .ok report => report.merges.map (·.1)
    | .error _ => []
  | _, _ => []

/-- The call replaces nodes, and the circuit that the session `ops` has left is fit for it: the
    oracle of a reduction never fails, and its groups come from a circuit without cycles. -/
def Replaces (ops : List Operation) : Operation → Prop
  | share | simplify => True
  | reduceWith oracle start => oracle.Unfailing start ∧ Circuit.CollectedAcyclic ops
  | _ => False

end Operation

namespace Circuit

variable {c d : Circuit} {ops : List Operation} {op : Operation} {σ : Type} {oracle : Oracle σ}
  {start s : σ} {report : ReductionReport}

theorem Sound.exists_reduceWith_of_unfailing (hc : c.Sound) (hlists : c.ListsGates)
    (horacle : oracle.Unfailing start) :
    ∃ report d s, c.reduceWith oracle start = (.ok report, d, s) := by
  have hcases := hc.reduceWith_cases hlists oracle start
  split at hcases
  · next report d s heq => exact ⟨report, d, s, heq⟩
  · obtain ⟨⟨reason, _, hfails⟩, _⟩ := hcases
    exact absurd hfails (horacle reason)

/-- Whatever the oracle answers, what a reduction merges is live no more, and no other gate has
    become live: the groups list gates, each once, so no victim is merged or merged into again. -/
theorem Sound.shrunk_reduceWith (hc : c.Sound) (hlists : c.ListsGates)
    (hnodup : c.classes.candidates.flatten.Nodup)
    (h : c.reduceWith oracle start = (.ok report, d, s)) :
    d.Acyclic ∧ c.Shrunk (report.merges.map (·.1)) d := by
  have hcases := hc.reduceWith_cases hlists oracle start
  rw [h] at hcases
  obtain ⟨log, e, hlog, hmerged, he, hacyclic, hclassify, rfl⟩ := hcases
  obtain ⟨rank, hordered⟩ := hc.ordered
  obtain ⟨hshape, _⟩ := he.of_classify hclassify
  have hcontracted := hc.wellFormed.mergeAll_contracted (Comparison.merges log)
  rw [hmerged] at hcontracted
  have honeStep : OneStep (Comparison.merges log) := by
    apply hlog.oneStep
    rw [encodedGroups, ← List.filter_flatten]
    exact hnodup.filter _
  have hscheduled : ∀ merge ∈ Comparison.merges log, c.LiveGate merge.1 ∧ c.Live merge.2 := by
    intro merge hmerge
    obtain ⟨⟨⟨hfirst, _⟩, _⟩, ⟨⟨hother, _⟩, hgate⟩, _⟩ :=
      hordered.of_scheduled hlists hlog (Comparison.mem_merges_iff.1 hmerge)
    exact ⟨⟨hother, hgate⟩, hfirst⟩
  have hshrunk := hcontracted.1.shrunk honeStep hc.wellFormed he
    (fun merge hmerge => (hscheduled merge hmerge).1)
    (fun merge hmerge => .inr (hscheduled merge hmerge).2)
  exact ⟨hshape.acyclic hacyclic, hshrunk.sameShape hshape⟩

/-- A call that replaces nodes succeeds and takes just the live gates that it reports out of what is
    live. -/
theorem shrunk_perform (hacyclic : (empty.after ops).Acyclic) (hop : op.Replaces ops) :
    (op.perform (empty.after ops)).1 = .ok () ∧ (op.perform (empty.after ops)).2.Acyclic ∧
      (empty.after ops).Shrunk (op.replaced (empty.after ops)) (op.perform (empty.after ops)).2 := by
  have hc := wellFormed_after ops
  cases op with
  | share =>
    obtain ⟨merges, d, order, hshare, _, hlive, hshared, hd, _⟩ := hc.exists_share hacyclic
    rw [Operation.perform, Operation.runPass_of_ok hshare, Operation.replaced, hshare]
    exact ⟨rfl, hd, hshared.shrunk hc hlive⟩
  | simplify =>
    obtain ⟨replaced, d, order, hsimplify, hlive, htrimmed, hd, _⟩ := hc.exists_simplify hacyclic
    rw [Operation.perform, Operation.runPass_of_ok hsimplify, Operation.replaced, hsimplify]
    exact ⟨rfl, hd, htrimmed.shrunk hc hlive⟩
  | reduceWith oracle start =>
    obtain ⟨hunfailing, hcollected⟩ := hop
    obtain ⟨hsound, hlists⟩ := hcollected.sound
    obtain ⟨report, d, s, hreduce⟩ := hsound.exists_reduceWith_of_unfailing hlists hunfailing
    rw [Operation.perform, Operation.replaced, hreduce]
    exact ⟨rfl, hsound.shrunk_reduceWith hlists (nodup_candidates_after ops) hreduce⟩
  | _ => exact hop.elim

theorem card_perform_add_length_le (hacyclic : (empty.after ops).Acyclic) (hop : op.Replaces ops) :
    (empty.after (ops ++ [op])).liveGates.card + (op.replaced (empty.after ops)).length ≤
      (empty.after ops).liveGates.card := by
  rw [after_concat]
  have hc := wellFormed_after ops
  exact (shrunk_perform hacyclic hop).2.2.card_add_length_le hc (hc.perform op)

/-- The session goes on with the first `count` of an unending sequence of calls. -/
def continued (ops : List Operation) (calls : Nat → Operation) (count : Nat) : List Operation :=
  ops ++ (List.range count).map calls

theorem continued_succ (ops : List Operation) (calls : Nat → Operation) (count : Nat) :
    continued ops calls (count + 1) = continued ops calls count ++ [calls count] := by
  rw [continued, continued, List.range_succ, List.map_append, List.append_assoc]
  rfl

variable {calls : Nat → Operation}

theorem acyclic_continued (hacyclic : (empty.after ops).Acyclic)
    (hcalls : ∀ n, (calls n).Replaces (continued ops calls n)) (count : Nat) :
    (empty.after (continued ops calls count)).Acyclic := by
  induction count with
  | zero => simpa [continued] using hacyclic
  | succ count ih =>
    rw [continued_succ, after_concat]
    exact (shrunk_perform ih (hcalls count)).2.1

/-- A size that each step lowers by what it reports is lowered by what any of three steps
    reports. -/
theorem size_round_le (size reported : Nat → Nat) (h : ∀ n, size (n + 1) + reported n ≤ size n)
    (n : Nat) {i : Nat} (hi : i < 3) : size (n + 3) + reported (n + i) ≤ size n := by
  have hfirst := h n
  have hsecond : size (n + 2) + reported (n + 1) ≤ size (n + 1) := h (n + 1)
  have hthird : size (n + 3) + reported (n + 2) ≤ size (n + 2) := h (n + 2)
  obtain rfl | rfl | rfl : i = 0 ∨ i = 1 ∨ i = 2 := by omega
  · change size (n + 3) + reported n ≤ size n
    omega
  · omega
  · omega

/-- A round of three calls takes out a live gate unless it reports nothing. -/
theorem card_continued_le (hacyclic : (empty.after ops).Acyclic)
    (hcalls : ∀ n, (calls n).Replaces (continued ops calls n)) (rounds : Nat)
    (hreports : ∀ round < rounds, ∃ i < 3,
      (calls (3 * round + i)).replaced (empty.after (continued ops calls (3 * round + i))) ≠ []) :
    (empty.after (continued ops calls (3 * rounds))).liveGates.card + rounds ≤
      (empty.after ops).liveGates.card := by
  have hcall : ∀ n, (empty.after (continued ops calls (n + 1))).liveGates.card +
      ((calls n).replaced (empty.after (continued ops calls n))).length ≤
        (empty.after (continued ops calls n)).liveGates.card := by
    intro n
    rw [continued_succ]
    exact card_perform_add_length_le (acyclic_continued hacyclic hcalls n) (hcalls n)
  induction rounds with
  | zero => simp [continued]
  | succ rounds ih =>
    have hbefore := ih fun round hround => hreports round (Nat.lt_succ_of_lt hround)
    obtain ⟨i, hi, hreport⟩ := hreports rounds (Nat.lt_succ_self rounds)
    have hround := size_round_le
      (fun n => (empty.after (continued ops calls n)).liveGates.card)
      (fun n => ((calls n).replaced (empty.after (continued ops calls n))).length)
      hcall (3 * rounds) hi
    have hlength := List.length_pos_iff.2 hreport
    rw [Nat.mul_succ]
    omega

/-- Structural hashing, the replacement of trivial gates, and functional reduction with any oracle
    that does not fail shrink what is live. Such a call succeeds. The gates it reports are different
    gates that were live and are not live any more, and no other gate becomes live, so there are
    fewer live gates by at least the number of those reported. If such calls are repeated, three to
    a round, then a round comes that reports nothing, after no more rounds than there are live
    gates. -/
theorem replacing_shrinks (ops : List Operation) (hacyclic : (empty.after ops).Acyclic) :
    (∀ op : Operation, op.Replaces ops →
      (op.perform (empty.after ops)).1 = .ok () ∧
      (op.replaced (empty.after ops)).Nodup ∧
      (∀ id ∈ op.replaced (empty.after ops),
        (empty.after ops).LiveGate id ∧ ¬ (empty.after (ops ++ [op])).Live id) ∧
      (∀ id, (empty.after (ops ++ [op])).LiveGate id → (empty.after ops).LiveGate id) ∧
      (empty.after (ops ++ [op])).liveGates.card + (op.replaced (empty.after ops)).length ≤
        (empty.after ops).liveGates.card) ∧
    ∀ calls : Nat → Operation, (∀ n, (calls n).Replaces (continued ops calls n)) →
      ∃ round ≤ (empty.after ops).liveGates.card, ∀ i < 3,
        (calls (3 * round + i)).replaced (empty.after (continued ops calls (3 * round + i))) = [] := by
  refine ⟨fun op hop => ?_, fun calls hcalls => ?_⟩
  · obtain ⟨hok, _, hshrunk⟩ := shrunk_perform hacyclic hop
    have hcard := card_perform_add_length_le hacyclic hop
    rw [after_concat] at hcard ⊢
    exact ⟨hok, hshrunk.nodup, hshrunk.retired, fun id => hshrunk.liveGate, hcard⟩
  · by_contra hnever
    push Not at hnever
    have hcount := card_continued_le hacyclic hcalls ((empty.after ops).liveGates.card + 1)
      fun round hround => hnever round (Nat.le_of_lt_succ hround)
    omega

/-- After a call that replaces nodes the groups are up to date, or were kept. -/
theorem CollectedAcyclic.replaces (h : CollectedAcyclic ops) (hop : op.Replaces ops) :
    CollectedAcyclic (ops ++ [op]) := by
  obtain ⟨hok, hacyclic, _⟩ := shrunk_perform h.sound.1.acyclic hop
  rw [← after_concat] at hacyclic
  cases op with
  | share => exact .collected trivial hok hacyclic
  | simplify => exact .tidied trivial h
  | reduceWith oracle start => exact .collected trivial hok hacyclic
  | _ => exact hop.elim

/-- The cascade with its groups collected. -/
def groupedCascade : List Operation := cascade ++ [.classify]

/-- The three calls in turn, over and over. -/
def inTurn (n : Nat) : Operation :=
  if n % 3 = 0 then .share
  else if n % 3 = 1 then .simplify
  else .reduceWith Solver.oracle .empty

theorem CollectedAcyclic.replaces_inTurn (h : CollectedAcyclic ops) (n : Nat) :
    (inTurn n).Replaces ops := by
  unfold inTurn
  split
  · trivial
  · split
    · trivial
    · exact ⟨Solver.truthful.unfailing, h⟩

theorem CollectedAcyclic.continued_inTurn (h : CollectedAcyclic ops) (count : Nat) :
    CollectedAcyclic (continued ops inTurn count) := by
  induction count with
  | zero => simpa [continued] using h
  | succ count ih =>
    rw [continued_succ]
    exact ih.replaces (ih.replaces_inTurn count)

/-- Structural hashing takes two gates out of the cascade. With the library's solver all three calls
    come to rest. -/
theorem replacing_shrinks_cascade :
    (empty.after groupedCascade).Acyclic ∧
      Operation.share.replaced (empty.after groupedCascade) = [4, 6] ∧
      (∀ id ∈ [4, 6], (empty.after groupedCascade).LiveGate id ∧
        ¬ (empty.after (groupedCascade ++ [.share])).Live id) ∧
      ∃ round ≤ (empty.after groupedCascade).liveGates.card, ∀ i < 3,
        (inTurn (3 * round + i)).replaced
          (empty.after (continued groupedCascade inTurn (3 * round + i))) = [] := by
  have haudit : (empty.after groupedCascade).audit = .ok () := by decide +kernel
  have hacyclic := (wellFormed_after groupedCascade).audit_eq_ok_iff.1 haudit
  have hclassify : (Operation.classify.perform (empty.after cascade)).1 = .ok () := by
    decide +kernel
  have hcollected : CollectedAcyclic groupedCascade := .collected trivial hclassify hacyclic
  have hreplaced : Operation.share.replaced (empty.after groupedCascade) = [4, 6] := by
    decide +kernel
  obtain ⟨hcall, hrest⟩ := replacing_shrinks groupedCascade hacyclic
  obtain ⟨_, _, hretired, _⟩ := hcall .share trivial
  rw [hreplaced] at hretired
  exact ⟨hacyclic, hreplaced, hretired,
    hrest inTurn fun n => (hcollected.continued_inTurn n).replaces_inTurn n⟩

end Circuit

end AndInverter
