import AndInverter.Proofs.Preservation.Construction
import AndInverter.Proofs.Preservation.Reduction
import AndInverter.Proofs.Preservation.Sharing
import AndInverter.Proofs.Preservation.Sweep
import AndInverter.Proofs.Preservation.Trivial

open AndInverter.Sat

namespace AndInverter

namespace Operation

/-- The call reworks or simulates the circuit. An oracle, if there is one, tells the truth. -/
def IsTruthfulPass : Operation → Prop
  | share | simplify | sweep | classify | resetSignatures => True
  | simulateRandom _ _ _ _ | simulateText _ _ _ => True
  | reduceWith oracle start => oracle.Truthful start
  | _ => False

/-- The call reworks the circuit. -/
def Reworks : Operation → Prop
  | share | simplify | sweep | reduceWith _ _ => True
  | _ => False

theorem runPass_of_ok {α : Type} {pass : Pass α} {c d : Circuit} {a : α} (h : pass c = .ok a d) :
    runPass pass c = (.ok (), d) := by
  rw [runPass, h]

end Operation

namespace Circuit

variable {c d : Circuit}

/-- Simulations leave the circuit as it is, up to the order in which the groups list it. -/
theorem steady_sound (c : Circuit) : Steady fun d => d.Sound ∧ c.Preserves d where
  classify := by
    intro d e hboth hclassify
    obtain ⟨hd, hpreserves⟩ := hboth
    obtain ⟨hsound, hrest⟩ := hd.wellFormed.sound_of_classify hd.acyclic hclassify
    exact ⟨hsound, hpreserves.trans hrest⟩
  simulated := by
    intro d e hboth hsimulated
    obtain ⟨hd, hpreserves⟩ := hboth
    obtain ⟨rank, hordered⟩ := hd.ordered
    refine ⟨⟨hsimulated.wellFormed hd.wellFormed, rank, fun source consumer hfeeds =>
      hordered.ranked source consumer (hsimulated.feeds.1 hfeeds), hordered.zero_le,
      hsimulated.classes ▸ hordered.groups⟩,
      hpreserves.trans (hsimulated.preserves hd.wellFormed hd.acyclic)⟩

/-- Every pass with a truthful oracle preserves what the circuit computes, also where a simulation
    fails. The passes that rework the circuit do not fail. -/
theorem Sound.perform (hc : c.Sound) {op : Operation} (hop : op.IsTruthfulPass) :
    (op.perform c).2.Sound ∧ c.Preserves (op.perform c).2 ∧
      (op.Reworks → (op.perform c).1 = .ok ()) := by
  have hsteady := steady_sound c
  have hself : c.Sound ∧ c.Preserves c := ⟨hc, Preserves.refl c⟩
  cases op with
  | share =>
    obtain ⟨merges, d, hshare, hd, hpreserves⟩ := hc.wellFormed.share hc.acyclic
    rw [Operation.perform, Operation.runPass_of_ok hshare]
    exact ⟨hd, hpreserves, fun _ => rfl⟩
  | simplify =>
    obtain ⟨replaced, d, hsimplify, hd, hpreserves⟩ := hc.simplify
    rw [Operation.perform, Operation.runPass_of_ok hsimplify]
    exact ⟨hd, hpreserves, fun _ => rfl⟩
  | sweep =>
    obtain ⟨ids, d, hsweep, hd, hpreserves⟩ := hc.sweep
    rw [Operation.perform, Operation.runPass_of_ok hsweep]
    exact ⟨hd, hpreserves, fun _ => rfl⟩
  | reduceWith oracle start =>
    obtain ⟨report, d, s, hreduce, hd, hpreserves⟩ := hc.reduceWith hop
    rw [Operation.perform, hreduce]
    exact ⟨hd, hpreserves, fun _ => rfl⟩
  | classify =>
    obtain ⟨hd, hpreserves⟩ := Operation.attempt_induction hself fun d hd => hsteady.classify hself hd
    exact ⟨hd, hpreserves, fun h => h.elim⟩
  | resetSignatures =>
    obtain ⟨hd, hpreserves⟩ := hsteady.simulated hself (Simulated.resetSignatures c)
    exact ⟨hd, hpreserves, fun h => h.elim⟩
  | simulateRandom sink log seed count =>
    obtain ⟨hd, hpreserves⟩ := hsteady.simulate sink log (c.randomSource seed count) hself
    exact ⟨hd, hpreserves, fun h => h.elim⟩
  | simulateText sink log text =>
    obtain ⟨hd, hpreserves⟩ := hsteady.simulate sink log (c.textSource text) hself
    exact ⟨hd, hpreserves, fun h => h.elim⟩
  | load | addInput | addGate | addOutput | merge => exact hop.elim

theorem Sound.after {passes : List Operation} (hc : c.Sound)
    (hpasses : ∀ op ∈ passes, op.IsTruthfulPass) :
    (c.after passes).Sound ∧ c.Preserves (c.after passes) := by
  induction passes generalizing c with
  | nil => exact ⟨hc, Preserves.refl c⟩
  | cons op passes ih =>
    obtain ⟨hd, hpreserves, _⟩ := hc.perform (hpasses op List.mem_cons_self)
    obtain ⟨he, hrest⟩ := ih hd fun other hother => hpasses other (List.mem_cons_of_mem op hother)
    exact ⟨he, hpreserves.trans hrest⟩

end Circuit

end AndInverter
