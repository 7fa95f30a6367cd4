import AndInverter.Proofs.Classes
import AndInverter.Proofs.Passes
import AndInverter.Proofs.WellFormed.Reader
import AndInverter.Proofs.WellFormed.Sweep

open AndInverter.Sat

namespace AndInverter

/-- One call in a session with a circuit. A simulation brings its sink, and a reduction its
    oracle, each in a state of its own. -/
inductive Operation : Type 1 where
  | load (contents : Option ByteArray)
  | addInput (id : NodeId)
  | addGate (id : NodeId) (left right : Edge)
  | addOutput (driver : Edge)
  | merge (victim survivor : NodeId) (inverted : Bool)
  | share
  | simplify
  | sweep
  | classify
  | resetSignatures
  | simulateRandom {τ : Type} (sink : Sink τ) (log : τ) (seed : UInt64) (count : Option Nat)
  | simulateText {τ : Type} (sink : Sink τ) (log : τ) (text : ByteArray)
  | reduceWith {σ : Type} (oracle : Oracle σ) (start : σ)

namespace Operation

/-- A change that happens as a whole or not at all. -/
def attempt (change : Except Error Circuit) (c : Circuit) : Except Error Unit × Circuit :=
  match change with
  | .ok d => (.ok (), d)
  | .error failure => (.error failure, c)

/-- A pass, which may have done a part of its work when it fails. -/
def runPass {α : Type} (pass : Pass α) (c : Circuit) : Except Error Unit × Circuit :=
  match pass c with
  | .ok _ d => (.ok (), d)
  | .error failure d => (.error failure, d)

/-- Whether the call succeeds, and the circuit it leaves. A description that cannot be read leaves
    the circuit that was there before. -/
def perform : Operation → Circuit → Except Error Unit × Circuit
  | load contents, c => attempt (Aiger.readIfPresent contents).1 c
  | addInput id, c => attempt (c.addInput id) c
  | addGate id left right, c => attempt (c.addGate id left right) c
  | addOutput driver, c => attempt ((c.addOutput driver).map (·.2)) c
  | merge victim survivor inverted, c => attempt (c.merge victim survivor inverted) c
  | share, c => runPass Circuit.share c
  | simplify, c => runPass Circuit.simplify c
  | sweep, c => runPass Circuit.sweep c
  | classify, c => attempt c.classify c
  | resetSignatures, c => (.ok (), c.resetSignatures)
  | simulateRandom sink log seed count, c =>
    let (result, d, _) := c.simulateRandom sink log seed count
    (result.map fun _ => (), d)
  | simulateText sink log text, c =>
    let (result, d, _) := c.simulateText sink log text
    (result.map fun _ => (), d)
  | reduceWith oracle start, c =>
    let (result, d, _) := c.reduceWith oracle start
    (result.map fun _ => (), d)

/-- The call makes or extends a circuit. -/
def IsConstruction : Operation → Prop
  | load _ | addInput _ | addGate _ _ _ | addOutput _ => True
  | _ => False

/-- The call adds a node to a circuit. -/
def IsAddition : Operation → Prop
  | addInput _ | addGate _ _ _ | addOutput _ => True
  | _ => False

theorem attempt_induction {P : Circuit → Prop} {change : Except Error Circuit} {c : Circuit}
    (hc : P c) (hchange : ∀ d, change = .ok d → P d) : P (attempt change c).2 := by
  unfold attempt
  split
  · next d => exact hchange d rfl
  · exact hc

theorem attempt_of_addOutput {c : Circuit} {driver : Edge} {P : Circuit → Prop}
    (h : ∀ id d, c.addOutput driver = .ok (id, d) → P d) :
    ∀ d, (c.addOutput driver).map (·.2) = .ok d → P d := by
  intro d hd
  obtain ⟨⟨id, _⟩, hadd, rfl⟩ := except_map_eq_ok_iff.1 hd
  exact h id _ hadd

theorem attempt_eq_ok_iff {change : Except Error Circuit} {c : Circuit} :
    (attempt change c).1 = .ok () ↔ ∃ d, change = .ok d := by
  cases change <;> simp [attempt]

theorem runPass_eq_ok_iff {α : Type} {pass : Pass α} {c : Circuit} :
    (runPass pass c).1 = .ok () ↔ ∃ a d, pass c = .ok a d := by
  unfold runPass
  cases pass c <;> simp

theorem runPass_induction {α : Type} {P : Circuit → Prop} {pass : Pass α} {c : Circuit} (hc : P c)
    (hpass : Keeps P pass) : P (runPass pass c).2 := by
  unfold runPass
  have hkept := hpass c hc
  split <;> simp_all

/-- Additions attach one node, whose fanins are there and which has none, or an id above the bound,
    or is a gate. -/
theorem addition_induction {P : Circuit → Prop} {op : Operation} (hop : op.IsAddition) {c : Circuit}
    (hwell : c.WellFormed) (hc : P c)
    (hattach : ∀ n d, c.attach n = .ok d → d.WellFormed →
      (∀ e ∈ n.fanins, ∃ source, c.kind? e.node = some source ∧ source.isOutput = false) →
      (n.fanins = [] ∨ c.maxVar < n.id ∨ ∃ left right, op = .addGate n.id left right) →
      n.name = none → P d) :
    P (op.perform c).2 := by
  cases op with
  | addInput id =>
    apply attempt_induction hc
    intro d hd
    exact hattach _ d hd (hwell.addInput hd) (fun e he => nomatch he) (.inl rfl) rfl
  | addGate id left right =>
    apply attempt_induction hc
    intro d hd
    obtain ⟨hnew, hfanins⟩ := Circuit.of_addGate hd
    exact hattach _ d hnew (hwell.addGate hd) hfanins (.inr (.inr ⟨left, right, rfl⟩)) rfl
  | addOutput driver =>
    refine attempt_induction hc (attempt_of_addOutput fun id d hd => ?_)
    obtain ⟨hid, hnew, hdriver⟩ := Circuit.of_addOutput hd
    refine hattach _ d hnew (hwell.addOutput hd) (fun e he => ?_)
      (.inr (.inl (Circuit.maxVar_lt_outputId hid))) rfl
    rw [List.mem_singleton.1 he]
    exact hdriver
  | _ => exact hop.elim

/-- Construction reads a circuit anew or attaches one node, whose fanins are there and which has
    none, or an id above the bound, or is a gate. -/
theorem construction_induction {P : Circuit → Prop} {op : Operation} (hop : op.IsConstruction)
    {c : Circuit} (hwell : c.WellFormed) (hc : P c)
    (hload : ∀ d, d.WellFormed → d.audit = .ok () → d.classes = .empty → P d)
    (hattach : ∀ n d, c.attach n = .ok d → d.WellFormed →
      (∀ e ∈ n.fanins, ∃ source, c.kind? e.node = some source ∧ source.isOutput = false) →
      (n.fanins = [] ∨ c.maxVar < n.id ∨ ∃ left right, op = .addGate n.id left right) → P d) :
    P (op.perform c).2 := by
  by_cases haddition : op.IsAddition
  · exact addition_induction haddition hwell hc fun n d hnew hd hfanins hid _ =>
      hattach n d hnew hd hfanins hid
  cases op with
  | load contents =>
    apply attempt_induction hc
    intro d hd
    cases contents with
    | none => cases hd
    | some text =>
      obtain ⟨hd, haudit, hclasses⟩ := Aiger.wellFormed_of_read (Prod.ext hd rfl)
      exact hload d hd haudit hclasses
  | addInput | addGate | addOutput => exact absurd trivial haddition
  | _ => exact hop.elim

end Operation

/-- A property that the elementary changes keep survives every call that does not construct or
    merge. -/
theorem Lasting.perform {P : Circuit → Prop} (h : Lasting P) {op : Operation}
    (hconstruction : ¬ op.IsConstruction) (hmerge : ∀ v s i, op ≠ .merge v s i) {c : Circuit}
    (hc : P c) : P (op.perform c).2 := by
  cases op with
  | load | addInput | addGate | addOutput => exact absurd trivial hconstruction
  | merge victim survivor inverted => exact absurd rfl (hmerge victim survivor inverted)
  | share => exact Operation.runPass_induction hc h.share
  | simplify => exact Operation.runPass_induction hc h.simplify
  | sweep => exact Operation.runPass_induction hc h.sweep
  | classify => exact Operation.attempt_induction hc fun d hd => h.classify hc hd
  | resetSignatures => exact h.simulated hc (Circuit.Simulated.resetSignatures c)
  | simulateRandom sink log seed count => exact h.simulate sink log _ hc
  | simulateText sink log text => exact h.simulate sink log _ hc
  | reduceWith oracle start => exact h.reduceWith oracle start hc

namespace Circuit

/-- The circuit that a sequence of calls leaves. Calls that fail do not end the session. -/
def after (c : Circuit) (ops : List Operation) : Circuit :=
  ops.foldl (fun c op => (op.perform c).2) c

theorem after_concat (c : Circuit) (ops : List Operation) (op : Operation) :
    c.after (ops ++ [op]) = (op.perform (c.after ops)).2 := by
  rw [after, after, List.foldl_append]
  rfl

theorem lasting_wellFormed : Lasting WellFormed where
  classify hc h := by
    obtain ⟨classes, rfl⟩ := exists_classes_of_classify h
    exact (sameShape_classes _ classes).wellFormed hc
  simulated hc h := h.wellFormed hc
  redirect hc h := (hc.of_redirect h).2
  remove hc h := (hc.of_remove h).2

/-- What is true of groups that are up to date, and stays true as long as the groups stay and gates
    stay gates or go, lasts. -/
theorem lasting_of_groups {Q : Circuit → Prop}
    (hnew : ∀ {c : Circuit} {order : List NodeId}, c.WellFormed → c.Grouped order → Q c)
    (hkept : ∀ {c d : Circuit}, Q c → d.classes = c.classes → d.maxVar = c.maxVar →
      (∀ {id kind}, d.kind? id = some kind →
        ∃ old, c.kind? id = some old ∧ old.isGate = kind.isGate) → Q d) :
    Lasting fun c => c.WellFormed ∧ Q c where
  classify := by
    intro c d hboth hclassify
    obtain ⟨hshape, _, order, hgrouped⟩ := hboth.1.of_classify hclassify
    have hd := hshape.wellFormed hboth.1
    exact ⟨hd, hnew hd hgrouped⟩
  simulated := by
    intro c d hboth h
    refine ⟨h.wellFormed hboth.1, hkept hboth.2 h.classes h.maxVar fun {id kind} hkind => ?_⟩
    exact ⟨kind, h.kind? id ▸ hkind, rfl⟩
  redirect := by
    intro c d victim replacement hboth h
    obtain ⟨hredirected, hd⟩ := hboth.1.of_redirect h
    refine ⟨hd, hkept hboth.2 hredirected.classes hredirected.maxVar fun {id kind} hkind => ?_⟩
    rw [hredirected.kind?] at hkind
    obtain ⟨old, hold, rfl⟩ := Option.map_eq_some_iff.1 hkind
    exact ⟨old, hold, (Kind.isGate_retarget ..).symm⟩
  remove := by
    intro c d ids hboth h
    obtain ⟨hwithout, hd⟩ := hboth.1.of_remove h
    refine ⟨hd, hkept hboth.2 hwithout.classes hwithout.maxVar fun {id kind} hkind => ?_⟩
    rw [hwithout.kind?] at hkind
    split at hkind
    · cases hkind
    · exact ⟨kind, hkind, rfl⟩

theorem WellFormed.perform {c : Circuit} (hc : c.WellFormed) (op : Operation) :
    (op.perform c).2.WellFormed := by
  by_cases hop : op.IsConstruction
  · exact Operation.construction_induction hop hc hc (fun d hd _ _ => hd) fun n d _ hd _ _ => hd
  cases op with
  | merge victim survivor inverted =>
    exact Operation.attempt_induction hc fun d hd => (hc.of_redirect hd).2
  | _ => exact lasting_wellFormed.perform hop (by simp) hc

theorem WellFormed.after {c : Circuit} (hc : c.WellFormed) (ops : List Operation) :
    (c.after ops).WellFormed := by
  induction ops generalizing c with
  | nil => exact hc
  | cons op ops ih => exact ih (hc.perform op)

/-- Every state of every session is well-formed, whatever the calls are given, wherever they fail,
    and whether or not merges have closed a cycle. -/
theorem wellFormed_after (ops : List Operation) : (empty.after ops).WellFormed :=
  wellFormed_empty.after ops

end Circuit

end AndInverter
