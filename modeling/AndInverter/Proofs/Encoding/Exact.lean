import AndInverter.Proofs.Audit
import AndInverter.Proofs.Encoding
import AndInverter.Proofs.Session
import AndInverter.Proofs.Simulation.Pattern

open AndInverter.Sat

namespace AndInverter

namespace Encoding

variable {enc enc' : Encoding} {id : NodeId} {made : Lit → List Clause}

/-- Every variable from one to the last belongs to a node, and no two nodes share one. Clauses are
    about these variables alone. -/
structure Numbered (enc : Encoding) : Prop where
  injective : ∀ {a b : NodeId} {v : Nat}, enc.vars[a]? = some v → enc.vars[b]? = some v → a = b
  range : ∀ v : Nat, (∃ id : NodeId, enc.vars[id]? = some v) ↔ 1 ≤ v ∧ v ≤ enc.cnf.varCount
  lit : ∀ clause ∈ enc.cnf.clauses, ∀ l ∈ clause, 1 ≤ l.var ∧ l.var ≤ enc.cnf.varCount

/-- The variables have the values that a simulation left in the nodes. -/
def Shows (enc : Encoding) (s : Assignment) (c : Circuit) : Prop :=
  ∀ (id : NodeId) (v : Nat), enc.vars[id]? = some v → s v = c.signal ⟨id, false⟩

theorem numbered_empty : empty.Numbered where
  injective h := by simp [empty] at h
  range v := by
    simp only [empty, Cnf.empty, Std.TreeMap.getElem?_emptyc, reduceCtorEq, exists_false,
      false_iff]
    omega
  lit clause h := by simp [empty, Cnf.empty] at h

theorem getElem?_extend (other : NodeId) :
    (enc.extend id made).vars[other]? =
      if id = other then some (enc.cnf.varCount + 1) else enc.vars[other]? := by
  change (enc.vars.insert id (Lit.pos (enc.cnf.varCount + 1)).var)[other]? = _
  rw [Std.TreeMap.getElem?_insert, Lit.pos, Lit.var_ofVar]
  simp only [Std.compare_eq_iff_eq]

/-- One more variable is in use, and none is lost. -/
theorem exists_getElem?_extend_iff (hfresh : enc.vars[id]? = none) {v : Nat} :
    (∃ other : NodeId, (enc.extend id made).vars[other]? = some v) ↔
      v = enc.cnf.varCount + 1 ∨ ∃ other : NodeId, enc.vars[other]? = some v := by
  simp only [getElem?_extend]
  constructor
  · intro h
    obtain ⟨other, hother⟩ := h
    split at hother
    · exact .inl (Option.some.inj hother).symm
    · exact .inr ⟨other, hother⟩
  · intro h
    obtain rfl | ⟨other, hother⟩ := h
    · exact ⟨id, if_pos rfl⟩
    · refine ⟨other, (if_neg ?_).trans hother⟩
      rintro rfl
      rw [hfresh] at hother
      cases hother

/-- A new variable, and clauses about it and variables in use, leave no gap. -/
theorem Numbered.extend (h : enc.Numbered) (hfresh : enc.vars[id]? = none)
    (hmade : ∀ z, ∀ clause ∈ made z, ∀ l ∈ clause,
      l.var = z.var ∨ ∃ other : NodeId, enc.vars[other]? = some l.var) :
    (enc.extend id made).Numbered := by
  have hcount : (enc.extend id made).cnf.varCount = enc.cnf.varCount + 1 :=
    Circuit.varCount_foldl_add _ _
  have hclauses : (enc.extend id made).cnf.clauses.toList =
      enc.cnf.clauses.toList ++ made (.pos (enc.cnf.varCount + 1)) :=
    Circuit.clauses_foldl_add _ _
  have hlast : ¬ ∃ other : NodeId, enc.vars[other]? = some (enc.cnf.varCount + 1) := by
    rw [h.range]
    omega
  refine ⟨?_, ?_, ?_⟩
  · intro a b v ha hb
    rw [getElem?_extend] at ha hb
    split at ha <;> split at hb
    · next haid hbid => exact haid.symm.trans hbid
    · exact (hlast ⟨b, hb.trans ha.symm⟩).elim
    · exact (hlast ⟨a, ha.trans hb.symm⟩).elim
    · exact h.injective ha hb
  · intro v
    rw [hcount, exists_getElem?_extend_iff hfresh, h.range]
    omega
  · intro clause hclause l hl
    rw [← Array.mem_toList_iff, hclauses, List.mem_append] at hclause
    rw [hcount]
    rcases hclause with hold | hnew
    · have hrange := h.lit clause (Array.mem_toList_iff.1 hold) l hl
      omega
    · rcases hmade _ clause hnew l hl with hvar | hother
      · rw [hvar, Lit.pos, Lit.var_ofVar]
        omega
      · have hrange := (h.range l.var).1 hother
        omega

theorem getElem?_of_edgeLit {e : Edge} {l : Lit} (h : enc.edgeLit e = .ok l) :
    enc.vars[e.node]? = some l.var := by
  cases hv : enc.vars[e.node]? with
  | none => simp [edgeLit, nodeLit, lit?, hv, Bind.bind, Except.bind] at h
  | some v =>
    rw [Circuit.edgeLit_eq hv] at h
    obtain rfl := Except.ok.inj h
    simp [Lit.pos]

/-- What encoding a node can do: nothing for an output, and otherwise one new variable, with clauses
    about it and the variables of the fanins. -/
theorem encodeNode_cases {kind : Kind} (h : enc.encodeNode id kind = .ok enc') :
    enc' = enc ∨ ∃ made, enc' = enc.extend id made ∧ ∀ z, ∀ clause ∈ made z, ∀ l ∈ clause,
      l.var = z.var ∨ ∃ other : NodeId, enc.vars[other]? = some l.var := by
  cases kind with
  | output fanin => exact .inl (Except.ok.inj h).symm
  | constant | undefined =>
    refine .inr ⟨_, (Except.ok.inj h).symm, fun z clause hclause l hl => .inl ?_⟩
    obtain rfl := List.mem_singleton.1 hclause
    obtain rfl := List.mem_singleton.1 hl
    exact Lit.var_negate z
  | input inverted => exact .inr ⟨_, (Except.ok.inj h).symm, fun z clause hclause =>
      absurd hclause List.not_mem_nil⟩
  | gate left right =>
    obtain ⟨a, ha, h⟩ := except_bind_eq_ok_iff.1 h
    obtain ⟨b, hb, h⟩ := except_bind_eq_ok_iff.1 h
    refine .inr ⟨_, (Except.ok.inj h).symm, fun z clause hclause l hl => ?_⟩
    obtain heq | heq | heq := Cnf.var_of_mem_andClauses hclause hl
    · exact .inl heq
    · exact .inr ⟨left.node, heq ▸ getElem?_of_edgeLit ha⟩
    · exact .inr ⟨right.node, heq ▸ getElem?_of_edgeLit hb⟩

/-- The nodes of a list without repetitions get numbers that follow each other. -/
theorem Numbered.foldlM (c : Circuit) {ids : List NodeId} (hnodup : ids.Nodup) (h : enc.Numbered)
    (hfresh : ∀ id ∈ ids, enc.vars[id]? = none)
    (hfold : ids.foldlM (fun enc id => do
      (enc : Encoding).encodeNode id (← c.node id).kind) enc = .ok enc') : enc'.Numbered := by
  induction ids generalizing enc with
  | nil => exact Except.ok.inj hfold ▸ h
  | cons id ids ih =>
    obtain ⟨hid, hnodup⟩ := List.nodup_cons.1 hnodup
    rw [List.foldlM_cons] at hfold
    obtain ⟨next, hnext, hrun⟩ := except_bind_eq_ok_iff.1 hfold
    obtain ⟨n, _, hencode⟩ := except_bind_eq_ok_iff.1 hnext
    have hrest : ∀ other ∈ ids, enc.vars[other]? = none := fun other hother =>
      hfresh other (List.mem_cons_of_mem id hother)
    rcases encodeNode_cases hencode with rfl | ⟨made, rfl, hmade⟩
    · exact ih hnodup h hrest hrun
    · refine ih hnodup (h.extend (hfresh id List.mem_cons_self) hmade) (fun other hother => ?_) hrun
      rw [getElem?_extend, if_neg, hrest other hother]
      rintro rfl
      exact hid hother

end Encoding

namespace Circuit

variable {c d : Circuit} {order : List NodeId}

theorem lookup_zip_map {ids : List NodeId} {bit : NodeId → Bool} {id : NodeId} (hid : id ∈ ids) :
    (ids.zip (ids.map bit)).lookup id = some (bit id) := by
  induction ids with
  | nil => cases hid
  | cons first ids ih =>
    rw [List.map_cons, List.zip_cons_cons, List.lookup_cons]
    by_cases heq : id = first
    · simp [heq]
    · rw [beq_false_of_ne heq]
      exact ih ((List.mem_cons.1 hid).resolve_left heq)

/-- A live node is encoded in the same way after sweeping. -/
theorem Swept.encodeNode (h : c.Swept d) (hc : c.WellFormed) {id : NodeId} (hid : c.Live id)
    (enc : Encoding) : (do enc.encodeNode id (← d.node id).kind) =
      (do enc.encodeNode id (← c.node id).kind) := by
  obtain ⟨kind, hkind⟩ := Option.isSome_iff_exists.1 (hid.isSome hc)
  obtain ⟨n, hn, rfl⟩ := kind?_eq_some_iff.1 hkind
  rw [← h.kind?_of_stays (.inl hid)] at hkind
  obtain ⟨m, hm, hsame⟩ := kind?_eq_some_iff.1 hkind
  rw [node_eq_ok_iff.2 hn, node_eq_ok_iff.2 hm]
  exact congrArg (enc.encodeNode id) hsame

/-- What is encoded is there after sweeping. -/
theorem Swept.encode (h : c.Swept d) (hc : c.WellFormed) : d.encode = c.encode := by
  obtain ⟨order, horder, hlive⟩ := hc.exists_liveOrder
  have hfold : ∀ ids : List NodeId, (∀ id ∈ ids, c.Live id) → ∀ enc : Encoding,
      ids.foldlM (fun enc id => do enc.encodeNode id (← d.node id).kind) enc =
        ids.foldlM (fun enc id => do enc.encodeNode id (← c.node id).kind) enc := by
    intro ids hids
    induction ids with
    | nil => exact fun _ => rfl
    | cons id ids ih =>
      obtain ⟨hid, hids⟩ := List.forall_mem_cons.1 hids
      intro enc
      rw [List.foldlM_cons, List.foldlM_cons, h.encodeNode hc hid]
      exact bind_congr (ih hids)
  unfold Circuit.encode
  rw [h.liveOrder hc horder, horder]
  exact hfold order (fun id hid => hlive.mem_iff.1 hid) .empty

theorem Swept.encoded_iff (h : c.Swept d) (hc : c.WellFormed) {id : NodeId} :
    d.Encoded id ↔ c.Encoded id := by
  rw [Encoded, Encoded, h.live_iff hc]
  refine and_congr_right fun hlive => ?_
  rw [h.kind?_of_stays (.inl hlive)]

theorem WellFormed.numbered_of_encode (hc : c.WellFormed) {enc : Encoding}
    (h : c.encode = .ok enc) : enc.Numbered := by
  obtain ⟨order, horder, hfold⟩ := except_bind_eq_ok_iff.1 h
  exact Encoding.numbered_empty.foldlM c (hc.isLiveOrder horder).nodup
    (fun id _ => by simp [Encoding.empty]) hfold

/-- The variables of live nodes show what a pattern leaves in the circuit exactly when they have the
    values of what sweeping leaves. -/
theorem Swept.shows_iff (h : c.Swept d) (hc : c.WellFormed) (hlive : c.LiveAcyclic)
    (horder : c.liveOrder = .ok order) {enc : Encoding} (hencoded : ∀ id ∈ enc.vars, c.Live id)
    (s : Assignment) (pattern : List Bool) : enc.Shows s (c.applyPattern order pattern) ↔
      d.Matches enc.vars (d.stimulusOf pattern) s := by
  refine forall_congr' fun id => forall_congr' fun v => forall_congr' fun hv => ?_
  have hid : id ∈ enc.vars := Std.TreeMap.mem_iff_isSome_getElem?.2 (by simp [hv])
  rw [h.signal_applyPattern hc hlive horder pattern (hencoded id hid), Edge.signal_plain]

/-- The encoding describes what is left of a circuit when dead nodes are swept away. -/
theorem WellFormed.exists_described (hc : c.WellFormed) (hlive : c.LiveAcyclic) :
    ∃ enc d, c.encode = .ok enc ∧ c.Swept d ∧ d.DescribedBy enc ∧
      ∀ id, id ∈ enc.vars ↔ c.Encoded id := by
  obtain ⟨_, d, _, hswept⟩ := hc.exists_swept
  obtain ⟨enc, hencode, hdescribed, hmem⟩ :=
    hswept.wellFormed.exists_encode ((hswept.acyclic_iff hc).2 hlive)
  rw [hswept.encode hc] at hencode
  exact ⟨enc, d, hencode, hswept, hdescribed, fun id => (hmem id).trans (hswept.encoded_iff hc)⟩

/-- The models of the clauses are the values under the patterns. A pattern gives each input its bit,
    and a model is read as the pattern of what it gives the inputs. -/
theorem Swept.satisfies_iff (h : c.Swept d) (hc : c.WellFormed) (hlive : c.LiveAcyclic)
    (horder : c.liveOrder = .ok order) {enc : Encoding} (hencoded : ∀ id ∈ enc.vars, c.Live id)
    (hdescribed : d.DescribedBy enc) (hnumbered : enc.Numbered) (s : Assignment) :
    (∀ clause ∈ enc.cnf.clauses, s.Satisfies clause) ↔
      ∃ pattern : List Bool, pattern.length = c.inputs.length ∧
        enc.Shows s (c.applyPattern order pattern) := by
  have hshows := h.shows_iff hc hlive horder hencoded s
  constructor
  · intro hs
    refine ⟨c.inputs.map (d.stimulusFor enc.vars s), List.length_map .., (hshows _).2 ?_⟩
    refine hdescribed.sound s _ (fun clause hclause => hs clause (Array.mem_toList_iff.1 hclause)) ?_
    intro id inverted v hkind hv
    have hinput : id ∈ d.inputs := h.wellFormed.mem_inputs.2 ⟨inverted, hkind⟩
    rw [stimulusOf, ← h.inputs, lookup_zip_map hinput]
    exact d.supplies_stimulusFor enc.vars s id inverted v hkind hv
  · rintro ⟨pattern, _, hagree⟩ clause hclause
    rw [hshows] at hagree
    obtain ⟨t, ht, hmatches⟩ := hdescribed.complete (d.stimulusOf pattern)
    refine (ht clause (Array.mem_toList_iff.2 hclause)).congr fun l hl => ?_
    obtain ⟨id, hv⟩ := (hnumbered.range l.var).2 (hnumbered.lit clause hclause l hl)
    rw [hagree id _ hv, hmatches id _ hv]

/-- The encoding of a circuit whose live part has no cycles, whatever cycles dead nodes make: the
    nodes that the outputs depend on have the variables, and the models of the clauses are the
    values that simulations of single patterns give these nodes. -/
theorem encode_exact (ops : List Operation) (hlive : (empty.after ops).LiveAcyclic) :
    ∃ enc order, (empty.after ops).encode = .ok enc ∧ (empty.after ops).liveOrder = .ok order ∧
      (∀ pattern, Simulation.present order pattern (empty.after ops) =
        .ok () ((empty.after ops).applyPattern order pattern)) ∧
      (∀ id, id ∈ enc.vars ↔ (empty.after ops).Encoded id) ∧
      enc.Numbered ∧
      (∀ s : Assignment, (∀ clause ∈ enc.cnf.clauses, s.Satisfies clause) ↔
        ∃ pattern : List Bool, pattern.length = (empty.after ops).inputs.length ∧
          enc.Shows s ((empty.after ops).applyPattern order pattern)) ∧
      ∀ (s : Assignment) (pattern : List Bool),
        enc.Shows s ((empty.after ops).applyPattern order pattern) →
        ∀ e : Edge, e.node ∈ enc.vars → ∃ l, enc.edgeLit e = .ok l ∧
          s.lit l = ((empty.after ops).applyPattern order pattern).signal e := by
  have hc := wellFormed_empty.after ops
  generalize empty.after ops = c at hlive hc ⊢
  obtain ⟨enc, d, hencode, hswept, hdescribed, hencoded⟩ := hc.exists_described hlive
  obtain ⟨order, horder, hlisted⟩ := hc.exists_liveOrder
  have hnumbered := hc.numbered_of_encode hencode
  refine ⟨enc, order, hencode, horder, Simulation.present_eq hc (hlisted.isSome hc), hencoded,
    hnumbered, hswept.satisfies_iff hc hlive horder (fun id hid => ((hencoded id).1 hid).1) hdescribed
      hnumbered, ?_⟩
  intro s pattern hagree e he
  obtain ⟨v, hv⟩ := exists_of_mem he
  refine ⟨_, edgeLit_eq hv, ?_⟩
  rw [Assignment.lit_negateIf, Assignment.lit_pos, hagree e.node v hv]
  simp [signal]

/-- Cycles that only dead nodes make are gone after sweeping. -/
theorem WellFormed.liveAcyclic_of_audit (hc : c.WellFormed)
    (h : (Operation.sweep.perform c).2.audit = .ok ()) : c.LiveAcyclic := by
  obtain ⟨ids, d, hsweep, hswept⟩ := hc.exists_swept
  rw [Operation.perform, Operation.runPass, hsweep] at h
  exact (hswept.acyclic_iff hc).1 (hswept.wellFormed.audit_eq_ok_iff.1 h)

/-- A gate above two inputs, beside a loop of dead gates that a merge has closed. -/
def deadLoop : List Operation :=
  [.addInput 1, .addInput 2, .addGate 3 ⟨1, false⟩ ⟨2, false⟩, .addGate 4 ⟨3, false⟩ ⟨2, false⟩,
    .addGate 5 ⟨4, false⟩ ⟨1, false⟩, .merge 3 5 false, .addGate 6 ⟨1, false⟩ ⟨2, true⟩,
    .addOutput ⟨6, true⟩]

theorem encode_exact_deadLoop :
    (empty.after deadLoop).audit ≠ .ok () ∧ (empty.after deadLoop).LiveAcyclic ∧
      ∃ enc order, (empty.after deadLoop).encode = .ok enc ∧ enc.cnf.varCount = 3 ∧
        ∀ s : Assignment, (∀ clause ∈ enc.cnf.clauses, s.Satisfies clause) ↔
          ∃ pattern : List Bool, pattern.length = 2 ∧
            enc.Shows s ((empty.after deadLoop).applyPattern order pattern) := by
  have hc := wellFormed_empty.after deadLoop
  have hloop : (empty.after deadLoop).audit.isOk = false := by decide +kernel
  have hinputs : (empty.after deadLoop).inputs.length = 2 := by decide +kernel
  have hcount : (empty.after deadLoop).encode.map (·.cnf.varCount) = .ok 3 := by decide +kernel
  have hlive := hc.liveAcyclic_of_audit (by decide +kernel)
  obtain ⟨enc, order, hencode, _, _, _, _, hmodels, _⟩ := encode_exact deadLoop hlive
  rw [hencode] at hcount
  rw [hinputs] at hmodels
  refine ⟨fun h => ?_, hlive, enc, order, hencode, Except.ok.inj hcount, hmodels⟩
  rw [h] at hloop
  cases hloop

end Circuit

end AndInverter
