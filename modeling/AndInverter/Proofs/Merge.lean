import AndInverter.Proofs.Acyclic
import AndInverter.Proofs.Audit
import AndInverter.Proofs.Session
import AndInverter.Proofs.Value

open Relation

namespace AndInverter.Circuit

section Redirection

variable {c d : Circuit} {victim source consumer : NodeId} {replacement : Edge}

/-- What a node depends on after a redirection, it depended on before, or it did so by way of the
    victim and now does so by way of the replacement. -/
theorem Redirected.transGen_cases (h : c.Redirected victim replacement d)
    (hpath : TransGen d.Feeds source consumer) :
    TransGen c.Feeds source consumer ∨
      ReflTransGen c.Feeds source replacement.node ∧ TransGen c.Feeds victim consumer := by
  induction hpath with
  | single hfeeds =>
    obtain ⟨old, hold, rfl⟩ := h.feeds_iff.1 hfeeds
    split
    · next hvictim => exact .inr ⟨.refl, hvictim ▸ .single hold⟩
    · exact .inl (.single hold)
  | tail _ hfeeds ih =>
    obtain ⟨old, hold, heq⟩ := h.feeds_iff.1 hfeeds
    split at heq
    · next hvictim =>
      subst hvictim heq
      refine .inr ⟨?_, .single hold⟩
      exact ih.elim TransGen.to_reflTransGen And.left
    · subst heq
      exact ih.imp (·.tail hold) fun hdetour => ⟨hdetour.1, hdetour.2.tail hold⟩

/-- No edge of a path that starts behind the victim is moved: without cycles the path does not
    come back to the victim. -/
theorem Redirected.reflTransGen (h : c.Redirected victim replacement d) (hacyclic : c.Acyclic)
    (hbehind : TransGen c.Feeds victim source) (hpath : ReflTransGen c.Feeds source consumer) :
    ReflTransGen d.Feeds source consumer := by
  induction hpath with
  | refl => exact .refl
  | @tail middle _ hmiddle hfeeds ih =>
    have hkept : middle ≠ victim := by
      rintro rfl
      exact hacyclic middle (hbehind.trans_left hmiddle)
    exact ih.tail (h.feeds_iff.2 ⟨middle, hfeeds, if_neg hkept⟩)

/-- A redirection closes a cycle if and only if the replacement depends on the victim, however
    long the path between them is. -/
theorem Redirected.acyclic_iff (h : c.Redirected victim replacement d) (hacyclic : c.Acyclic) :
    d.Acyclic ↔ ¬ TransGen c.Feeds victim replacement.node := by
  constructor
  · intro hafter hdepends
    obtain ⟨reader, hreader, hrest⟩ := TransGen.head'_iff.1 hdepends
    have hmoved : d.Feeds replacement.node reader := h.feeds_iff.2 ⟨victim, hreader, if_pos rfl⟩
    exact hafter replacement.node (.head' hmoved (h.reflTransGen hacyclic (.single hreader) hrest))
  · intro hindependent id hcycle
    rcases h.transGen_cases hcycle with hold | ⟨hreaches, hdepends⟩
    · exact hacyclic id hold
    · exact hindependent (hdepends.trans_left hreaches)

theorem checkFanin_error_cases {e : Edge} {failure : Error} (h : c.checkFanin e = .error failure) :
    failure = .missingNode e.node ∨ failure = .outputAsFanin e.node := by
  unfold checkFanin node at h
  split at h
  · dsimp only [Bind.bind, Except.bind] at h
    split at h
    · cases h
      exact .inr rfl
    · cases h
  · cases h
    exact .inl rfl

theorem WellFormed.redirect_of_direct (hc : c.WellFormed) (hne : victim ≠ replacement.node)
    (hreplacement : ∃ kind, c.kind? replacement.node = some kind ∧ kind.isOutput = false)
    (hdirect : c.Feeds victim replacement.node) :
    c.redirect victim replacement = .error (.invalid (.directCycle victim replacement.node)) := by
  obtain ⟨n, hn, hlisted⟩ := hc.mirror.1 hdirect
  have hcontains : n.fanouts.contains replacement.node = true :=
    Std.TreeSet.contains_iff_mem.2 hlisted
  unfold Circuit.redirect
  rw [if_neg hne, checkFanin_eq_ok_iff.2 hreplacement, node_eq_ok_iff.2 hn]
  simp [Bind.bind, Except.bind, hcontains, throw, throwThe, MonadExceptOf.throw]

/-- Why a redirection is refused: the victim is to replace itself or feeds its replacement directly,
    or else a node is missing or not of the right kind. A longer path is not looked for. -/
theorem WellFormed.redirect_error_cases (hc : c.WellFormed) {failure : Error}
    (h : c.redirect victim replacement = .error failure) :
    (∃ fault, failure = .invalid fault) ∧
        (victim = replacement.node ∨ c.Feeds victim replacement.node ∧
          ∃ kind, c.kind? replacement.node = some kind ∧ kind.isOutput = false) ∨
      ∃ id, failure = .missingNode id ∨ failure = .outputAsFanin id := by
  by_cases hself : victim = replacement.node
  · rw [Circuit.redirect, if_pos hself] at h
    cases h
    exact .inl ⟨⟨_, rfl⟩, .inl hself⟩
  cases hcheck : c.checkFanin replacement with
  | error refusal =>
    rw [Circuit.redirect, if_neg hself, hcheck] at h
    cases h
    exact .inr ⟨replacement.node, checkFanin_error_cases hcheck⟩
  | ok _ =>
    have hreplacement := checkFanin_eq_ok_iff.1 hcheck
    by_cases hdirect : c.Feeds victim replacement.node
    · rw [hc.redirect_of_direct hself hreplacement hdirect] at h
      cases h
      exact .inl ⟨⟨_, rfl⟩, .inr ⟨hdirect, hreplacement⟩⟩
    cases hvictim : c.node? victim with
    | none =>
      rw [Circuit.redirect, if_neg hself, hcheck, node, hvictim] at h
      cases h
      exact .inr ⟨victim, .inl rfl⟩
    | some n =>
      obtain ⟨d, hredirect, _⟩ := hc.redirect hself hreplacement
        (by simp [kind?_of_node? hvictim]) hdirect
      cases h.symm.trans hredirect

/-- A redirection is refused as contradictory if the victim is to replace itself or feeds its
    replacement directly, and for no other reason. -/
theorem WellFormed.redirect_eq_invalid_iff (hc : c.WellFormed) :
    (∃ fault, c.redirect victim replacement = .error (.invalid fault)) ↔
      victim = replacement.node ∨ c.Feeds victim replacement.node ∧
        ∃ kind, c.kind? replacement.node = some kind ∧ kind.isOutput = false := by
  constructor
  · rintro ⟨fault, hrefused⟩
    obtain ⟨_, hreason⟩ | ⟨id, hfailure | hfailure⟩ := hc.redirect_error_cases hrefused
    · exact hreason
    · cases hfailure
    · cases hfailure
  · intro hreason
    by_cases hself : victim = replacement.node
    · exact ⟨.selfMerge victim, by rw [Circuit.redirect, if_pos hself]; rfl⟩
    · obtain ⟨hdirect, hreplacement⟩ := hreason.resolve_left hself
      exact ⟨_, hc.redirect_of_direct hself hreplacement hdirect⟩

end Redirection

/-- In an acyclic circuit, however it was made, a merge that succeeds leaves an acyclic circuit if
    and only if the survivor does not depend on the victim. A merge is refused as contradictory
    only when the two nodes are one or the survivor itself reads the victim, so a merge across a
    longer path succeeds and closes a cycle. -/
theorem merge_acyclic_iff (ops : List Operation) (hacyclic : (empty.after ops).Acyclic)
    (victim survivor : NodeId) (inverted : Bool) :
    (∀ d, (empty.after ops).merge victim survivor inverted = .ok d →
      (d.Acyclic ↔ ¬ TransGen (empty.after ops).Feeds victim survivor)) ∧
    ((∃ fault, (empty.after ops).merge victim survivor inverted = .error (.invalid fault)) ↔
      victim = survivor ∨ (empty.after ops).Feeds victim survivor ∧
        ∃ kind, (empty.after ops).kind? survivor = some kind ∧ kind.isOutput = false) := by
  have hwell := wellFormed_empty.after ops
  refine ⟨fun d hmerge => ?_, hwell.redirect_eq_invalid_iff⟩
  obtain ⟨hredirected, _⟩ := hwell.of_redirect hmerge
  exact hredirected.acyclic_iff hacyclic

/-- Three gates in a row, each of which reads the one before it. -/
def chain : List Operation :=
  [.addInput 1, .addInput 2, .addGate 3 ⟨1, false⟩ ⟨2, false⟩, .addGate 4 ⟨3, false⟩ ⟨2, false⟩,
    .addGate 5 ⟨4, false⟩ ⟨1, false⟩, .addOutput ⟨5, false⟩]

/-- The last of the three gates may take the place of the first, and then depends on itself. -/
theorem merge_acyclic_iff_chain :
    (empty.after chain).Acyclic ∧
      ∃ d, (empty.after chain).merge 3 5 false = .ok d ∧ ¬ d.Acyclic ∧ d.audit ≠ .ok () := by
  have hwell := wellFormed_empty.after chain
  have haudit : (empty.after chain).audit = .ok () := by decide +kernel
  have hacyclic := hwell.audit_eq_ok_iff.1 haudit
  have hkinds : [4, 5].map (empty.after chain).kind? =
      [some (.gate ⟨3, false⟩ ⟨2, false⟩), some (.gate ⟨4, false⟩ ⟨1, false⟩)] := by decide +kernel
  have hok : ((empty.after chain).merge 3 5 false).isOk = true := by decide +kernel
  simp only [List.map_cons, List.map_nil, List.cons.injEq, and_true] at hkinds
  obtain ⟨hfour, hfive⟩ := hkinds
  have hdepends : TransGen (empty.after chain).Feeds 3 5 :=
    .tail (.single ⟨_, hfour, _, List.mem_cons_self, rfl⟩) ⟨_, hfive, _, List.mem_cons_self, rfl⟩
  cases hmerge : (empty.after chain).merge 3 5 false with
  | error failure =>
    rw [hmerge] at hok
    cases hok
  | ok d =>
    have hcyclic : ¬ d.Acyclic := fun h =>
      ((merge_acyclic_iff chain hacyclic 3 5 false).1 d hmerge).1 h hdepends
    exact ⟨hacyclic, d, rfl, hcyclic, mt (hwell.of_redirect hmerge).2.audit_eq_ok_iff.1 hcyclic⟩

/-- As long as the survivor does not depend on the victim, a merge succeeds unless the two are one
    node, one of them is missing, or the survivor is an output. The circuit stays acyclic, and no
    node changes its value under a pattern on which the two nodes agree, up to the inverter. -/
theorem merge_value (ops : List Operation) (hacyclic : (empty.after ops).Acyclic)
    {victim survivor : NodeId} (hindependent : ¬ TransGen (empty.after ops).Feeds victim survivor)
    (inverted : Bool) :
    ((∃ d, (empty.after ops).merge victim survivor inverted = .ok d) ↔
      victim ≠ survivor ∧ ((empty.after ops).kind? victim).isSome = true ∧
        ∃ kind, (empty.after ops).kind? survivor = some kind ∧ kind.isOutput = false) ∧
    ∀ d, (empty.after ops).merge victim survivor inverted = .ok d → d.Acyclic ∧
      ∀ p, (empty.after ops).value p victim = ((empty.after ops).value p survivor ^^ inverted) →
        ∀ id, d.value p id = (empty.after ops).value p id := by
  have hwell := wellFormed_empty.after ops
  refine ⟨⟨?_, ?_⟩, fun d hmerge => ?_⟩
  · rintro ⟨d, hmerge⟩
    obtain ⟨hne, hsurvivor, hvictim, _⟩ := redirect_guards hmerge
    exact ⟨hne, hvictim, hsurvivor⟩
  · rintro ⟨hne, hvictim, hsurvivor⟩
    have hdirect : ¬ (empty.after ops).Feeds victim survivor := mt TransGen.single hindependent
    have hmerge : ∃ d, (empty.after ops).merge victim survivor inverted = .ok d ∧ _ :=
      hwell.redirect hne hsurvivor hvictim hdirect
    exact hmerge.imp fun d hd => hd.1
  · obtain ⟨hredirected, hd⟩ := hwell.of_redirect hmerge
    have hdacyclic := (hredirected.acyclic_iff hacyclic).2 hindependent
    refine ⟨hdacyclic, fun p hagree id => ?_⟩
    exact congrFun (hredirected.value hwell hd hacyclic hdacyclic hagree) id

/-- The last gate reads the complement of another gate twice, the second time through an
    inverter. -/
def complements : List Operation :=
  [.addInput 1, .addInput 2, .addGate 3 ⟨1, false⟩ ⟨2, true⟩, .addGate 4 ⟨3, true⟩ ⟨3, true⟩,
    .addGate 5 ⟨4, false⟩ ⟨4, true⟩, .addOutput ⟨4, false⟩, .addOutput ⟨5, false⟩]

/-- A gate may be merged into its complement. -/
theorem merge_value_complements :
    (empty.after complements).Acyclic ∧ ¬ TransGen (empty.after complements).Feeds 4 3 ∧
      ∃ d, (empty.after complements).merge 4 3 true = .ok d ∧ d.Acyclic ∧
        ∀ p id, d.value p id = (empty.after complements).value p id := by
  have hwell := wellFormed_empty.after complements
  have haudit : (empty.after complements).audit = .ok () := by decide +kernel
  have hacyclic := hwell.audit_eq_ok_iff.1 haudit
  have hkinds : [3, 4].map (empty.after complements).kind? =
      [some (.gate ⟨1, false⟩ ⟨2, true⟩), some (.gate ⟨3, true⟩ ⟨3, true⟩)] := by decide +kernel
  simp only [List.map_cons, List.map_nil, List.cons.injEq, and_true] at hkinds
  obtain ⟨hthree, hfour⟩ := hkinds
  have hreads : (empty.after complements).Feeds 3 4 := ⟨_, hfour, _, List.mem_cons_self, rfl⟩
  have hindependent : ¬ TransGen (empty.after complements).Feeds 4 3 :=
    fun hdepends => hacyclic 3 (.head hreads hdepends)
  obtain ⟨hsucceeds, hmerged⟩ := merge_value complements hacyclic hindependent true
  obtain ⟨d, hmerge⟩ := hsucceeds.2 ⟨by decide, by simp [hfour], _, hthree, rfl⟩
  obtain ⟨hdacyclic, hvalue⟩ := hmerged d hmerge
  refine ⟨hacyclic, hindependent, d, hmerge, hdacyclic, fun p id => hvalue p ?_ id⟩
  rw [hwell.value_eq hacyclic hfour, Kind.eval, Bool.and_self]
  rfl

end AndInverter.Circuit
