import AndInverter.Proofs.Audit
import AndInverter.Proofs.LiveGates
import AndInverter.Proofs.Preservation.Trivial
import AndInverter.Proofs.Session

namespace AndInverter

namespace Kind

/-- A gate is not trivial if it reads two different nodes, and not the constant. -/
theorem trivial?_gate_eq_none_iff {left right : Edge} : (gate left right).trivial? = none ↔
    left.node ≠ 0 ∧ right.node ≠ 0 ∧ left.node ≠ right.node := by
  obtain ⟨a, i⟩ := left
  obtain ⟨b, j⟩ := right
  simp only [trivial?, conjoin?, Edge.IsLow, Edge.IsHigh, Edge.Opposes, Edge.mk.injEq]
  constructor
  · intro h
    repeat' split at h
    all_goals cases i <;> cases j <;> simp_all
  · rintro ⟨hleft, hright, hdiffer⟩
    simp [hleft, hright, hdiffer]

end Kind

namespace Circuit

variable {c d e : Circuit} {rank : NodeId → Nat} {id : NodeId} {seen rest ids : List NodeId}
  {replacement : Edge} {replaced : List (NodeId × Edge)}

/-- What the replacement of trivial gates does with the first of the nodes. -/
theorem replaceTrivial_cons_cases (h : replaceTrivial (id :: rest) c = .ok replaced d) :
    ∃ kind, c.kind? id = some kind ∧
      (kind.trivial? = none ∧ replaceTrivial rest c = .ok replaced d ∨
        ∃ replacement e more, kind.trivial? = some replacement ∧
          c.redirect id replacement = .ok e ∧ replaceTrivial rest e = .ok more d ∧
          replaced = (id, replacement) :: more) := by
  rw [replaceTrivial, estateM_bind_eq_ok_iff] at h
  obtain ⟨n, _, hask, h⟩ := h
  obtain ⟨hn, rfl⟩ := Pass.ask_eq_ok_iff.1 hask
  refine ⟨n.kind, kind?_of_node? (node_eq_ok_iff.1 hn), ?_⟩
  cases htrivial : n.kind.trivial? with
  | none =>
    simp only [htrivial] at h
    exact .inl ⟨rfl, h⟩
  | some replacement =>
    simp only [htrivial] at h
    obtain ⟨_, e, hredirect, h⟩ := estateM_bind_eq_ok_iff.1 h
    obtain ⟨more, _, hmore, h⟩ := estateM_bind_eq_ok_iff.1 h
    cases h
    exact .inr ⟨replacement, e, more, rfl, Pass.step_eq_ok_iff.1 hredirect, hmore, rfl⟩

/-- What a trivial gate comes down to is the constant or a node that it reads. -/
theorem feeds_of_trivial? {kind : Kind} (hkind : c.kind? id = some kind)
    (htrivial : kind.trivial? = some replacement) :
    c.IsGate id ∧ (replacement.node = 0 ∨ c.Feeds replacement.node id) := by
  obtain ⟨hgate, rfl | hmem⟩ := Kind.trivial?_cases htrivial
  · exact ⟨⟨kind, hkind, hgate⟩, .inl rfl⟩
  · exact ⟨⟨kind, hkind, hgate⟩, .inr ⟨kind, hkind, replacement, hmem, rfl⟩⟩

/-- The victims with the nodes that are read in their place. -/
def mergesOf (replaced : List (NodeId × Edge)) : List (NodeId × NodeId) :=
  replaced.map fun (victim, replacement) => (victim, replacement.node)

theorem map_fst_mergesOf (replaced : List (NodeId × Edge)) :
    (mergesOf replaced).map (·.1) = replaced.map (·.1) := by
  rw [mergesOf, List.map_map]
  rfl

/-- What the replacement of the trivial ones among the nodes `ids` comes to after that among the
    nodes `seen`: what is not replaced is not trivial in the end. -/
structure TrimmedBy (c : Circuit) (seen ids : List NodeId) (replaced : List (NodeId × Edge))
    (d : Circuit) : Prop where
  wellFormed : d.WellFormed
  contracted : c.Contracted (mergesOf replaced) d
  oneStep : OneStep (mergesOf replaced)
  kept : ∀ id ∈ seen, d.kind? id = c.kind? id
  victim : ∀ merge ∈ mergesOf replaced, merge.1 ∈ ids ∧ c.IsGate merge.1
  settled : ∀ id ∈ ids, (∃ merge ∈ mergesOf replaced, merge.1 = id) ∨
    ∃ kind, d.kind? id = some kind ∧ kind.trivial? = none
  /-- Nothing is read in the end that was not read before, but for the constant. -/
  survivor : ∀ {S : NodeId → Prop}, S 0 →
    (∀ source, ∀ consumer ∈ ids, c.Feeds source consumer → S source) →
    ∀ merge ∈ mergesOf replaced, S merge.2

namespace TrimmedBy

theorem nil (hc : c.WellFormed) : c.TrimmedBy seen [] [] c where
  wellFormed := hc
  contracted := Contracted.refl c
  oneStep := ⟨List.nodup_nil, nofun⟩
  kept _ _ := rfl
  victim := nofun
  settled := nofun
  survivor _ _ := nofun

/-- A node that is not trivial stays as it is. -/
theorem pass {kind : Kind} (hkind : c.kind? id = some kind) (htrivial : kind.trivial? = none)
    (h : c.TrimmedBy (seen ++ [id]) rest replaced d) : c.TrimmedBy seen (id :: rest) replaced d where
  wellFormed := h.wellFormed
  contracted := h.contracted
  oneStep := h.oneStep
  kept other hother := h.kept other (List.mem_append_left _ hother)
  victim merge hmerge := (h.victim merge hmerge).imp_left (List.mem_cons_of_mem id)
  settled other hother := by
    rcases List.mem_cons.1 hother with rfl | hother
    · exact .inr ⟨kind, (h.kept other (by simp)).trans hkind, htrivial⟩
    · exact h.settled other hother
  survivor hzero hfeeds := h.survivor hzero fun source consumer hconsumer =>
    hfeeds source consumer (List.mem_cons_of_mem id hconsumer)

/-- A trivial gate is not read any more, so it will not replace a later one, and none of those
    replaces it. -/
theorem replace (hgate : c.IsGate id)
    (hreplacement : replacement.node = 0 ∨ c.Feeds replacement.node id)
    (hstays : ∀ victim ∈ id :: rest, c.IsGate victim → replacement.node ≠ victim)
    (he : c.Redirected id replacement e) (hkept : ∀ other ∈ seen ++ [id], e.kind? other = c.kind? other)
    (hfresh : id ∉ rest) (hid : id ≠ 0) (h : e.TrimmedBy (seen ++ [id]) rest replaced d) :
    c.TrimmedBy seen (id :: rest) ((id, replacement) :: replaced) d where
  wellFormed := h.wellFormed
  contracted := h.contracted.cons he
  oneStep := by
    refine (OneStep.singleton (hstays id List.mem_cons_self hgate)).append h.oneStep ?_
    rintro _ hmem other hother
    obtain rfl := List.mem_singleton.1 hmem
    refine ⟨?_, ?_, ?_⟩
    · rintro rfl
      exact hfresh (h.victim other hother).1
    · -- Nothing reads the victim any more, so nothing that is read later is the victim.
      refine h.survivor (S := (· ≠ id)) hid.symm ?_ other hother
      rintro source consumer _ hfeeds rfl
      exact he.unread (hstays source List.mem_cons_self hgate) consumer hfeeds
    · obtain ⟨hlater, hisGate⟩ := h.victim other hother
      exact hstays other.1 (List.mem_cons_of_mem id hlater) (he.isGate_iff.1 hisGate)
  kept other hother := by
    have hmem := List.mem_append_left [id] hother
    rw [h.kept other hmem, hkept other hmem]
  victim merge hmerge := by
    rcases List.mem_cons.1 hmerge with rfl | hmerge
    · exact ⟨List.mem_cons_self, hgate⟩
    · obtain ⟨hmem, hisGate⟩ := h.victim merge hmerge
      exact ⟨List.mem_cons_of_mem id hmem, he.isGate_iff.1 hisGate⟩
  settled other hother := by
    rcases List.mem_cons.1 hother with rfl | hother
    · exact .inl ⟨_, List.mem_cons_self, rfl⟩
    · refine (h.settled other hother).imp_left ?_
      rintro ⟨merge, hmerge, heq⟩
      exact ⟨merge, List.mem_cons_of_mem _ hmerge, heq⟩
  survivor {S} hzero hfeeds := by
    have hhead : S replacement.node := by
      rcases hreplacement with hnode | hread
      · rwa [hnode]
      · exact hfeeds _ id List.mem_cons_self hread
    refine List.forall_mem_cons.2 ⟨hhead, h.survivor hzero fun source consumer hconsumer hread => ?_⟩
    obtain ⟨old, hold, rfl⟩ := he.feeds_iff.1 hread
    split
    · exact hhead
    · exact hfeeds old consumer (List.mem_cons_of_mem id hconsumer) hold

end TrimmedBy

/-- The run: what an earlier replacement leaves is settled, as the gates before the one at hand
    read nothing that is replaced later. -/
theorem WellFormed.trimmedBy (hc : c.WellFormed) (hrank : c.Ranked rank)
    (hnodup : (seen ++ ids).Nodup)
    (hsorted : (seen ++ ids).Pairwise fun earlier later => later ≠ 0 → rank earlier < rank later)
    (hzero : ∀ id, rank 0 ≤ rank id)
    (h : Circuit.replaceTrivial ids c = .ok replaced d) :
    c.TrimmedBy seen ids replaced d := by
  induction ids generalizing seen c replaced with
  | nil =>
    rw [Circuit.replaceTrivial] at h
    cases h
    exact .nil hc
  | cons id rest ih =>
    have hsplit : seen ++ [id] ++ rest = seen ++ id :: rest := by simp
    obtain ⟨kind, hkind, ⟨htrivial, hrun⟩ | ⟨replacement, e, more, htrivial, hredirect, hrun, rfl⟩⟩ :=
      replaceTrivial_cons_cases h
    · exact .pass hkind htrivial (ih hc hrank (hsplit ▸ hnodup) (hsplit ▸ hsorted) hrun)
    · obtain ⟨hredirected, he⟩ := hc.of_redirect hredirect
      obtain ⟨hgate, hreplacement⟩ := feeds_of_trivial? hkind htrivial
      have hid := hgate.ne_zero hc.toIndexed
      have hlower : rank replacement.node ≤ rank id := by
        rcases hreplacement with hnode | hread
        · exact hnode ▸ hzero id
        · exact (hrank _ _ hread).le
      obtain ⟨_, hnodupRest, _⟩ := List.nodup_append.1 hnodup
      obtain ⟨_, hsortedRest, _⟩ := List.pairwise_append.1 hsorted
      have hstays : ∀ victim ∈ id :: rest, c.IsGate victim → replacement.node ≠ victim := by
        rintro victim hvictim hvictimGate rfl
        rcases List.mem_cons.1 hvictim with heq | hlater
        · exact (redirect_guards hredirect).1 heq.symm
        · have hne := hvictimGate.ne_zero hc.toIndexed
          have hlt := (List.pairwise_cons.1 hsortedRest).1 _ hlater hne
          omega
      exact .replace hgate hreplacement hstays hredirected
        (hredirected.kind?_of_sorted hrank hsorted hid) (List.nodup_cons.1 hnodupRest).1 hid
        (ih he (hrank.of_redirected hredirected hlower) (hsplit ▸ hnodup) (hsplit ▸ hsorted) hrun)

/-- Nothing is replaced where nothing is trivial. -/
theorem replaceTrivial_eq_nil
    (h : ∀ id ∈ ids, ∃ kind, c.kind? id = some kind ∧ kind.trivial? = none) :
    replaceTrivial ids c = .ok [] c := by
  induction ids with
  | nil => rfl
  | cons id rest ih =>
    obtain ⟨_, hkind, htrivial⟩ := h id List.mem_cons_self
    obtain ⟨n, hn, rfl⟩ := kind?_eq_some_iff.1 hkind
    have hask : Pass.ask (·.node id) c = .ok n c := Pass.ask_of_ok (node_eq_ok_iff.2 hn)
    rw [replaceTrivial, estateM_bind_of_ok hask]
    simp only [htrivial]
    exact ih fun other hother => h other (List.mem_cons_of_mem id hother)

/-- The victims are live no more, and no other gate has become live. -/
theorem TrimmedBy.shrunk {order : List NodeId} (h : c.TrimmedBy [] order replaced d)
    (hc : c.WellFormed) (horder : c.IsLiveOrder order) :
    c.Shrunk (replaced.map (·.1)) d := by
  rw [← map_fst_mergesOf]
  refine h.contracted.shrunk h.oneStep hc h.wellFormed ?_ ?_
  · intro merge hmerge
    exact (h.victim merge hmerge).imp_left horder.mem_iff.1
  · refine h.survivor (S := fun id => id = 0 ∨ c.Live id) (.inl rfl) fun source consumer hconsumer hfeeds => .inr ?_
    exact (horder.mem_iff.1 hconsumer).of_feeds hfeeds

/-- What is live in the end is not trivial. -/
theorem TrimmedBy.trivial?_eq_none {order : List NodeId} (h : c.TrimmedBy [] order replaced d)
    (hc : c.WellFormed) (horder : c.IsLiveOrder order) {kind : Kind} (hid : d.Live id)
    (hkind : d.kind? id = some kind) : kind.trivial? = none := by
  cases hgate : kind.isGate with
  | false => cases kind <;> first | rfl | cases hgate
  | true =>
    have hshrunk := h.shrunk hc horder
    obtain ⟨hlive, _⟩ := hshrunk.liveGate ⟨hid, kind, hkind, hgate⟩
    rcases h.settled id (horder.mem_iff.2 hlive) with ⟨merge, hmerge, rfl⟩ | ⟨_, hsettled, htrivial⟩
    · have hvictim : merge.1 ∈ replaced.map (·.1) :=
        map_fst_mergesOf replaced ▸ List.mem_map_of_mem hmerge
      exact absurd hid (hshrunk.retired merge.1 hvictim).2
    · obtain rfl := Option.some.inj (hkind.symm.trans hsettled)
      exact htrivial

/-- The replacement of trivial gates succeeds as long as there is no cycle, and no node changes its
    value. -/
theorem WellFormed.exists_simplify (hc : c.WellFormed) (hacyclic : c.Acyclic) :
    ∃ replaced d order, Circuit.simplify c = .ok replaced d ∧ c.IsLiveOrder order ∧
      c.TrimmedBy [] order replaced d ∧ d.Acyclic ∧ ∀ p id, d.value p id = c.value p id := by
  obtain ⟨order, horder, hlive⟩ := hc.exists_liveOrder
  obtain ⟨rank, hrank, hzero, hsorted⟩ := hc.exists_rank_of_liveOrder hacyclic hlive
  obtain ⟨replaced, d, hsimplify, hd⟩ := hc.simplify hrank hzero
  obtain ⟨_, hfound, hreplaced⟩ := simplify_eq_ok_iff.1 hsimplify
  obtain rfl := Except.ok.inj (horder.symm.trans hfound)
  have htrimmed : c.TrimmedBy [] order replaced d :=
    hc.trimmedBy hrank hlive.nodup hsorted hzero hreplaced
  exact ⟨replaced, d, order, hsimplify, hlive, htrimmed, hd.ranked.acyclic,
    fun p id => congrFun (hd.value p) id⟩

/-- One replacement pass over a circuit without cycles reaches the normal form. It succeeds, and
    afterwards no live gate reads the constant or one node twice. No replaced gate is read any more,
    no node has changed its value under any pattern, and a second pass does nothing. -/
theorem simplify_normal (ops : List Operation) (hacyclic : (empty.after ops).Acyclic) :
    ∃ replaced d, simplify (empty.after ops) = .ok replaced d ∧
      (∀ id left right, d.Live id → d.kind? id = some (.gate left right) →
        left.node ≠ 0 ∧ right.node ≠ 0 ∧ left.node ≠ right.node) ∧
      (∀ victim replacement, (victim, replacement) ∈ replaced →
        ∀ consumer, ¬ d.Lists victim consumer) ∧
      (∀ p id, d.value p id = (empty.after ops).value p id) ∧
      simplify d = .ok [] d := by
  have hc := wellFormed_empty.after ops
  obtain ⟨replaced, d, order, hsimplify, hlive, htrimmed, _, hvalue⟩ := hc.exists_simplify hacyclic
  have hd := htrimmed.wellFormed
  refine ⟨replaced, d, hsimplify, ?_, ?_, hvalue, ?_⟩
  · intro id left right hid hkind
    exact Kind.trivial?_gate_eq_none_iff.1 (htrimmed.trivial?_eq_none hc hlive hid hkind)
  · intro victim replacement hmem consumer
    rw [← hd.mirror]
    exact htrimmed.contracted.unread htrimmed.oneStep.final (List.mem_map_of_mem hmem) consumer
  · obtain ⟨again, hagain, hliveAgain⟩ := hd.exists_liveOrder
    refine simplify_eq_ok_iff.2 ⟨again, hagain, replaceTrivial_eq_nil fun id hid => ?_⟩
    have hdlive := hliveAgain.mem_iff.1 hid
    obtain ⟨kind, hkind⟩ := Option.isSome_iff_exists.1 (hdlive.isSome hd)
    exact ⟨kind, hkind, htrimmed.trivial?_eq_none hc hlive hdlive hkind⟩

/-- Three gates, the first of which reads one input twice. -/
def collapsing : List Operation :=
  [.addInput 1, .addInput 2, .addGate 3 ⟨1, false⟩ ⟨1, false⟩, .addGate 4 ⟨3, false⟩ ⟨1, true⟩,
    .addGate 5 ⟨4, true⟩ ⟨2, false⟩, .addOutput ⟨5, true⟩]

/-- Each replacement makes the next gate trivial. -/
theorem simplify_normal_collapsing :
    (empty.after collapsing).Acyclic ∧
      ∃ d, simplify (empty.after collapsing) =
          .ok [(3, ⟨1, false⟩), (4, .low), (5, ⟨2, false⟩)] d ∧
        (∀ p id, d.value p id = (empty.after collapsing).value p id) ∧
        (∀ consumer, ¬ d.Lists 5 consumer) ∧ simplify d = .ok [] d := by
  have hlist : (match simplify (empty.after collapsing) with
      | .ok replaced _ => replaced
      | .error _ _ => []) = [(3, ⟨1, false⟩), (4, .low), (5, ⟨2, false⟩)] := by decide +kernel
  have haudit : (empty.after collapsing).audit = .ok () := by decide +kernel
  have hacyclic := (wellFormed_empty.after collapsing).audit_eq_ok_iff.1 haudit
  obtain ⟨replaced, d, hsimplify, _, hunread, hvalue, hagain⟩ := simplify_normal collapsing hacyclic
  rw [hsimplify] at hlist
  dsimp only at hlist
  subst hlist
  exact ⟨hacyclic, d, hsimplify, hvalue, hunread 5 ⟨2, false⟩ (by decide), hagain⟩

end Circuit

end AndInverter
