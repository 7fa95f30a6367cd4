import AndInverter.Circuit.Sharing
import AndInverter.Proofs.Contraction
import AndInverter.Proofs.Ordered

namespace AndInverter

namespace FaninPair

/-- The pairs are equal when the edges are, in one of the two orders. -/
theorem ofFanins_eq_iff {left right left' right' : Edge} :
    ofFanins left right = ofFanins left' right' ↔
      left = left' ∧ right = right' ∨ left = right' ∧ right = left' := by
  have hswap : ∀ a b : Edge, compare a b = .gt ↔ compare b a = .lt := fun a b =>
    Std.OrientedCmp.gt_iff_lt
  constructor
  · intro h
    unfold ofFanins at h
    split at h <;> split at h <;> simp_all
  · rintro (⟨rfl, rfl⟩ | ⟨rfl, rfl⟩)
    · rfl
    · unfold ofFanins
      cases hcompare : compare left right with
      | lt => simp [(hswap right left).2 hcompare]
      | eq =>
        obtain rfl := Std.compare_eq_iff_eq.1 hcompare
        simp
      | gt => simp [(hswap left right).1 hcompare]

end FaninPair

namespace Circuit

variable {c d e : Circuit} {rank : NodeId → Nat} {id survivor : NodeId} {pair : FaninPair}
  {seen rest : List NodeId} {merges : List (NodeId × NodeId)}

/-- What a gate reads, whatever the order of its fanins. -/
def pair? (c : Circuit) (id : NodeId) : Option FaninPair :=
  match c.kind? id with
  | some (.gate left right) => some (.ofFanins left right)
  | _ => none

theorem pair?_eq_some_iff : c.pair? id = some pair ↔
    ∃ left right, c.kind? id = some (.gate left right) ∧ .ofFanins left right = pair := by
  unfold pair?
  split
  · next left right hkind => simp [hkind]
  · next hother =>
    simp only [reduceCtorEq, false_iff]
    rintro ⟨left, right, hkind, _⟩
    exact hother left right hkind

theorem pair?_of_gate {left right : Edge} (hkind : c.kind? id = some (.gate left right)) :
    c.pair? id = some (.ofFanins left right) := pair?_eq_some_iff.2 ⟨left, right, hkind, rfl⟩

theorem isGate_of_pair? (hpair : c.pair? id = some pair) : c.IsGate id := by
  obtain ⟨left, right, hkind, _⟩ := pair?_eq_some_iff.1 hpair
  exact ⟨_, hkind, rfl⟩

theorem pair?_congr (h : d.kind? id = c.kind? id) : d.pair? id = c.pair? id := by
  rw [pair?, pair?, h]

/-- The first of the nodes that is a gate with these fanins. -/
def firstWith (c : Circuit) (ids : List NodeId) (pair : FaninPair) : Option NodeId :=
  ids.find? fun id => decide (c.pair? id = some pair)

theorem pair?_of_firstWith {ids : List NodeId} (h : c.firstWith ids pair = some id) :
    id ∈ ids ∧ c.pair? id = some pair :=
  ⟨List.mem_of_find?_eq_some h, by simpa using List.find?_some h⟩

theorem firstWith_congr {ids : List NodeId} (h : ∀ id ∈ ids, d.kind? id = c.kind? id) :
    d.firstWith ids pair = c.firstWith ids pair := by
  induction ids with
  | nil => rfl
  | cons id ids ih =>
    have hrest := ih fun other hother => h other (List.mem_cons_of_mem id hother)
    unfold firstWith at hrest ⊢
    rw [List.find?_cons, List.find?_cons, pair?_congr (h id List.mem_cons_self), hrest]

theorem firstWith_append (seen ids : List NodeId) :
    c.firstWith (seen ++ ids) pair = (c.firstWith seen pair).or (c.firstWith ids pair) :=
  List.find?_append

theorem firstWith_cons_self (hpair : c.pair? id = some pair) (rest : List NodeId) :
    c.firstWith (id :: rest) pair = some id := by
  simp [firstWith, hpair]

theorem firstWith_concat (seen : List NodeId) : c.firstWith (seen ++ [id]) pair =
    (c.firstWith seen pair).or (if c.pair? id = some pair then some id else none) := by
  rw [firstWith_append]
  simp [firstWith, List.find?_cons]
  split <;> simp_all

/-- What structural hashing does with the first of the nodes: nothing if it is no gate; otherwise
    it makes the gate known, or merges it into the gate that is known for its fanins. -/
theorem mergeShared_cons_cases {known : Std.TreeMap FaninPair NodeId}
    (h : mergeShared known (id :: rest) c = .ok merges d) :
    c.pair? id = none ∧ mergeShared known rest c = .ok merges d ∨
      ∃ pair, c.pair? id = some pair ∧
        (known[pair]? = none ∧ mergeShared (known.insert pair id) rest c = .ok merges d ∨
          ∃ survivor e more, known[pair]? = some survivor ∧ c.merge id survivor false = .ok e ∧
            mergeShared known rest e = .ok more d ∧ merges = (id, survivor) :: more) := by
  rw [mergeShared, estateM_bind_eq_ok_iff] at h
  obtain ⟨n, _, hask, h⟩ := h
  obtain ⟨hn, rfl⟩ := Pass.ask_eq_ok_iff.1 hask
  have hkind := kind?_of_node? (node_eq_ok_iff.1 hn)
  cases hgate : n.kind with
  | gate left right =>
    rw [hgate] at h hkind
    refine .inr ⟨_, pair?_of_gate hkind, ?_⟩
    cases hknown : known[FaninPair.ofFanins left right]? with
    | none =>
      simp only [hknown] at h
      exact .inl ⟨rfl, h⟩
    | some survivor =>
      simp only [hknown] at h
      obtain ⟨_, e, hmerge, h⟩ := estateM_bind_eq_ok_iff.1 h
      obtain ⟨more, _, hmore, h⟩ := estateM_bind_eq_ok_iff.1 h
      cases h
      exact .inr ⟨survivor, e, more, rfl, Pass.step_eq_ok_iff.1 hmerge, hmore, rfl⟩
  | _ =>
    rw [hgate] at h hkind
    exact .inl ⟨by simp [pair?, hkind], h⟩

/-- A run that merges nothing changes nothing. -/
theorem eq_of_mergeShared_nil {ids : List NodeId} {known : Std.TreeMap FaninPair NodeId}
    (h : mergeShared known ids c = .ok [] d) : d = c := by
  induction ids generalizing known with
  | nil =>
    rw [mergeShared] at h
    cases h
    rfl
  | cons id rest ih =>
    rcases mergeShared_cons_cases h with ⟨_, hrun⟩ | ⟨_, _, ⟨_, hrun⟩ | ⟨_, _, _, _, _, _, hmerges⟩⟩
    · exact ih hrun
    · exact ih hrun
    · cases hmerges

/-- What structural hashing of the nodes `ids` comes to after that of the nodes `seen`: each gate
    among them goes to the first one that reads the same in the end, unless it is this gate. -/
structure SharedBy (c : Circuit) (seen ids : List NodeId) (merges : List (NodeId × NodeId))
    (d : Circuit) : Prop where
  wellFormed : d.WellFormed
  merged : c.Merged merges d
  kept : ∀ id ∈ seen, d.kind? id = c.kind? id
  victims : (merges.map (·.1)).Sublist ids
  mem_iff : ∀ {victim survivor}, (victim, survivor) ∈ merges ↔
    victim ∈ ids ∧ victim ≠ survivor ∧
      ∃ pair, d.pair? victim = some pair ∧ d.firstWith (seen ++ ids) pair = some survivor

namespace SharedBy

/-- A node stays if no gate before it reads the same. -/
theorem pass (hfirst : ∀ pair, c.pair? id = some pair → c.firstWith seen pair = none)
    (h : c.SharedBy (seen ++ [id]) rest merges d) : c.SharedBy seen (id :: rest) merges d where
  wellFormed := h.wellFormed
  merged := h.merged
  kept other hother := h.kept other (List.mem_append_left _ hother)
  victims := h.victims.cons id
  mem_iff {victim survivor} := by
    rw [h.mem_iff, List.append_assoc, List.singleton_append, List.mem_cons]
    constructor
    · rintro ⟨hmem, hrest⟩
      exact ⟨.inr hmem, hrest⟩
    · rintro ⟨hmem, hne, pair, hpair, hfind⟩
      refine ⟨hmem.resolve_left ?_, hne, pair, hpair, hfind⟩
      rintro rfl
      have hkept := h.kept victim (by simp)
      have hnone : d.firstWith seen pair = none := by
        rw [firstWith_congr fun other hother => h.kept other (List.mem_append_left _ hother)]
        exact hfirst pair (pair?_congr hkept ▸ hpair)
      rw [firstWith_append, hnone, firstWith_cons_self hpair] at hfind
      exact hne (Option.some.inj hfind)

/-- A gate goes to the gate before it that reads the same. -/
theorem merge (hpair : c.pair? id = some pair) (hfirst : c.firstWith seen pair = some survivor)
    (he : c.Redirected id ⟨survivor, false⟩ e)
    (hkept : ∀ other ∈ seen ++ [id], e.kind? other = c.kind? other)
    (hfresh : id ∉ seen) (hlater : id ∉ rest) (h : e.SharedBy (seen ++ [id]) rest merges d) :
    c.SharedBy seen (id :: rest) ((id, survivor) :: merges) d where
  wellFormed := h.wellFormed
  merged := h.merged.cons he
  kept other hother := by
    have hmem := List.mem_append_left [id] hother
    rw [h.kept other hmem, hkept other hmem]
  victims := h.victims.cons_cons id
  mem_iff {victim other} := by
    have hstays : ∀ node ∈ seen ++ [id], d.kind? node = c.kind? node := fun node hnode =>
      (h.kept node hnode).trans (hkept node hnode)
    have hself : d.pair? id = some pair := (pair?_congr (hstays id (by simp))).trans hpair
    have hfind : d.firstWith (seen ++ id :: rest) pair = some survivor := by
      rw [firstWith_append,
        firstWith_congr fun node hnode => hstays node (List.mem_append_left _ hnode), hfirst]
      rfl
    rw [List.mem_cons, h.mem_iff, List.append_assoc, List.singleton_append, List.mem_cons,
      Prod.mk.injEq]
    constructor
    · rintro (⟨rfl, rfl⟩ | ⟨hmem, hrest⟩)
      · refine ⟨.inl rfl, ?_, pair, hself, hfind⟩
        rintro rfl
        exact hfresh (pair?_of_firstWith hfirst).1
      · exact ⟨.inr hmem, hrest⟩
    · rintro ⟨rfl | hmem, hne, pair', hpair', hfind'⟩
      · obtain rfl := Option.some.inj (hself.symm.trans hpair')
        exact .inl ⟨rfl, Option.some.inj (hfind'.symm.trans hfind)⟩
      · exact .inr ⟨hmem, hne, pair', hpair', hfind'⟩

/-- Nothing of this depends on the candidate groups. -/
theorem sameShape (h : c.SharedBy seen rest merges d) (he : d.SameShape e) :
    c.SharedBy seen rest merges e where
  wellFormed := he.wellFormed h.wellFormed
  merged := h.merged.sameShape he
  kept id hid := (he.kind? id).trans (h.kept id hid)
  victims := h.victims
  mem_iff {victim survivor} := by
    simp only [h.mem_iff, pair?_congr (he.kind? _), firstWith_congr fun id _ => he.kind? id]

end SharedBy

/-- A gate that reads what none before it reads becomes known. -/
theorem getElem?_insert_known {known : Std.TreeMap FaninPair NodeId}
    (hknown : ∀ pair : FaninPair, known[pair]? = c.firstWith seen pair)
    (hpair : c.pair? id = some pair) (hfirst : c.firstWith seen pair = none) (other : FaninPair) :
    (known.insert pair id)[other]? = c.firstWith (seen ++ [id]) other := by
  rw [firstWith_concat, hpair, Std.TreeMap.getElem?_insert, hknown]
  simp only [Std.compare_eq_iff_eq, Option.some.injEq]
  split
  · next heq =>
    rw [← heq, hfirst]
    rfl
  · simp

/-- A gate that reads what one before it reads adds nothing to what is known. -/
theorem firstWith_concat_of_known (hpair : c.pair? id = some pair)
    (hfirst : c.firstWith seen pair = some survivor) (other : FaninPair) :
    c.firstWith (seen ++ [id]) other = c.firstWith seen other := by
  rw [firstWith_concat, hpair]
  split
  · next heq =>
    rw [← Option.some.inj heq, hfirst]
    rfl
  · simp

/-- The run of structural hashing: what is known at any time is the first gate for each pair of
    fanins, and no merge touches the fanins of a gate that has been looked at. -/
theorem WellFormed.sharedBy {ids : List NodeId} {known : Std.TreeMap FaninPair NodeId}
    (hc : c.WellFormed) (hrank : c.Ranked rank) (hnodup : (seen ++ ids).Nodup)
    (hsorted : (seen ++ ids).Pairwise fun earlier later => later ≠ 0 → rank earlier < rank later)
    (hknown : ∀ pair : FaninPair, known[pair]? = c.firstWith seen pair)
    (h : Circuit.mergeShared known ids c = .ok merges d) : c.SharedBy seen ids merges d := by
  induction ids generalizing seen known c merges with
  | nil =>
    rw [Circuit.mergeShared] at h
    cases h
    exact ⟨hc, Merged.refl _, fun _ _ => rfl, List.nil_sublist _, by simp⟩
  | cons id rest ih =>
    have hsplit : seen ++ [id] ++ rest = seen ++ id :: rest := by simp
    rcases mergeShared_cons_cases h with ⟨hpair, hrun⟩ | ⟨pair, hpair, hcase⟩
    · refine .pass (by simp [hpair]) (ih hc hrank (hsplit ▸ hnodup) (hsplit ▸ hsorted) ?_ hrun)
      intro other
      rw [firstWith_concat, hpair, hknown]
      simp
    · obtain ⟨hnew, hrun⟩ | ⟨survivor, e, more, hsurvivor, hmerge, hrun, rfl⟩ := hcase
      · rw [hknown] at hnew
        refine .pass (fun other hother => ?_) (ih hc hrank (hsplit ▸ hnodup) (hsplit ▸ hsorted)
          (getElem?_insert_known hknown hpair hnew) hrun)
        obtain rfl := Option.some.inj (hpair.symm.trans hother)
        exact hnew
      · rw [hknown] at hsurvivor
        obtain ⟨hredirected, he⟩ := hc.of_redirect hmerge
        have hzero := (isGate_of_pair? hpair).ne_zero hc.toIndexed
        obtain ⟨_, _, hacross⟩ := List.pairwise_append.1 hsorted
        have hkept := hredirected.kind?_of_sorted hrank hsorted hzero
        have hlower : rank survivor ≤ rank id := by
          have hseen := (pair?_of_firstWith hsurvivor).1
          exact (hacross survivor hseen id List.mem_cons_self hzero).le
        obtain ⟨_, hnodupRest, hdisjoint⟩ := List.nodup_append.1 hnodup
        refine .merge hpair hsurvivor hredirected hkept
          (fun hmem => hdisjoint id hmem id List.mem_cons_self rfl) (List.nodup_cons.1 hnodupRest).1
          (ih he (hrank.of_redirected hredirected hlower) (hsplit ▸ hnodup) (hsplit ▸ hsorted) ?_ hrun)
        intro other
        rw [firstWith_congr hkept, firstWith_concat_of_known hpair hsurvivor, hknown]

end Circuit

end AndInverter
