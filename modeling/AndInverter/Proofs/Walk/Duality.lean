import AndInverter.Proofs.Report.Cone

open Relation

namespace AndInverter

variable {σ τ : Type}

/-- A visit of the node was reported. -/
def Visited (calls : List Call) (id : NodeId) : Prop :=
  ∃ visit ∈ visits calls, visit.node.id = id

section Visited

variable {calls calls' : List Call} {id : NodeId}

theorem visited_append : Visited (calls ++ calls') id ↔ Visited calls id ∨ Visited calls' id := by
  simp only [Visited, visits_append, List.mem_append, or_and_right, exists_or]

theorem not_visited_descend {n : Node} {depth : Nat} {answer : Bool} :
    ¬ Visited [.descend n depth answer] id := by
  simp [Visited, visits]

theorem visited_reportCalls {o : Observer σ} {time : Order} {visit : Visit} :
    Visited (o.reportCalls time visit) id ↔ o.order = time ∧ visit.node.id = id := by
  unfold Observer.reportCalls Visited
  split <;> simp [visits, *]

end Visited

/-- What a walk marks from one stage to another is what it reports visits of. -/
structure Walk.Reports (w u : Walk (σ × List Call)) : Prop where
  within : w.Within u
  kept : ∀ id, Visited w.state.2 id → Visited u.state.2 id
  visited : ∀ id ∈ u.reached, id ∈ w.reached ∨ Visited u.state.2 id
  marked : ∀ id, Visited u.state.2 id → Visited w.state.2 id ∨ id ∈ u.reached

namespace Walk.Reports

variable {u v w : Walk (σ × List Call)} {o : Observer σ} {visit : Visit}

theorem refl (w : Walk (σ × List Call)) : w.Reports w :=
  ⟨.refl w, fun _ => id, fun _ => .inl, fun _ => .inl⟩

theorem trans (huv : u.Reports v) (hvw : v.Reports w) : u.Reports w where
  within := huv.within.trans hvw.within
  kept id hid := hvw.kept id (huv.kept id hid)
  visited id hid := by
    obtain hid | hid := hvw.visited id hid
    · exact (huv.visited id hid).imp_right (hvw.kept id)
    · exact .inr hid
  marked id hid := by
    obtain hid | hid := hvw.marked id hid
    · exact (huv.marked id hid).imp_right (hvw.within id)
    · exact .inr hid

theorem meet (hmarked : visit.node.id ∈ w.reached) : w.Reports (w.meet o.logged visit) := by
  rw [Walk.meet, o.logged_report]
  refine ⟨fun _ => id, fun id hid => visited_append.2 (.inl hid), fun _ => .inl, fun id hid => ?_⟩
  refine (visited_append.1 hid).imp_right fun hid => ?_
  obtain ⟨_, rfl⟩ := visited_reportCalls.1 hid
  exact hmarked

/-- The visit of a node is reported when the node is entered, or else when it is left. -/
theorem around (h : (w.enter o.logged visit.node.id visit).Reports u) :
    w.Reports (u.leave o.logged visit) := by
  have hmarks (id : NodeId) : id ∈ (w.enter o.logged visit.node.id visit).reached ↔
      visit.node.id = id ∨ id ∈ w.reached := by
    rw [Walk.enter, Std.TreeSet.mem_insert, Std.compare_eq_iff_eq]
  have henter (id : NodeId) : Visited (w.enter o.logged visit.node.id visit).state.2 id ↔
      Visited w.state.2 id ∨ o.order = .preorder ∧ visit.node.id = id := by
    rw [Walk.enter, o.logged_report, visited_append, visited_reportCalls]
    simp only [Observer.logged, visited_append, not_visited_descend, or_false]
  have hleave (id : NodeId) : Visited (u.leave o.logged visit).state.2 id ↔
      Visited u.state.2 id ∨ o.order = .postorder ∧ visit.node.id = id := by
    rw [Walk.leave, o.logged_report, visited_append, visited_reportCalls]
  have hentered : visit.node.id ∈ u.reached := h.within _ ((hmarks _).2 (.inl rfl))
  refine ⟨fun id hid => h.within id ((hmarks id).2 (.inr hid)), fun id hid => ?_, fun id hid => ?_,
    fun id hid => ?_⟩
  · exact (hleave id).2 (.inl (h.kept id ((henter id).2 (.inl hid))))
  · rw [hleave]
    obtain hid | hid := h.visited id hid
    · obtain rfl | hid := (hmarks id).1 hid
      · cases horder : o.order with
        | preorder => exact .inr (.inl (h.kept _ ((henter _).2 (.inr ⟨horder, rfl⟩))))
        | postorder => exact .inr (.inr ⟨rfl, rfl⟩)
      · exact .inl hid
    · exact .inr (.inl hid)
  · obtain hid | ⟨_, rfl⟩ := (hleave id).1 hid
    · obtain hid | hid := h.marked id hid
      · obtain hid | ⟨_, rfl⟩ := (henter id).1 hid
        · exact .inl hid
        · exact .inr hentered
      · exact .inr hid
    · exact .inr hentered

/-- A walk that is over has marked what it has visited. -/
theorem visited_iff {w : Walk σ} (h : w.withLog.unmarked.Reports u) {id : NodeId} :
    Visited u.state.2 id ↔ id ∈ u.reached := by
  constructor
  · intro hid
    exact (h.marked id hid).resolve_left (by simp [Walk.withLog, Walk.unmarked, Visited, visits])
  · intro hid
    exact (h.visited id hid).resolve_left Std.TreeSet.not_mem_emptyc

end Walk.Reports

/-- Where the walk could go on, it does: the observer never declines, unless so many edges lead to a
    node that the walk has been through all nodes. -/
def Observer.Unbounded (o : Observer σ) (c : Circuit) : Prop :=
  ∀ n depth s, depth < c.ids.length → (o.descend n depth s).1 = true

namespace Circuit

variable {c : Circuit} {direction : Direction} {o : Observer σ} {start : Edge}
  {calls calls' : List Call} {id next : NodeId}

theorem WellFormed.reports_arrive (hc : c.WellFormed) (direction : Direction) (o : Observer σ)
    (depth : Nat) (w : Walk (σ × List Call)) (e : Edge) :
    w.Reports (c.arrive direction o.logged depth w e) := by
  refine arrive_relates .refl .trans (fun depth w e n hn hmarked => ?_)
    fun depth w u e n hn _ h => ?_
  · apply Walk.Reports.meet
    rwa [hc.own_id hn]
  · apply Walk.Reports.around
    rwa [hc.own_id hn]

/-- Where the observer was asked, it was shown a node of the circuit, and the walk went on below. -/
def AllFollowed (c : Circuit) (calls : List Call) : Prop :=
  ∀ n depth answer, Call.descend n depth answer ∈ calls → c.node? n.id = some n ∧ answer = true

theorem AllFollowed.append (h : c.AllFollowed calls) (h' : c.AllFollowed calls') :
    c.AllFollowed (calls ++ calls') := fun n depth answer hcall =>
  (List.mem_append.1 hcall).elim (h n depth answer) (h' n depth answer)

theorem allFollowed_reportCalls (c : Circuit) (o : Observer σ) (time : Order) (visit : Visit) :
    c.AllFollowed (o.reportCalls time visit) := fun n depth answer hcall =>
  (not_asked_reportCalls o time visit ⟨n, depth, answer, hcall, rfl⟩).elim

theorem allFollowed_descend {n : Node} {depth : Nat} {answer : Bool} (hn : c.node? n.id = some n)
    (hanswer : answer = true) : c.AllFollowed [.descend n depth answer] := by
  intro m at' answer' hcall
  cases List.mem_singleton.1 hcall
  exact ⟨hn, hanswer⟩

/-- A node that is entered is one of those without a mark, so the walk has not come too deep for the
    observer to go on. -/
theorem WellFormed.allFollowed_arrive (hc : c.WellFormed) (direction : Direction)
    (ho : o.Unbounded c) {w : Walk (σ × List Call)} (hw : c.AllFollowed w.state.2) (e : Edge) :
    c.AllFollowed (c.arrive direction o.logged 0 w e).state.2 := by
  have hroom : 0 + c.unmarkedCount w.reached ≤ c.ids.length := by
    rw [Nat.zero_add]
    exact List.length_filter_le _ _
  refine arrive_keeps (P := fun w => c.AllFollowed w.state.2)
    (Q := fun depth w _ => depth + c.unmarkedCount w.reached ≤ c.ids.length)
    (fun depth w u e hu hroom => ?_) (fun depth w e n hw _ _ _ => ?_)
    (fun depth w e n hw hroom hn hfresh => ?_) (fun w visit hw => ?_) hw hroom
  · have hcount := unmarkedCount_le (c := c) hu
    omega
  · rw [Walk.meet, o.logged_report]
    exact hw.append (allFollowed_reportCalls c o _ _)
  · have hcount := unmarkedCount_insert_lt hn hfresh
    refine ⟨?_, fun child _ => ?_⟩
    · rw [Walk.enter, o.logged_report]
      have hanswer : (o.descend n depth w.state.1).1 = true := ho n depth _ (by omega)
      have hown : c.node? n.id = some n := hc.own_id hn ▸ hn
      exact (hw.append (allFollowed_descend hown hanswer)).append (allFollowed_reportCalls c o _ _)
    · change depth + 1 + c.unmarkedCount (w.reached.insert e.node) ≤ c.ids.length
      omega
  · rw [Walk.leave, o.logged_report]
    exact hw.append (allFollowed_reportCalls c o _ _)

theorem AllFollowed.leads_iff (h : c.AllFollowed calls) (hc : c.WellFormed) :
    c.Leads direction calls id next ↔ Asked calls id ∧ c.Follows direction id next := by
  constructor
  · rintro ⟨n, depth, hcall, rfl, hchild⟩
    exact ⟨⟨n, depth, true, hcall, rfl⟩, (hc.exists_child_iff (h n depth true hcall).1).1 hchild⟩
  · rintro ⟨⟨n, depth, answer, hcall, rfl⟩, hfollows⟩
    obtain ⟨hn, rfl⟩ := h n depth answer hcall
    exact ⟨n, depth, hcall, rfl, (hc.exists_child_iff hn).2 hfollows⟩

/-- What is marked at the end can be reached by the edges that the walk follows, and the reverse. -/
theorem AllFollowed.mem_reached_iff {w u : Walk (σ × List Call)} (h : c.AllFollowed calls)
    (hc : c.WellFormed) (htrail : c.Trail direction [start] w.unmarked calls u) :
    id ∈ u.reached ↔ ReflTransGen (c.Follows direction) start.node id := by
  constructor
  · intro hid
    obtain ⟨e, he, hpath⟩ := htrail.mem_iff_leads.1 hid
    obtain rfl := List.mem_singleton.1 he
    exact ReflTransGen.mono (fun _ _ hleads => ((h.leads_iff hc).1 hleads).2) _ _ hpath
  · intro hpath
    induction hpath with
    | refl => exact htrail.arrived start (List.mem_singleton.2 rfl)
    | tail _ hfollows ih =>
      exact htrail.closed _ _ ((h.leads_iff hc).2 ⟨htrail.mem_unmarked.1 ih, hfollows⟩)

/-- The walk from one node ends without failure, and makes these calls to its observer. -/
def Makes (c : Circuit) (direction : Direction) (o : Observer σ) (start : Edge) (w : Walk σ)
    (calls : List Call) : Prop :=
  ∃ marks s, c.traverse direction o.visitor [start] w = .ok () ⟨marks, s⟩ ∧
    c.traverse direction o.logged.visitor [start] w.withLog = .ok () ⟨marks, s, calls⟩

/-- A walk that is not bounded visits what can be reached by the edges that it follows. -/
theorem WellFormed.exists_makes (hc : c.WellFormed) (direction : Direction) (ho : o.Unbounded c)
    (start : Edge) (hstart : (c.node? start.node).isSome = true) (w : Walk σ) :
    ∃ calls, c.Makes direction o start w calls ∧
      ∀ id, Visited calls id ↔ ReflTransGen (c.Follows direction) start.node id := by
  have hstarts : ∀ e ∈ [start], (c.node? e.node).isSome = true := List.forall_mem_singleton.2 hstart
  obtain ⟨calls, htrail⟩ := hc.trail_recursiveWalk direction o hstarts w.withLog
  have hplain := hc.traverse_eq direction o hstarts w
  have hlogged := hc.traverse_eq direction o.logged hstarts w.withLog
  have hreports := hc.reports_arrive direction o 0 w.withLog.unmarked start
  have hnone : c.AllFollowed w.withLog.unmarked.state.2 := nofun
  have hfollowed := hc.allFollowed_arrive direction ho hnone start
  rw [← withoutLog_recursiveWalk] at hplain
  change Walk.Reports _ (c.recursiveWalk direction o.logged [start] w.withLog) at hreports
  change c.AllFollowed (c.recursiveWalk direction o.logged [start] w.withLog).state.2 at hfollowed
  generalize c.recursiveWalk direction o.logged [start] w.withLog = u
    at htrail hplain hlogged hreports hfollowed
  obtain rfl : u.state.2 = calls := htrail.log
  refine ⟨u.state.2, ⟨u.reached, u.state.1, hplain, hlogged⟩, fun id => ?_⟩
  rw [hreports.visited_iff, hfollowed.mem_reached_iff hc htrail]

/-- In any session, also when there are cycles: a walk through the consumers that is not bounded
    ends without failure, and visits a node exactly when a walk from that node through the fanins
    visits the start. Both do so exactly when that node is the start or depends on it. -/
theorem traversals_dual (ops : List Operation) {o : Observer σ} {o' : Observer τ} {a b : NodeId}
    (ho : o.Unbounded (empty.after ops)) (ho' : o'.Unbounded (empty.after ops))
    (ha : ((empty.after ops).node? a).isSome = true)
    (hb : ((empty.after ops).node? b).isSome = true) (inverted inverted' : Bool) (w : Walk σ)
    (w' : Walk τ) :
    ∃ forward backward,
      (empty.after ops).Makes .fanout o ⟨a, inverted⟩ w forward ∧
      (empty.after ops).Makes .fanin o' ⟨b, inverted'⟩ w' backward ∧
      (Visited forward b ↔ Visited backward a) ∧
      (Visited forward b ↔ ReflTransGen (empty.after ops).Feeds a b) := by
  have hc := wellFormed_after ops
  obtain ⟨forward, hforward, hreached⟩ := hc.exists_makes .fanout ho ⟨a, inverted⟩ ha w
  obtain ⟨backward, hbackward, hreached'⟩ := hc.exists_makes .fanin ho' ⟨b, inverted'⟩ hb w'
  have hdown : Visited forward b ↔ ReflTransGen (empty.after ops).Feeds a b := hreached b
  have hup : Visited backward a ↔ ReflTransGen (empty.after ops).Feeds a b :=
    (hreached' a).trans reflTransGen_swap
  exact ⟨forward, backward, hforward, hbackward, hdown.trans hup.symm, hdown⟩

/-- Collects the visited nodes, each when it is left. -/
def leaving : Observer (List NodeId) :=
  ⟨.postorder, Visitor.always, fun visit found => visit.node.id :: found⟩

/-- The ids of the nodes of which a walk has reported visits. -/
def visitedIds : EStateM.Result Error (Walk (σ × List Call)) Unit → List NodeId
  | .ok _ w | .error _ w => (visits w.state.2).map (·.node.id)

/-- Input 2 feeds the ring, which feeds output 6. The walk down meets gate 4 again. -/
theorem traversals_dual_ring :
    (Report.coneObserver 7).Unbounded (empty.after ring) ∧ leaving.Unbounded (empty.after ring) ∧
      ((empty.after ring).node? 2).isSome = true ∧ ((empty.after ring).node? 6).isSome = true ∧
      (empty.after ring).audit.isOk = false ∧
      ∃ forward backward,
        (empty.after ring).Makes .fanout (Report.coneObserver 7) ⟨2, false⟩ ⟨∅, ""⟩ forward ∧
        (empty.after ring).Makes .fanin leaving ⟨6, true⟩ ⟨{1, 4}, []⟩ backward ∧
        (visits forward).map (·.node.id) = [2, 3, 4, 5, 4, 6] ∧
        (visits backward).map (·.node.id) = [2, 4, 1, 5, 6] ∧
        Visited forward 6 ∧ Visited backward 2 ∧
        ReflTransGen (empty.after ring).Feeds 2 6 := by
  have hdown : (Report.coneObserver 7).Unbounded (empty.after ring) := by
    have hlength : (empty.after ring).ids.length = 7 := by decide +kernel
    intro n depth s hlt
    rw [hlength] at hlt
    exact decide_eq_true hlt
  have hup : leaving.Unbounded (empty.after ring) := fun _ _ _ _ => rfl
  have htwo : ((empty.after ring).node? 2).isSome = true := by decide +kernel
  have hsix : ((empty.after ring).node? 6).isSome = true := by decide +kernel
  have hloop : (empty.after ring).audit.isOk = false := by decide +kernel
  refine ⟨hdown, hup, htwo, hsix, hloop, ?_⟩
  obtain ⟨forward, backward, hforward, hbackward, hdual, hpath⟩ :=
    traversals_dual ring hdown hup htwo hsix false true ⟨∅, ""⟩ ⟨{1, 4}, []⟩
  have hmet : (visits forward).map (·.node.id) = [2, 3, 4, 5, 4, 6] := by
    have hids : visitedIds ((empty.after ring).traverse .fanout
        (Report.coneObserver 7).logged.visitor [⟨2, false⟩] (Walk.withLog ⟨∅, ""⟩)) =
          [2, 3, 4, 5, 4, 6] := by
      decide +kernel
    obtain ⟨_, _, _, hlogged⟩ := hforward
    rwa [hlogged] at hids
  have hleft : (visits backward).map (·.node.id) = [2, 4, 1, 5, 6] := by
    have hids : visitedIds ((empty.after ring).traverse .fanin leaving.logged.visitor
        [⟨6, true⟩] (Walk.withLog ⟨{1, 4}, []⟩)) = [2, 4, 1, 5, 6] := by
      decide +kernel
    obtain ⟨_, _, _, hlogged⟩ := hbackward
    rwa [hlogged] at hids
  have hvisited : Visited forward 6 := by
    rw [Visited, ← List.mem_map, hmet]
    decide
  exact ⟨forward, backward, hforward, hbackward, hmet, hleft, hvisited, hdual.1 hvisited,
    hpath.1 hvisited⟩

end Circuit

end AndInverter
