import AndInverter.Proofs.Session
import AndInverter.Proofs.Walk.Recursion

open Relation

namespace AndInverter

/-- A call that a walk makes to its observer: it asks whether to go on below a node, and gets this
    answer, or it reports a visit. -/
inductive Call where
  | descend (node : Node) (depth : Nat) (answer : Bool)
  | visit (visit : Visit)

def Call.node : Call → Node
  | .descend n _ _ => n
  | .visit v => v.node

variable {σ : Type}

/-- The observer with a log of the calls that it receives, the latest last. -/
def Observer.logged (o : Observer σ) : Observer (σ × List Call) where
  order := o.order
  descend n depth s :=
    let asked := o.descend n depth s.1
    (asked.1, asked.2, s.2 ++ [.descend n depth asked.1])
  visit visit s := (o.visit visit s.1, s.2 ++ [.visit visit])

/-- The call for a visit, if this is the time for it. -/
def Observer.reportCalls (o : Observer σ) (time : Order) (visit : Visit) : List Call :=
  if o.order = time then [.visit visit] else []

theorem Observer.logged_report (o : Observer σ) (time : Order) (visit : Visit)
    (s : σ × List Call) :
    o.logged.report time visit s =
      (o.report time visit s.1, s.2 ++ o.reportCalls time visit) := by
  unfold report reportCalls logged
  split <;> simp

namespace Walk

/-- The walk with an empty log. -/
def withLog (w : Walk σ) : Walk (σ × List Call) := ⟨w.reached, w.state, []⟩

/-- The walk without its log. -/
def withoutLog (w : Walk (σ × List Call)) : Walk σ := ⟨w.reached, w.state.1⟩

variable (o : Observer σ) (w : Walk (σ × List Call)) (visit : Visit)

theorem withoutLog_meet : (w.meet o.logged visit).withoutLog = w.withoutLog.meet o visit := by
  rw [meet, o.logged_report]
  rfl

theorem withoutLog_enter (id : NodeId) :
    (w.enter o.logged id visit).withoutLog = w.withoutLog.enter o id visit := by
  rw [enter, o.logged_report]
  rfl

theorem withoutLog_leave : (w.leave o.logged visit).withoutLog = w.withoutLog.leave o visit := by
  rw [leave, o.logged_report]
  rfl

end Walk

namespace Circuit

variable {c : Circuit} {direction : Direction} {o : Observer σ} {depth : Nat} {edges : List Edge}

theorem foldl_withoutLog {w : Walk (σ × List Call)}
    (harrive : ∀ u e, w.Within u → (c.arrive direction o.logged depth u e).withoutLog =
      c.arrive direction o depth u.withoutLog e) :
    (edges.foldl (c.arrive direction o.logged depth) w).withoutLog =
      edges.foldl (c.arrive direction o depth) w.withoutLog := by
  induction edges generalizing w with
  | nil => rfl
  | cons e edges ih =>
    have hmarks := within_arrive c direction o.logged depth w e
    rw [List.foldl_cons, List.foldl_cons, ← harrive w e (.refl w)]
    exact ih fun u other hu => harrive u other (hmarks.trans hu)

/-- Keeping a log changes nothing else. -/
theorem withoutLog_arrive (depth : Nat) (w : Walk (σ × List Call)) (e : Edge) :
    (c.arrive direction o.logged depth w e).withoutLog =
      c.arrive direction o depth w.withoutLog e := by
  induction depth, w, e using arrive_induction (c := c) o.logged with
  | h depth w e ih =>
    cases hn : c.node? e.node with
    | none => rw [arrive_of_missing hn, arrive_of_missing hn]
    | some n =>
      by_cases hmarked : e.node ∈ w.reached
      · have hold : e.node ∈ w.withoutLog.reached := hmarked
        rw [arrive_of_marked hn hmarked, arrive_of_marked hn hold, Walk.withoutLog_meet]
      · have hold : e.node ∉ w.withoutLog.reached := hmarked
        rw [arrive_of_unmarked hn hmarked, arrive_of_unmarked hn hold, Walk.withoutLog_leave,
          foldl_withoutLog fun u child => ih n hn hmarked _ u child, Walk.withoutLog_enter]
        rfl

theorem withoutLog_recursiveWalk (c : Circuit) (direction : Direction) (o : Observer σ)
    (starts : List Edge) (w : Walk σ) :
    (c.recursiveWalk direction o.logged starts w.withLog).withoutLog =
      c.recursiveWalk direction o starts w :=
  foldl_withoutLog fun u e _ => withoutLog_arrive 0 u e

end Circuit

/-- The observer was asked about the node. -/
def Asked (calls : List Call) (id : NodeId) : Prop :=
  ∃ n depth answer, Call.descend n depth answer ∈ calls ∧ n.id = id

namespace Circuit

/-- The observer let the walk go from one node to the other. -/
def Leads (c : Circuit) (direction : Direction) (calls : List Call) (id child : NodeId) : Prop :=
  ∃ n depth, Call.descend n depth true ∈ calls ∧ n.id = id ∧
    ∃ e ∈ c.children direction n, e.node = child

variable {direction : Direction} {calls calls' : List Call} {id child : NodeId}

theorem asked_append : Asked (calls ++ calls') id ↔ Asked calls id ∨ Asked calls' id := by
  simp only [Asked, List.mem_append, or_and_right, exists_or]

theorem asked_descend {n : Node} {depth : Nat} {answer : Bool} :
    Asked [.descend n depth answer] id ↔ n.id = id := by
  simp [Asked]

/-- Nothing is asked in reporting a visit. -/
theorem not_asked_reportCalls (o : Observer σ) (time : Order) (visit : Visit) :
    ¬ Asked (o.reportCalls time visit) id := by
  unfold Observer.reportCalls Asked
  split <;> simp

variable {c : Circuit}

theorem leads_append : c.Leads direction (calls ++ calls') id child ↔
    c.Leads direction calls id child ∨ c.Leads direction calls' id child := by
  simp only [Leads, List.mem_append, or_and_right, exists_or]

theorem Leads.asked (h : c.Leads direction calls id child) : Asked calls id := by
  obtain ⟨n, depth, hcall, hn, _⟩ := h
  exact ⟨n, depth, true, hcall, hn⟩

theorem leads_descend {n : Node} {depth : Nat} {answer : Bool} :
    c.Leads direction [.descend n depth answer] id child ↔
      answer = true ∧ n.id = id ∧ ∃ e ∈ c.children direction n, e.node = child := by
  constructor
  · rintro ⟨m, at', hcall, hm, hchild⟩
    obtain ⟨rfl, rfl, rfl⟩ := Call.descend.inj (List.mem_singleton.1 hcall)
    exact ⟨rfl, hm, hchild⟩
  · rintro ⟨rfl, hm, hchild⟩
    exact ⟨n, depth, List.mem_singleton.2 rfl, hm, hchild⟩

/-- What a walk through some edges adds: its calls go behind the log, the nodes that they ask about
    are marked, and these are the nodes that they lead to. -/
structure Trail (c : Circuit) (direction : Direction) (edges : List Edge) (w : Walk (σ × List Call))
    (calls : List Call) (u : Walk (σ × List Call)) : Prop where
  log : u.state.2 = w.state.2 ++ calls
  mem_reached : ∀ id, id ∈ u.reached ↔ id ∈ w.reached ∨ Asked calls id
  arrived : ∀ e ∈ edges, e.node ∈ u.reached
  closed : ∀ id child, c.Leads direction calls id child → child ∈ u.reached
  sound : ∀ id, Asked calls id → ∃ e ∈ edges, ReflTransGen (c.Leads direction calls) e.node id

namespace Trail

variable {edges : List Edge} {e : Edge} {u v w : Walk (σ × List Call)} {o : Observer σ}

theorem nil (w : Walk (σ × List Call)) : c.Trail direction [] w [] w where
  log := by simp
  mem_reached := by simp [Asked]
  arrived := by simp
  closed := by simp [Leads]
  sound := by simp [Asked]

theorem within (h : c.Trail direction edges w calls u) : w.Within u := fun id hid =>
  (h.mem_reached id).2 (.inl hid)

/-- What an arrival reports comes before what the arrivals after it do. -/
theorem cons (h : c.Trail direction [e] w calls v) (h' : c.Trail direction edges v calls' u) :
    c.Trail direction (e :: edges) w (calls ++ calls') u where
  log := by rw [h'.log, h.log, List.append_assoc]
  mem_reached id := by rw [h'.mem_reached, h.mem_reached, asked_append, or_assoc]
  arrived := by
    rw [List.forall_mem_cons]
    exact ⟨h'.within _ (h.arrived e (List.mem_singleton.2 rfl)), h'.arrived⟩
  closed id child hleads := by
    rcases leads_append.1 hleads with hleads | hleads
    · exact h'.within _ (h.closed id child hleads)
    · exact h'.closed id child hleads
  sound id hasked := by
    rcases asked_append.1 hasked with hasked | hasked
    · obtain ⟨start, hstart, hpath⟩ := h.sound id hasked
      rw [List.mem_singleton] at hstart
      refine ⟨start, by simp [hstart], ?_⟩
      exact ReflTransGen.mono (fun _ _ hleads => leads_append.2 (.inl hleads)) _ _ hpath
    · obtain ⟨start, hstart, hpath⟩ := h'.sound id hasked
      refine ⟨start, .tail _ hstart, ?_⟩
      exact ReflTransGen.mono (fun _ _ hleads => leads_append.2 (.inr hleads)) _ _ hpath

/-- A marked node that is met again is reported, and no more. -/
theorem meet (hmarked : e.node ∈ w.reached) (visit : Visit) :
    c.Trail direction [e] w (o.reportCalls .preorder visit) (w.meet o.logged visit) where
  log := by rw [Walk.meet, o.logged_report]
  mem_reached id := (or_iff_left (not_asked_reportCalls o _ _)).symm
  arrived := List.forall_mem_singleton.2 hmarked
  closed _ _ hleads := (not_asked_reportCalls o _ _ hleads.asked).elim
  sound _ hasked := (not_asked_reportCalls o _ _ hasked).elim

/-- The calls at a node that is entered, with those below it in between. -/
def around (o : Observer σ) (visit : Visit) (s : σ) (calls : List Call) : List Call :=
  [.descend visit.node visit.depth (o.descend visit.node visit.depth s).1] ++
    o.reportCalls .preorder visit ++ calls ++ o.reportCalls .postorder visit

theorem asked_around {visit : Visit} {s : σ} :
    Asked (around o visit s calls) id ↔ visit.node.id = id ∨ Asked calls id := by
  simp only [around, asked_append, asked_descend, not_asked_reportCalls, or_false]

theorem leads_around {visit : Visit} {s : σ} :
    c.Leads direction (around o visit s calls) id child ↔
      (visit.node.id = id ∧ ∃ e ∈ c.wanted direction o visit.node visit.depth s, e.node = child) ∨
        c.Leads direction calls id child := by
  have hreport (time : Order) : ¬ c.Leads direction (o.reportCalls time visit) id child :=
    fun hleads => not_asked_reportCalls o _ _ hleads.asked
  simp only [around, leads_append, leads_descend, hreport, or_false, wanted]
  split
  · next hgo => simp [hgo]
  · next hstay => simp [hstay]

/-- A node that is entered is marked, and so is what the observer lets the walk go through. -/
theorem fresh {visit : Visit} (hid : visit.node.id = e.node)
    (h : c.Trail direction (c.wanted direction o visit.node visit.depth w.state.1)
      (w.enter o.logged e.node visit) calls v) :
    c.Trail direction [e] w (around o visit w.state.1 calls) (v.leave o.logged visit) where
  log := by
    rw [Walk.leave, o.logged_report, h.log, Walk.enter, o.logged_report]
    simp only [around, Observer.logged, List.append_assoc]
  mem_reached id := by
    have hmarks : id ∈ (w.enter o.logged e.node visit).reached ↔
        e.node = id ∨ id ∈ w.reached := by
      simp [Walk.enter, Std.TreeSet.mem_insert]
    rw [asked_around, hid, or_left_comm, ← or_assoc, ← hmarks]
    exact h.mem_reached id
  arrived := List.forall_mem_singleton.2 (h.within _ Std.TreeSet.mem_insert_self)
  closed id child hleads := by
    rcases leads_around.1 hleads with ⟨-, below, hbelow, rfl⟩ | hleads
    · exact h.arrived below hbelow
    · exact h.closed id child hleads
  sound id hasked := by
    refine ⟨e, List.mem_singleton.2 rfl, ?_⟩
    rcases asked_around.1 hasked with hself | hasked
    · rw [← hid, hself]
    · obtain ⟨below, hbelow, hpath⟩ := h.sound id hasked
      have hstep : c.Leads direction (around o visit w.state.1 calls) e.node below.node :=
        leads_around.2 (.inl ⟨hid, below, hbelow, rfl⟩)
      refine .head hstep ?_
      exact ReflTransGen.mono (fun _ _ hleads => leads_around.2 (.inr hleads)) _ _ hpath

/-- Arrivals at one edge after the other report one after the other. -/
theorem foldl {depth : Nat} (harrive : ∀ e ∈ edges, ∀ u, w.Within u →
      ∃ calls, c.Trail direction [e] u calls (c.arrive direction o.logged depth u e)) :
    ∃ calls, c.Trail direction edges w calls
      (edges.foldl (c.arrive direction o.logged depth) w) := by
  induction edges generalizing w with
  | nil => exact ⟨[], nil w⟩
  | cons e edges ih =>
    obtain ⟨hfirst, hrest⟩ := List.forall_mem_cons.1 harrive
    obtain ⟨calls, htrail⟩ := hfirst w (.refl w)
    have hmarks := htrail.within
    obtain ⟨calls', htrail'⟩ := ih fun other hother u hu => hrest other hother u (hmarks.trans hu)
    exact ⟨calls ++ calls', htrail.cons htrail'⟩

end Trail

section Arrive

variable {edges starts : List Edge} {e : Edge} {o : Observer σ}

/-- Every arrival leaves a trail, by induction on the recursion. -/
theorem WellFormed.trail_arrive (hc : c.WellFormed) (depth : Nat) (w : Walk (σ × List Call))
    (e : Edge) (he : (c.node? e.node).isSome = true) :
    ∃ calls, c.Trail direction [e] w calls (c.arrive direction o.logged depth w e) := by
  induction depth, w, e using arrive_induction (c := c) o.logged with
  | h depth w e ih =>
    obtain ⟨n, hn⟩ := Option.isSome_iff_exists.1 he
    by_cases hmarked : e.node ∈ w.reached
    · rw [arrive_of_marked hn hmarked]
      exact ⟨_, Trail.meet hmarked _⟩
    · rw [arrive_of_unmarked hn hmarked]
      obtain ⟨calls, htrail⟩ := Trail.foldl fun child hchild u hu =>
        ih n hn hmarked ⟨n, depth, e.inverted, false⟩ u child hu (hc.isSome_of_mem_wanted hn hchild)
      exact ⟨_, Trail.fresh (hc.own_id hn) htrail⟩

theorem WellFormed.trail_recursiveWalk (hc : c.WellFormed) (direction : Direction) (o : Observer σ)
    (hstarts : ∀ e ∈ starts, (c.node? e.node).isSome = true) (w : Walk (σ × List Call)) :
    ∃ calls, c.Trail direction starts w.unmarked calls
      (c.recursiveWalk direction o.logged starts w) :=
  Trail.foldl fun e he u _ => hc.trail_arrive 0 u e (hstarts e he)

/-- At the end of a walk, the marked nodes are those that the observer was asked about. -/
theorem Trail.mem_unmarked {w u : Walk (σ × List Call)}
    (h : c.Trail direction starts w.unmarked calls u) : id ∈ u.reached ↔ Asked calls id :=
  (h.mem_reached id).trans (or_iff_right Std.TreeSet.not_mem_emptyc)

/-- At the end of a walk, the marked nodes are those that the observer let it get to. -/
theorem Trail.mem_iff_leads {w u : Walk (σ × List Call)}
    (h : c.Trail direction starts w.unmarked calls u) :
    id ∈ u.reached ↔ ∃ e ∈ starts, ReflTransGen (c.Leads direction calls) e.node id := by
  constructor
  · intro hid
    exact h.sound id (h.mem_unmarked.1 hid)
  · rintro ⟨e, he, hpath⟩
    cases hpath with
    | refl => exact h.arrived e he
    | tail _ hleads => exact h.closed _ _ hleads

/-- In any session, whatever is marked: a walk from existing nodes ends, and makes the calls of the
    recursion, in the same order. At its end the marked nodes are those that it has asked about,
    which are those that the observer let it get to. -/
theorem traverse_recursive (ops : List Operation) (direction : Direction) (o : Observer σ)
    (starts : List Edge) (hstarts : ∀ e ∈ starts, ((empty.after ops).node? e.node).isSome = true)
    (w : Walk σ) :
    ∃ marks s calls,
      (empty.after ops).traverse direction o.visitor starts w = .ok () ⟨marks, s⟩ ∧
      (empty.after ops).traverse direction o.logged.visitor starts w.withLog =
        .ok () ⟨marks, s, calls⟩ ∧
      (empty.after ops).recursiveWalk direction o.logged starts w.withLog = ⟨marks, s, calls⟩ ∧
      (∀ id, id ∈ marks ↔ Asked calls id) ∧
      ∀ id, id ∈ marks ↔
        ∃ e ∈ starts, ReflTransGen ((empty.after ops).Leads direction calls) e.node id := by
  have hc := wellFormed_after ops
  obtain ⟨calls, htrail⟩ := hc.trail_recursiveWalk direction o hstarts w.withLog
  have hplain := hc.traverse_eq direction o hstarts w
  have hlogged := hc.traverse_eq direction o.logged hstarts w.withLog
  rw [← withoutLog_recursiveWalk] at hplain
  generalize (empty.after ops).recursiveWalk direction o.logged starts w.withLog = u
    at htrail hplain hlogged ⊢
  obtain rfl : u.state.2 = calls := htrail.log
  exact ⟨u.reached, u.state.1, u.state.2, hplain, hlogged, rfl, fun _ => htrail.mem_unmarked,
    fun _ => htrail.mem_iff_leads⟩

/-- Three gates in a ring, which feeds an output. -/
def ring : List Operation :=
  [.addInput 1, .addInput 2, .addGate 3 ⟨1, false⟩ ⟨2, false⟩, .addGate 4 ⟨3, false⟩ ⟨2, false⟩,
    .addGate 5 ⟨4, false⟩ ⟨1, true⟩, .addOutput ⟨5, true⟩, .merge 3 5 false]

/-- Goes below the first three nodes that it is asked about, and counts the questions. -/
def threeBelow : Observer Nat := ⟨.preorder, fun _ _ s => (s < 3, s + 1), fun _ s => s⟩

/-- The ids of the nodes that a walk has called about, and of those that it has marked. -/
def called : EStateM.Result Error (Walk (Nat × List Call)) Unit → List NodeId × List NodeId
  | .ok _ w | .error _ w => (w.state.2.map (·.node.id), w.reached.toList)

/-- The walk meets gate 5 again inside the ring, and gate 4 again as its second start. What was
    marked before does not matter. -/
theorem traverse_recursive_ring :
    (∀ e ∈ [(⟨6, false⟩ : Edge), ⟨4, true⟩], ((empty.after ring).node? e.node).isSome = true) ∧
      (empty.after ring).audit.isOk = false ∧
      ∃ marks s calls,
        (empty.after ring).traverse .fanin threeBelow.visitor [⟨6, false⟩, ⟨4, true⟩] ⟨{1, 4}, 0⟩ =
          .ok () ⟨marks, s⟩ ∧
        (empty.after ring).recursiveWalk .fanin threeBelow.logged [⟨6, false⟩, ⟨4, true⟩]
          ⟨{1, 4}, 0, []⟩ = ⟨marks, s, calls⟩ ∧
        calls.map (·.node.id) = [6, 6, 5, 5, 4, 4, 5, 2, 2, 1, 1, 4] ∧
        marks.toList = [1, 2, 4, 5, 6] ∧ ∀ id, Asked calls id ↔ id ∈ [1, 2, 4, 5, 6] := by
  have hstarts : ∀ e ∈ [(⟨6, false⟩ : Edge), ⟨4, true⟩],
      ((empty.after ring).node? e.node).isSome = true :=
    List.all_eq_true.1 (by decide +kernel)
  have hloop : (empty.after ring).audit.isOk = false := by decide +kernel
  refine ⟨hstarts, hloop, ?_⟩
  obtain ⟨marks, s, calls, hplain, hlogged, hrecursive, hasked, -⟩ :=
    traverse_recursive ring .fanin threeBelow _ hstarts ⟨{1, 4}, 0⟩
  have hcalls : called ((empty.after ring).traverse .fanin threeBelow.logged.visitor
      [⟨6, false⟩, ⟨4, true⟩] ⟨{1, 4}, 0, []⟩) =
        ([6, 6, 5, 5, 4, 4, 5, 2, 2, 1, 1, 4], [1, 2, 4, 5, 6]) := by
    decide +kernel
  rw [show (⟨{1, 4}, 0, []⟩ : Walk (Nat × List Call)) = Walk.withLog ⟨{1, 4}, 0⟩ from rfl,
    hlogged] at hcalls
  obtain ⟨hids, hmarks⟩ := Prod.mk.inj hcalls
  refine ⟨marks, s, calls, hplain, hrecursive, hids, hmarks, fun id => ?_⟩
  rw [← hasked, ← Std.TreeSet.mem_toList, hmarks]

end Arrive

end Circuit

end AndInverter
