import AndInverter.Proofs.Report.Lines
import AndInverter.Proofs.Walk.Calls

namespace AndInverter

/-- The visits that are reported among some calls. -/
def visits (calls : List Call) : List Visit :=
  calls.filterMap fun
    | .descend _ _ _ => none
    | .visit visit => some visit

theorem visits_append (calls calls' : List Call) :
    visits (calls ++ calls') = visits calls ++ visits calls' :=
  List.filterMap_append

namespace Circuit

/-- An edge leads from the node to the next one, which is a fanin of it or a consumer. -/
def Follows (c : Circuit) : Direction → NodeId → NodeId → Prop
  | .fanin, id, next => c.Feeds next id
  | .fanout, id, next => c.Feeds id next

/-- A path of so many edges leads from the start to the node. -/
inductive Away (c : Circuit) (direction : Direction) (start : NodeId) : Nat → NodeId → Prop
  | refl : c.Away direction start 0 start
  | step {length : Nat} {id next : NodeId} : c.Away direction start length id →
      c.Follows direction id next → c.Away direction start (length + 1) next

/-- The shortest path from the start to the node has at most `level` edges. -/
def InCone (c : Circuit) (direction : Direction) (start : NodeId) (level : Nat) (id : NodeId) :
    Prop := ∃ length ≤ level, c.Away direction start length id

variable {c : Circuit} {direction : Direction} {start id next : NodeId} {n : Node} {level : Nat}

theorem WellFormed.exists_child_iff (hc : c.WellFormed) (hn : c.node? id = some n) :
    (∃ e ∈ c.children direction n, e.node = next) ↔ c.Follows direction id next := by
  cases direction with
  | fanin =>
    simp only [Follows, Feeds, kind?_of_node? hn, Option.some.injEq, exists_eq_left']
    rfl
  | fanout =>
    rw [Follows, hc.mirror, Lists]
    simp [children, hn]

end Circuit

namespace Report

/-- What a cone is walked for. -/
def coneObserver (level : Nat) : Observer String where
  order := .preorder
  descend _ depth text := (depth < level, text)
  visit visit text := text ++ visitText visit

theorem visitor_coneObserver (level : Nat) : (coneObserver level).visitor = conePrinter level := rfl

end Report

namespace Circuit

open Report (coneObserver visitText)

/-- What is true of a place that the walk of a cone gets to. -/
structure ConePlace (c : Circuit) (direction : Direction) (start : NodeId) (level depth : Nat)
    (w : Walk (String × List Call)) (e : Edge) : Prop where
  le : depth ≤ level
  away : c.Away direction start depth e.node
  room : depth + c.unmarkedCount w.reached ≤ c.ids.length

/-- What is true of a visit by the walk of a cone. The first visit of a node comes before the walk
    could have run through all nodes, and the walk goes on below it unless the bound is reached. -/
structure ConeVisit (c : Circuit) (direction : Direction) (start : NodeId) (level : Nat)
    (calls : List Call) (visit : Visit) : Prop where
  present : c.node? visit.node.id = some visit.node
  le : visit.depth ≤ level
  away : c.Away direction start visit.depth visit.node.id
  small : visit.again = false → visit.depth < c.ids.length
  asked : visit.again = false → visit.depth < level →
    Call.descend visit.node visit.depth true ∈ calls

/-- How the walk of a cone stands: the text has a line for each visit, and the marked nodes are
    those that were visited. Each of them has a line without a star. -/
structure ConeWalk (c : Circuit) (direction : Direction) (start : NodeId) (level : Nat)
    (w : Walk (String × List Call)) : Prop where
  text : w.state.1 = String.join ((visits w.state.2).map visitText)
  visit : ∀ visit ∈ visits w.state.2, c.ConeVisit direction start level w.state.2 visit
  mem_reached : ∀ id, id ∈ w.reached ↔
    ∃ visit ∈ visits w.state.2, visit.again = false ∧ visit.node.id = id
  visited : ∀ visit ∈ visits w.state.2, visit.node.id ∈ w.reached

variable {c : Circuit} {direction : Direction} {start : NodeId} {level : Nat}
  {w : Walk (String × List Call)} {visit : Visit}

theorem ConeVisit.mono {calls calls' : List Call} (h : c.ConeVisit direction start level calls visit)
    (hcalls : calls ⊆ calls') : c.ConeVisit direction start level calls' visit :=
  ⟨h.present, h.le, h.away, h.small, fun hfirst hlt => hcalls (h.asked hfirst hlt)⟩

/-- One more line is printed. It has a star exactly if the node is marked. -/
theorem ConeWalk.snoc (h : c.ConeWalk direction start level w) {calls : List Call}
    (hcalls : w.state.2 ⊆ calls) (hvisits : visits calls = visits w.state.2 ++ [visit])
    (hvisit : c.ConeVisit direction start level calls visit) {marks : Std.TreeSet NodeId}
    (hmarks : ∀ id, id ∈ marks ↔ visit.node.id = id ∨ id ∈ w.reached)
    (hagain : visit.again = true ↔ visit.node.id ∈ w.reached) :
    c.ConeWalk direction start level ⟨marks, w.state.1 ++ visitText visit, calls⟩ := by
  have hmem : ∀ other, other ∈ visits calls ↔ other ∈ visits w.state.2 ∨ other = visit := by
    simp [hvisits]
  refine ⟨?_, ?_, ?_, ?_⟩
  · rw [hvisits, h.text, ← String.toList_inj]
    simp [String.toList_join]
  · intro other hother
    rcases (hmem other).1 hother with hold | rfl
    · exact (h.visit other hold).mono hcalls
    · exact hvisit
  · intro id
    rw [hmarks]
    constructor
    · intro hid
      by_cases hstar : visit.node.id = id ∧ visit.again = false
      · exact ⟨visit, (hmem visit).2 (.inr rfl), hstar.2, hstar.1⟩
      · have hmarked : id ∈ w.reached := by
          rcases hid with rfl | hid
          · simp only [true_and, Bool.not_eq_false] at hstar
            exact hagain.1 hstar
          · exact hid
        obtain ⟨first, hfirst, hplain, hid⟩ := (h.mem_reached id).1 hmarked
        exact ⟨first, (hmem first).2 (.inl hfirst), hplain, hid⟩
    · rintro ⟨other, hother, hplain, rfl⟩
      rcases (hmem other).1 hother with hold | rfl
      · exact .inr (h.visited other hold)
      · exact .inl rfl
  · intro other hother
    rw [hmarks]
    rcases (hmem other).1 hother with hold | rfl
    · exact .inr (h.visited other hold)
    · exact .inl rfl

theorem coneWalk_start : c.ConeWalk direction start level (Walk.withLog ⟨∅, ""⟩) where
  text := rfl
  visit _ h := nomatch h
  mem_reached := by simp [Walk.withLog, visits]
  visited _ h := nomatch h

/-- The walk goes on below a node if the bound has not been reached, to all that lies below. -/
theorem mem_wanted_coneObserver {n : Node} {depth : Nat} {s : String × List Call} {e : Edge} :
    e ∈ c.wanted direction (coneObserver level).logged n depth s ↔
      depth < level ∧ e ∈ c.children direction n := by
  have hanswer : ((coneObserver level).logged.descend n depth s).1 = decide (depth < level) := rfl
  rw [wanted, hanswer]
  by_cases hlt : depth < level
  · simp [hlt]
  · simp [hlt]

section Step

variable {depth : Nat} {e : Edge} {n : Node}

/-- A marked node is printed again, with a star. -/
theorem ConeWalk.meet (h : c.ConeWalk direction start level w)
    (he : c.ConePlace direction start level depth w e) (hn : c.node? e.node = some n)
    (hid : n.id = e.node) (hmarked : e.node ∈ w.reached) :
    c.ConeWalk direction start level
      (w.meet (coneObserver level).logged ⟨n, depth, e.inverted, true⟩) := by
  rw [← hid] at hn hmarked
  have hvisit : c.ConeVisit direction start level
      (w.state.2 ++ [.visit ⟨n, depth, e.inverted, true⟩]) ⟨n, depth, e.inverted, true⟩ :=
    ⟨hn, he.le, hid.symm ▸ he.away, nofun, nofun⟩
  apply h.snoc (List.subset_append_left _ _) (visits_append _ _) hvisit
  · intro id
    exact (or_iff_right_of_imp fun heq => heq ▸ hmarked).symm
  · exact iff_of_true rfl hmarked

/-- A node without a mark is asked about, marked and printed. It is one of the unmarked nodes, so
    there were not yet too many edges. -/
theorem ConeWalk.enter (h : c.ConeWalk direction start level w)
    (he : c.ConePlace direction start level depth w e) (hn : c.node? e.node = some n)
    (hid : n.id = e.node) (hfresh : e.node ∉ w.reached) :
    c.ConeWalk direction start level
      (w.enter (coneObserver level).logged e.node ⟨n, depth, e.inverted, false⟩) := by
  have hcount := unmarkedCount_insert_lt hn hfresh
  have hroom := he.room
  rw [← hid] at hn hfresh
  have hvisit : c.ConeVisit direction start level (w.state.2 ++
      [.descend n depth (depth < level)] ++ [.visit ⟨n, depth, e.inverted, false⟩])
      ⟨n, depth, e.inverted, false⟩ := by
    refine ⟨hn, he.le, hid.symm ▸ he.away, fun _ => ?_, fun _ hlt => ?_⟩
    · change depth < c.ids.length
      omega
    · rw [decide_eq_true hlt]
      simp
  refine h.snoc ?_ ?_ hvisit ?_ (iff_of_false nofun hfresh)
  · rw [List.append_assoc]
    exact List.subset_append_left _ _
  · simp [visits]
  · intro id
    rw [Std.TreeSet.mem_insert, Std.compare_eq_iff_eq, hid]

/-- What lies below a node is one edge farther away, and one node more is marked. -/
theorem ConePlace.child (h : c.ConePlace direction start level depth w e) (hc : c.WellFormed)
    (hn : c.node? e.node = some n) (hfresh : e.node ∉ w.reached) {visit : Visit} {child : Edge}
    (hchild : child ∈ c.wanted direction (coneObserver level).logged n depth w.state) :
    c.ConePlace direction start level (depth + 1)
      (w.enter (coneObserver level).logged e.node visit) child := by
  obtain ⟨hlt, hchild⟩ := mem_wanted_coneObserver.1 hchild
  have hcount := unmarkedCount_insert_lt hn hfresh
  have hroom := h.room
  refine ⟨hlt, h.away.step ((hc.exists_child_iff hn).1 ⟨child, hchild, rfl⟩), ?_⟩
  change depth + 1 + c.unmarkedCount (w.reached.insert e.node) ≤ c.ids.length
  omega

/-- The invariant of the bounded walk holds of a whole arrival, by induction on the recursion. -/
theorem WellFormed.coneWalk_arrive (hc : c.WellFormed) (hw : c.ConeWalk direction start level w)
    (he : c.ConePlace direction start level depth w e) :
    c.ConeWalk direction start level
      (c.arrive direction (coneObserver level).logged depth w e) := by
  refine arrive_keeps (Q := c.ConePlace direction start level) ?_ ?_ ?_ (fun w visit hw => hw) hw he
  · intro depth w u e hmarks h
    have hcount : c.unmarkedCount u.reached ≤ c.unmarkedCount w.reached := unmarkedCount_le hmarks
    have hroom := h.room
    exact ⟨h.le, h.away, by omega⟩
  · exact fun depth w e n hw h hn hmarked => hw.meet h hn (hc.own_id hn) hmarked
  · exact fun depth w e n hw h hn hfresh =>
      ⟨hw.enter h hn (hc.own_id hn) hfresh, fun child hchild => h.child hc hn hfresh hchild⟩

end Step

/-- A walk of a cone that is over has met all that lies below the nodes that it went below. -/
structure ConeEnd (c : Circuit) (direction : Direction) (start : NodeId) (level : Nat)
    (w : Walk (String × List Call)) : Prop extends c.ConeWalk direction start level w where
  start_mem : start ∈ w.reached
  closed : ∀ id next, c.Leads direction w.state.2 id next → next ∈ w.reached

/-- A cone is printed without failure, by such a walk. -/
theorem WellFormed.exists_coneEnd (hc : c.WellFormed) (direction : Direction) (level : Nat)
    (hstart : (c.node? start).isSome = true) :
    ∃ w, Report.cone c direction start level = .ok w.state.1 ∧
      c.ConeEnd direction start level w := by
  have hstarts : ∀ e ∈ [(⟨start, false⟩ : Edge)], (c.node? e.node).isSome = true :=
    List.forall_mem_singleton.2 hstart
  obtain ⟨n, hn⟩ := Option.isSome_iff_exists.1 hstart
  obtain ⟨calls, htrail⟩ :=
    hc.trail_recursiveWalk direction (coneObserver level) hstarts (Walk.withLog ⟨∅, ""⟩)
  have hwalk := hc.traverse_eq direction (coneObserver level) hstarts ⟨∅, ""⟩
  rw [← withoutLog_recursiveWalk] at hwalk
  have hplace : c.ConePlace direction start level 0 (Walk.withLog ⟨∅, ""⟩) ⟨start, false⟩ :=
    ⟨Nat.zero_le level, .refl, (Nat.zero_add _).le.trans (List.length_filter_le ..)⟩
  refine ⟨c.recursiveWalk direction (coneObserver level).logged [⟨start, false⟩]
    (Walk.withLog ⟨∅, ""⟩), ?_, hc.coneWalk_arrive coneWalk_start hplace, ?_, ?_⟩
  · rw [Report.cone, node_eq_ok_iff.2 hn, walk, ← Report.visitor_coneObserver, hwalk]
    rfl
  · exact htrail.arrived _ List.mem_cons_self
  · intro id next hleads
    obtain rfl := htrail.log
    exact htrail.closed id next hleads

/-- The lines of a cone name the nodes to which a path of at most `level` edges leads. -/
def ShowsCone (c : Circuit) (direction : Direction) (start : NodeId) (level : Nat) (text : String) :
    Prop := ∀ id, some id ∈ Report.idsIn text ↔ c.InCone direction start level id

/-- Where the walk stops at the bound, it loses nothing: if a shorter path leads to the node, all
    that lies below it is printed nevertheless. -/
def LosesNothing (c : Circuit) (direction : Direction) (start : NodeId) (level : Nat)
    (found : List Visit) : Prop :=
  ∀ visit ∈ found, visit.again = false → visit.depth = level →
    (∃ length < level, c.Away direction start length visit.node.id) →
    ∀ next, c.Follows direction visit.node.id next → ∃ other ∈ found, other.node.id = next

namespace ConeWalk

theorem mem_reached_iff (h : c.ConeWalk direction start level w) {id : NodeId} :
    id ∈ w.reached ↔ ∃ visit ∈ visits w.state.2, visit.node.id = id := by
  constructor
  · intro hid
    obtain ⟨visit, hvisit, _, hnode⟩ := (h.mem_reached id).1 hid
    exact ⟨visit, hvisit, hnode⟩
  · rintro ⟨visit, hvisit, rfl⟩
    exact h.visited visit hvisit

theorem idsIn_eq (h : c.ConeWalk direction start level w) :
    Report.idsIn w.state.1 = (visits w.state.2).map fun visit => some visit.node.id := by
  rw [h.text, Report.idsIn_join]

theorem mem_idsIn_iff (h : c.ConeWalk direction start level w) {id : NodeId} :
    some id ∈ Report.idsIn w.state.1 ↔ id ∈ w.reached := by
  rw [h.idsIn_eq, h.mem_reached_iff]
  simp

end ConeWalk

namespace ConeEnd

/-- If nothing is lost, every node of the cone is printed. The induction is on the path: the walk
    has gone on below the node before the last, or else it has met that node at the bound too
    early. -/
theorem mem_reached_of_away (h : c.ConeEnd direction start level w) (hc : c.WellFormed)
    (hloses : c.LosesNothing direction start level (visits w.state.2)) {length : Nat} {id : NodeId}
    (haway : c.Away direction start length id) (hle : length ≤ level) : id ∈ w.reached := by
  induction haway with
  | refl => exact h.start_mem
  | step hpath hfollows ih =>
    obtain ⟨visit, hvisit, hfirst, rfl⟩ := (h.mem_reached _).1 (ih (by omega))
    have hplace := h.visit visit hvisit
    by_cases hlt : visit.depth < level
    · have hchild := (hc.exists_child_iff hplace.present).2 hfollows
      exact h.closed _ _ ⟨visit.node, visit.depth, hplace.asked hfirst hlt, rfl, hchild⟩
    · have hbound := hplace.le
      rw [h.mem_reached_iff]
      exact hloses visit hvisit hfirst (by omega) ⟨_, by omega, hpath⟩ _ hfollows

/-- The whole cone is shown exactly if the walk loses nothing where it stops at the bound. -/
theorem showsCone_iff (h : c.ConeEnd direction start level w) (hc : c.WellFormed) :
    c.ShowsCone direction start level w.state.1 ↔
      c.LosesNothing direction start level (visits w.state.2) := by
  constructor
  · rintro hshows visit hvisit _ _ ⟨length, hlt, haway⟩ next hfollows
    rw [← h.mem_reached_iff, ← h.mem_idsIn_iff, hshows]
    exact ⟨length + 1, hlt, haway.step hfollows⟩
  · intro hloses id
    rw [h.mem_idsIn_iff]
    constructor
    · intro hid
      obtain ⟨visit, hvisit, rfl⟩ := h.mem_reached_iff.1 hid
      exact ⟨visit.depth, (h.visit visit hvisit).le, (h.visit visit hvisit).away⟩
    · rintro ⟨length, hle, haway⟩
      exact h.mem_reached_of_away hc hloses haway hle

end ConeEnd

/-- In any session: the cone of an existing node is printed, and the nodes in it are as many edges
    away as their lines say, so none is farther than the bound. All that are near enough are in it
    if and only if nothing is lost at the bound. Nothing is lost if no node at the end of a path of
    `level` edges is also nearer, nor if the bound is no less than the number of nodes. -/
theorem cone_complete_iff (ops : List Operation) (direction : Direction) (start : NodeId)
    (level : Nat) (hstart : ((empty.after ops).node? start).isSome = true) :
    ∃ text found, Report.cone (empty.after ops) direction start level = .ok text ∧
      text = String.join (found.map visitText) ∧
      Report.idsIn text = found.map (fun visit => some visit.node.id) ∧
      (∀ visit ∈ found, visit.depth ≤ level ∧
        (empty.after ops).Away direction start visit.depth visit.node.id) ∧
      ((empty.after ops).ShowsCone direction start level text ↔
        (empty.after ops).LosesNothing direction start level found) ∧
      ((∀ id, (empty.after ops).Away direction start level id →
          ∀ length < level, ¬ (empty.after ops).Away direction start length id) →
        (empty.after ops).ShowsCone direction start level text) ∧
      ((empty.after ops).ids.length ≤ level →
        (empty.after ops).ShowsCone direction start level text) := by
  have hc := wellFormed_after ops
  generalize empty.after ops = c at hc hstart ⊢
  obtain ⟨w, hcone, hw⟩ := hc.exists_coneEnd direction level hstart
  refine ⟨w.state.1, visits w.state.2, hcone, hw.text, hw.idsIn_eq, fun visit hvisit => ?_,
    hw.showsCone_iff hc, fun hapart => ?_, fun hlarge => ?_⟩
  · exact ⟨(hw.visit visit hvisit).le, (hw.visit visit hvisit).away⟩
  · rw [hw.showsCone_iff hc]
    rintro visit hvisit _ hdepth ⟨length, hlt, haway⟩
    have hcut := (hw.visit visit hvisit).away
    rw [hdepth] at hcut
    exact absurd haway (hapart _ hcut length hlt)
  · rw [hw.showsCone_iff hc]
    intro visit hvisit hfirst hdepth
    have hsmall := (hw.visit visit hvisit).small hfirst
    omega

/-- Gate 5 reads gate 3 at first hand and by way of gate 4. -/
def reconverging : List Operation :=
  [.addInput 1, .addInput 2, .addGate 3 ⟨1, false⟩ ⟨2, false⟩, .addGate 4 ⟨3, false⟩ ⟨1, false⟩,
    .addGate 5 ⟨4, false⟩ ⟨3, false⟩]

/-- The walk meets gate 3 below gate 4, at the bound, and does not go on to input 2 when it meets
    the gate again one edge from the start. -/
theorem cone_complete_iff_reconverging :
    ((empty.after reconverging).node? 5).isSome = true ∧
      (empty.after reconverging).audit.isOk = true ∧
      ∃ text found, Report.cone (empty.after reconverging) .fanin 5 2 = .ok text ∧
        text = String.join (found.map visitText) ∧
        Report.idsIn text = [some 5, some 4, some 3, some 1, some 3] ∧
        (empty.after reconverging).Away .fanin 5 2 2 ∧
        ¬ (empty.after reconverging).ShowsCone .fanin 5 2 text ∧
        ¬ (empty.after reconverging).LosesNothing .fanin 5 2 found := by
  have hpresent : ((empty.after reconverging).node? 5).isSome = true := by decide +kernel
  have haudit : (empty.after reconverging).audit.isOk = true := by decide +kernel
  have hfive : (empty.after reconverging).kind? 5 = some (.gate ⟨4, false⟩ ⟨3, false⟩) := by
    decide +kernel
  have hthree : (empty.after reconverging).kind? 3 = some (.gate ⟨1, false⟩ ⟨2, false⟩) := by
    decide +kernel
  have hprinted : Report.cone (empty.after reconverging) .fanin 5 2 =
      .ok "AIG 5\n  AIG 4\n    AIG 3\n    PI 1\n  AIG 3 (*)\n" := by decide +kernel
  have hread : Report.idsIn "AIG 5\n  AIG 4\n    AIG 3\n    PI 1\n  AIG 3 (*)\n" =
      [some 5, some 4, some 3, some 1, some 3] := by decide +kernel
  have haway : (empty.after reconverging).Away .fanin 5 2 2 :=
    .step (.step .refl (feeds_of_gate hfive).2) (feeds_of_gate hthree).2
  obtain ⟨text, found, hcone, htext, _, _, hcomplete, _⟩ :=
    cone_complete_iff reconverging .fanin 5 2 hpresent
  obtain rfl := Except.ok.inj (hprinted.symm.trans hcone)
  have hmissing : ¬ (empty.after reconverging).ShowsCone .fanin 5 2
      "AIG 5\n  AIG 4\n    AIG 3\n    PI 1\n  AIG 3 (*)\n" := by
    intro hshows
    have htwo := (hshows 2).2 ⟨2, Nat.le_refl 2, haway⟩
    rw [hread] at htwo
    exact absurd htwo (by decide)
  exact ⟨hpresent, haudit, _, found, hcone, htext, hread, haway, hmissing, mt hcomplete.2 hmissing⟩

end Circuit

end AndInverter
