import AndInverter.Proofs.LiveOrder

namespace AndInverter

/-- What a walk is made for: the time at which a visit is reported, whether the walk goes on below a
    node, and what is done with a visit. The answers may depend on what was seen before. -/
structure Observer (σ : Type) where
  order : Order
  descend : Node → Nat → σ → Bool × σ
  visit : Visit → σ → σ

namespace Observer

variable {σ : Type}

def visitor (o : Observer σ) : Visitor σ := .ordered o.order o.descend o.visit

/-- Reports a visit if this is the time for it. -/
def report (o : Observer σ) (time : Order) (visit : Visit) (s : σ) : σ :=
  if o.order = time then o.visit visit s else s

theorem visitor_descend (o : Observer σ) : o.visitor.descend = o.descend := by
  unfold visitor Visitor.ordered
  cases o.order <;> rfl

theorem visitor_enter (o : Observer σ) : o.visitor.enter = o.report .preorder := by
  funext visit s
  unfold visitor Visitor.ordered report
  cases o.order <;> simp

theorem visitor_again (o : Observer σ) : o.visitor.again = o.report .preorder := by
  funext visit s
  unfold visitor Visitor.ordered report
  cases o.order <;> simp

theorem visitor_leave (o : Observer σ) : o.visitor.leave = o.report .postorder := by
  funext visit s
  unfold visitor Visitor.ordered report
  cases o.order <;> simp

end Observer

namespace Walk

variable {σ : Type} {u v w : Walk σ}

/-- What is marked in the first walk is marked in the second. -/
def Within (w u : Walk σ) : Prop := ∀ id ∈ w.reached, id ∈ u.reached

theorem Within.refl (w : Walk σ) : w.Within w := fun _ h => h

theorem Within.trans (huv : u.Within v) (hvw : v.Within w) : u.Within w := fun id h =>
  hvw id (huv id h)

/-- A marked node is met again. -/
def meet (w : Walk σ) (o : Observer σ) (visit : Visit) : Walk σ :=
  ⟨w.reached, o.report .preorder visit w.state⟩

/-- A node is entered: the observer has been asked whether to go on, and the node is marked. -/
def enter (w : Walk σ) (o : Observer σ) (id : NodeId) (visit : Visit) : Walk σ :=
  ⟨w.reached.insert id, o.report .preorder visit (o.descend visit.node visit.depth w.state).2⟩

/-- A node is left. -/
def leave (w : Walk σ) (o : Observer σ) (visit : Visit) : Walk σ :=
  ⟨w.reached, o.report .postorder visit w.state⟩

theorem within_enter (w : Walk σ) (o : Observer σ) (id : NodeId) (visit : Visit) :
    w.Within (w.enter o id visit) := fun _ h => Std.TreeSet.mem_insert.2 (.inr h)

end Walk

namespace Circuit

variable {σ : Type}

/-- The inverter on the first edge through which a consumer reads a node. -/
def readsInverted (c : Circuit) (id consumer : NodeId) : Bool :=
  ((c.node? consumer).bind fun n => n.fanins.find? (·.node == id)).any (·.inverted)

/-- What lies below a node in some direction: its fanins from the left, or its consumers by
    ascending id. -/
def children (c : Circuit) : Direction → Node → List Edge
  | .fanin, n => n.fanins
  | .fanout, n => n.fanouts.toList.map fun consumer => ⟨consumer, c.readsInverted n.id consumer⟩

/-- The number of nodes without a mark. -/
def unmarkedCount (c : Circuit) (marks : Std.TreeSet NodeId) : Nat :=
  (c.ids.filter (!marks.contains ·)).length

variable {c : Circuit}

theorem unmarkedCount_le {marks marks' : Std.TreeSet NodeId} (h : ∀ id ∈ marks, id ∈ marks') :
    c.unmarkedCount marks' ≤ c.unmarkedCount marks := by
  refine (List.monotone_filter_right c.ids fun id hid => ?_).length_le
  rw [Bool.not_eq_true', ← Bool.not_eq_true, Std.TreeSet.contains_iff_mem] at hid ⊢
  exact mt (h id) hid

/-- A node that is marked now was without a mark before. -/
theorem unmarkedCount_insert_lt {marks : Std.TreeSet NodeId} {id : NodeId} {n : Node}
    (hn : c.node? id = some n) (hfresh : id ∉ marks) :
    c.unmarkedCount (marks.insert id) < c.unmarkedCount marks := by
  have hid : id ∈ c.ids.filter (!marks.contains ·) := by
    rw [List.mem_filter, mem_ids, Bool.not_eq_true', ← Bool.not_eq_true,
      Std.TreeSet.contains_iff_mem]
    exact ⟨by simp [kind?_of_node? hn], hfresh⟩
  have hfilter : c.ids.filter (!(marks.insert id).contains ·) =
      (c.ids.filter (!marks.contains ·)).filter (!id == ·) := by
    rw [List.filter_filter]
    refine List.filter_congr fun other _ => ?_
    rw [Bool.eq_iff_iff]
    simp [Std.TreeSet.contains_insert]
  unfold unmarkedCount
  rw [hfilter]
  exact List.length_filter_lt_length_iff_exists.2 ⟨id, hid, by simp⟩

theorem unmarkedCount_lt {o : Observer σ} {e : Edge} {visit : Visit} {n : Node} {u w : Walk σ}
    (hn : c.node? e.node = some n) (hfresh : e.node ∉ w.reached)
    (hu : (w.enter o e.node visit).Within u) :
    c.unmarkedCount u.reached < c.unmarkedCount w.reached :=
  (unmarkedCount_le hu).trans_lt (unmarkedCount_insert_lt hn hfresh)

/-- What the observer lets the walk go through below a node. -/
def wanted (c : Circuit) (direction : Direction) (o : Observer σ) (n : Node) (depth : Nat) (s : σ) :
    List Edge :=
  if (o.descend n depth s).1 then c.children direction n else []

/-- Arrives at a node, with the proof that no mark is lost, which the recursion needs to end. -/
def arriveWithin (c : Circuit) (direction : Direction) (o : Observer σ) (depth : Nat) (w : Walk σ)
    (e : Edge) : { u : Walk σ // w.Within u } :=
  match hn : c.node? e.node with
  | none => ⟨w, .refl w⟩
  | some n =>
    if hmarked : e.node ∈ w.reached then ⟨w.meet o ⟨n, depth, e.inverted, true⟩, .refl w⟩
    else
      let visit : Visit := ⟨n, depth, e.inverted, false⟩
      let below := (c.wanted direction o n depth w.state).foldl
        (fun (u : { u : Walk σ // (w.enter o e.node visit).Within u }) child =>
          let deeper := c.arriveWithin direction o (depth + 1) u.1 child
          ⟨deeper.1, u.2.trans deeper.2⟩)
        ⟨w.enter o e.node visit, .refl _⟩
      ⟨below.1.leave o visit, (w.within_enter o e.node visit).trans below.2⟩
termination_by c.unmarkedCount w.reached
decreasing_by exact unmarkedCount_lt hn hmarked u.2

/-- Arrives at a node. If it is marked, it is met again. Otherwise the observer is asked whether to
    go on, the node is marked, and what lies below it is arrived at in turn, one edge deeper. -/
def arrive (c : Circuit) (direction : Direction) (o : Observer σ) (depth : Nat) (w : Walk σ)
    (e : Edge) : Walk σ :=
  (c.arriveWithin direction o depth w e).1

/-- The walk as a recursion: nothing is marked at first, and the starts are arrived at in turn. -/
def recursiveWalk (c : Circuit) (direction : Direction) (o : Observer σ) (starts : List Edge)
    (w : Walk σ) : Walk σ :=
  starts.foldl (c.arrive direction o 0) w.unmarked

section Arrive

variable {direction : Direction} {o : Observer σ} {depth : Nat} {w : Walk σ} {e : Edge} {n : Node}

theorem within_arrive (c : Circuit) (direction : Direction) (o : Observer σ) (depth : Nat)
    (w : Walk σ) (e : Edge) : w.Within (c.arrive direction o depth w e) :=
  (c.arriveWithin direction o depth w e).2

/-- What holds of arriving anywhere once it holds below, where the node is marked, holds always:
    there are only so many nodes without a mark. -/
theorem arrive_induction (o : Observer σ) {P : Nat → Walk σ → Edge → Prop}
    (h : ∀ depth w e, (∀ n, c.node? e.node = some n → e.node ∉ w.reached → ∀ visit u child,
      (w.enter o e.node visit).Within u → P (depth + 1) u child) → P depth w e)
    (depth : Nat) (w : Walk σ) (e : Edge) : P depth w e := by
  induction hcount : c.unmarkedCount w.reached using Nat.strong_induction_on
    generalizing depth w e with
  | _ count ih =>
    subst hcount
    exact h depth w e fun n hn hfresh visit u child hu =>
      ih _ (unmarkedCount_lt hn hfresh hu) (depth + 1) u child rfl

theorem arrive_of_missing (hn : c.node? e.node = none) : c.arrive direction o depth w e = w := by
  unfold arrive
  rw [arriveWithin]
  split
  · rfl
  · next m hm => cases hn.symm.trans hm

theorem arrive_of_marked (hn : c.node? e.node = some n) (hmarked : e.node ∈ w.reached) :
    c.arrive direction o depth w e = w.meet o ⟨n, depth, e.inverted, true⟩ := by
  unfold arrive
  rw [arriveWithin]
  split
  · next hnone => cases hn.symm.trans hnone
  · next m hm =>
    obtain rfl := Option.some.inj (hn.symm.trans hm)
    rw [dif_pos hmarked]

theorem val_foldl {α β : Type} {P : β → Prop} {f : { b // P b } → α → { b // P b }} {g : β → α → β}
    (h : ∀ b a, (f b a).1 = g b.1 a) (l : List α) (b : { b // P b }) :
    (l.foldl f b).1 = l.foldl g b.1 := by
  induction l generalizing b with
  | nil => rfl
  | cons a l ih => rw [List.foldl_cons, List.foldl_cons, ih, h]

/-- A node without a mark gets one and is entered, what is wanted of it is walked, and it is
    left. -/
theorem arrive_of_unmarked (hn : c.node? e.node = some n) (hfresh : e.node ∉ w.reached) :
    c.arrive direction o depth w e =
      ((c.wanted direction o n depth w.state).foldl (c.arrive direction o (depth + 1))
        (w.enter o e.node ⟨n, depth, e.inverted, false⟩)).leave o
          ⟨n, depth, e.inverted, false⟩ := by
  unfold arrive
  rw [arriveWithin]
  split
  · next hnone => cases hn.symm.trans hnone
  · next m hm =>
    obtain rfl := Option.some.inj (hn.symm.trans hm)
    rw [dif_neg hfresh]
    dsimp only
    rw [val_foldl (g := fun u child => (c.arriveWithin direction o (depth + 1) u child).1)
      fun _ _ => rfl]

/-- A walk keeps what meeting, entering and leaving a node keep. The steps may rely on what is true
    of the places that the walk gets to, as long as more marks do not change it. -/
theorem arrive_keeps {P : Walk σ → Prop} {Q : Nat → Walk σ → Edge → Prop}
    (hmarks : ∀ depth w u e, w.Within u → Q depth w e → Q depth u e)
    (hmeet : ∀ depth w e n, P w → Q depth w e → c.node? e.node = some n → e.node ∈ w.reached →
      P (w.meet o ⟨n, depth, e.inverted, true⟩))
    (henter : ∀ depth w e n, P w → Q depth w e → c.node? e.node = some n → e.node ∉ w.reached →
      P (w.enter o e.node ⟨n, depth, e.inverted, false⟩) ∧
        ∀ child ∈ c.wanted direction o n depth w.state,
          Q (depth + 1) (w.enter o e.node ⟨n, depth, e.inverted, false⟩) child)
    (hleave : ∀ w visit, P w → P (w.leave o visit)) (hw : P w) (he : Q depth w e) :
    P (c.arrive direction o depth w e) := by
  induction depth, w, e using arrive_induction (c := c) o with
  | h depth w e ih =>
    cases hn : c.node? e.node with
    | none => rwa [arrive_of_missing hn]
    | some n =>
      by_cases hmarked : e.node ∈ w.reached
      · rw [arrive_of_marked hn hmarked]
        exact hmeet depth w e n hw he hn hmarked
      · rw [arrive_of_unmarked hn hmarked]
        apply hleave
        obtain ⟨hentered, hchildren⟩ := henter depth w e n hw he hn hmarked
        refine (List.foldlRecOn (c.wanted direction o n depth w.state) _
          (motive := fun u => (w.enter o e.node ⟨n, depth, e.inverted, false⟩).Within u ∧ P u)
          ⟨.refl _, hentered⟩ ?_).2
        rintro u ⟨hu, hkept⟩ child hchild
        refine ⟨hu.trans (within_arrive c direction o (depth + 1) u child), ?_⟩
        exact ih n hn hmarked _ u child hu hkept (hmarks _ _ _ _ hu (hchildren child hchild))

/-- What arriving does to a walk keeps to a relation that meeting a node keeps to, and that a node
    keeps to from its entering to its leaving if all that is done in between does. -/
theorem arrive_relates {R : Walk σ → Walk σ → Prop} (hrefl : ∀ w, R w w)
    (htrans : ∀ {u v w}, R u v → R v w → R u w)
    (hmeet : ∀ depth w (e : Edge) n, c.node? e.node = some n → e.node ∈ w.reached →
      R w (w.meet o ⟨n, depth, e.inverted, true⟩))
    (haround : ∀ depth w u (e : Edge) n, c.node? e.node = some n → e.node ∉ w.reached →
      R (w.enter o e.node ⟨n, depth, e.inverted, false⟩) u →
      R w (u.leave o ⟨n, depth, e.inverted, false⟩)) :
    R w (c.arrive direction o depth w e) := by
  induction depth, w, e using arrive_induction (c := c) o with
  | h depth w e ih =>
    cases hn : c.node? e.node with
    | none =>
      rw [arrive_of_missing hn]
      exact hrefl w
    | some n =>
      by_cases hmarked : e.node ∈ w.reached
      · rw [arrive_of_marked hn hmarked]
        exact hmeet depth w e n hn hmarked
      · rw [arrive_of_unmarked hn hmarked]
        apply haround depth w _ e n hn hmarked
        refine (List.foldlRecOn (c.wanted direction o n depth w.state) _
          (motive := fun u => (w.enter o e.node ⟨n, depth, e.inverted, false⟩).Within u ∧
            R (w.enter o e.node ⟨n, depth, e.inverted, false⟩) u)
          ⟨.refl _, hrefl _⟩ ?_).2
        rintro u ⟨hu, hrelated⟩ child _
        refine ⟨hu.trans (within_arrive c direction o (depth + 1) u child), ?_⟩
        exact htrans hrelated (ih n hn hmarked _ u child hu)

end Arrive

section Explore

variable {direction : Direction} {o : Observer σ} {id : NodeId} {n : Node} {edges : List Edge}

/-- A consumer that is listed is there and reads the node. -/
theorem WellFormed.exists_consumer (hc : c.WellFormed) (hn : c.node? id = some n)
    {consumer : NodeId} (hconsumer : consumer ∈ n.fanouts) :
    ∃ m e, c.node? consumer = some m ∧ m.fanins.find? (·.node == n.id) = some e := by
  obtain ⟨kind, hkind, e, he, hid⟩ := hc.mirror.2 ⟨n, hn, hconsumer⟩
  obtain ⟨m, hm, rfl⟩ := kind?_eq_some_iff.1 hkind
  have hfound : (m.fanins.find? (·.node == n.id)).isSome = true := by
    rw [List.find?_isSome]
    exact ⟨e, he, by simp [hid, hc.own_id hn]⟩
  obtain ⟨found, hfound⟩ := Option.isSome_iff_exists.1 hfound
  exact ⟨m, found, hm, hfound⟩

theorem WellFormed.next_eq (hc : c.WellFormed) (direction : Direction) (hn : c.node? id = some n) :
    c.next direction n = .ok (c.children direction n) := by
  cases direction with
  | fanin => rfl
  | fanout =>
    refine mapM_eq_ok_map fun consumer hconsumer => ?_
    obtain ⟨m, e, hm, hfound⟩ := hc.exists_consumer hn (Std.TreeSet.mem_toList.1 hconsumer)
    rw [except_bind_eq_ok_iff]
    refine ⟨m, node_eq_ok_iff.2 hm, ?_⟩
    rw [hfound]
    simp [readsInverted, hm, hfound, pure, Except.pure]

theorem WellFormed.isSome_of_mem_children (hc : c.WellFormed) (hn : c.node? id = some n) {e : Edge}
    (he : e ∈ c.children direction n) : (c.node? e.node).isSome = true := by
  cases direction with
  | fanin => exact isSome_kind? c e.node ▸ hc.present_fanins hn e he
  | fanout =>
    obtain ⟨consumer, hconsumer, rfl⟩ := List.mem_map.1 he
    obtain ⟨m, _, hm, _⟩ := hc.exists_consumer hn (Std.TreeSet.mem_toList.1 hconsumer)
    simp [hm]

theorem WellFormed.isSome_of_mem_wanted (hc : c.WellFormed) (hn : c.node? id = some n) {depth : Nat}
    {s : σ} {e : Edge} (he : e ∈ c.wanted direction o n depth s) :
    (c.node? e.node).isSome = true := by
  unfold wanted at he
  split at he
  · exact hc.isSome_of_mem_children hn he
  · cases he

/-- Frames for edges, worked off one after the other. -/
theorem explore_enterAll {depth : Nat} {w : Walk σ}
    (harrive : ∀ e ∈ edges, ∀ u rest, w.Within u →
      c.explore (c.next direction) o.visitor (.enter e depth :: rest) u =
        c.explore (c.next direction) o.visitor rest (c.arrive direction o depth u e))
    (rest : List Frame) :
    c.explore (c.next direction) o.visitor (edges.map (.enter · depth) ++ rest) w =
      c.explore (c.next direction) o.visitor rest (edges.foldl (c.arrive direction o depth) w) := by
  induction edges generalizing w with
  | nil => rfl
  | cons e edges ih =>
    obtain ⟨hfirst, hrest⟩ := List.forall_mem_cons.1 harrive
    rw [List.map_cons, List.cons_append, hfirst w _ (.refl w), List.foldl_cons]
    have hmarks := within_arrive c direction o depth w e
    exact ih fun other hother u rest hu => hrest other hother u rest (hmarks.trans hu)

/-- Working off the frame of a node, with all the frames that it brings, is arriving at the node.
    The frames behind it wait, whatever they are. -/
theorem WellFormed.explore_enter (hc : c.WellFormed) (depth : Nat) (w : Walk σ) (e : Edge)
    (he : (c.node? e.node).isSome = true) (rest : List Frame) :
    c.explore (c.next direction) o.visitor (.enter e depth :: rest) w =
      c.explore (c.next direction) o.visitor rest (c.arrive direction o depth w e) := by
  induction depth, w, e using arrive_induction (c := c) o generalizing rest with
  | h depth w e ih =>
    obtain ⟨n, hn⟩ := Option.isSome_iff_exists.1 he
    by_cases hmarked : e.node ∈ w.reached
    · rw [explore_again hn hmarked, arrive_of_marked hn hmarked, o.visitor_again]
      rfl
    · have hbelow : below (c.next direction) (o.visitor.descend n depth w.state).1 n =
          .ok (c.wanted direction o n depth w.state) := by
        rw [o.visitor_descend, below, wanted, hc.next_eq direction hn]
        split <;> rfl
      rw [explore_fresh hn hmarked hbelow, o.visitor_enter, o.visitor_descend, explore_enterAll,
        arrive_of_unmarked hn hmarked, explore, o.visitor_leave]
      · rfl
      · intro child hchild u rest hu
        exact ih n hn hmarked ⟨n, depth, e.inverted, false⟩ u child hu
          (hc.isSome_of_mem_wanted hn hchild) rest

/-- The walk with frames is the recursion. -/
theorem WellFormed.traverse_eq (hc : c.WellFormed) (direction : Direction) (o : Observer σ)
    {starts : List Edge} (hstarts : ∀ e ∈ starts, (c.node? e.node).isSome = true) (w : Walk σ) :
    c.traverse direction o.visitor starts w = .ok () (c.recursiveWalk direction o starts w) := by
  have hframes : c.explore (c.next direction) o.visitor (starts.map (.enter · 0) ++ []) w.unmarked =
      c.explore (c.next direction) o.visitor [] (c.recursiveWalk direction o starts w) :=
    explore_enterAll (fun e he u rest _ => hc.explore_enter 0 u e (hstarts e he) rest) []
  rw [List.append_nil] at hframes
  rw [traverse, hframes, explore]

end Explore

end Circuit

end AndInverter
