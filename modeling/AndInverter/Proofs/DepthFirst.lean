import AndInverter.Circuit.Walk
import AndInverter.Proofs.Acyclic

open Relation

namespace AndInverter

namespace Frame

/-- The node that a frame is about. -/
def target : Frame → NodeId
  | enter e _ => e.node
  | leave n _ _ => n.id

/-- The nodes that the walk has entered and not left, the innermost first. -/
def path : List Frame → List NodeId
  | [] => []
  | enter _ _ :: rest => path rest
  | leave n _ _ :: rest => n.id :: path rest

theorem path_map_enter_append (edges : List Edge) (depth : Nat) (rest : List Frame) :
    path (edges.map (enter · depth) ++ rest) = path rest := by
  induction edges with
  | nil => rfl
  | cons e edges ih => exact ih

theorem target_map_enter (edges : List Edge) (depth : Nat) :
    (edges.map (enter · depth)).map target = edges.map (·.node) := by
  simp [target, Function.comp_def]

/-- The frames that come when a node is entered: those of its children, and the one to leave it. -/
theorem path_entered (children : List Edge) (n : Node) (depth : Nat) (inverted : Bool)
    (rest : List Frame) :
    path (children.map (enter · (depth + 1)) ++ leave n depth inverted :: rest) =
      n.id :: path rest := by
  rw [path_map_enter_append, path]

theorem target_entered (children : List Edge) (n : Node) (depth : Nat) (inverted : Bool)
    (rest : List Frame) :
    (children.map (enter · (depth + 1)) ++ leave n depth inverted :: rest).map target =
      children.map (·.node) ++ n.id :: rest.map target := by
  rw [List.map_append, target_map_enter, List.map_cons, target]

end Frame

namespace Circuit

open AndInverter.Frame

section Explore

variable {σ : Type} {c : Circuit} {next : Node → Except Error (List Edge)} {v : Visitor σ}

/-- A node that has been reached is met again, and that is all. -/
theorem explore_again {e : Edge} {depth : Nat} {rest : List Frame} {w : Walk σ} {n : Node}
    (hn : c.node? e.node = some n) (hreached : e.node ∈ w.reached) :
    c.explore next v (.enter e depth :: rest) w = c.explore next v rest
      { w with state := v.again ⟨n, depth, e.inverted, true⟩ w.state } := by
  rw [explore]
  split
  · next hnone => cases hn.symm.trans hnone
  · next m hm =>
    obtain rfl := Option.some.inj (hn.symm.trans hm)
    rw [dif_pos (Std.TreeSet.contains_iff_mem.2 hreached)]

/-- A node that has not been reached is entered, and what lies below it is walked first. -/
theorem explore_fresh {e : Edge} {depth : Nat} {rest : List Frame} {w : Walk σ} {n : Node}
    {children : List Edge} (hn : c.node? e.node = some n) (hfresh : e.node ∉ w.reached)
    (hchildren : below next (v.descend n depth w.state).1 n = .ok children) :
    c.explore next v (.enter e depth :: rest) w = c.explore next v
      (children.map (.enter · (depth + 1)) ++ .leave n depth e.inverted :: rest)
      ⟨w.reached.insert e.node,
        v.enter ⟨n, depth, e.inverted, false⟩ (v.descend n depth w.state).2⟩ := by
  rw [explore]
  split
  · next hnone => cases hn.symm.trans hnone
  · next m hm =>
    obtain rfl := Option.some.inj (hn.symm.trans hm)
    rw [dif_neg (mt Std.TreeSet.contains_iff_mem.1 hfresh)]
    dsimp only
    split
    · next failure hfailure => cases hchildren.symm.trans hfailure
    · next found hfound =>
      obtain rfl := Except.ok.inj (hchildren.symm.trans hfound)
      rfl

/-- A walk that meets only nodes of the circuit comes to its end, and keeps what each of its
    steps keeps. -/
theorem explore_induction {P : List Frame → Walk σ → Prop} (hdescend : v.descend = Visitor.always)
    (hleave : ∀ n depth inverted rest w, P (.leave n depth inverted :: rest) w →
      P rest { w with state := v.leave ⟨n, depth, inverted, false⟩ w.state })
    (hpresent : ∀ e depth rest w, P (.enter e depth :: rest) w → ∃ n, c.node? e.node = some n)
    (hagain : ∀ e depth rest w n, P (.enter e depth :: rest) w → c.node? e.node = some n →
      e.node ∈ w.reached → P rest { w with state := v.again ⟨n, depth, e.inverted, true⟩ w.state })
    (hfresh : ∀ e depth rest w n, P (.enter e depth :: rest) w → c.node? e.node = some n →
      e.node ∉ w.reached → ∃ children, next n = .ok children ∧
        P (children.map (.enter · (depth + 1)) ++ .leave n depth e.inverted :: rest)
          ⟨w.reached.insert e.node, v.enter ⟨n, depth, e.inverted, false⟩ w.state⟩)
    {frames : List Frame} {w : Walk σ} (h : P frames w) :
    ∃ w', c.explore next v frames w = .ok () w' ∧ P [] w' := by
  fun_induction c.explore next v frames w with
  | case1 w => exact ⟨w, rfl, h⟩
  | case2 n depth inverted rest w ih => exact ih (hleave n depth inverted rest w h)
  | case3 e depth rest w hnode =>
    obtain ⟨n, hn⟩ := hpresent e depth rest w h
    rw [hn] at hnode
    cases hnode
  | case4 e depth rest w n hn hreached ih =>
    exact ih (hagain e depth rest w n h hn (Std.TreeSet.contains_iff_mem.1 hreached))
  | case5 e depth rest w n hn hreached asked failure hfailure =>
    obtain ⟨children, hnext, _⟩ :=
      hfresh e depth rest w n h hn fun hmem => hreached (Std.TreeSet.contains_iff_mem.2 hmem)
    simp [asked, hdescend, Visitor.always, below, hnext] at hfailure
  | case6 e depth rest w n hn hreached asked children hchildren ih =>
    obtain ⟨found, hnext, hp⟩ :=
      hfresh e depth rest w n h hn fun hmem => hreached (Std.TreeSet.contains_iff_mem.2 hmem)
    have hasked : asked = (true, w.state) := by simp [asked, hdescend, Visitor.always]
    simp only [hasked, below, if_true, hnext, Except.ok.injEq] at hchildren
    subst hchildren
    apply ih
    rw [hasked]
    exact hp

/-- A walk depends on nothing but the nodes it meets. -/
theorem explore_congr {d : Circuit} (h : ∀ id, d.node? id = c.node? id) (frames : List Frame)
    (w : Walk σ) : d.explore next v frames w = c.explore next v frames w := by
  have hmissing : ∀ {id : NodeId} {n : Node}, c.node? id = some n → d.node? id ≠ none := by
    intro id n hn
    simp [h, hn]
  have hfound : ∀ {id : NodeId} {m n : Node}, c.node? id = some n → d.node? id = some m → n = m := by
    intro id m n hn hm
    rw [h, hn] at hm
    exact Option.some.inj hm
  fun_induction c.explore next v frames w with
  | case1 w => rw [explore]
  | case2 n depth inverted rest w ih => rw [explore, ih]
  | case3 e depth rest w hnode =>
    rw [explore]
    split
    · rfl
    · next m hm =>
      rw [h, hnode] at hm
      cases hm
  | case4 e depth rest w n hn hreached ih =>
    rw [explore]
    split
    · next hnone => exact absurd hnone (hmissing hn)
    · next m hm =>
      obtain rfl := hfound hn hm
      rw [dif_pos hreached, ih]
  | case5 e depth rest w n hn hreached asked failure hfailure =>
    rw [explore]
    split
    · next hnone => exact absurd hnone (hmissing hn)
    · next m hm =>
      obtain rfl := hfound hn hm
      rw [dif_neg hreached]
      dsimp only
      split <;> simp_all [asked]
  | case6 e depth rest w n hn hreached asked children hchildren ih =>
    rw [explore]
    split
    · next hnone => exact absurd hnone (hmissing hn)
    · next m hm =>
      obtain rfl := hfound hn hm
      rw [dif_neg hreached]
      dsimp only
      split <;> simp_all [asked]

end Explore

/-- Before a node on the path is left, each of its fanins is settled or has a frame in front.
    `ahead` holds the nodes of the frames in front of the given ones. -/
def Waits (c : Circuit) (settled : NodeId → Prop) : List NodeId → List Frame → Prop
  | _, [] => True
  | ahead, .enter e _ :: rest => c.Waits settled (e.node :: ahead) rest
  | ahead, .leave n _ _ :: rest =>
    (∀ source, c.Feeds source n.id → settled source ∨ source ∈ ahead) ∧
      c.Waits settled (n.id :: ahead) rest

/-- Each frame is about a fanin of the innermost node that is left after it. -/
def Hangs (c : Circuit) : List Frame → Prop
  | [] => True
  | frame :: rest =>
    (∀ id, (path rest).head? = some id → c.Feeds frame.target id) ∧ c.Hangs rest

variable {c : Circuit}

/-- More may be settled, and what was ahead may be settled instead. -/
theorem Waits.mono {settled settled' : NodeId → Prop} {ahead ahead' : List NodeId}
    {frames : List Frame} (hsettled : ∀ id, settled id → settled' id)
    (hahead : ∀ id ∈ ahead, settled' id ∨ id ∈ ahead') (h : c.Waits settled ahead frames) :
    c.Waits settled' ahead' frames := by
  induction frames generalizing ahead ahead' with
  | nil => trivial
  | cons frame rest ih =>
    have hcons : ∀ other, ∀ id ∈ other :: ahead, settled' id ∨ id ∈ other :: ahead' := by
      intro other id hid
      rcases List.mem_cons.1 hid with rfl | hid
      · exact .inr List.mem_cons_self
      · exact (hahead id hid).imp_right (List.mem_cons_of_mem other)
    cases frame with
    | enter e depth => exact ih (hcons e.node) h
    | leave n depth inverted =>
      refine ⟨fun source hfeeds => ?_, ih (hcons n.id) h.2⟩
      rcases h.1 source hfeeds with hdone | hid
      · exact .inl (hsettled source hdone)
      · exact hahead source hid

theorem Waits.map_enter_append {settled : NodeId → Prop} {ahead : List NodeId} {edges : List Edge}
    {depth : Nat} {rest : List Frame}
    (h : c.Waits settled ((edges.map (·.node)).reverse ++ ahead) rest) :
    c.Waits settled ahead (edges.map (.enter · depth) ++ rest) := by
  induction edges generalizing ahead with
  | nil => exact h
  | cons e edges ih =>
    apply ih
    simpa using h

/-- A node that is settled need not be ahead. -/
theorem Waits.settle {settled settled' : NodeId → Prop} {id : NodeId} {rest : List Frame}
    (hsettled : ∀ other, settled other → settled' other) (hid : settled' id)
    (h : c.Waits settled [id] rest) : c.Waits settled' [] rest := by
  apply h.mono hsettled
  intro other hother
  rw [List.mem_singleton.1 hother]
  exact .inl hid

/-- A node is entered: the frames of its fanins come in front, and its own one stays ahead. -/
theorem Waits.descend {settled settled' : NodeId → Prop} {n : Node} {depth : Nat}
    {inverted : Bool} {children : List Edge} {rest : List Frame}
    (hsettled : ∀ id, settled id → settled' id)
    (hfeeds : ∀ source, c.Feeds source n.id → source ∈ children.map (·.node))
    (h : c.Waits settled [n.id] rest) :
    c.Waits settled' []
      (children.map (.enter · (depth + 1)) ++ .leave n depth inverted :: rest) := by
  apply Waits.map_enter_append
  refine ⟨fun source hsource => .inr (by simpa using hfeeds source hsource), ?_⟩
  apply h.mono hsettled
  intro id hid
  rw [List.mem_singleton.1 hid]
  exact .inr List.mem_cons_self

/-- The target of a frame feeds every node on the path behind it. -/
theorem Hangs.transGen {frame : Frame} {rest : List Frame} (h : c.Hangs (frame :: rest))
    {id : NodeId} (hid : id ∈ path rest) : TransGen c.Feeds frame.target id := by
  induction rest generalizing frame with
  | nil => cases hid
  | cons next rest ih =>
    cases next with
    | enter e depth => exact ih ⟨h.1, h.2.2⟩ hid
    | leave n depth inverted =>
      have hfeeds : c.Feeds frame.target n.id := h.1 n.id rfl
      rcases List.mem_cons.1 hid with rfl | hid
      · exact TransGen.single hfeeds
      · exact TransGen.head hfeeds (ih h.2 hid)

theorem Hangs.map_enter_append {edges : List Edge} {depth : Nat} {rest : List Frame}
    (hedges : ∀ e ∈ edges, ∀ id, (path rest).head? = some id → c.Feeds e.node id)
    (h : c.Hangs rest) : c.Hangs (edges.map (.enter · depth) ++ rest) := by
  induction edges with
  | nil => exact h
  | cons e edges ih =>
    refine ⟨fun id hid => hedges e List.mem_cons_self id ?_, ih fun other hother =>
      hedges other (List.mem_cons_of_mem e hother)⟩
    exact path_map_enter_append edges depth rest ▸ hid

/-- A node is entered: its fanins hang on it, and it hangs where it did. -/
theorem Hangs.descend {e : Edge} {n : Node} {depth depth' : Nat} {inverted : Bool}
    {children : List Edge} {rest : List Frame} (hid : n.id = e.node)
    (hfeeds : ∀ child ∈ children, c.Feeds child.node n.id)
    (h : c.Hangs (.enter e depth :: rest)) :
    c.Hangs (children.map (.enter · depth') ++ .leave n depth inverted :: rest) := by
  refine Hangs.map_enter_append (fun child hchild id hhead => ?_) ⟨fun id hhead => ?_, h.2⟩
  · obtain rfl := Option.some.inj hhead
    exact hfeeds child hchild
  · rw [target, hid]
    exact h.1 id hhead

theorem feeds_iff_mem_map_node {n : Node} {children : List Edge} (hn : c.kind? n.id = some n.kind)
    (hchildren : ∀ child, child ∈ children ↔ child ∈ n.fanins) {source : NodeId} :
    c.Feeds source n.id ↔ source ∈ children.map (·.node) := by
  simp only [Feeds, hn, Option.some.injEq, exists_eq_left', List.mem_map, hchildren]
  rfl

/-- How a depth-first walk stands. The nodes in `finished` have been left, the latest first. As
    long as the walk is `quiet`, it has met no node again that was on its path. -/
structure Exploring (c : Circuit) (starts : List NodeId) (frames : List Frame)
    (reached : Std.TreeSet NodeId) (finished : List NodeId) (quiet : Prop) : Prop where
  present : ∀ id ∈ frames.map target, (c.kind? id).isSome = true
  hangs : c.Hangs frames
  path_nodup : (path frames).Nodup
  nodup : finished.Nodup
  mem_reached : ∀ id, id ∈ reached ↔ id ∈ finished ∨ id ∈ path frames
  not_finished : ∀ id ∈ path frames, id ∉ finished
  started : ∀ id ∈ starts, id ∈ reached ∨ id ∈ frames.map target
  sound : ∀ id, id ∈ reached ∨ id ∈ frames.map target →
    ∃ start ∈ starts, ReflTransGen c.Feeds id start
  waits : c.Waits (· ∈ reached) [] frames
  closed : ∀ id ∈ finished, ∀ source, c.Feeds source id → source ∈ reached
  quiet_waits : quiet → c.Waits (· ∈ finished) [] frames
  topological : quiet → c.Topological finished

namespace Exploring

variable {starts : List NodeId} {rest : List Frame} {reached : Std.TreeSet NodeId}
  {finished : List NodeId} {quiet : Prop}

/-- A walk starts with nothing on its path. -/
theorem start {edges : List Edge} (hedges : ∀ e ∈ edges, (c.kind? e.node).isSome = true) :
    c.Exploring (edges.map (·.node)) (edges.map (.enter · 0)) ∅ [] quiet := by
  have hpath : path (edges.map (.enter · 0)) = [] := by
    have h := path_map_enter_append edges 0 []
    rwa [List.append_nil] at h
  have hwaits : ∀ settled, c.Waits settled [] (edges.map (.enter · 0)) := by
    intro settled
    have h : c.Waits settled [] (edges.map (.enter · 0) ++ []) := Waits.map_enter_append trivial
    rwa [List.append_nil] at h
  have hhangs : c.Hangs (edges.map (.enter · 0)) := by
    have h : c.Hangs (edges.map (.enter · 0) ++ []) :=
      Hangs.map_enter_append (fun e _ id hid => nomatch hid) trivial
    rwa [List.append_nil] at h
  refine ⟨?_, hhangs, hpath ▸ List.nodup_nil, List.nodup_nil, ?_, ?_, ?_, ?_, hwaits _, ?_,
    fun _ => hwaits _, fun _ => trivial⟩
  · rw [target_map_enter]
    intro id hid
    obtain ⟨e, he, rfl⟩ := List.mem_map.1 hid
    exact hedges e he
  · simp [hpath]
  · simp
  · rw [target_map_enter]
    exact fun id hid => .inr hid
  · rw [target_map_enter]
    rintro id (hid | hid)
    · simp at hid
    · exact ⟨id, hid, ReflTransGen.refl⟩
  · simp

/-- A node that is left has all its fanins reached, and on a quiet walk they have been left before
    it. -/
theorem leave {n : Node} {depth : Nat} {inverted : Bool}
    (h : c.Exploring starts (.leave n depth inverted :: rest) reached finished quiet) :
    c.Exploring starts rest reached (n.id :: finished) quiet := by
  obtain ⟨hfresh, hpath⟩ := List.nodup_cons.1 h.path_nodup
  have hreached : n.id ∈ reached := (h.mem_reached n.id).2 (.inr List.mem_cons_self)
  refine ⟨fun id hid => h.present id (List.mem_cons_of_mem n.id hid), h.hangs.2, hpath, ?_, ?_, ?_,
    ?_, ?_, ?_, ?_, ?_, ?_⟩
  · exact List.nodup_cons.2 ⟨h.not_finished n.id List.mem_cons_self, h.nodup⟩
  · intro id
    rw [h.mem_reached, path, List.mem_cons, List.mem_cons, or_left_comm, or_assoc]
  · intro id hid hmem
    rcases List.mem_cons.1 hmem with rfl | hmem
    · exact hfresh hid
    · exact h.not_finished id (List.mem_cons_of_mem n.id hid) hmem
  · intro id hid
    rcases h.started id hid with hmem | hmem
    · exact .inl hmem
    · rcases List.mem_cons.1 hmem with rfl | hmem
      · exact .inl hreached
      · exact .inr hmem
  · rintro id (hid | hid)
    · exact h.sound id (.inl hid)
    · exact h.sound id (.inr (List.mem_cons_of_mem n.id hid))
  · exact h.waits.2.settle (fun _ hid => hid) hreached
  · intro id hid source hfeeds
    rcases List.mem_cons.1 hid with rfl | hid
    · exact (h.waits.1 source hfeeds).resolve_right List.not_mem_nil
    · exact h.closed id hid source hfeeds
  · intro hquiet
    exact (h.quiet_waits hquiet).2.settle (fun _ hid => List.mem_cons_of_mem n.id hid)
      List.mem_cons_self
  · intro hquiet
    refine ⟨fun source hfeeds => ?_, h.topological hquiet⟩
    exact ((h.quiet_waits hquiet).1 source hfeeds).resolve_right List.not_mem_nil

/-- A fanin of the node that is left next has been left, or else it lies on the path above the node,
    so that a cycle goes through both. -/
theorem left_or_above {n : Node} {depth : Nat} {inverted : Bool}
    (h : c.Exploring starts (.leave n depth inverted :: rest) reached finished quiet)
    {source : NodeId} (hfeeds : c.Feeds source n.id) :
    source ∈ finished ∨ TransGen c.Feeds n.id source := by
  have hreached : source ∈ reached := (h.waits.1 source hfeeds).resolve_right List.not_mem_nil
  rcases (h.mem_reached source).1 hreached with hleft | hpath
  · exact .inl hleft
  · rcases List.mem_cons.1 hpath with rfl | hpath
    · exact .inr (TransGen.single hfeeds)
    · exact .inr (h.hangs.transGen hpath)

/-- A node that is met again is passed over. The walk stays quiet unless the node is on the path. -/
theorem again {quiet' : Prop} {e : Edge} {depth : Nat}
    (h : c.Exploring starts (.enter e depth :: rest) reached finished quiet)
    (hmem : e.node ∈ reached) (hquiet : quiet' → quiet ∧ e.node ∉ path rest) :
    c.Exploring starts rest reached finished quiet' := by
  refine ⟨fun id hid => h.present id (List.mem_cons_of_mem e.node hid), h.hangs.2, h.path_nodup,
    h.nodup, h.mem_reached, h.not_finished, ?_, ?_, ?_, h.closed, ?_, ?_⟩
  · intro id hid
    rcases h.started id hid with hid | hid
    · exact .inl hid
    · rcases List.mem_cons.1 hid with rfl | hid
      · exact .inl hmem
      · exact .inr hid
  · rintro id (hid | hid)
    · exact h.sound id (.inl hid)
    · exact h.sound id (.inr (List.mem_cons_of_mem e.node hid))
  · have hwaits : c.Waits (· ∈ reached) [e.node] rest := h.waits
    exact hwaits.settle (fun _ hid => hid) hmem
  · intro hq
    obtain ⟨hold, hpath⟩ := hquiet hq
    have hfinished : e.node ∈ finished := ((h.mem_reached e.node).1 hmem).resolve_right hpath
    have hwaits : c.Waits (· ∈ finished) [e.node] rest := h.quiet_waits hold
    exact hwaits.settle (fun _ hid => hid) hfinished
  · exact fun hq => h.topological (hquiet hq).1

section Fresh

variable {e : Edge} {depth : Nat} {inverted : Bool} {n : Node} {children : List Edge}

theorem mem_reached_fresh
    (h : c.Exploring starts (.enter e depth :: rest) reached finished quiet) (hid : n.id = e.node)
    (id : NodeId) : id ∈ reached.insert e.node ↔ id ∈ finished ∨ id ∈ n.id :: path rest := by
  rw [Std.TreeSet.mem_insert, Std.compare_eq_iff_eq, h.mem_reached, hid, List.mem_cons,
    or_left_comm, eq_comm]
  rfl

/-- From what an entered node reads one gets to the same start as from the node. -/
theorem sound_fresh
    (h : c.Exploring starts (.enter e depth :: rest) reached finished quiet) (hid : n.id = e.node)
    (hfeeds : ∀ source ∈ children.map (·.node), c.Feeds source n.id) (id : NodeId)
    (hmem : id ∈ reached.insert e.node ∨ id ∈ children.map (·.node) ++ n.id :: rest.map target) :
    ∃ start ∈ starts, ReflTransGen c.Feeds id start := by
  have hentered : ∃ start ∈ starts, ReflTransGen c.Feeds n.id start :=
    hid ▸ h.sound e.node (.inr List.mem_cons_self)
  rcases hmem with hmem | hmem
  · rcases Std.TreeSet.mem_insert.1 hmem with heq | hmem
    · rw [← Std.compare_eq_iff_eq.1 heq, ← hid]
      exact hentered
    · exact h.sound id (.inl hmem)
  · rcases List.mem_append.1 hmem with hchild | hold
    · obtain ⟨start, hstart, hreach⟩ := hentered
      exact ⟨start, hstart, ReflTransGen.head (hfeeds id hchild) hreach⟩
    · rw [hid] at hold
      exact h.sound id (.inr hold)

/-- A node that is met for the first time comes onto the path, with its fanins ahead of it. -/
theorem fresh (h : c.Exploring starts (.enter e depth :: rest) reached finished quiet)
    (hmem : e.node ∉ reached) (hn : c.kind? e.node = some n.kind) (hid : n.id = e.node)
    (hchildren : ∀ child, child ∈ children ↔ child ∈ n.fanins)
    (hpresent : ∀ child ∈ n.fanins, (c.kind? child.node).isSome = true) :
    c.Exploring starts (children.map (.enter · (depth + 1)) ++ .leave n depth inverted :: rest)
      (reached.insert e.node) finished quiet := by
  have hnew : n.id ∉ finished ∧ n.id ∉ path rest := by
    rw [← not_or, hid]
    exact fun hold => hmem ((h.mem_reached e.node).2 hold)
  have hfeeds : ∀ source, c.Feeds source n.id ↔ source ∈ children.map (·.node) :=
    fun _ => feeds_iff_mem_map_node (hid ▸ hn) hchildren
  have hgrown : ∀ id, id ∈ reached → id ∈ reached.insert e.node :=
    fun _ hold => Std.TreeSet.mem_insert.2 (.inr hold)
  have hdescend : ∀ {settled settled' : NodeId → Prop}, (∀ id, settled id → settled' id) →
      c.Waits settled [e.node] rest → c.Waits settled' []
        (children.map (.enter · (depth + 1)) ++ .leave n depth inverted :: rest) :=
    fun hsettled hwaits => Waits.descend hsettled (fun source => (hfeeds source).1) (hid ▸ hwaits)
  have htargets := target_entered children n depth inverted rest
  have hpaths := path_entered children n depth inverted rest
  refine ⟨?_, h.hangs.descend hid fun child hchild => ?_, ?_, h.nodup, ?_, ?_, ?_, ?_,
    hdescend hgrown h.waits, fun id hleft source hsource => ?_,
    fun hquiet => hdescend (fun _ hleft => hleft) (h.quiet_waits hquiet), h.topological⟩
  · rw [htargets]
    intro id hmem
    rcases List.mem_append.1 hmem with hchild | hold
    · obtain ⟨child, hlisted, rfl⟩ := List.mem_map.1 hchild
      exact hpresent child ((hchildren child).1 hlisted)
    · rw [hid] at hold
      exact h.present id hold
  · exact (hfeeds child.node).2 (List.mem_map.2 ⟨child, hchild, rfl⟩)
  · rw [hpaths]
    exact List.nodup_cons.2 ⟨hnew.2, h.path_nodup⟩
  · rw [hpaths]
    exact h.mem_reached_fresh hid
  · rw [hpaths]
    exact List.forall_mem_cons.2 ⟨hnew.1, h.not_finished⟩
  · rw [htargets]
    intro id hstart
    rcases h.started id hstart with hmem | hmem
    · exact .inl (hgrown id hmem)
    · exact .inr (List.mem_append_right _ (hid ▸ hmem))
  · rw [htargets]
    exact h.sound_fresh hid fun source hsource => (hfeeds source).2 hsource
  · exact hgrown source (h.closed id hleft source hsource)

end Fresh

/-- A node met again on the path depends on itself. -/
theorem not_acyclic {e : Edge} {depth : Nat}
    (h : c.Exploring starts (.enter e depth :: rest) reached finished quiet)
    (hmem : e.node ∈ path rest) : ¬ c.Acyclic := fun hacyclic =>
  hacyclic e.node (h.hangs.transGen hmem)

/-- A walk that is over has left what its starts depend on, and nothing else. -/
theorem mem_finished_iff (h : c.Exploring starts [] reached finished quiet) {id : NodeId} :
    id ∈ finished ↔ ∃ start ∈ starts, ReflTransGen c.Feeds id start := by
  have hreached : ∀ {id}, id ∈ reached ↔ id ∈ finished := by
    intro id
    rw [h.mem_reached]
    exact or_iff_left List.not_mem_nil
  constructor
  · exact fun hid => h.sound id (.inl (hreached.2 hid))
  · rintro ⟨start, hstart, hreach⟩
    induction hreach using ReflTransGen.head_induction_on with
    | refl => exact hreached.1 ((h.started start hstart).resolve_right List.not_mem_nil)
    | head hfeeds _ ih => exact hreached.1 (h.closed _ ih _ hfeeds)

end Exploring

end Circuit

end AndInverter
