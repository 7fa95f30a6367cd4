import AndInverter.Circuit.Edit
import AndInverter.Proofs.Session

namespace AndInverter

namespace Pass

variable {α : Type} {change : Circuit → Except Error (α × Circuit)} {c d : Circuit}

/-- A change that yields a result, and happens as a whole or not at all. -/
def whole (change : Circuit → Except Error (α × Circuit)) : Pass α := fun c =>
  match change c with
  | .ok (a, d) => .ok a d
  | .error failure => .error failure c

theorem whole_of_ok {a : α} (h : change c = .ok (a, d)) : whole change c = .ok a d := by
  rw [whole, h]

theorem whole_of_error {failure : Error} (h : change c = .error failure) :
    whole change c = .error failure c := by
  rw [whole, h]

theorem step_of_error {change : Circuit → Except Error Circuit} {failure : Error}
    (h : change c = .error failure) : step change c = .error failure c := by
  rw [step, h]

theorem whole_congr {other : Circuit → Except Error (α × Circuit)} (h : change c = other c) :
    whole change c = whole other c := by
  rw [whole, whole, h]

/-- A question in front of a change that happens as a whole leaves it whole. -/
theorem ask_bind_eq {β : Type} {question : Circuit → Except Error β} {pass : β → Pass α}
    {change : β → Circuit → Except Error (α × Circuit)}
    (h : ∀ b, question c = .ok b → pass b c = whole (change b) c) :
    (ask question >>= pass) c = whole (fun c => question c >>= (change · c)) c := by
  cases hquestion : question c with
  | error failure =>
    have hchange : (question c >>= (change · c)) = .error failure := by rw [hquestion]; rfl
    rw [whole_of_error hchange]
    exact estateM_bind_of_error (by rw [ask, hquestion]) _
  | ok b =>
    rw [estateM_bind_of_ok (ask_of_ok hquestion), h b hquestion, whole, whole, hquestion]
    rfl

theorem guard_eq {p : Prop} [Decidable p] {failure : Error} {pass : Pass α}
    (h : ¬ p → pass c = whole change c) :
    (if p then throw failure else pass : Pass α) c =
      whole (fun c => if p then .error failure else change c) c := by
  by_cases hp : p
  · rw [if_pos hp, whole_of_error (if_pos hp)]
    rfl
  · rw [if_neg hp, h hp]
    exact whole_congr (if_neg hp).symm

end Pass

namespace Edit

open Circuit

variable {c d : Circuit} {id consumer target victim : NodeId} {replacement : Edge}

theorem change_of_ok {check : Node → Except Error Unit} {n : Node} (hn : c.node? id = some n)
    (hcheck : check n = .ok ()) (f : Node → Node) :
    change id check f c = .ok () (c.update id f) := by
  simp [change, Pass.step, node_eq_ok_iff.2 hn, hcheck, Bind.bind, Except.bind, pure, Except.pure]

theorem listConsumer_eq (htarget : (c.kind? target).isSome = true) (consumer : NodeId) :
    listConsumer consumer target c = .ok () (c.addFanout consumer target) := by
  rw [isSome_kind?, Option.isSome_iff_exists] at htarget
  obtain ⟨n, hn⟩ := htarget
  exact change_of_ok hn rfl _

theorem forM_listConsumer_eq {edges : List Edge}
    (hedges : ∀ e ∈ edges, (c.kind? e.node).isSome = true) (consumer : NodeId) :
    edges.forM (fun e => listConsumer consumer e.node) c =
      .ok () (edges.foldl (fun c e => c.addFanout consumer e.node) c) := by
  refine (estateM_forM_eq (P := fun d => ∀ e ∈ edges, (d.kind? e.node).isSome = true) hedges
    fun e he d hd => ⟨listConsumer_eq (hd e he) consumer, fun other hother => ?_⟩).1
  rw [kind?_addFanout]
  exact hd other hother

/-- A node whose fanins are there is entered as a whole or not at all. -/
theorem attach_eq {n : Node} (hfanins : ∀ e ∈ n.fanins, (c.kind? e.node).isSome = true) :
    attach n c = Pass.whole (fun c => (c.attach n).map (n.id, ·)) c := by
  cases hcheck : c.checkId n.id with
  | error failure =>
    have hdeclare : c.declare n = .error failure := by rw [declare, hcheck]; rfl
    have hattach : c.attach n = .error failure := by rw [Circuit.attach, hdeclare]; rfl
    have hmap : (c.attach n).map (n.id, ·) = .error failure := by rw [hattach]; rfl
    rw [Pass.whole_of_error hmap]
    exact estateM_bind_of_error (Pass.step_of_error hdeclare) _
  | ok _ =>
    have hdeclare : c.declare n = .ok (c.insert n) := by rw [declare, hcheck]; rfl
    have hattach : c.attach n = .ok (n.fanins.foldl (fun c e => c.addFanout n.id e.node)
        (c.insert n)) := by rw [Circuit.attach, hdeclare]; rfl
    have hinserted : ∀ e ∈ n.fanins, ((c.insert n).kind? e.node).isSome = true := by
      intro e he
      rw [kind?_insert]
      split
      · rfl
      · exact hfanins e he
    rw [Pass.whole_of_ok (by rw [hattach]; rfl)]
    refine (estateM_bind_of_ok (Pass.step_of_ok hdeclare) _).trans ?_
    exact estateM_bind_of_ok (forM_listConsumer_eq hinserted n.id) _

theorem addInput_eq (c : Circuit) (id : NodeId) :
    addInput id c = Pass.whole (fun c => (c.addInput id).map (id, ·)) c :=
  attach_eq (n := .fresh id (.input false) 0) nofun

/-- The check of a new id may be made once more in front. -/
theorem checkId_bind_attach {β : Type} (c : Circuit) (n : Node) (f : Circuit → β) :
    (c.checkId n.id >>= fun _ => (c.attach n).map f) = (c.attach n).map f := by
  cases hcheck : c.checkId n.id with
  | error failure =>
    rw [Circuit.attach, declare, hcheck]
    rfl
  | ok _ => rfl

theorem isSome_of_checkFanin {e : Edge} (h : c.checkFanin e = .ok ()) :
    (c.kind? e.node).isSome = true := by
  obtain ⟨kind, hkind, _⟩ := checkFanin_eq_ok_iff.1 h
  rw [hkind]
  rfl

/-- The fanouts are written only after all checks, so a gate that is refused leaves nothing
    behind. -/
theorem addGate_eq (c : Circuit) (id : NodeId) (left right : Edge) :
    addGate id left right c = Pass.whole (fun c => (c.addGate id left right).map (id, ·)) c := by
  have hfanins : c.checkFanin left = .ok () → c.checkFanin right = .ok () →
      ∀ e ∈ (Kind.gate left right).fanins, (c.kind? e.node).isSome = true := by
    intro hleft hright e he
    simp only [Kind.fanins, List.mem_cons, List.not_mem_nil, or_false] at he
    rcases he with rfl | rfl
    · exact isSome_of_checkFanin hleft
    · exact isSome_of_checkFanin hright
  refine (Pass.ask_bind_eq fun _ hleft => Pass.ask_bind_eq fun _ hright =>
    Pass.ask_bind_eq fun _ _ => attach_eq (n := .fresh id (.gate left right) 0)
      (hfanins hleft hright)).trans (Pass.whole_congr ?_)
  unfold Circuit.addGate
  cases c.checkFanin left with
  | error => rfl
  | ok _ =>
    cases c.checkFanin right with
    | error => rfl
    | ok _ => exact checkId_bind_attach c (.fresh id (.gate left right) 0) (id, ·)

theorem addOutput_eq (c : Circuit) (driver : Edge) :
    addOutput driver c = Pass.whole (·.addOutput driver) c := by
  have hfanins : c.checkFanin driver = .ok () →
      ∀ e ∈ (Kind.output driver).fanins, (c.kind? e.node).isSome = true := by
    intro hdriver e he
    rw [List.mem_singleton.1 he]
    exact isSome_of_checkFanin hdriver
  refine (Pass.ask_bind_eq fun _ hdriver => Pass.ask_bind_eq fun id _ =>
    attach_eq (n := .fresh id (.output driver) 0) (hfanins hdriver)).trans (Pass.whole_congr ?_)
  rfl

/-- What moving one consumer does as a whole, the steps do one after the other. -/
theorem redirectConsumer_of_ok (h : c.redirectConsumer victim replacement consumer = .ok d) :
    redirectConsumer victim replacement consumer c = .ok () d := by
  unfold Circuit.redirectConsumer at h
  obtain ⟨n, hn, h⟩ := except_bind_eq_ok_iff.1 h
  split at h
  · next hreads =>
    obtain ⟨v, hv, h⟩ := except_bind_eq_ok_iff.1 h
    split at h
    · next hlisted =>
      obtain ⟨t, ht, h⟩ := except_bind_eq_ok_iff.1 h
      obtain rfl := Except.ok.inj h
      have hmove : moveEdges victim replacement consumer c =
          .ok () (c.retarget victim replacement consumer) :=
        change_of_ok (node_eq_ok_iff.1 hn) (by rw [hreads]; rfl) _
      have hdelist : delistConsumer consumer victim (c.retarget victim replacement consumer) =
          .ok () ((c.retarget victim replacement consumer).dropFanout consumer victim) :=
        change_of_ok (node_eq_ok_iff.1 hv) (by rw [hlisted]; rfl) _
      refine (estateM_bind_of_ok hmove _).trans ((estateM_bind_of_ok hdelist _).trans ?_)
      exact change_of_ok (node_eq_ok_iff.1 ht) rfl _
    · cases h
  · cases h

/-- Consumers moved in place, one after the other, come to the same as on copies if no move
    fails. -/
theorem forM_redirectConsumer_of_ok {consumers : List NodeId}
    (h : consumers.foldlM (fun c consumer => c.redirectConsumer victim replacement consumer) c =
      .ok d) :
    consumers.forM (redirectConsumer victim replacement) c = .ok () d := by
  induction consumers generalizing c with
  | nil =>
    obtain rfl := Except.ok.inj h
    rfl
  | cons consumer consumers ih =>
    rw [List.foldlM_cons] at h
    obtain ⟨e, hstep, hrest⟩ := except_bind_eq_ok_iff.1 h
    rw [List.forM, estateM_bind_of_ok (redirectConsumer_of_ok hstep)]
    exact ih hrest

theorem mem_fanouts_iff (hc : c.WellFormed) {n : Node} (hn : c.node? victim = some n) :
    consumer ∈ n.fanouts.toList ↔ c.Feeds victim consumer := by
  rw [Std.TreeSet.mem_toList, hc.mirror, lists_iff_mem hn]

/-- In a well-formed circuit no step of a redirection fails once the first edge has moved. -/
theorem redirect_eq (hc : c.WellFormed) (victim : NodeId) (replacement : Edge) :
    redirect victim replacement c =
      Pass.whole (fun c => (c.redirect victim replacement).map ((), ·)) c := by
  have hmoves : ∀ n, c.node victim = .ok n → c.checkFanin replacement = .ok () →
      n.fanouts.toList.forM (redirectConsumer victim replacement) c =
        Pass.whole (fun c => (n.fanouts.toList.foldlM (fun (c : Circuit) consumer =>
          c.redirectConsumer victim replacement consumer) c).map ((), ·)) c := by
    intro n hn hreplacement
    obtain ⟨d, hfold, _⟩ := hc.foldlM_redirectConsumer (nodup_toList n.fanouts)
      (checkFanin_eq_ok_iff.1 hreplacement) fun consumer h =>
        (mem_fanouts_iff hc (node_eq_ok_iff.1 hn)).1 h
    rw [forM_redirectConsumer_of_ok hfold, Pass.whole_of_ok (by rw [hfold]; rfl)]
  refine (Pass.guard_eq fun _ => Pass.ask_bind_eq fun _ hreplacement => Pass.ask_bind_eq
    fun n hn => Pass.guard_eq fun _ => hmoves n hn hreplacement).trans (Pass.whole_congr ?_)
  unfold Circuit.redirect
  by_cases hself : victim = replacement.node
  · rw [if_pos hself, if_pos hself]
    rfl
  rw [if_neg hself, if_neg hself]
  cases c.checkFanin replacement with
  | error => rfl
  | ok _ =>
    cases c.node victim with
    | error => rfl
    | ok n =>
      by_cases hdirect : n.fanouts.contains replacement.node = true
      · simp only [Bind.bind, Except.bind, if_pos hdirect]
        rfl
      · simp only [Bind.bind, Except.bind, if_neg hdirect]

/-- The edit is what a session does for the operation. It fails if and only if there is an obstacle,
    and then it has changed nothing. Otherwise `done` holds of its result and of the circuit that it
    leaves. -/
structure Settled {α : Type} (op : Operation) (edit : Pass α) (c : Circuit) (obstacle : Prop)
    (done : α → Circuit → Prop) : Prop where
  performed : op.perform c = Operation.runPass edit c
  fails_iff : (∃ failure d, edit c = .error failure d) ↔ obstacle
  unchanged : ∀ {failure d}, edit c = .error failure d → d = c
  done : ∀ {a d}, edit c = .ok a d → done a d

/-- An edit that is the same as a change made at once is settled by what is known of the change. -/
theorem settled_of_whole {α : Type} {op : Operation} {edit : Pass α} {obstacle : Prop}
    {done : α → Circuit → Prop} {change : Circuit → Except Error (α × Circuit)}
    (hop : op.perform c = Operation.attempt ((change c).map (·.2)) c)
    (hedit : edit c = Pass.whole change c)
    (hsucceeds : (∃ a d, change c = .ok (a, d)) ↔ ¬ obstacle)
    (hdone : ∀ a d, change c = .ok (a, d) → done a d) : Settled op edit c obstacle done := by
  have hperformed : op.perform c = Operation.runPass edit c := by
    rw [hop, Operation.runPass, hedit, Pass.whole]
    cases change c <;> rfl
  cases hchange : change c with
  | error failure =>
    rw [Pass.whole_of_error hchange] at hedit
    have hobstacle : obstacle := by
      by_contra hnone
      obtain ⟨a, d, hok⟩ := hsucceeds.2 hnone
      cases hchange.symm.trans hok
    refine ⟨hperformed, ⟨fun _ => hobstacle, fun _ => ⟨failure, c, hedit⟩⟩, fun herror => ?_,
      fun hok => ?_⟩
    · cases hedit.symm.trans herror
      rfl
    · cases hedit.symm.trans hok
  | ok result =>
    obtain ⟨a, d⟩ := result
    rw [Pass.whole_of_ok hchange] at hedit
    have hnone := hsucceeds.1 ⟨a, d, hchange⟩
    refine ⟨hperformed, ⟨fun hfails => ?_, fun hobstacle => absurd hobstacle hnone⟩,
      fun herror => ?_, fun hok => ?_⟩
    · obtain ⟨failure, left, herror⟩ := hfails
      cases hedit.symm.trans herror
    · cases hedit.symm.trans herror
    · cases hedit.symm.trans hok
      exact hdone a d hchange

/-- The same for a change that returns a circuit and an id known beforehand. -/
theorem settled_of_map {α : Type} {op : Operation} {edit : Pass α} {a : α} {obstacle : Prop}
    {done : α → Circuit → Prop} {change : Circuit → Except Error Circuit}
    (hop : op.perform c = Operation.attempt (change c) c)
    (hedit : edit c = Pass.whole (fun c => (change c).map (a, ·)) c)
    (hsucceeds : (∃ d, change c = .ok d) ↔ ¬ obstacle)
    (hdone : ∀ d, change c = .ok d → done a d) : Settled op edit c obstacle done := by
  refine settled_of_whole (hop.trans ?_) hedit (Iff.trans ?_ hsucceeds) fun b d hchange => ?_
  · cases change c <;> rfl
  · constructor
    · rintro ⟨b, d, hchange⟩
      obtain ⟨e, hchange, _⟩ := except_map_eq_ok_iff.1 hchange
      exact ⟨e, hchange⟩
    · rintro ⟨d, hchange⟩
      exact ⟨a, d, except_map_eq_ok_iff.2 ⟨d, hchange, rfl⟩⟩
  · obtain ⟨e, hchange, heq⟩ := except_map_eq_ok_iff.1 hchange
    cases heq
    exact hdone d hchange

/-- The second circuit is the first one with one more node, which its fanins list. -/
structure Grown (c : Circuit) (id : NodeId) (kind : Kind) (d : Circuit) : Prop where
  kind? : ∀ other, d.kind? other = if other = id then some kind else c.kind? other
  lists : ∀ {source consumer}, d.Lists source consumer ↔
    c.Lists source consumer ∨ consumer = id ∧ ∃ e ∈ kind.fanins, e.node = source
  inputs : d.inputs = if kind.isInput then insertSorted id c.inputs else c.inputs
  outputs : d.outputs = if kind.isOutput then c.outputs ++ [id] else c.outputs
  maxVar : d.maxVar = if kind.isInput || kind.isGate then max c.maxVar id else c.maxVar
  classes : d.classes = c.classes

/-- Attaching adds one node and one fanout for each of its edges, and changes nothing else. -/
theorem grown_of_attach {kind : Kind} (hattach : c.attach (.fresh id kind 0) = .ok d)
    (hfanins : ∀ e ∈ kind.fanins, (c.kind? e.node).isSome = true) : Grown c id kind d := by
  have hkind := kind?_of_attach hattach
  have hclasses := classes_of_attach hattach
  obtain ⟨_, hfresh, rfl⟩ := attach_eq_ok_iff.1 hattach
  obtain ⟨hinputs, houtputs, hmaxVar, _⟩ := foldl_addFanout_lists
    (c.insert (.fresh id kind 0)) id kind.fanins
  refine ⟨fun other => ?_, fun {source consumer} => ?_, ?_, ?_, ?_, hclasses⟩
  · rw [hkind]
    exact if_congr eq_comm rfl rfl
  · rw [lists_foldl_addFanout, lists_insert hfresh rfl]
    refine or_congr_right ?_
    constructor
    · rintro ⟨hedge, rfl, _⟩
      exact ⟨rfl, hedge⟩
    · rintro ⟨rfl, e, he, rfl⟩
      refine ⟨⟨e, he, rfl⟩, rfl, ?_⟩
      rw [← isSome_kind?, kind?_insert]
      split
      · rfl
      · exact hfanins e he
  · exact hinputs.trans (inputs_insert c _)
  · exact houtputs.trans (outputs_insert c _)
  · exact hmaxVar.trans (maxVar_insert c _)

/-- There is no node to read, or it is an output. -/
def CannotDrive (c : Circuit) (id : NodeId) : Prop :=
  c.kind? id = none ∨ ∃ driver, c.kind? id = some (.output driver)

theorem not_cannotDrive_iff {id : NodeId} :
    ¬ CannotDrive c id ↔ ∃ source, c.kind? id = some source ∧ source.isOutput = false := by
  unfold CannotDrive
  cases c.kind? id with
  | none => simp
  | some kind => cases kind <;> simp [Kind.isOutput]

theorem attach_succeeds_iff (c : Circuit) (id : NodeId) (kind : Kind) :
    (∃ d, c.attach (.fresh id kind 0) = .ok d) ↔ ¬ (id = 0 ∨ (c.kind? id).isSome = true) := by
  rw [isSome_kind?]
  simp only [attach_eq_ok_iff, Node.fresh]
  cases c.node? id <;> simp

theorem addGate_succeeds_iff {left right : Edge} :
    (∃ d, c.addGate id left right = .ok d) ↔
      ¬ CannotDrive c left.node ∧ ¬ CannotDrive c right.node ∧
        ¬ (id = 0 ∨ (c.kind? id).isSome = true) := by
  rw [not_cannotDrive_iff, not_cannotDrive_iff, ← checkFanin_eq_ok_iff, ← checkFanin_eq_ok_iff,
    ← attach_succeeds_iff c id (.gate left right)]
  unfold Circuit.addGate
  simp only [except_seq_eq_ok_iff, exists_and_left]

/-- The largest of some ids is one of them, or the bound to start with. -/
theorem foldl_max_cases (ids : List NodeId) (bound : NodeId) :
    ids.foldl max bound = bound ∨ ids.foldl max bound ∈ ids := by
  induction ids generalizing bound with
  | nil => exact .inl rfl
  | cons id ids ih =>
    rw [List.foldl_cons, List.mem_cons]
    rcases ih (max bound id) with hbound | hmem
    · rw [hbound, max_eq_ite]
      split
      · exact .inr (.inl rfl)
      · exact .inl rfl
    · exact .inr (.inr hmem)

/-- No id is left for an output if the largest number is in use or set aside. -/
theorem lastId_add_one_eq_zero_iff :
    c.lastId + 1 = 0 ↔
      ∃ last, (last = c.maxVar ∨ (c.kind? last).isSome = true) ∧ last.toNat = UInt64.size - 1 := by
  have hlast : c.lastId + 1 = 0 ↔ c.lastId.toNat = UInt64.size - 1 := by
    rw [← UInt64.toNat_inj, UInt64.toNat_add]
    have hlt := c.lastId.toNat_lt
    simp only [UInt64.toNat_one, UInt64.toNat_zero, UInt64.size]
    omega
  rw [hlast]
  constructor
  · intro h
    refine ⟨c.lastId, ?_, h⟩
    rw [← mem_ids]
    exact foldl_max_cases c.ids c.maxVar
  · rintro ⟨last, hused, h⟩
    have hle : last ≤ c.lastId := by
      rcases hused with rfl | hsome
      · exact (le_foldl_max c.ids c.maxVar).1
      · exact le_lastId hsome
    have hlt := c.lastId.toNat_lt
    rw [UInt64.le_iff_toNat_le] at hle
    rw [UInt64.size] at h ⊢
    omega

/-- An output is added unless its driver cannot be one or the ids are used up. -/
theorem addOutput_succeeds_iff {driver : Edge} :
    (∃ made d, c.addOutput driver = .ok (made, d)) ↔
      ¬ CannotDrive c driver.node ∧ c.lastId + 1 ≠ 0 := by
  rw [not_cannotDrive_iff, ← checkFanin_eq_ok_iff]
  constructor
  · rintro ⟨made, d, hadd⟩
    obtain ⟨hid, _, hdriver⟩ := of_addOutput hadd
    exact ⟨checkFanin_eq_ok_iff.2 hdriver, (outputId_eq_ok_iff.1 hid).1⟩
  · rintro ⟨hdriver, hroom⟩
    have hid := outputId_eq_ok_iff.2 ⟨hroom, rfl⟩
    have hfresh : ¬ (c.lastId + 1 = 0 ∨ (c.kind? (c.lastId + 1)).isSome = true) := by
      rintro (hzero | hsome)
      · exact hroom hzero
      · exact UInt64.lt_irrefl _ (lt_outputId hid hsome)
    obtain ⟨d, hattach⟩ := (attach_succeeds_iff c (c.lastId + 1) (.output driver)).2 hfresh
    refine ⟨c.lastId + 1, d, ?_⟩
    rw [Circuit.addOutput, hdriver, hid]
    simp only [Bind.bind, Except.bind, hattach]
    rfl

/-- The survivor has taken over the edges on the victim. Each of them passes one inverter more if
    asked, and nothing else is changed. -/
structure Absorbed (c : Circuit) (victim survivor : NodeId) (inverted : Bool) (d : Circuit) :
    Prop where
  inputs : d.inputs = c.inputs
  outputs : d.outputs = c.outputs
  maxVar : d.maxVar = c.maxVar
  classes : d.classes = c.classes
  missing : ∀ {id}, d.node? id = none ↔ c.node? id = none
  node : ∀ {id n m}, c.node? id = some n → d.node? id = some m →
    m = { n with kind := n.kind.retarget victim ⟨survivor, inverted⟩, fanouts := m.fanouts }
  fanins : ∀ {id n m}, c.node? id = some n → d.node? id = some m →
    m.fanins = n.fanins.map fun e =>
      if e.node = victim then ⟨survivor, e.inverted ^^ inverted⟩ else e
  lists : ∀ {id reader}, d.Lists id reader ↔
    id ≠ victim ∧ (c.Lists id reader ∨ id = survivor ∧ c.Lists victim reader)

/-- What a merge leaves: the consumers of the victim read the survivor, and the victim none. -/
theorem absorbed_of_merge (hc : c.WellFormed) {survivor : NodeId} {inverted : Bool}
    (hmerge : c.merge victim survivor inverted = .ok d) :
    Absorbed c victim survivor inverted d := by
  obtain ⟨hredirected, hd⟩ := hc.of_redirect hmerge
  obtain ⟨hne, _⟩ := redirect_guards hmerge
  have hnode : ∀ {id n m}, c.node? id = some n → d.node? id = some m →
      m = { n with kind := n.kind.retarget victim ⟨survivor, inverted⟩, fanouts := m.fanouts } := by
    intro id n m hn hm
    have hkind := hredirected.kind? id
    have hrest := unlinked_of_redirect hmerge id
    rw [kind?_of_node? hn, kind?_of_node? hm] at hkind
    rw [hn, hm] at hrest
    simp only [Option.map_some, Option.some.injEq, Node.unlinked, Node.mk.injEq] at hkind hrest
    cases m
    simp_all
  refine ⟨hredirected.inputs, hredirected.outputs, hredirected.maxVar, hredirected.classes,
    fun {id} => ?_, hnode, fun hn hm => ?_, fun {id reader} => ?_⟩
  · rw [← kind?_eq_none_iff, ← kind?_eq_none_iff, hredirected.kind?, Option.map_eq_none_iff]
  · rw [hnode hn hm, Node.fanins, Kind.fanins_retarget]
    refine List.map_congr_left fun e _ => ?_
    unfold Kind.retarget.move
    split
    · rw [Edge.invertIf, Bool.xor_comm]
    · rfl
  · rw [← hd.mirror, ← hc.mirror, ← hc.mirror, hredirected.feeds_iff]
    constructor
    · rintro ⟨old, hold, rfl⟩
      split
      · next hvictim => exact ⟨hne.symm, .inr ⟨rfl, hvictim ▸ hold⟩⟩
      · next hother => exact ⟨hother, .inl hold⟩
    · rintro ⟨hother, hold | ⟨rfl, hold⟩⟩
      · exact ⟨id, hold, if_neg hother⟩
      · exact ⟨victim, hold, if_pos rfl⟩

/-- A merge fails for the four reasons that its guards have, and for no other. -/
theorem merge_succeeds_iff (hc : c.WellFormed) {survivor : NodeId} {inverted : Bool} :
    (∃ d, c.merge victim survivor inverted = .ok d) ↔
      ¬ (victim = survivor ∨ CannotDrive c survivor ∨ c.kind? victim = none ∨
        c.Feeds victim survivor) := by
  rw [not_or, not_or, not_or, not_cannotDrive_iff, ← ne_eq (c.kind? victim) none,
    ← Option.isSome_iff_ne_none]
  constructor
  · rintro ⟨d, hmerge⟩
    obtain ⟨hne, hsurvivor, hvictim, hdirect⟩ := redirect_guards hmerge
    exact ⟨hne, hsurvivor, hvictim, fun hfeeds => hdirect (hc.mirror.1 hfeeds)⟩
  · rintro ⟨hne, hsurvivor, hvictim, hdirect⟩
    have hmerge : ∃ d, c.merge victim survivor inverted = .ok d ∧ _ :=
      hc.redirect hne hsurvivor hvictim hdirect
    exact hmerge.imp fun d hd => hd.1

/-- What each edit refuses, and what it does otherwise. -/
structure Exact (c : Circuit) : Prop where
  addInput : ∀ id, Settled (.addInput id) (addInput id) c
    (id = 0 ∨ (c.kind? id).isSome = true)
    fun made d => made = id ∧ Grown c id (.input false) d
  addGate : ∀ id left right, Settled (.addGate id left right) (addGate id left right) c
    (CannotDrive c left.node ∨ CannotDrive c right.node ∨ id = 0 ∨ (c.kind? id).isSome = true)
    fun made d => made = id ∧ Grown c id (.gate left right) d
  addOutput : ∀ driver, Settled (.addOutput driver) (addOutput driver) c
    (CannotDrive c driver.node ∨
      ∃ last, (last = c.maxVar ∨ (c.kind? last).isSome = true) ∧ last.toNat = UInt64.size - 1)
    fun made d => Grown c made (.output driver) d ∧ c.maxVar < made ∧
      ∀ id, (c.kind? id).isSome = true → id < made
  merge : ∀ victim survivor inverted, Settled (.merge victim survivor inverted)
    (merge victim survivor inverted) c
    (victim = survivor ∨ CannotDrive c survivor ∨ c.kind? victim = none ∨
      c.Feeds victim survivor)
    fun _ d => Absorbed c victim survivor inverted d

/-- In every state of every session, cyclic or not, an edit fails for exactly these reasons and
    then leaves the circuit as it was, although it changes one record after the other. The sessions
    carry their edits out in this way. -/
theorem exact_after (ops : List Operation) : Exact (empty.after ops) where
  addInput id := settled_of_map rfl (addInput_eq _ id) (attach_succeeds_iff _ id _)
    fun _ hadd => ⟨rfl, grown_of_attach hadd nofun⟩
  addGate id left right := by
    refine settled_of_map rfl (addGate_eq _ id left right) ?_ fun d hadd => ⟨rfl, ?_⟩
    · rw [addGate_succeeds_iff, ← not_or, ← not_or]
    · obtain ⟨hattach, hfanins⟩ := of_addGate hadd
      refine grown_of_attach hattach fun e he => ?_
      obtain ⟨source, hsource, _⟩ := hfanins e he
      rw [hsource]
      rfl
  addOutput driver := by
    refine settled_of_whole rfl (addOutput_eq _ driver) ?_ fun made d hadd => ?_
    · rw [addOutput_succeeds_iff, not_or, ← lastId_add_one_eq_zero_iff]
    · obtain ⟨hid, hattach, source, hsource, _⟩ := of_addOutput hadd
      refine ⟨grown_of_attach hattach fun e he => ?_, maxVar_lt_outputId hid,
        fun id => lt_outputId hid⟩
      rw [List.mem_singleton.1 he, hsource]
      rfl
  merge victim survivor inverted := by
    have hc := wellFormed_empty.after ops
    exact settled_of_map rfl (redirect_eq hc victim ⟨survivor, inverted⟩) (merge_succeeds_iff hc)
      fun d hmerge => absorbed_of_merge hc hmerge

end Edit

end AndInverter
