import AndInverter.Circuit.Merge
import AndInverter.Proofs.WellFormed.Build
import Mathlib.Tactic.Tauto

namespace AndInverter

namespace Kind

theorem retarget_eq_self {victim : NodeId} {replacement : Edge} {kind : Kind}
    (h : ∀ e ∈ kind.fanins, e.node ≠ victim) : kind.retarget victim replacement = kind := by
  cases kind <;> simp_all [retarget, retarget.move, fanins]

theorem node_move (victim : NodeId) (replacement e : Edge) :
    (retarget.move victim replacement e).node =
      if e.node = victim then replacement.node else e.node := by
  unfold retarget.move
  split <;> simp

theorem retarget_eq_constant_iff {victim : NodeId} {replacement : Edge} {kind : Kind} :
    kind.retarget victim replacement = constant ↔ kind = constant := by
  cases kind <;> simp [retarget]

theorem retarget_eq_input_iff {victim : NodeId} {replacement : Edge} {kind : Kind}
    {inverted : Bool} :
    kind.retarget victim replacement = input inverted ↔ kind = input inverted := by
  cases kind <;> simp [retarget]

end Kind

/-- The node without its edges, on either side. -/
def Node.unlinked (n : Node) : Node := { n with kind := .constant, fanouts := ∅ }

namespace Circuit

/-- Takes `consumer` off the fanouts of `target`. -/
def dropFanout (c : Circuit) (consumer target : NodeId) : Circuit :=
  c.update target fun n => { n with fanouts := n.fanouts.erase consumer }

/-- Moves the edges of `consumer` and leaves the fanouts as they are. -/
def retarget (c : Circuit) (victim : NodeId) (replacement : Edge) (consumer : NodeId) : Circuit :=
  c.update consumer fun n => { n with kind := n.kind.retarget victim replacement }

/-- The circuit in which one consumer of the victim reads the replacement instead. -/
def moveConsumer (c : Circuit) (victim : NodeId) (replacement : Edge) (consumer : NodeId) :
    Circuit :=
  ((c.retarget victim replacement consumer).dropFanout consumer victim).addFanout consumer
    replacement.node

theorem kind?_dropFanout (c : Circuit) (consumer target id : NodeId) :
    (c.dropFanout consumer target).kind? id = c.kind? id :=
  kind?_update c target id fun _ => rfl

/-- One entry is struck, at one source, for one consumer. -/
theorem lists_dropFanout (c : Circuit) (consumer target source other : NodeId) :
    (c.dropFanout consumer target).Lists source other ↔
      c.Lists source other ∧ ¬ (target = source ∧ consumer = other) := by
  unfold Lists dropFanout
  rw [node?_update]
  split
  · next heq =>
    subst heq
    cases c.node? target with
    | none => simp
    | some n =>
      simp only [Option.map_some, Option.some.injEq, exists_eq_left', true_and,
        Std.TreeSet.mem_erase, Std.compare_eq_iff_eq, ne_eq]
      tauto
  · next hne => simp [hne]

theorem kind?_retarget (c : Circuit) (victim : NodeId) (replacement : Edge)
    (consumer id : NodeId) :
    (c.retarget victim replacement consumer).kind? id = (c.kind? id).map fun kind =>
      if id = consumer then kind.retarget victim replacement else kind := by
  unfold retarget kind?
  rw [node?_update]
  by_cases heq : consumer = id
  · subst heq
    simp [Function.comp_def]
  · simp [heq, Ne.symm heq, Function.comp_def]

theorem lists_retarget (c : Circuit) (victim : NodeId) (replacement : Edge)
    (consumer source other : NodeId) :
    (c.retarget victim replacement consumer).Lists source other ↔ c.Lists source other := by
  unfold Lists retarget
  rw [node?_update]
  split
  · next heq =>
    subst heq
    cases c.node? consumer <;> simp
  · rfl

variable {c d : Circuit} {victim consumer : NodeId} {replacement : Edge}

theorem kind?_moveConsumer (c : Circuit) (victim : NodeId) (replacement : Edge)
    (consumer id : NodeId) :
    (c.moveConsumer victim replacement consumer).kind? id = (c.kind? id).map fun kind =>
      if id = consumer then kind.retarget victim replacement else kind := by
  unfold moveConsumer
  rw [kind?_addFanout, kind?_dropFanout, kind?_retarget]

/-- The fanouts of a consumer that is moved: the replacement comes in for the victim. -/
theorem lists_moveConsumer
    (hreplacement : (c.kind? replacement.node).isSome = true) (source other : NodeId) :
    (c.moveConsumer victim replacement consumer).Lists source other ↔
      if other = consumer then source = replacement.node ∨ source ≠ victim ∧ c.Lists source other
      else c.Lists source other := by
  unfold moveConsumer
  rw [lists_addFanout, lists_dropFanout, lists_retarget, ← isSome_kind?, kind?_dropFanout,
    kind?_retarget, Option.isSome_map]
  split
  · next heq =>
    subst heq
    constructor
    · rintro (⟨hlists, hkept⟩ | ⟨hsource, _⟩)
      · exact .inr ⟨fun h => hkept ⟨h.symm, rfl⟩, hlists⟩
      · exact .inl hsource.symm
    · rintro (rfl | ⟨hkept, hlists⟩)
      · exact .inr ⟨rfl, rfl, hreplacement⟩
      · exact .inl ⟨hlists, fun h => hkept h.1.symm⟩
  · next hother =>
    have hconsumer : consumer ≠ other := Ne.symm hother
    simp [hconsumer]

/-- Moving edges changes no node into one of another kind. -/
theorem Indexed.of_retargeted (hc : c.Indexed) (moved : NodeId → Prop) [DecidablePred moved]
    (hown : ∀ {id n}, d.node? id = some n → n.id = id) (hinputs : d.inputs = c.inputs)
    (houtputs : d.outputs = c.outputs) (hmaxVar : d.maxVar = c.maxVar)
    (hkind : ∀ id, d.kind? id = (c.kind? id).map fun kind =>
      if moved id then kind.retarget victim replacement else kind) : d.Indexed := by
  refine ⟨hown, ?_, hinputs ▸ hc.inputs_sorted, ?_, houtputs ▸ hc.outputs_sorted, ?_, ?_⟩
  · intro id
    rw [← hc.constant_iff, hkind]
    split <;> simp [Kind.retarget_eq_constant_iff]
  · intro id
    rw [hinputs, hc.mem_inputs, hkind]
    split <;> simp [Kind.retarget_eq_input_iff]
  · intro id
    rw [houtputs, hc.mem_outputs, hkind]
    cases c.kind? id with
    | none => simp
    | some kind =>
      simp only [Option.some.injEq, Option.map_some, ← Kind.isOutput_iff]
      split <;> simp
  · intro id kind h houtput
    rw [hkind] at h
    obtain ⟨old, hold, rfl⟩ := Option.map_eq_some_iff.1 h
    rw [hmaxVar]
    apply hc.id_le hold
    split at houtput <;> simpa using houtput

theorem Indexed.moveConsumer (hc : c.Indexed) (victim : NodeId) (replacement : Edge)
    (consumer : NodeId) : (c.moveConsumer victim replacement consumer).Indexed := by
  have hretarget : ∀ {id n}, (c.retarget victim replacement consumer).node? id = some n →
      n.id = id := fun hn => own_id_update hc.own_id hn fun _ => rfl
  have hdrop : ∀ {id n}, ((c.retarget victim replacement consumer).dropFanout consumer
      victim).node? id = some n → n.id = id := fun hn => own_id_update hretarget hn fun _ => rfl
  exact hc.of_retargeted (· = consumer) (fun hn => own_id_update hdrop hn fun _ => rfl) rfl rfl rfl
    (kind?_moveConsumer c victim replacement consumer)

/-- A consumer that is moved reads the replacement, and what it read besides the victim. -/
theorem feeds_moveConsumer (hfeeds : c.Feeds victim consumer) (source other : NodeId) :
    (c.moveConsumer victim replacement consumer).Feeds source other ↔
      if other = consumer then source = replacement.node ∨ source ≠ victim ∧ c.Feeds source other
      else c.Feeds source other := by
  unfold Feeds
  rw [kind?_moveConsumer]
  split
  · next heq =>
    subst heq
    obtain ⟨kind, hkind, edge, hedge, hvictim⟩ := hfeeds
    simp only [hkind, Option.map_some, Option.some.injEq, exists_eq_left',
      Kind.fanins_retarget, List.mem_map]
    constructor
    · rintro ⟨_, ⟨e, he, rfl⟩, rfl⟩
      rw [Kind.node_move]
      split
      · exact .inl rfl
      · next hother => exact .inr ⟨hother, e, he, rfl⟩
    · rintro (rfl | ⟨hother, e, he, rfl⟩)
      · exact ⟨_, ⟨edge, hedge, rfl⟩, by rw [Kind.node_move, if_pos hvictim]⟩
      · exact ⟨_, ⟨e, he, rfl⟩, by rw [Kind.node_move, if_neg hother]⟩
  · simp

/-- Both records of every edge agree again once a consumer has been moved. -/
theorem WellFormed.moveConsumer (hc : c.WellFormed)
    (hreplacement : ∃ source, c.kind? replacement.node = some source ∧ source.isOutput = false)
    (hfeeds : c.Feeds victim consumer) :
    (c.moveConsumer victim replacement consumer).WellFormed := by
  obtain ⟨target, htarget, htargetOutput⟩ := hreplacement
  have hkept : ∀ {id : NodeId} {kind : Kind}, c.kind? id = some kind → kind.isOutput = false →
      ∃ source, (c.moveConsumer victim replacement consumer).kind? id = some source ∧
        source.isOutput = false := by
    intro id kind hkind houtput
    rw [kind?_moveConsumer, hkind]
    refine ⟨_, rfl, ?_⟩
    split <;> simpa using houtput
  refine ⟨hc.toIndexed.moveConsumer victim replacement consumer, ?_, ?_⟩
  · intro id kind h e he
    rw [kind?_moveConsumer] at h
    obtain ⟨old, hold, rfl⟩ := Option.map_eq_some_iff.1 h
    split at he
    · rw [Kind.fanins_retarget] at he
      obtain ⟨moved, hmoved, rfl⟩ := List.mem_map.1 he
      rw [Kind.node_move]
      split
      · exact hkept htarget htargetOutput
      · obtain ⟨source, hsource, houtput⟩ := hc.fanin hold moved hmoved
        exact hkept hsource houtput
    · obtain ⟨source, hsource, houtput⟩ := hc.fanin hold e he
      exact hkept hsource houtput
  · intro source other
    rw [lists_moveConsumer (by simp [htarget]), ← hc.mirror, feeds_moveConsumer hfeeds]

/-- In a well-formed circuit the steps of a move find what they look for. -/
theorem WellFormed.redirectConsumer_eq (hc : c.WellFormed)
    (hreplacement : (c.kind? replacement.node).isSome = true) (hfeeds : c.Feeds victim consumer) :
    c.redirectConsumer victim replacement consumer =
      .ok (c.moveConsumer victim replacement consumer) := by
  obtain ⟨n, hn, hmem⟩ := hc.mirror.1 hfeeds
  obtain ⟨kind, hkind, _⟩ := hfeeds
  obtain ⟨m, hm, rfl⟩ := kind?_eq_some_iff.1 hkind
  have hreads : m.reads victim = true := (feeds_iff_reads hm victim).1 (hc.mirror.2 ⟨n, hn, hmem⟩)
  have hvictim : ∃ v, (c.retarget victim replacement consumer).node? victim = some v ∧
      consumer ∈ v.fanouts :=
    (lists_retarget c victim replacement consumer victim consumer).2 ⟨n, hn, hmem⟩
  obtain ⟨v, hv, hlisted⟩ := hvictim
  have htarget : ∃ t, ((c.retarget victim replacement consumer).dropFanout consumer victim).node?
      replacement.node = some t := by
    rw [← Option.isSome_iff_exists, ← isSome_kind?, kind?_dropFanout, kind?_retarget]
    simpa using hreplacement
  obtain ⟨t, ht⟩ := htarget
  have hcontains : v.fanouts.contains consumer = true := Std.TreeSet.contains_iff_mem.2 hlisted
  unfold Circuit.redirectConsumer
  rw [node_eq_ok_iff.2 hm]
  simp only [Bind.bind, Except.bind, hreads, if_true, pure, Except.pure]
  change ((c.retarget victim replacement consumer).node victim).bind _ = _
  rw [node_eq_ok_iff.2 hv]
  simp only [Except.bind, hcontains, if_true]
  change (((c.retarget victim replacement consumer).dropFanout consumer victim).node
    replacement.node).bind _ = _
  rw [node_eq_ok_iff.2 ht]
  rfl

/-- The second circuit is the first one with every edge on the victim moved to the replacement. -/
structure Redirected (c : Circuit) (victim : NodeId) (replacement : Edge) (d : Circuit) : Prop where
  inputs : d.inputs = c.inputs
  outputs : d.outputs = c.outputs
  maxVar : d.maxVar = c.maxVar
  classes : d.classes = c.classes
  kind? : ∀ id, d.kind? id = (c.kind? id).map (·.retarget victim replacement)

/-- Each consumer reads what it read, with the replacement in the place of the victim. -/
theorem Redirected.feeds_iff (h : c.Redirected victim replacement d) {source consumer : NodeId} :
    d.Feeds source consumer ↔
      ∃ old, c.Feeds old consumer ∧ (if old = victim then replacement.node else old) = source := by
  constructor
  · rintro ⟨kind, hkind, e, he, rfl⟩
    rw [h.kind?] at hkind
    obtain ⟨old, hold, rfl⟩ := Option.map_eq_some_iff.1 hkind
    rw [Kind.fanins_retarget] at he
    obtain ⟨moved, hmoved, rfl⟩ := List.mem_map.1 he
    exact ⟨moved.node, ⟨old, hold, moved, hmoved, rfl⟩, (Kind.node_move ..).symm⟩
  · rintro ⟨_, ⟨kind, hkind, e, he, rfl⟩, rfl⟩
    refine ⟨_, by rw [h.kind?, hkind]; rfl, _, ?_, Kind.node_move ..⟩
    rw [Kind.fanins_retarget]
    exact List.mem_map_of_mem he

/-- Consumers are moved one by one. Each of them still reads the victim when its turn comes, so no
    step fails. -/
theorem WellFormed.foldlM_redirectConsumer {consumers : List NodeId} (hnodup : consumers.Nodup)
    (hc : c.WellFormed)
    (hreplacement : ∃ source, c.kind? replacement.node = some source ∧ source.isOutput = false)
    (hfeeds : ∀ consumer ∈ consumers, c.Feeds victim consumer) :
    ∃ d, consumers.foldlM (fun c consumer => c.redirectConsumer victim replacement consumer) c =
        .ok d ∧
      d.WellFormed ∧ d.inputs = c.inputs ∧ d.outputs = c.outputs ∧ d.maxVar = c.maxVar ∧
      d.classes = c.classes ∧ ∀ id, d.kind? id = (c.kind? id).map fun kind =>
        if id ∈ consumers then kind.retarget victim replacement else kind := by
  induction consumers generalizing c with
  | nil =>
    refine ⟨c, rfl, hc, rfl, rfl, rfl, rfl, fun id => ?_⟩
    cases c.kind? id <;> rfl
  | cons consumer consumers ih =>
    obtain ⟨hnotMem, hnodup⟩ := List.nodup_cons.1 hnodup
    obtain ⟨target, htarget, houtput⟩ := hreplacement
    have hconsumer := hfeeds consumer List.mem_cons_self
    have hmoved := hc.moveConsumer ⟨target, htarget, houtput⟩ hconsumer
    have hsome : (c.kind? replacement.node).isSome = true := by simp [htarget]
    have hstep := hc.redirectConsumer_eq hsome hconsumer
    have hkind := kind?_moveConsumer c victim replacement consumer
    have hreplacement : ∃ source, (c.moveConsumer victim replacement consumer).kind?
        replacement.node = some source ∧ source.isOutput = false := by
      rw [hkind, htarget]
      refine ⟨_, rfl, ?_⟩
      split <;> simpa using houtput
    have hrest : ∀ other ∈ consumers,
        (c.moveConsumer victim replacement consumer).Feeds victim other := by
      intro other hother
      have hne : other ≠ consumer := fun h => hnotMem (h ▸ hother)
      obtain ⟨kind, hold, hedge⟩ := hfeeds other (List.mem_cons_of_mem consumer hother)
      exact ⟨kind, by simp [hkind, hold, hne], hedge⟩
    obtain ⟨d, hfold, hd, hinputs, houtputs, hmaxVar, hclasses, hkinds⟩ :=
      ih hnodup hmoved hreplacement hrest
    refine ⟨d, ?_, hd, hinputs, houtputs, hmaxVar, hclasses, fun id => ?_⟩
    · rw [List.foldlM_cons, except_bind_eq_ok_iff]
      exact ⟨_, hstep, hfold⟩
    · rw [hkinds, hkind, Option.map_map]
      congr 1
      funext kind
      by_cases heq : id = consumer
      · subst heq
        simp [hnotMem]
      · simp [heq]

theorem sorted_toList (ids : Std.TreeSet NodeId) : ids.toList.Pairwise (· < ·) :=
  (Std.TreeSet.ordered_toList (t := ids)).imp Std.compare_eq_lt.1

theorem nodup_toList (ids : Std.TreeSet NodeId) : ids.toList.Nodup :=
  (sorted_toList ids).imp UInt64.ne_of_lt

/-- A redirection fails only for a reason that can be told beforehand. What it does when it
    succeeds can be told beforehand as well. -/
theorem WellFormed.redirect (hc : c.WellFormed) (hne : victim ≠ replacement.node)
    (hreplacement : ∃ source, c.kind? replacement.node = some source ∧ source.isOutput = false)
    (hvictim : (c.kind? victim).isSome = true) (hdirect : ¬ c.Feeds victim replacement.node) :
    ∃ d, c.redirect victim replacement = .ok d ∧ c.Redirected victim replacement d ∧
      d.WellFormed := by
  rw [isSome_kind?, Option.isSome_iff_exists] at hvictim
  obtain ⟨n, hn⟩ := hvictim
  have hmem : ∀ consumer, consumer ∈ n.fanouts.toList ↔ c.Feeds victim consumer := by
    intro consumer
    rw [Std.TreeSet.mem_toList, hc.mirror, lists_iff_mem hn]
  obtain ⟨d, hfold, hd, hinputs, houtputs, hmaxVar, hclasses, hkinds⟩ :=
    hc.foldlM_redirectConsumer (nodup_toList n.fanouts) hreplacement fun consumer h =>
      (hmem consumer).1 h
  have hnotListed : n.fanouts.contains replacement.node = false := by
    rw [Bool.eq_false_iff, ne_eq, Std.TreeSet.contains_iff_mem, ← Std.TreeSet.mem_toList, hmem]
    exact hdirect
  refine ⟨d, ?_, ⟨hinputs, houtputs, hmaxVar, hclasses, fun id => ?_⟩, hd⟩
  · unfold Circuit.redirect
    rw [if_neg hne, checkFanin_eq_ok_iff.2 hreplacement, node_eq_ok_iff.2 hn]
    simpa [Bind.bind, Except.bind, hnotListed, pure, Except.pure] using hfold
  · rw [hkinds]
    cases hkind : c.kind? id with
    | none => rfl
    | some kind =>
      simp only [Option.map_some, Option.some.injEq]
      split
      · rfl
      · next hnot =>
        refine (Kind.retarget_eq_self fun e he hvictim => ?_).symm
        exact hnot ((hmem id).2 ⟨kind, hkind, e, he, hvictim⟩)

/-- A redirection that succeeds has passed all its guards. -/
theorem redirect_guards (hredirect : c.redirect victim replacement = .ok d) :
    victim ≠ replacement.node ∧
      (∃ source, c.kind? replacement.node = some source ∧ source.isOutput = false) ∧
      (c.kind? victim).isSome = true ∧ ¬ c.Lists victim replacement.node := by
  unfold Circuit.redirect at hredirect
  split at hredirect
  · cases hredirect
  · next hne =>
    rw [except_bind_eq_ok_iff] at hredirect
    obtain ⟨_, hcheck, hredirect⟩ := hredirect
    rw [except_bind_eq_ok_iff] at hredirect
    obtain ⟨n, hn, hredirect⟩ := hredirect
    rw [node_eq_ok_iff] at hn
    refine ⟨hne, checkFanin_eq_ok_iff.1 hcheck, by simp [kind?_of_node? hn], ?_⟩
    rw [lists_iff_mem hn, ← Std.TreeSet.contains_iff_mem]
    intro hcontains
    rw [if_pos hcontains] at hredirect
    cases hredirect

theorem unlinked_update (c : Circuit) (id other : NodeId) {f : Node → Node}
    (hf : ∀ n, (f n).unlinked = n.unlinked) :
    ((c.update id f).node? other).map Node.unlinked = (c.node? other).map Node.unlinked := by
  rw [node?_update]
  split
  · next heq =>
    subst heq
    rw [Option.map_map]
    exact congrArg ((c.node? id).map ·) (funext hf)
  · rfl

/-- Moving a consumer changes edges and fanouts, and nothing else of any node. -/
theorem unlinked_of_redirectConsumer
    (h : c.redirectConsumer victim replacement consumer = .ok d) (id : NodeId) :
    (d.node? id).map Node.unlinked = (c.node? id).map Node.unlinked := by
  unfold redirectConsumer at h
  obtain ⟨n, _, h⟩ := except_bind_eq_ok_iff.1 h
  split at h
  · obtain ⟨m, _, h⟩ := except_bind_eq_ok_iff.1 h
    split at h
    · obtain ⟨_, _, h⟩ := except_bind_eq_ok_iff.1 h
      obtain rfl := Except.ok.inj h
      rw [addFanout, unlinked_update, unlinked_update, unlinked_update] <;> exact fun _ => rfl
    · cases h
  · cases h

/-- Names, lines and simulated values stay with their nodes when edges move. -/
theorem unlinked_of_redirect (h : c.redirect victim replacement = .ok d) (id : NodeId) :
    (d.node? id).map Node.unlinked = (c.node? id).map Node.unlinked := by
  have hconsumers : ∀ (consumers : List NodeId) (c : Circuit),
      consumers.foldlM (fun c consumer => c.redirectConsumer victim replacement consumer) c = .ok d →
        (d.node? id).map Node.unlinked = (c.node? id).map Node.unlinked := by
    intro consumers
    induction consumers with
    | nil =>
      intro c h
      obtain rfl := Except.ok.inj h
      rfl
    | cons consumer consumers ih =>
      intro c h
      rw [List.foldlM_cons] at h
      obtain ⟨e, hstep, hrest⟩ := except_bind_eq_ok_iff.1 h
      exact (ih e hrest).trans (unlinked_of_redirectConsumer hstep id)
  unfold redirect at h
  split at h
  · cases h
  · obtain ⟨_, _, h⟩ := except_bind_eq_ok_iff.1 h
    obtain ⟨n, _, h⟩ := except_bind_eq_ok_iff.1 h
    dsimp only at h
    split at h
    · cases h
    · exact hconsumers _ _ h

/-- A redirection that succeeds moves the edges on the victim and does nothing else. -/
theorem WellFormed.of_redirect (hc : c.WellFormed)
    (hredirect : c.redirect victim replacement = .ok d) :
    c.Redirected victim replacement d ∧ d.WellFormed := by
  obtain ⟨hne, hreplacement, hvictim, hdirect⟩ := redirect_guards hredirect
  obtain ⟨e, he, hredirected, hwell⟩ :=
    hc.redirect hne hreplacement hvictim fun hfeeds => hdirect (hc.mirror.1 hfeeds)
  obtain rfl : e = d := Except.ok.inj (he.symm.trans hredirect)
  exact ⟨hredirected, hwell⟩

end Circuit

end AndInverter
