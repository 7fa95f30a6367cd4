import AndInverter.Proofs.Simulation.Groups

namespace AndInverter

theorem filter_sublist_filter {α : Type} {p q : α → Bool} {l : List α}
    (h : ∀ a ∈ l, p a = true → q a = true) : (l.filter p).Sublist (l.filter q) := by
  have hfilter : (l.filter q).filter p = l.filter p := by
    rw [List.filter_filter]
    refine List.filter_congr fun a ha => ?_
    cases hp : p a with
    | false => rfl
    | true => exact h a ha hp
  rw [← hfilter]
  exact List.filter_sublist

/-- No group is empty. -/
def Classes.Inhabited (classes : Classes) : Prop := ∀ group ∈ classes.groups.values, group ≠ []

theorem Classes.inhabited_empty : Classes.empty.Inhabited := by
  intro group hgroup
  obtain ⟨key, hkey⟩ := mem_values_iff.1 hgroup
  simp [empty] at hkey

theorem Classes.inhabited_insert {classes : Classes} (h : classes.Inhabited) (signature : Signature)
    (id : NodeId) : (classes.insert signature id).Inhabited := by
  intro group hgroup
  obtain ⟨key, hkey⟩ := mem_values_iff.1 hgroup
  rw [insert, Std.TreeMap.getElem?_alter] at hkey
  split at hkey
  · obtain rfl := Option.some.inj hkey
    exact List.append_ne_nil_of_right_ne_nil _ (List.cons_ne_nil id [])
  · exact h group (mem_values_iff.2 ⟨key, hkey⟩)

namespace Circuit

variable {c d e : Circuit} {patterns patterns' : List (List Bool)} {order order' : List NodeId}

/-- A group is made for its first member, so none is empty. -/
theorem inhabited_of_classify (h : c.classify = .ok d) : d.classes.Inhabited := by
  have hfold : ∀ (order : List NodeId) (classes grouped : Classes), classes.Inhabited →
      order.foldlM (fun classes id => do
        let n ← c.node id
        return if n.kind.isGate then classes.insert n.signature id else classes) classes =
          .ok grouped → grouped.Inhabited := by
    intro order
    induction order with
    | nil =>
      intro classes grouped hclasses hrun
      obtain rfl := Except.ok.inj hrun
      exact hclasses
    | cons id order ih =>
      intro classes grouped hclasses hrun
      rw [List.foldlM_cons] at hrun
      obtain ⟨next, hstep, hrest⟩ := except_bind_eq_ok_iff.1 hrun
      obtain ⟨n, _, hnext⟩ := except_bind_eq_ok_iff.1 hstep
      obtain rfl := Except.ok.inj hnext
      refine ih _ grouped ?_ hrest
      split
      · exact Classes.inhabited_insert hclasses n.signature id
      · exact hclasses
  obtain ⟨classes, hclasses, hd⟩ := except_bind_eq_ok_iff.1 h
  obtain rfl := Except.ok.inj hd
  obtain ⟨order, _, hrun⟩ := except_bind_eq_ok_iff.1 hclasses
  exact hfold order .empty classes Classes.inhabited_empty hrun

/-- The gates are in one group, which suggests their merge unless they are one gate. -/
def Classmates (c : Circuit) (a b : NodeId) : Prop :=
  ∃ group ∈ c.classes.groups.values, a ∈ group ∧ b ∈ group ∧ (a ≠ b → group ∈ c.classes.candidates)

/-- The second circuit has been simulated with more patterns than the first one: its signatures go
    on where those of the first one end, its groups are parts of the groups of the first one, and no
    two gates with the same function have been told apart. -/
structure Refines (c d e : Circuit) : Prop where
  signature? : ∀ id, (c.kind? id).isSome = true → ∃ short long,
    d.signature? id = some short ∧ e.signature? id = some long ∧ short.toList <+: long.toList
  group : ∀ group ∈ e.classes.groups.values, ∃ whole ∈ d.classes.groups.values, group.Sublist whole
  candidate : ∀ group ∈ e.classes.candidates, ∃ whole ∈ d.classes.candidates, group.Sublist whole
  together : ∀ a b, c.LiveGate a → c.LiveGate b → c.SameFunction a b →
    d.Classmates a b ∧ e.Classmates a b

theorem Sampled.signature?_prefix (hd : c.Sampled patterns d) (he : c.Sampled patterns' e)
    (hinitial : patterns <+: patterns') {id : NodeId} (hid : (c.kind? id).isSome = true) :
    ∃ short long, d.signature? id = some short ∧ e.signature? id = some long ∧
      short.toList <+: long.toList := by
  by_cases hobserved : c.Observed id
  · exact ⟨_, _, hd.observed id hobserved, he.observed id hobserved, hinitial.map _⟩
  · exact ⟨_, _, hd.silent id hid hobserved, he.silent id hid hobserved, List.prefix_refl _⟩

/-- What more patterns do not tell apart, fewer do not either. -/
theorem Sampled.signature?_eq_of_prefix (hd : c.Sampled patterns d) (he : c.Sampled patterns' e)
    (hinitial : patterns <+: patterns') {a b : NodeId} (ha : c.Observed a) (hb : c.Observed b)
    (hsame : e.signature? b = e.signature? a) : d.signature? b = d.signature? a := by
  rw [he.observed a ha, he.observed b hb] at hsame
  rw [hd.observed a ha, hd.observed b hb]
  have hvalues := congrArg Array.toList (Option.some.inj hsame)
  refine congrArg (fun values : List Bool => some values.toArray) (List.map_congr_left ?_)
  exact fun bits hbits => List.map_inj_left.1 hvalues bits (hinitial.subset hbits)

theorem Grouped.classmates (hgrouped : d.Grouped order) {a b : NodeId} (ha : d.LiveGate a)
    (hb : d.LiveGate b) (hsame : d.signature? b = d.signature? a) : d.Classmates a b := by
  obtain ⟨group, hgroup, hamem, hbmem⟩ := (hgrouped.exists_group_iff ha hb).2 hsame
  refine ⟨group, hgroup, hamem, hbmem, fun hne => List.mem_filter.2 ⟨hgroup, ?_⟩⟩
  rcases group with _ | ⟨first, _ | ⟨second, rest⟩⟩
  · cases hamem
  · rw [List.mem_singleton] at hamem hbmem
    exact absurd (hamem.trans hbmem.symm) hne
  · simp

theorem Sampled.classmates (hd : c.Sampled patterns d) (hgrouped : d.Grouped order) {a b : NodeId}
    (ha : c.LiveGate a) (hb : c.LiveGate b) (hsame : c.SameFunction a b) : d.Classmates a b := by
  refine hgrouped.classmates (hd.shape.liveGate.2 ha) (hd.shape.liveGate.2 hb) ?_
  rw [hd.observed a (.inr ha.1), hd.observed b (.inr hb.1)]
  simp only [hsame _]

/-- More patterns split groups and join none. -/
theorem Sampled.refines (hd : c.Sampled patterns d) (he : c.Sampled patterns' e)
    (hinitial : patterns <+: patterns') (hdgrouped : d.Grouped order) (hegrouped : e.Grouped order')
    (hinhabited : e.classes.Inhabited) (hc : c.WellFormed) : c.Refines d e := by
  have hshape := hd.shape.symm.trans he.shape
  have hdwell := hd.shape.wellFormed hc
  have horder : order' = order := by
    have hwalk := hdwell.liveOrder_congr (he.shape.wellFormed hc) hshape.outputs hshape.kind?
    rw [hdgrouped.liveOrder, hegrouped.liveOrder] at hwalk
    exact Except.ok.inj hwalk
  have hgroups : ∀ group ∈ e.classes.groups.values, ∃ whole ∈ d.classes.groups.values,
      group.Sublist whole := by
    intro group hgroup
    obtain ⟨first, hfirst⟩ := List.exists_mem_of_ne_nil group (hinhabited group hgroup)
    obtain ⟨signature, rfl⟩ := Classes.exists_eq_group_of_mem_values hgroup
    obtain ⟨hlive, hsignature⟩ := hegrouped.mem_group_iff.1 hfirst
    have hfirstLive := he.shape.liveGate.1 hlive
    have hshort := hd.observed first (.inr hfirstLive.1)
    refine ⟨d.classes.group _, Classes.group_mem_values (List.ne_nil_of_mem
      (hdgrouped.mem_group_iff.2 ⟨hd.shape.liveGate.2 hfirstLive, hshort⟩)), ?_⟩
    rw [hegrouped.group, hdgrouped.group, horder]
    refine filter_sublist_filter fun id hid hwith => ?_
    obtain ⟨hgate, hlong⟩ := isGateWith_eq_true_iff.1 hwith
    have hidLive : c.Live id := hd.shape.live.1 (hdgrouped.isLiveOrder.mem_iff.1 hid)
    have hagree := hd.signature?_eq_of_prefix he hinitial (.inr hfirstLive.1) (.inr hidLive)
      (hlong.trans hsignature.symm)
    have hkind : d.IsGate id := (hshape.liveGate.1 ⟨hshape.live.2 (hd.shape.live.2 hidLive), hgate⟩).2
    exact isGateWith_eq_true_iff.2 ⟨hkind, hagree.trans hshort⟩
  refine ⟨fun id hid => hd.signature?_prefix he hinitial hid, hgroups, fun group hgroup => ?_,
    fun a b ha hb hsame => ⟨hd.classmates hdgrouped ha hb hsame, he.classmates hegrouped ha hb hsame⟩⟩
  obtain ⟨hvalue, hlength⟩ := List.mem_filter.1 hgroup
  obtain ⟨whole, hwhole, hsublist⟩ := hgroups group hvalue
  refine ⟨whole, List.mem_filter.2 ⟨hwhole, ?_⟩, hsublist⟩
  have hle := hsublist.length_le
  rw [decide_eq_true_iff] at hlength ⊢
  omega

section Runs

variable {τ σ : Type} {sink : Sink τ} {sink' : Sink σ} {log : τ} {log' : σ}
  {source source' : PatternSource}

/-- If both simulations succeed, the second one refines what the first one has left. -/
def Refining (c : Circuit) (one : Except Error SimulationReport × Circuit × τ)
    (other : Except Error SimulationReport × Circuit × σ) : Prop :=
  ∀ report d left report' e left',
    one = (.ok report, d, left) → other = (.ok report', e, left') → c.Refines d e

theorem WellFormed.refining_simulate (hc : c.WellFormed) (hacyclic : c.Acyclic)
    (hsource : source.FitsWidth c.inputs.length) (hsource' : source'.FitsWidth c.inputs.length)
    (hinitial : source.patterns c.inputs.length <+: source'.patterns c.inputs.length) :
    c.Refining (c.simulate sink log source) (c.simulate sink' log' source') := by
  intro report d left report' e left' hone hother
  obtain ⟨hd, _, order, hdgrouped⟩ := hc.sampled_of_simulate hacyclic hsource hone
  obtain ⟨he, _, order', hegrouped⟩ := hc.sampled_of_simulate hacyclic hsource' hother
  obtain ⟨_, _, _, _, _, hclassify⟩ := Simulation.exists_runLines_of_simulate hother
  exact hd.refines he hinitial hdgrouped hegrouped (inhabited_of_classify hclassify) hc

/-- More rows begin with the same rows. -/
theorem patterns_randomSource_mono (c : Circuit) (seed : UInt64) {few many : Option Nat}
    (h : few.getD (2 * c.inputs.length) ≤ many.getD (2 * c.inputs.length)) :
    (c.randomSource seed few).patterns c.inputs.length <+:
      (c.randomSource seed many).patterns c.inputs.length := by
  rw [patterns_randomSource, patterns_randomSource]
  exact Generator.rows_mono c.inputs.length h (.ofSeed seed)

/-- Behind its last line feed a text may go on without changing the patterns before it. -/
theorem patterns_textSource_append (c : Circuit) {text : ByteArray}
    (htext : text.data.toList.getLast? = some 10) (more : ByteArray) :
    (c.textSource text).patterns c.inputs.length <+:
      (c.textSource (text ++ more)).patterns c.inputs.length := by
  unfold PatternSource.patterns textSource PatternSource.lines
  rw [Text.lines_append htext, List.map_append, List.filterMap_append]
  exact List.prefix_append _ _

/-- On a circuit that a session has built without cycles: the more patterns are simulated, be it
    that more rows are drawn from the same seed or that a text goes on, the finer the groups become,
    while gates with the same function stay together. -/
theorem simulation_refines (ops : List Operation) (hacyclic : (empty.after ops).Acyclic)
    (sink : Sink τ) (log : τ) (sink' : Sink σ) (log' : σ) :
    let c := empty.after ops
    (∀ seed few many, few.getD (2 * c.inputs.length) ≤ many.getD (2 * c.inputs.length) →
      c.Refining (c.simulateRandom sink log seed few) (c.simulateRandom sink' log' seed many)) ∧
    (∀ text more, text.data.toList.getLast? = some 10 →
      c.Refining (c.simulateText sink log text) (c.simulateText sink' log' (text ++ more))) ∧
    ∀ take, sink.Accepts take →
      (∀ seed count, (c.simulateRandom sink log seed count).1.isOk = true) ∧
      ∀ text : String, (c.simulateText sink log text.toUTF8).1.isOk = true := by
  intro c
  have hc : c.WellFormed := wellFormed_empty.after ops
  refine ⟨fun seed few many hle => ?_, fun text more htext => ?_, fun take haccepts => ⟨?_, ?_⟩⟩
  · exact hc.refining_simulate hacyclic (fitsWidth_randomSource c seed few)
      (fitsWidth_randomSource c seed many) (c.patterns_randomSource_mono seed hle)
  · exact hc.refining_simulate hacyclic (fitsWidth_textSource c text)
      (fitsWidth_textSource c (text ++ more)) (c.patterns_textSource_append htext more)
  · intro seed count
    obtain ⟨d, _, hresult⟩ := hc.simulateRandom_ran hacyclic haccepts log seed count
    rw [hresult]
    rfl
  · intro text
    obtain ⟨d, _, hresult⟩ := hc.simulateText_ran hacyclic haccepts log text
    rw [hresult]
    rfl

end Runs

/-- Three gates, the first and the last of which have one function. -/
def mirrored : List Operation :=
  [.addInput 1, .addInput 2, .addGate 3 ⟨1, false⟩ ⟨2, true⟩, .addGate 4 ⟨1, true⟩ ⟨2, false⟩,
    .addGate 5 ⟨2, true⟩ ⟨1, false⟩, .addOutput ⟨3, false⟩, .addOutput ⟨4, false⟩,
    .addOutput ⟨5, true⟩]

/-- One pattern tells none of the gates apart, and two more tell one of them from the others. -/
theorem simulation_refines_mirrored :
    (empty.after mirrored).Acyclic ∧ "00\n".toUTF8.data.toList.getLast? = some 10 ∧
      ∃ d e, (empty.after mirrored).simulateText Sink.discard () "00\n".toUTF8 =
          (.ok ⟨1, #[]⟩, d, ()) ∧
        (empty.after mirrored).simulateText Sink.discard () ("00\n".toUTF8 ++ "10\n01".toUTF8) =
          (.ok ⟨3, #[]⟩, e, ()) ∧
        (empty.after mirrored).Refines d e ∧
        d.classes.groups.values = [[3, 4, 5]] ∧ e.classes.groups.values = [[4], [3, 5]] := by
  have haudit : (empty.after mirrored).audit = .ok () := by decide +kernel
  have hacyclic := (wellFormed_empty.after mirrored).audit_eq_ok_iff.1 haudit
  have hended : "00\n".toUTF8.data.toList.getLast? = some 10 := by decide +kernel
  have hshort : (empty.after mirrored).simulateText Sink.discard () "00\n".toUTF8 =
      (.ok ⟨1, #[]⟩, ((empty.after mirrored).simulateText Sink.discard () "00\n".toUTF8).2.1, ()) :=
    Prod.ext (by decide +kernel) (Prod.ext rfl rfl)
  have hlong : (empty.after mirrored).simulateText Sink.discard ()
      ("00\n".toUTF8 ++ "10\n01".toUTF8) = (.ok ⟨3, #[]⟩, ((empty.after mirrored).simulateText
        Sink.discard () ("00\n".toUTF8 ++ "10\n01".toUTF8)).2.1, ()) :=
    Prod.ext (by decide +kernel) (Prod.ext rfl rfl)
  have hrefines := (simulation_refines mirrored hacyclic Sink.discard () Sink.discard ()).2.1
    _ _ hended _ _ _ _ _ _ hshort hlong
  refine ⟨hacyclic, hended, _, _, hshort, hlong, hrefines, ?_, ?_⟩
  · decide +kernel
  · decide +kernel

end Circuit

end AndInverter
