import AndInverter.Aiger.Reader
import AndInverter.Proofs.Aiger.Grammar
import AndInverter.Proofs.WellFormed.Build
import Mathlib.Tactic.ByContra

namespace AndInverter

namespace Circuit

/-- A circuit whose nodes are entered and not tied together yet. Edges may lead to ids that have
    no node, but not beyond the bound. -/
structure Declared (bound : NodeId) (c : Circuit) : Prop extends c.Indexed where
  maxVar_eq : c.maxVar = bound
  not_lists : ∀ source consumer, ¬ c.Lists source consumer
  fanin_le : ∀ {id kind}, c.kind? id = some kind → ∀ e ∈ kind.fanins, e.node ≤ bound
  lt_output : ∀ output ∈ c.outputs, bound < output
  classes_eq : c.classes = .empty

variable {c d : Circuit} {bound : NodeId}

/-- Before the first line nothing is declared but the constant. -/
theorem declared_empty (bound : NodeId) : Declared bound { empty with maxVar := bound } := by
  have hempty := wellFormed_empty
  refine ⟨⟨hempty.own_id, hempty.constant_iff, List.Pairwise.nil, hempty.mem_inputs,
    List.Pairwise.nil, hempty.mem_outputs, ?_⟩, rfl, not_lists_empty, ?_, ?_, rfl⟩
  · intro id kind hkind _
    have hzero : id = 0 := by
      by_contra hne
      have hnone : empty.kind? id = some kind := hkind
      rw [kind?_empty, if_neg hne] at hnone
      cases hnone
    rw [hzero]
    exact UInt64.zero_le
  · intro id kind hkind e he
    exact absurd ⟨kind, hkind, e, he, rfl⟩ (not_feeds_empty e.node id)
  · intro output houtput
    cases houtput

theorem declare_eq_ok_iff {n : Node} :
    c.declare n = .ok d ↔ n.id ≠ 0 ∧ c.node? n.id = none ∧ d = c.insert n := by
  unfold declare
  rw [except_bind_eq_ok_iff]
  constructor
  · rintro ⟨_, hcheck, hd⟩
    obtain ⟨hzero, hfresh⟩ := checkId_eq_ok_iff.1 hcheck
    exact ⟨hzero, hfresh, (Except.ok.inj hd).symm⟩
  · rintro ⟨hzero, hfresh, rfl⟩
    exact ⟨(), checkId_eq_ok_iff.2 ⟨hzero, hfresh⟩, rfl⟩

/-- To declare another node keeps what is declared in order. An input or gate has to keep to the
    bound and an output to lie above it. -/
theorem Declared.declare (hc : c.Declared bound) {n : Node} (hdeclare : c.declare n = .ok d)
    (hnew : n.fanouts = ∅) (hconstant : n.kind ≠ .constant)
    (hle : n.kind.isOutput = false → n.id ≤ bound)
    (houtput : n.kind.isOutput = true → bound < n.id ∧ ∀ output ∈ c.outputs, output < n.id)
    (hfanins : ∀ e ∈ n.fanins, e.node ≤ bound) : d.Declared bound := by
  obtain ⟨hzero, hfresh, rfl⟩ := declare_eq_ok_iff.1 hdeclare
  refine ⟨hc.insert hfresh hzero hconstant (fun h => (houtput h).2) fun h => ?_, ?_, ?_, ?_, ?_, ?_⟩
  · rw [hc.maxVar_eq]
    exact hle (by simp [h, Kind.isOutput])
  · rw [maxVar_insert]
    split
    · next hkind =>
      have hbound : n.id ≤ c.maxVar := by
        rw [hc.maxVar_eq]
        exact hle (Kind.isOutput_eq_false hkind)
      rw [max_eq_ite, ← hc.maxVar_eq]
      split
      · next hge => exact UInt64.le_antisymm hbound hge
      · rfl
    · exact hc.maxVar_eq
  · intro source consumer hlists
    obtain ⟨m, hm, hmem⟩ := hlists
    rw [node?_insert] at hm
    split at hm
    · obtain rfl := Option.some.inj hm
      simp [hnew] at hmem
    · exact hc.not_lists source consumer ⟨m, hm, hmem⟩
  · intro id kind hkind e he
    rw [kind?_insert] at hkind
    split at hkind
    · obtain rfl := Option.some.inj hkind
      exact hfanins e he
    · exact hc.fanin_le hkind e he
  · intro output hmem
    rw [outputs_insert] at hmem
    split at hmem
    · next hkind =>
      rcases List.mem_append.1 hmem with hold | hnew
      · exact hc.lt_output output hold
      · rw [List.mem_singleton.1 hnew]
        exact (houtput hkind).1
    · exact hc.lt_output output hmem
  · rw [classes_insert, hc.classes_eq]

/-- The outputs come above the bound, each in its place. -/
theorem Declared.declare_output (hc : c.Declared bound) {position line : Nat} {driver : Edge}
    (hbelow : ∀ output ∈ c.outputs, output.toNat < bound.toNat + 1 + position)
    (hroom : bound.toNat + 1 + position < UInt64.size) (hdriver : driver.node ≤ bound)
    (hdeclare : c.declare
      (.fresh (UInt64.ofNat (bound.toNat + 1 + position)) (.output driver) line) = .ok d) :
    d.Declared bound ∧ ∀ output ∈ d.outputs, output.toNat < bound.toNat + 1 + (position + 1) := by
  have hid : (UInt64.ofNat (bound.toNat + 1 + position)).toNat = bound.toNat + 1 + position :=
    UInt64.toNat_ofNat_of_lt hroom
  constructor
  · refine hc.declare hdeclare rfl (by simp [Node.fresh]) ?_ ?_ ?_
    · intro h
      cases h
    · refine fun _ => ⟨?_, fun output houtput => ?_⟩
      · rw [UInt64.lt_iff_toNat_lt]
        change _ < (UInt64.ofNat _).toNat
        omega
      · rw [UInt64.lt_iff_toNat_lt]
        change _ < (UInt64.ofNat _).toNat
        have hlt := hbelow output houtput
        omega
    · intro e he
      rw [List.mem_singleton.1 he]
      exact hdriver
  · intro output houtput
    obtain ⟨_, _, rfl⟩ := declare_eq_ok_iff.1 hdeclare
    rw [outputs_insert] at houtput
    rcases List.mem_append.1 houtput with hold | hnew
    · have hlt := hbelow output hold
      omega
    · rw [List.mem_singleton.1 hnew]
      change (UInt64.ofNat _).toNat < _
      omega

theorem Declared.sameShape (hc : c.Declared bound) (h : c.SameShape d) (hd : d.Indexed)
    (hclasses : d.classes = c.classes) : d.Declared bound where
  toIndexed := hd
  maxVar_eq := h.maxVar.trans hc.maxVar_eq
  not_lists source consumer hlists := hc.not_lists source consumer (h.lists.1 hlists)
  fanin_le hkind := hc.fanin_le (by rwa [h.kind?] at hkind)
  lt_output := by
    rw [h.outputs]
    exact hc.lt_output
  classes_eq := hclasses.trans hc.classes_eq

/-- A node that is not there comes as undefined, and one that is there stays. -/
theorem kind?_ensure (c : Circuit) (id other : NodeId) (line : Nat) :
    (c.ensure id line).kind? other =
      if id = other then some ((c.kind? id).getD .undefined) else c.kind? other := by
  unfold ensure
  split
  · next hsome =>
    rw [← isSome_kind?] at hsome
    obtain ⟨kind, hkind⟩ := Option.isSome_iff_exists.1 hsome
    split
    · next heq => simp [← heq, hkind]
    · rfl
  · next hnone =>
    rw [← isSome_kind?, Option.not_isSome_iff_eq_none] at hnone
    rw [hnone]
    exact kind?_insert c (.fresh id .undefined line) other

/-- A node that comes as undefined has no fanouts yet. -/
theorem lists_ensure (c : Circuit) (id : NodeId) (line : Nat) (source consumer : NodeId) :
    (c.ensure id line).Lists source consumer ↔ c.Lists source consumer := by
  unfold ensure
  split
  · rfl
  · next hnone =>
    rw [Option.not_isSome_iff_eq_none] at hnone
    unfold Lists
    change (∃ n, (c.insert (.fresh id .undefined line)).node? source = some n ∧ _) ↔ _
    rw [node?_insert]
    split
    · next heq =>
      obtain rfl : id = source := heq
      simp [hnone, Node.fresh]
    · rfl

theorem Indexed.ensure (hc : c.Indexed) {id : NodeId} (hle : id ≤ c.maxVar) (line : Nat) :
    (c.ensure id line).Indexed := by
  unfold Circuit.ensure
  split
  · exact hc
  · next hnone =>
    rw [Option.not_isSome_iff_eq_none] at hnone
    have hzero : id ≠ 0 := by
      rintro rfl
      have hconstant := hc.constant_iff.2 rfl
      rw [kind?_eq_none_iff.2 hnone] at hconstant
      cases hconstant
    exact hc.insert (n := .fresh id .undefined line) hnone hzero (by simp [Node.fresh])
      (by simp [Node.fresh, Kind.isOutput]) fun _ => hle

/-- One use of a node: the consumer, the line it was declared in, and the node it reads. -/
abbrev Use := NodeId × Nat × NodeId

/-- Ties a consumer to a node that it reads. -/
def tie (c : Circuit) (use : Use) : Circuit :=
  (c.ensure use.2.2 use.2.1).addFanout use.1 use.2.2

def uses (c : Circuit) : List Use :=
  c.nodes.toList.flatMap fun entry =>
    entry.2.fanins.map fun e => (entry.2.id, entry.2.line, e.node)

theorem connect_eq (c : Circuit) : c.connect = c.uses.foldl tie c := rfl

theorem unchanged_foldl_tie (c : Circuit) (l : List Use) :
    (l.foldl tie c).maxVar = c.maxVar ∧ (l.foldl tie c).classes = c.classes := by
  induction l generalizing c with
  | nil => exact ⟨rfl, rfl⟩
  | cons use l ih =>
    have htie : (c.tie use).maxVar = c.maxVar ∧ (c.tie use).classes = c.classes := by
      unfold tie ensure
      split <;> exact ⟨rfl, rfl⟩
    rw [List.foldl_cons, (ih _).1, (ih _).2]
    exact htie

/-- What has been tied so far: the nodes that were missing and are read are undefined, and the
    fanouts tell the uses. -/
theorem foldl_tie (hc : c.Indexed) {l : List Use} (hle : ∀ use ∈ l, use.2.2 ≤ c.maxVar) :
    (l.foldl tie c).Indexed ∧ (l.foldl tie c).outputs = c.outputs ∧
      (∀ id, (l.foldl tie c).kind? id = if id ∈ l.map (·.2.2) then
        some ((c.kind? id).getD .undefined) else c.kind? id) ∧
      ∀ source consumer, (l.foldl tie c).Lists source consumer ↔
        c.Lists source consumer ∨ ∃ use ∈ l, use.2.2 = source ∧ use.1 = consumer := by
  induction l generalizing c with
  | nil => exact ⟨hc, rfl, by simp, by simp⟩
  | cons use l ih =>
    have hstep : (c.tie use).Indexed :=
      (hc.ensure (hle use List.mem_cons_self) use.2.1).addFanout use.1 use.2.2
    have hmaxVar : (c.tie use).maxVar = c.maxVar := by
      unfold tie ensure
      split <;> rfl
    have houtputs : (c.tie use).outputs = c.outputs := by
      unfold tie ensure
      split <;> rfl
    have hkind : ∀ id, (c.tie use).kind? id =
        if use.2.2 = id then some ((c.kind? id).getD .undefined) else c.kind? id := by
      intro id
      unfold tie
      rw [kind?_addFanout, kind?_ensure]
      split
      · next heq => rw [heq]
      · rfl
    obtain ⟨hindexed, hout, hkinds, hlists⟩ := ih hstep fun other hother => by
      rw [hmaxVar]
      exact hle other (List.mem_cons_of_mem use hother)
    refine ⟨hindexed, hout.trans houtputs, fun id => ?_, fun source consumer => ?_⟩
    · rw [List.foldl_cons, hkinds, hkind, List.map_cons]
      by_cases heq : id = use.2.2
      · simp [heq]
      · simp only [Ne.symm heq, if_false, List.mem_cons, heq, false_or]
    · rw [List.foldl_cons, hlists]
      unfold tie
      rw [lists_addFanout, lists_ensure, ← isSome_kind?, kind?_ensure]
      simp only [List.mem_cons, exists_eq_or_imp, or_assoc]
      refine or_congr_right (or_congr_left ⟨fun h => ⟨h.1, h.2.1⟩, fun h => ⟨h.1, h.2, ?_⟩⟩)
      rw [if_pos h.1]
      rfl

/-- The uses are the edges. -/
theorem mem_uses (hc : c.Indexed) {source consumer : NodeId} :
    (∃ use ∈ c.uses, use.2.2 = source ∧ use.1 = consumer) ↔ c.Feeds source consumer := by
  have hentry : ∀ {key n}, (key, n) ∈ c.nodes.toList ↔ c.node? key = some n := by
    intro key n
    exact Std.TreeMap.mem_toList_iff_getElem?_eq_some
  constructor
  · rintro ⟨use, huse, rfl, rfl⟩
    obtain ⟨⟨key, n⟩, hmem, huse⟩ := List.mem_flatMap.1 huse
    obtain ⟨e, he, rfl⟩ := List.mem_map.1 huse
    have hn := hentry.1 hmem
    have hid : n.id = key := hc.own_id hn
    exact ⟨n.kind, kind?_of_node? (by rw [hid, hn]), e, he, rfl⟩
  · rintro ⟨kind, hkind, e, he, rfl⟩
    obtain ⟨n, hn, rfl⟩ := kind?_eq_some_iff.1 hkind
    refine ⟨(n.id, n.line, e.node), List.mem_flatMap.2 ⟨(consumer, n), hentry.2 hn, ?_⟩, rfl,
      hc.own_id hn⟩
    exact List.mem_map.2 ⟨e, he, rfl⟩

/-- A node of the circuit that ties make was there before, or is undefined and was not. -/
theorem node?_foldl_tie {l : List Use} {id : NodeId} {n : Node}
    (hn : (l.foldl tie c).node? id = some n) : (∃ m, c.node? id = some m ∧ n.unread = m.unread) ∨
      c.node? id = none ∧ ∃ line, n.unread = .fresh id .undefined line := by
  induction l generalizing c with
  | nil => exact .inl ⟨n, hn, rfl⟩
  | cons use l ih =>
    have hensure : ∀ m, (c.ensure use.2.2 use.2.1).node? id = some m → c.node? id = some m ∨
        c.node? id = none ∧ m = .fresh id .undefined use.2.1 := by
      intro m hm
      unfold ensure at hm
      split at hm
      · exact .inl hm
      · next hnone =>
        rw [Option.not_isSome_iff_eq_none] at hnone
        change (c.insert (.fresh use.2.2 .undefined use.2.1)).node? id = some m at hm
        rw [node?_insert] at hm
        split at hm
        · next heq =>
          obtain rfl : use.2.2 = id := heq
          exact .inr ⟨hnone, (Option.some.inj hm).symm⟩
        · exact .inl hm
    obtain ⟨m, hm, hunread⟩ | ⟨hnone, line, hunread⟩ := ih hn
    · have htie : ∃ old, (c.ensure use.2.2 use.2.1).node? id = some old ∧
          m.unread = old.unread := by
        rw [tie, addFanout, node?_update] at hm
        split at hm
        · next heq =>
          obtain ⟨old, hold, rfl⟩ := Option.map_eq_some_iff.1 hm
          exact ⟨old, heq ▸ hold, rfl⟩
        · exact ⟨m, hm, rfl⟩
      obtain ⟨old, hold, hsame⟩ := htie
      obtain hold | ⟨hnone, rfl⟩ := hensure old hold
      · exact .inl ⟨old, hold, hunread.trans hsame⟩
      · exact .inr ⟨hnone, use.2.1, hunread.trans hsame⟩
    · rw [tie, ← kind?_eq_none_iff, kind?_addFanout, kind?_ensure] at hnone
      split at hnone
      · cases hnone
      · exact .inr ⟨kind?_eq_none_iff.1 hnone, line, hunread⟩

theorem Declared.uses_le (hc : c.Declared bound) : ∀ use ∈ c.uses, use.2.2 ≤ c.maxVar := by
  intro use huse
  obtain ⟨kind, hkind, e, he, heq⟩ := (mem_uses hc.toIndexed).1 ⟨use, huse, rfl, rfl⟩
  rw [hc.maxVar_eq, ← heq]
  exact hc.fanin_le hkind e he

/-- What is read and not declared becomes undefined, and the rest stays as it is. -/
theorem Declared.kind?_connect (hc : c.Declared bound) {id : NodeId} {kind : Kind} :
    c.connect.kind? id = some kind ↔ c.kind? id = some kind ∨
      c.kind? id = none ∧ kind = .undefined ∧ ∃ consumer, c.Feeds id consumer := by
  obtain ⟨_, _, hkinds, _⟩ := foldl_tie hc.toIndexed hc.uses_le
  have hused : id ∈ c.uses.map (·.2.2) ↔ ∃ consumer, c.Feeds id consumer := by
    simp only [← mem_uses hc.toIndexed, List.mem_map]
    constructor
    · intro h
      obtain ⟨use, huse, heq⟩ := h
      exact ⟨use.1, use, huse, heq, rfl⟩
    · intro h
      obtain ⟨_, use, huse, heq, _⟩ := h
      exact ⟨use, huse, heq⟩
  rw [connect_eq, hkinds, ← hused]
  cases hkind : c.kind? id with
  | some old => simp
  | none =>
    by_cases hmem : id ∈ c.uses.map (·.2.2)
    · simp [hmem, eq_comm]
    · simp [hmem]

/-- Tying the declared nodes together makes a circuit well-formed. -/
theorem Declared.connect (hc : c.Declared bound) : c.connect.WellFormed := by
  obtain ⟨hindexed, houtputs, _, hlists⟩ := foldl_tie hc.toIndexed hc.uses_le
  rw [← connect_eq] at hindexed houtputs hlists
  have hold : ∀ {id kind e}, c.connect.kind? id = some kind → e ∈ kind.fanins →
      c.kind? id = some kind := by
    intro id kind e hkind he
    obtain hkind | ⟨_, rfl, _⟩ := hc.kind?_connect.1 hkind
    · exact hkind
    · cases he
  have hfeeds : ∀ {source consumer}, c.connect.Feeds source consumer ↔
      c.Feeds source consumer := by
    intro source consumer
    constructor
    · rintro ⟨kind, hkind, e, he, heq⟩
      exact ⟨kind, hold hkind he, e, he, heq⟩
    · rintro ⟨kind, hkind, e, he, heq⟩
      exact ⟨kind, hc.kind?_connect.2 (.inl hkind), e, he, heq⟩
  refine ⟨hindexed, ?_, ?_⟩
  · intro id kind hkind e he
    have hkind := hold hkind he
    have hsource : c.connect.kind? e.node = some ((c.kind? e.node).getD .undefined) := by
      rw [hc.kind?_connect]
      cases hsource : c.kind? e.node with
      | some source => exact .inl rfl
      | none => exact .inr ⟨rfl, rfl, id, kind, hkind, e, he, rfl⟩
    refine ⟨_, hsource, ?_⟩
    rw [Bool.eq_false_iff]
    intro houtput
    obtain ⟨fanin, heq⟩ := Kind.isOutput_iff.1 houtput
    have hmem := hindexed.mem_outputs.2 ⟨fanin, heq ▸ hsource⟩
    rw [houtputs] at hmem
    exact UInt64.not_le.2 (hc.lt_output e.node hmem) (hc.fanin_le hkind e he)
  · intro source consumer
    rw [hfeeds, hlists, mem_uses hc.toIndexed]
    simp [hc.not_lists]

end Circuit

namespace Aiger

open Circuit

variable {bound : NodeId}

theorem IsInput.node_le {text : List Char} {e : Edge} (h : IsInput bound text e) :
    e.node ≤ bound := by
  obtain ⟨_, _, _, hle, _⟩ := h
  exact hle

theorem IsOutput.node_le {text : List Char} {e : Edge} (h : IsOutput bound text e) :
    e.node ≤ bound := by
  obtain ⟨_, _, hle, _⟩ := h
  exact hle

theorem IsGate.nodes_le {text : List Char} {gate : GateLine} (h : IsGate bound text gate) :
    gate.id ≤ bound ∧ gate.left.node ≤ bound ∧ gate.right.node ≤ bound := by
  obtain ⟨_, _, _, _, _, hid, hleft, hright⟩ := h
  exact ⟨hid.1, hleft.1, hright.1⟩

namespace Reader

variable {P : Reading → Prop}

theorem of_check {α : Type} {result : Except SourceError α} {a : α} {s t : Reading}
    (h : check result s = .ok a t) : result = .ok a := by
  unfold check at h
  cases result with
  | ok b =>
    obtain ⟨rfl, rfl⟩ := h
    rfl
  | error failure => cases h

theorem keeps_check {α : Type} (P : Reading → Prop) (result : Except SourceError α) :
    Keeps P (check result) := by
  unfold check
  cases result with
  | ok a => exact Keeps.pure P a
  | error failure => exact Keeps.throw P _

theorem keeps_line? (P : Circuit → Prop) : Keeps (fun r => P r.circuit) line? := by
  intro r hr
  unfold line?
  rcases hrest : r.rest with _ | ⟨_ | text, rest⟩ <;> exact hr

theorem keeps_line (P : Circuit → Prop) (part : Part) :
    Keeps (fun r => P r.circuit) (line part) := by
  apply (keeps_line? P).bind
  intro text
  cases text with
  | some text => exact (Keeps.get _).bind fun r => Keeps.pure _ _
  | none => exact (Keeps.get _).bind fun r => Keeps.throw _ _

theorem keeps_warn (P : Circuit → Prop) (warning : Warning) :
    Keeps (fun r => P r.circuit) (warn warning) := Keeps.modify fun _ hr => hr

/-- A node that is declared or passed over leaves the outputs as they are. -/
theorem keeps_declareFirst {n : Node} (hnew : n.fanouts = ∅) (hconstant : n.kind ≠ .constant)
    (hother : n.kind.isOutput = false) (hle : n.id ≤ bound)
    (hfanins : ∀ e ∈ n.fanins, e.node ≤ bound) (outputs : List NodeId) :
    Keeps (fun r => Declared bound r.circuit ∧ r.circuit.outputs = outputs) (declareFirst n) := by
  unfold declareFirst
  apply Keeps.get_bind
  intro r ⟨hr, houtputs⟩
  split
  · exact keeps_warn (fun c => c.Declared bound ∧ c.outputs = outputs) _
  · split
    · next circuit hdeclare =>
      refine Keeps.set ⟨hr.declare hdeclare hnew hconstant (fun _ => hle) ?_ hfanins, ?_⟩
      · simp [hother]
      · obtain ⟨_, _, rfl⟩ := declare_eq_ok_iff.1 hdeclare
        simpa [outputs_insert, hother] using houtputs
    · exact Keeps.throw _ _

/-- The input part keeps what is declared in order, and declares no output. -/
theorem keeps_inputs (bound : NodeId) (count : Nat) (outputs : List NodeId) :
    Keeps (fun r => Declared bound r.circuit ∧ r.circuit.outputs = outputs)
      (inputs bound count) := by
  induction count with
  | zero => exact Keeps.pure _ []
  | succ count ih =>
    apply (keeps_line (fun c => c.Declared bound ∧ c.outputs = outputs) .input).bind
    intro ⟨line, text⟩
    apply (keeps_check _ _).bind_of_ok
    intro e s t hs he
    have hle := (inputLine_eq_ok_iff.1 (of_check he)).node_le
    refine (keeps_declareFirst rfl (by simp [Node.fresh]) rfl hle ?_ outputs).bind fun _ => ?_
    · intro fanin hfanin
      cases hfanin
    · exact ih.bind fun _ => Keeps.pure _ _

/-- The gate part keeps what is declared in order, and declares no output. -/
theorem keeps_gates (bound : NodeId) (count : Nat) (outputs : List NodeId) :
    Keeps (fun r => Declared bound r.circuit ∧ r.circuit.outputs = outputs)
      (gates bound count) := by
  induction count with
  | zero => exact Keeps.pure _ _
  | succ count ih =>
    apply (keeps_line (fun c => c.Declared bound ∧ c.outputs = outputs) .gate).bind
    intro ⟨line, text⟩
    apply (keeps_check _ _).bind_of_ok
    intro gate s t hs hgate
    obtain ⟨hle, hleft, hright⟩ := (gateLine_eq_ok_iff.1 (of_check hgate)).nodes_le
    refine (keeps_declareFirst rfl (by simp [Node.fresh]) rfl hle ?_ outputs).bind fun _ => ih
    intro fanin hfanin
    rcases List.mem_cons.1 hfanin with rfl | hfanin
    · exact hleft
    · rw [List.mem_singleton.1 hfanin]
      exact hright

theorem keeps_nameFirst (line : Nat) (id : NodeId) (name : String) :
    Keeps (fun r => Declared bound r.circuit) (nameFirst line id name) := by
  unfold nameFirst
  apply Keeps.get_bind
  intro r hr
  split
  · exact Keeps.throw _ _
  · split
    · exact keeps_warn _ _
    · apply Keeps.modify
      intro r hr
      refine hr.sameShape (sameShape_update r.circuit id (fun _ => rfl) (fun _ => rfl) fun _ => rfl)
        (hr.update id (fun _ => rfl) fun _ => rfl) rfl

/-- The symbol table gives names and declares nothing. -/
theorem keeps_symbols (inputs outputs : List NodeId) (budget : Nat) :
    Keeps (fun r => Declared bound r.circuit) (symbols inputs outputs budget) := by
  induction budget with
  | zero => exact Keeps.pure _ _
  | succ budget ih =>
    apply (keeps_line? _).bind
    intro text
    cases text with
    | none => exact Keeps.pure _ _
    | some text =>
      apply (Keeps.get _).bind
      intro r
      apply (keeps_check _ _).bind
      intro symbol
      cases symbol with
      | none => exact Keeps.pure _ _
      | some symbol =>
        dsimp only
        split
        · exact (Keeps.throw _ _).bind fun _ => ih
        · exact (keeps_nameFirst _ _ _).bind fun _ => ih

/-- Each output comes above the ones before it. -/
theorem declared_outputs {position count : Nat} {ids : List NodeId} {r t : Reading}
    (hr : r.circuit.Declared bound)
    (hbelow : ∀ output ∈ r.circuit.outputs, output.toNat < bound.toNat + 1 + position)
    (hrun : outputs bound position count r = .ok ids t) : t.circuit.Declared bound := by
  induction count generalizing position ids r with
  | zero =>
    cases hrun
    exact hr
  | succ count ih =>
    rw [outputs, estateM_bind_eq_ok_iff] at hrun
    obtain ⟨⟨line, text⟩, s, hline, hrun⟩ := hrun
    rw [estateM_bind_eq_ok_iff] at hrun
    obtain ⟨e, u, hcheck, hrun⟩ := hrun
    have hs : s.circuit = r.circuit := (keeps_line (· = r.circuit) .output).of_ok rfl hline
    have hu : u.circuit = s.circuit :=
      (keeps_check (fun v => v.circuit = s.circuit) _).of_ok rfl hcheck
    have hle := (outputLine_eq_ok_iff.1 (of_check hcheck)).node_le
    dsimp only at hrun
    split at hrun
    · next hroom =>
      rw [estateM_bind_eq_ok_iff] at hrun
      obtain ⟨v, _, hget, hrun⟩ := hrun
      cases hget
      rw [hu, hs] at hrun
      generalize hdeclare : r.circuit.declare _ = declared at hrun
      cases declared with
      | error failure => cases hrun
      | ok d =>
        obtain ⟨hd, houtputs⟩ := hr.declare_output hbelow hroom hle hdeclare
        rw [estateM_bind_eq_ok_iff] at hrun
        obtain ⟨_, w, hmodify, hrun⟩ := hrun
        cases hmodify
        rw [estateM_bind_eq_ok_iff] at hrun
        obtain ⟨rest, w, hrest, hrun⟩ := hrun
        cases hrun
        exact ih hd houtputs hrest
    · cases hrun

/-- Reads a description up to the point where its nodes are tied together, and tells the bound. -/
def declarations : Reader NodeId := do
  let (_, text) ← line .header
  let header ← check (Header.parse text)
  modify fun r => { r with circuit := { r.circuit with maxVar := header.bound } }
  let inputs ← inputs header.bound header.inputs.toNat
  let outputs ← outputs header.bound 0 header.outputs.toNat
  gates header.bound header.gates.toNat
  symbols inputs outputs ((← get).rest.length + 1)
  return header.bound

/-- Ties the declared nodes together, and accepts the circuit if it is consistent. -/
def completion : Reader Circuit := do
  let c := (← get).circuit.connect
  match c.audit with
  | .ok () => return c
  | .error failure => throw failure

theorem circuit_eq : circuit = declarations >>= fun _ => completion := by
  simp only [declarations, bind_assoc, pure_bind]
  rfl

theorem completion_eq (r : Reading) : completion r = match r.circuit.connect.audit with
    | .ok () => .ok r.circuit.connect r
    | .error failure => .error failure r := by
  change (match r.circuit.connect.audit with
    | .ok () => pure r.circuit.connect
    | .error failure => throw failure : Reader Circuit) r = _
  cases r.circuit.connect.audit <;> rfl

/-- What is declared is accepted if, tied together, it passes the audit. -/
theorem completion_eq_ok_iff {r t : Reading} {c : Circuit} : completion r = .ok c t ↔
    r = t ∧ c = t.circuit.connect ∧ c.audit = .ok () := by
  rw [completion_eq]
  cases haudit : r.circuit.connect.audit with
  | error failure =>
    refine iff_of_false (by simp) fun h => ?_
    obtain ⟨rfl, rfl, hok⟩ := h
    rw [haudit] at hok
    cases hok
  | ok _ =>
    constructor
    · intro h
      obtain ⟨rfl, rfl⟩ := h
      exact ⟨rfl, rfl, haudit⟩
    · intro h
      obtain ⟨rfl, rfl, _⟩ := h
      rfl

/-- What is read is tied together and then checked. -/
theorem circuit_eq_ok_iff {r t : Reading} {c : Circuit} : circuit r = .ok c t ↔
    (∃ bound, declarations r = .ok bound t) ∧ c = t.circuit.connect ∧ c.audit = .ok () := by
  rw [circuit_eq, estateM_bind_eq_ok_iff]
  simp only [completion_eq_ok_iff]
  constructor
  · intro h
    obtain ⟨bound, s, hrun, rfl, hc⟩ := h
    exact ⟨⟨bound, hrun⟩, hc⟩
  · intro h
    obtain ⟨⟨bound, hrun⟩, hc⟩ := h
    exact ⟨bound, t, hrun, rfl, hc⟩

/-- Whatever the text, what is declared when the reader has come to the end of the symbol table is
    in order. -/
theorem declared_of_declarations {r t : Reading} {bound : NodeId} (hr : r.circuit = .empty)
    (hrun : declarations r = .ok bound t) : t.circuit.Declared bound := by
  rw [declarations, estateM_bind_eq_ok_iff] at hrun
  obtain ⟨⟨line, text⟩, s, hline, hrun⟩ := hrun
  have hs : s.circuit = .empty := (keeps_line (· = .empty) .header).of_ok hr hline
  rw [estateM_bind_eq_ok_iff] at hrun
  obtain ⟨header, u, hcheck, hrun⟩ := hrun
  have hu : u.circuit = .empty := (keeps_check (fun v => v.circuit = .empty) _).of_ok hs hcheck
  rw [estateM_bind_eq_ok_iff] at hrun
  obtain ⟨_, v, hmodify, hrun⟩ := hrun
  have hv : v.circuit = { Circuit.empty with maxVar := header.bound } := by
    cases hmodify
    dsimp only
    rw [hu]
  clear hmodify
  rw [estateM_bind_eq_ok_iff] at hrun
  obtain ⟨inputs, w, hinputs, hrun⟩ := hrun
  obtain ⟨hw, hnone⟩ : w.circuit.Declared header.bound ∧ w.circuit.outputs = [] := by
    refine (keeps_inputs header.bound _ []).of_ok ?_ hinputs
    rw [hv]
    exact ⟨declared_empty header.bound, rfl⟩
  rw [estateM_bind_eq_ok_iff] at hrun
  obtain ⟨outputs, x, houtputs, hrun⟩ := hrun
  have hx := declared_outputs hw (by simp [hnone]) houtputs
  rw [estateM_bind_eq_ok_iff] at hrun
  obtain ⟨_, y, hgates, hrun⟩ := hrun
  obtain ⟨hy, _⟩ := (keeps_gates header.bound _ _).of_ok ⟨hx, rfl⟩ hgates
  rw [estateM_bind_eq_ok_iff] at hrun
  obtain ⟨_, _, hget, hrun⟩ := hrun
  cases hget
  rw [estateM_bind_eq_ok_iff] at hrun
  obtain ⟨_, z, hsymbols, hrun⟩ := hrun
  cases hrun
  exact (keeps_symbols inputs outputs _).of_ok hy hsymbols

end Reader

/-- Reading a description gives a well-formed circuit that passes the audit, without candidates. -/
theorem wellFormed_of_read {text : ByteArray} {c : Circuit} {warnings : Array Warning}
    (hread : read text = (.ok c, warnings)) :
    c.WellFormed ∧ c.audit = .ok () ∧ c.classes = .empty := by
  unfold read at hread
  split at hread
  · next d r hrun =>
    obtain ⟨rfl, rfl⟩ := hread
    obtain ⟨⟨bound, hdeclarations⟩, rfl, haudit⟩ := Reader.circuit_eq_ok_iff.1 hrun
    have hdeclared := Reader.declared_of_declarations rfl hdeclarations
    exact ⟨hdeclared.connect, haudit, (unchanged_foldl_tie _ _).2.trans hdeclared.classes_eq⟩
  · cases hread

end Aiger

end AndInverter
