import AndInverter.Proofs.Aiger.Printing
import AndInverter.Proofs.Aiger.Unambiguous

open Relation

namespace AndInverter

namespace Circuit

open Text (IsName)

variable {c : Circuit} {order : List NodeId} {id : NodeId}

theorem Writable.hasLiteral (hwritable : c.Writable) (hc : c.WellFormed) {id : NodeId} {kind : Kind}
    (hkind : c.kind? id = some kind) (houtput : kind.isOutput = false) :
    Aiger.HasLiteral c.maxVar id :=
  ⟨hc.id_le hkind houtput, hwritable.literal hkind houtput⟩

theorem length_lt_size {ids : List NodeId} (hnodup : ids.Nodup)
    (hids : ∀ id ∈ ids, 2 * id.toNat < UInt64.size) : ids.length < UInt64.size := by
  have hsubset : ids.map UInt64.toNat ⊆ List.range (UInt64.size / 2) := by
    intro n hn
    obtain ⟨id, hid, rfl⟩ := List.mem_map.1 hn
    have hid := hids id hid
    have hhalf : 2 * (UInt64.size / 2) = UInt64.size := rfl
    exact List.mem_range.2 (by omega)
  have hle := (List.subperm_of_subset (hnodup.map fun _ _ => UInt64.toNat_inj.1) hsubset).length_le
  rw [List.length_map, List.length_range] at hle
  exact Nat.lt_of_le_of_lt hle (by decide)

theorem Named.of_mem_symbolsOf (hnamed : c.Named) {isInput : Bool} {ids : List NodeId}
    {symbol : Aiger.Symbol} (h : symbol ∈ c.symbolsOf isInput 0 ids) :
    IsName symbol.name ∧ symbol.isInput = isInput ∧ symbol.position < ids.length := by
  obtain ⟨k, id, name, hk, hname, rfl⟩ := mem_symbolsOf.1 h
  refine ⟨(hnamed id name hname).1, rfl, ?_⟩
  dsimp only
  rw [Nat.zero_add]
  exact (List.getElem?_eq_some_iff.1 hk).1

/-- What a writable circuit is described by has a literal for each node and a name without line
    breaks for each symbol. -/
theorem Writable.printable (hwritable : c.Writable) (hc : c.WellFormed) (hnamed : c.Named)
    (hlive : c.IsLiveOrder order) : (c.describe order).Printable where
  inputs e he := by
    have hkind := hc.mem_inputs_describe.1 he
    exact ⟨hc.ne_zero hkind nofun, hwritable.hasLiteral hc hkind rfl⟩
  outputs e he := by
    obtain ⟨position, hposition⟩ := List.mem_iff_getElem?.1 he
    obtain ⟨id, _, hkind⟩ := hc.getElem?_outputs_describe.1 hposition
    obtain ⟨source, hsource, houtput⟩ := hc.fanin hkind e List.mem_cons_self
    exact hwritable.hasLiteral hc hsource houtput
  gates gate hgate := by
    have hkind := ((mem_gates_describe hlive).1 hgate).2
    have hfanin : ∀ e ∈ [gate.left, gate.right], Aiger.HasLiteral c.maxVar e.node := by
      intro e he
      obtain ⟨source, hsource, houtput⟩ := hc.fanin hkind e he
      exact hwritable.hasLiteral hc hsource houtput
    exact ⟨hc.ne_zero hkind nofun, hwritable.hasLiteral hc hkind rfl, hfanin _ List.mem_cons_self,
      hfanin _ (List.mem_cons_of_mem _ List.mem_cons_self)⟩
  symbols symbol hsymbol := by
    obtain hmem | hmem := List.mem_append.1 hsymbol
    · obtain ⟨hname, hinput, hlt⟩ := hnamed.of_mem_symbolsOf hmem
      refine ⟨hname, ?_⟩
      rw [if_pos hinput, describe, List.length_map]
      exact hlt
    · obtain ⟨hname, hinput, hlt⟩ := hnamed.of_mem_symbolsOf hmem
      refine ⟨hname, ?_⟩
      rw [if_neg (Bool.eq_false_iff.1 hinput), describe, List.length_map]
      exact hlt
  room := by
    rw [describe, List.length_map]
    exact hwritable.room
  inputCount := by
    rw [describe, List.length_map]
    refine length_lt_size hc.nodup_inputs fun id hid => ?_
    obtain ⟨inverted, hkind⟩ := hc.mem_inputs.1 hid
    exact hwritable.literal hkind rfl
  gateCount := by
    rw [← List.length_map (·.id)]
    refine length_lt_size (nodup_gates_describe hlive) fun id hid => ?_
    obtain ⟨gate, hgate, rfl⟩ := List.mem_map.1 hid
    exact hwritable.literal ((mem_gates_describe hlive).1 hgate).2 rfl

/-- The symbols of a part are looked up in the ids of that part. -/
theorem map_target?_symbolsOf (isInput : Bool) (ids : List NodeId) :
    (c.symbolsOf isInput 0 ids).map (c.describe order).target? =
      (c.symbolsOf isInput 0 ids).map fun symbol =>
        (if isInput then (c.describe order).inputIds
          else (c.describe order).outputIds)[symbol.position]? := by
  refine List.map_congr_left fun symbol hsymbol => ?_
  obtain ⟨k, id, name, _, _, rfl⟩ := mem_symbolsOf.1 hsymbol
  rfl

/-- No input has the id of an output. -/
theorem WellFormed.disjoint_targets (hc : c.WellFormed) (hfits : (c.describe order).Fits)
    {k position : Nat} (hinput : c.inputs[k]? = some id)
    (houtput : (c.describe order).outputIds[position]? = some id) : False := by
  have habove := hfits.bound_lt_of_mem_outputIds (List.mem_of_getElem? houtput)
  obtain ⟨inverted, hkind⟩ := hc.mem_inputs.1 (List.mem_of_getElem? hinput)
  exact UInt64.not_lt.2 (hc.id_le hkind rfl) habove

/-- A circuit has one node for each id, so its description declares none twice. -/
theorem Writable.unambiguous (hwritable : c.Writable) (hc : c.WellFormed) (hnamed : c.Named)
    (hlive : c.IsLiveOrder order) : (c.describe order).Unambiguous where
  declared := by
    rw [inputIds_describe, List.nodup_append]
    refine ⟨hc.nodup_inputs, nodup_gates_describe hlive, ?_⟩
    intro id hid other hother heq
    subst heq
    obtain ⟨inverted, hinput⟩ := hc.mem_inputs.1 hid
    obtain ⟨gate, hgate, hgateId⟩ := List.mem_map.1 hother
    have hkind := ((mem_gates_describe hlive).1 hgate).2
    rw [hgateId, hinput] at hkind
    cases hkind
  named := by
    have hfits := (hwritable.printable hc hnamed hlive).writtenIn.fits
    have hsymbols : (c.describe order).symbols =
        c.symbolsOf true 0 c.inputs ++ c.symbolsOf false 0 c.outputs := rfl
    have hinputs : ((c.symbolsOf true 0 c.inputs).map fun symbol =>
        c.inputs[symbol.position]?).Nodup := nodup_targets hc.nodup_inputs (Nat.le_refl _)
    have houtputs : ((c.symbolsOf false 0 c.outputs).map fun symbol =>
        (c.describe order).outputIds[symbol.position]?).Nodup := by
      refine nodup_targets (hfits.outputIds_sorted.imp UInt64.ne_of_lt) ?_
      rw [outputIds_describe, List.length_map, List.length_range]
    rw [hsymbols, List.map_append, map_target?_symbolsOf, map_target?_symbolsOf]
    simp only [if_true, Bool.false_eq_true, if_false, inputIds_describe]
    refine List.nodup_append.2 ⟨hinputs, houtputs, ?_⟩
    intro first hfirst second hsecond heq
    subst heq
    obtain ⟨symbol, hsymbol, hlabel⟩ := List.mem_map.1 hfirst
    obtain ⟨other, hother, hlabel'⟩ := List.mem_map.1 hsecond
    obtain ⟨k, id, name, hk, _, rfl⟩ := mem_symbolsOf.1 hsymbol
    dsimp only at hlabel
    rw [Nat.zero_add, hk] at hlabel
    exact hc.disjoint_targets hfits hk (hlabel'.trans hlabel.symm)

theorem IsLiveOrder.gate?_describe (hlive : c.IsLiveOrder order)
    (hd : (c.describe order).Unambiguous) {gate : Aiger.GateLine} :
    (c.describe order).gate? id = some gate ↔
      gate.id = id ∧ c.Live id ∧ c.kind? id = some (.gate gate.left gate.right) := by
  rw [hd.gate?_eq_some_iff, mem_gates_describe hlive, and_comm, and_congr_right_iff]
  rintro rfl
  rfl

theorem WellFormed.input?_describe (hc : c.WellFormed) (hd : (c.describe order).Unambiguous)
    {e : Edge} : (c.describe order).input? id = some e ↔
      e.node = id ∧ c.kind? id = some (.input e.inverted) := by
  rw [hd.input?_eq_some_iff, hc.mem_inputs_describe, and_comm, and_congr_right_iff]
  rintro rfl
  rfl

/-- The gates that are described have the fanins that they have in the circuit. -/
theorem IsLiveOrder.feeds_describe (hlive : c.IsLiveOrder order)
    (hd : (c.describe order).Unambiguous) {source consumer : NodeId} :
    (c.describe order).Feeds source consumer ↔ c.Live consumer ∧ c.Feeds source consumer ∧
      ∃ left right, c.kind? consumer = some (.gate left right) := by
  rw [Circuit.feeds_iff_output_or_gate]
  constructor
  · intro h
    obtain ⟨gate, hgate, hnode⟩ := h
    obtain ⟨_, hconsumer, hkind⟩ := (hlive.gate?_describe hd).1 hgate
    exact ⟨hconsumer, .inr ⟨_, _, hkind, hnode⟩, _, _, hkind⟩
  · intro h
    obtain ⟨hconsumer, ⟨driver, hkind, _⟩ | ⟨left, right, hkind, hnode⟩, _, _, hgate⟩ := h
    · rw [hkind] at hgate
      cases hgate
    · exact ⟨⟨consumer, left, right⟩, (hlive.gate?_describe hd).2 ⟨rfl, hconsumer, hkind⟩, hnode⟩

theorem IsLiveOrder.acyclic_describe (hlive : c.IsLiveOrder order)
    (hd : (c.describe order).Unambiguous) (hacyclic : c.Acyclic) : (c.describe order).Acyclic := by
  intro id hcycle
  refine hacyclic id (TransGen.mono (fun source consumer hfeeds => ?_) _ _ hcycle)
  exact ((hlive.feeds_describe hd).1 hfeeds).2.1

/-- What the description makes use of is what live nodes read. -/
theorem WellFormed.used_describe (hc : c.WellFormed) (hlive : c.IsLiveOrder order)
    (hd : (c.describe order).Unambiguous) :
    ((∃ driver ∈ (c.describe order).outputs, driver.node = id) ∨
      ∃ consumer, (c.describe order).Feeds id consumer) ↔
        ∃ consumer, c.Live consumer ∧ c.Feeds id consumer := by
  constructor
  · intro h
    obtain ⟨driver, hdriver, hnode⟩ | ⟨consumer, hfeeds⟩ := h
    · obtain ⟨position, hposition⟩ := List.mem_iff_getElem?.1 hdriver
      obtain ⟨output, _, hkind⟩ := hc.getElem?_outputs_describe.1 hposition
      exact ⟨output, ⟨output, hc.mem_outputs.2 ⟨driver, hkind⟩, .refl⟩, _, hkind, driver,
        List.mem_cons_self, hnode⟩
    · obtain ⟨hconsumer, hfeeds, _⟩ := (hlive.feeds_describe hd).1 hfeeds
      exact ⟨consumer, hconsumer, hfeeds⟩
  · intro h
    obtain ⟨consumer, hconsumer, hfeeds⟩ := h
    obtain ⟨driver, hkind, hnode⟩ | ⟨left, right, hkind, _⟩ := feeds_iff_output_or_gate.1 hfeeds
    · obtain ⟨position, hposition⟩ := List.mem_iff_getElem?.1 (hc.mem_outputs.2 ⟨driver, hkind⟩)
      have hdriver : (c.describe order).outputs[position]? = some driver :=
        hc.getElem?_outputs_describe.2 ⟨consumer, hposition, hkind⟩
      exact .inl ⟨driver, List.mem_of_getElem? hdriver, hnode⟩
    · exact .inr ⟨consumer, (hlive.feeds_describe hd).2 ⟨hconsumer, hfeeds, left, right, hkind⟩⟩

/-- Symbols tell names and positions, not ids. -/
theorem symbolsOf_map {d : Circuit} {label : NodeId → NodeId} {ids : List NodeId} (isInput : Bool)
    (position : Nat) (hids : ∀ id ∈ ids, d.name? (label id) = c.name? id) :
    d.symbolsOf isInput position (ids.map label) = c.symbolsOf isInput position ids := by
  induction ids generalizing position with
  | nil => rfl
  | cons id ids ih =>
    obtain ⟨hid, hids⟩ := List.forall_mem_cons.1 hids
    rw [List.map_cons, symbolsOf, symbolsOf, hid, ih _ hids]

/-- Circuits are described in the same way if all that is described is the same in them, but for the
    ids of the outputs, which are not written. -/
theorem WellFormed.describe_congr (hc : c.WellFormed) {d : Circuit} {label : NodeId → NodeId}
    (hinputs : d.inputs = c.inputs) (houtputs : d.outputs = c.outputs.map label)
    (hmaxVar : d.maxVar = c.maxVar)
    (hlabel : ∀ {id kind}, c.kind? id = some kind → kind.isOutput = false → label id = id)
    (hsame : ∀ id, id ∈ c.inputs ∨ id ∈ c.outputs ∨ id ∈ order →
      d.kind? (label id) = c.kind? id ∧ d.name? (label id) = c.name? id) :
    d.describe (order.map label) = c.describe order := by
  have hinput : c.inputs.map label = c.inputs := by
    refine (List.map_congr_left fun id hid => ?_).trans (List.map_id' c.inputs)
    obtain ⟨inverted, hkind⟩ := hc.mem_inputs.1 hid
    exact hlabel hkind rfl
  have hpolarities : d.inputs.map (fun id => (⟨id, d.kind? id == some (.input true)⟩ : Edge)) =
      c.inputs.map fun id => ⟨id, c.kind? id == some (.input true)⟩ := by
    rw [hinputs]
    refine List.map_congr_left fun id hid => ?_
    obtain ⟨inverted, hkind⟩ := hc.mem_inputs.1 hid
    have hkinds := (hsame id (.inl hid)).1
    rw [hlabel hkind rfl] at hkinds
    rw [hkinds]
  have hdrivers : d.outputs.map d.driver = c.outputs.map c.driver := by
    rw [houtputs, List.map_map]
    refine List.map_congr_left fun id hid => ?_
    rw [Function.comp_apply, driver, driver, (hsame id (.inr (.inl hid))).1]
  have hgates : (order.map label).filterMap (fun id => (d.kind? id).bind (Kind.gateLine? id)) =
      order.filterMap fun id => (c.kind? id).bind (Kind.gateLine? id) := by
    rw [List.filterMap_map]
    refine List.filterMap_congr fun id hid => ?_
    rw [Function.comp_apply, (hsame id (.inr (.inr hid))).1]
    cases hkind : c.kind? id with
    | none => rfl
    | some kind =>
      cases kind with
      | gate left right => rw [hlabel hkind rfl]
      | _ => rfl
  have hnames := symbolsOf_map true 0 fun id hid => (hsame id (.inl hid)).2
  rw [hinput, ← hinputs] at hnames
  have houtputNames := symbolsOf_map false 0 fun id hid => (hsame id (.inr (.inl hid))).2
  rw [← houtputs] at houtputNames
  rw [describe, describe, hmaxVar, hpolarities, hdrivers, hgates, hnames, houtputNames, hinputs]

/-- Sweeping takes out nothing that is described. -/
theorem Swept.describe_eq {d : Circuit} (h : c.Swept d) (hc : c.WellFormed)
    (hlive : c.IsLiveOrder order) : d.describe order = c.describe order := by
  have hstays : ∀ id, id ∈ c.inputs ∨ id ∈ c.outputs ∨ id ∈ order → c.Stays id := by
    intro id hid
    obtain hid | hid | hid := hid
    · obtain ⟨inverted, hkind⟩ := hc.mem_inputs.1 hid
      exact .inr ⟨_, hkind, rfl⟩
    · obtain ⟨driver, hkind⟩ := hc.mem_outputs.1 hid
      exact .inr ⟨_, hkind, rfl⟩
    · exact .inl (hlive.mem_iff.1 hid)
  have hdescribe : d.describe (order.map fun id => id) = c.describe order :=
    hc.describe_congr h.inputs (h.outputs.trans (List.map_id' _).symm) h.maxVar (fun _ _ => rfl)
      fun id hid => ⟨h.kind?_of_stays (hstays id hid), name?_eq_of_unread (h.unread (hstays id hid))⟩
  rwa [List.map_id'] at hdescribe

end Circuit

end AndInverter
