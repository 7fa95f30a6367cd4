import AndInverter.Proofs.Aiger.Described

open Relation

namespace AndInverter

namespace Circuit

variable {c d : Circuit} {order : List NodeId} {id : NodeId}

/-- The id of a node once the outputs are numbered anew, above the bound and in their order. -/
def renumber (c : Circuit) (id : NodeId) : NodeId :=
  if id ∈ c.outputs then Aiger.outputId c.maxVar (c.outputs.idxOf id) else id

/-- The second circuit is the first one with its outputs renumbered. Edges do not point at outputs,
    so kinds, which hold the edges, are the same. -/
structure Renumbered (c d : Circuit) : Prop where
  wellFormed : d.WellFormed
  inputs : d.inputs = c.inputs
  outputs : d.outputs = c.outputs.map c.renumber
  maxVar : d.maxVar = c.maxVar
  node : ∀ {id n}, c.node? id = some n → ∃ m, d.node? (c.renumber id) = some m ∧
    m.kind = n.kind ∧ m.name = n.name ∧
    ∀ reader, reader ∈ m.fanouts ↔ ∃ consumer ∈ n.fanouts, c.renumber consumer = reader
  injective : ∀ {a b}, (c.node? a).isSome = true → (c.node? b).isSome = true →
    c.renumber a = c.renumber b → a = b
  onto : ∀ {id}, (d.node? id).isSome = true →
    ∃ other, (c.node? other).isSome = true ∧ c.renumber other = id

theorem renumber_output (hc : c.WellFormed) {position : Nat} (h : c.outputs[position]? = some id) :
    c.renumber id = Aiger.outputId c.maxVar position := by
  obtain ⟨hlt, rfl⟩ := List.getElem?_eq_some_iff.1 h
  rw [renumber, if_pos (List.getElem_mem hlt), hc.nodup_outputs.idxOf_getElem]

theorem renumber_of_kind (hc : c.WellFormed) {kind : Kind} (hkind : c.kind? id = some kind)
    (houtput : kind.isOutput = false) : c.renumber id = id := by
  rw [renumber, if_neg]
  intro hmem
  obtain ⟨fanin, hfanin⟩ := hc.mem_outputs.1 hmem
  obtain rfl := Option.some.inj (hkind.symm.trans hfanin)
  cases houtput

theorem map_renumber_outputs (hc : c.WellFormed) :
    c.outputs.map c.renumber = (List.range c.outputs.length).map (Aiger.outputId c.maxVar) := by
  refine List.ext_getElem (by simp) fun position hlt _ => ?_
  rw [List.length_map] at hlt
  rw [List.getElem_map, renumber_output hc (List.getElem?_eq_getElem hlt)]
  simp

/-- Renumbered outputs come above the bound. -/
theorem Writable.maxVar_lt_renumber (hwritable : c.Writable) (hc : c.WellFormed) {driver : Edge}
    (hkind : c.kind? id = some (.output driver)) : c.maxVar < c.renumber id := by
  obtain ⟨position, hposition⟩ := List.mem_iff_getElem?.1 (hc.mem_outputs.2 ⟨driver, hkind⟩)
  have hlt := (List.getElem?_eq_some_iff.1 hposition).1
  have hroom := hwritable.room
  rw [renumber_output hc hposition, UInt64.lt_iff_toNat_lt, Aiger.Reader.toNat_outputId (by omega)]
  omega

/-- The new ids of the nodes differ. -/
theorem Writable.renumber_injective (hwritable : c.Writable) (hc : c.WellFormed) {a b : NodeId}
    {kind kind' : Kind} (ha : c.kind? a = some kind) (hb : c.kind? b = some kind')
    (heq : c.renumber a = c.renumber b) : a = b := by
  have hle : ∀ {id kind}, c.kind? id = some kind → kind.isOutput = false →
      c.renumber id = id ∧ ¬ c.maxVar < c.renumber id := by
    intro id kind hkind houtput
    have hid := renumber_of_kind hc hkind houtput
    exact ⟨hid, UInt64.not_lt.2 (hid.symm ▸ hc.id_le hkind houtput)⟩
  cases hout : kind.isOutput with
  | false =>
    obtain ⟨haid, habound⟩ := hle ha hout
    cases hout' : kind'.isOutput with
    | false => rw [← haid, heq, (hle hb hout').1]
    | true =>
      obtain ⟨driver, rfl⟩ := Kind.isOutput_iff.1 hout'
      exact absurd (heq ▸ hwritable.maxVar_lt_renumber hc hb) habound
  | true =>
    obtain ⟨driver, rfl⟩ := Kind.isOutput_iff.1 hout
    cases hout' : kind'.isOutput with
    | false => exact absurd (heq ▸ hwritable.maxVar_lt_renumber hc ha) (hle hb hout').2
    | true =>
      obtain ⟨driver', rfl⟩ := Kind.isOutput_iff.1 hout'
      obtain ⟨k, hk⟩ := List.mem_iff_getElem?.1 (hc.mem_outputs.2 ⟨driver, ha⟩)
      obtain ⟨k', hk'⟩ := List.mem_iff_getElem?.1 (hc.mem_outputs.2 ⟨driver', hb⟩)
      have hlt := (List.getElem?_eq_some_iff.1 hk).1
      have hlt' := (List.getElem?_eq_some_iff.1 hk').1
      have hroom := hwritable.room
      rw [renumber_output hc hk, renumber_output hc hk'] at heq
      have hsame := congrArg UInt64.toNat heq
      rw [Aiger.Reader.toNat_outputId (by omega), Aiger.Reader.toNat_outputId (by omega)] at hsame
      obtain rfl : k = k' := by omega
      exact Option.some.inj (hk.symm.trans hk')

section Names

theorem WellFormed.target?_input (hc : c.WellFormed) {position : Nat} {name : String}
    (h : c.inputs[position]? = some id) :
    (c.describe order).target? ⟨true, position, name⟩ = some (c.renumber id) := by
  obtain ⟨inverted, hkind⟩ := hc.mem_inputs.1 (List.mem_of_getElem? h)
  rw [Aiger.Description.target?, Aiger.target?, if_pos rfl, inputIds_describe, h,
    renumber_of_kind hc hkind rfl]

theorem WellFormed.target?_output (hc : c.WellFormed) {position : Nat} {name : String}
    (h : c.outputs[position]? = some id) :
    (c.describe order).target? ⟨false, position, name⟩ = some (c.renumber id) := by
  rw [Aiger.Description.target?, Aiger.target?, if_neg Bool.false_ne_true, outputIds_describe,
    ← map_renumber_outputs hc, List.getElem?_map, h, Option.map_some]

/-- A symbol that is printed holds the name of the node that it targets. -/
theorem WellFormed.of_mem_symbols (hc : c.WellFormed) {symbol : Aiger.Symbol}
    (h : symbol ∈ (c.describe order).symbols) : ∃ id kind, c.kind? id = some kind ∧
      c.name? id = some symbol.name ∧ (c.describe order).target? symbol = some (c.renumber id) := by
  obtain hmem | hmem := List.mem_append.1 h
  · obtain ⟨position, id, name, hid, hname, rfl⟩ := mem_symbolsOf.1 hmem
    obtain ⟨inverted, hkind⟩ := hc.mem_inputs.1 (List.mem_of_getElem? hid)
    rw [Nat.zero_add]
    exact ⟨id, _, hkind, hname, hc.target?_input hid⟩
  · obtain ⟨position, id, name, hid, hname, rfl⟩ := mem_symbolsOf.1 hmem
    obtain ⟨driver, hkind⟩ := hc.mem_outputs.1 (List.mem_of_getElem? hid)
    rw [Nat.zero_add]
    exact ⟨id, _, hkind, hname, hc.target?_output hid⟩

/-- Every name is printed. -/
theorem Named.exists_symbol (hnamed : c.Named) (hc : c.WellFormed) {name : String}
    (h : c.name? id = some name) : ∃ symbol ∈ (c.describe order).symbols,
      (c.describe order).target? symbol = some (c.renumber id) ∧ symbol.name = name := by
  obtain ⟨_, kind, hkind, hpart⟩ := hnamed id name h
  cases kind with
  | input inverted =>
    obtain ⟨position, hid⟩ := List.mem_iff_getElem?.1 (hc.mem_inputs.2 ⟨inverted, hkind⟩)
    refine ⟨⟨true, position, name⟩, List.mem_append_left _ ?_, hc.target?_input hid, rfl⟩
    exact mem_symbolsOf.2 ⟨position, id, name, hid, h, by rw [Nat.zero_add]⟩
  | output driver =>
    obtain ⟨position, hid⟩ := List.mem_iff_getElem?.1 (hc.mem_outputs.2 ⟨driver, hkind⟩)
    refine ⟨⟨false, position, name⟩, List.mem_append_right _ ?_, hc.target?_output hid, rfl⟩
    exact mem_symbolsOf.2 ⟨position, id, name, hid, h, by rw [Nat.zero_add]⟩
  | _ => cases hpart

/-- A node has the same name under its new id, for no two nodes share a symbol. -/
theorem Writable.name?_describe (hwritable : c.Writable) (hc : c.WellFormed) (hnamed : c.Named)
    (hd : (c.describe order).Unambiguous) {kind : Kind} (hkind : c.kind? id = some kind) :
    (c.describe order).name? (c.renumber id) = c.name? id := by
  refine Option.ext fun name => ?_
  rw [hd.name?_eq_some_iff]
  constructor
  · intro h
    obtain ⟨symbol, hsymbol, htarget, rfl⟩ := h
    obtain ⟨other, _, hother, hname, htarget'⟩ := hc.of_mem_symbols hsymbol
    have heq := Option.some.inj (htarget.symm.trans htarget')
    rw [hwritable.renumber_injective hc hkind hother heq]
    exact hname
  · exact hnamed.exists_symbol hc

end Names

/-- There are no gates and no undefined nodes but live ones. -/
def Tidy (c : Circuit) : Prop :=
  ∀ id kind, c.kind? id = some kind → (kind.isGate || kind.isUndefined) = true → c.Live id

theorem Swept.tidy (h : c.Swept d) (hc : c.WellFormed) : d.Tidy := by
  intro id kind hkind hgoes
  have hstays : c.Stays id := h.stays_of_isSome (by simp [hkind])
  rw [h.kind?_of_stays hstays] at hkind
  rw [h.live_iff hc]
  obtain hlive | ⟨kind', hkind', hother⟩ := hstays
  · exact hlive
  · obtain rfl := Option.some.inj (hkind.symm.trans hkind')
    rw [hother] at hgoes
    cases hgoes

/-- An undefined node is there because a live node reads it. -/
theorem Tidy.exists_reader (htidy : c.Tidy) (hc : c.WellFormed)
    (hkind : c.kind? id = some .undefined) : ∃ consumer, c.Live consumer ∧ c.Feeds id consumer := by
  obtain ⟨output, houtput, hreach⟩ := htidy id _ hkind rfl
  obtain rfl | ⟨consumer, hfeeds, hrest⟩ := hreach.cases_head
  · obtain ⟨driver, hdriver⟩ := hc.mem_outputs.1 houtput
    rw [hkind] at hdriver
    cases hdriver
  · exact ⟨consumer, ⟨output, houtput, hrest⟩, hfeeds⟩

section Denotes

variable (htidy : c.Tidy) (hc : c.WellFormed) (hlive : c.IsLiveOrder order)
  (hd : (c.describe order).Unambiguous) (h : (c.describe order).Denotes d)

include htidy hc hlive hd h

/-- A node that is described is read as what it was. -/
theorem Tidy.kind?_renumber {kind : Kind} (hkind : c.kind? id = some kind) :
    d.kind? (c.renumber id) = some kind := by
  cases kind with
  | constant =>
    rw [renumber_of_kind hc hkind rfl]
    exact h.wellFormed.constant_iff.2 (hc.constant_iff.1 hkind)
  | input inverted =>
    rw [renumber_of_kind hc hkind rfl, h.input_iff]
    exact (hc.input?_describe hd).2 ⟨rfl, hkind⟩
  | gate left right =>
    rw [renumber_of_kind hc hkind rfl, h.gate_iff]
    exact (hlive.gate?_describe hd).2 ⟨rfl, htidy id _ hkind rfl, hkind⟩
  | output driver =>
    obtain ⟨position, hposition⟩ := List.mem_iff_getElem?.1 (hc.mem_outputs.2 ⟨driver, hkind⟩)
    rw [renumber_output hc hposition, h.output_iff]
    exact ⟨position, hc.getElem?_outputs_describe.2 ⟨id, hposition, hkind⟩, rfl⟩
  | undefined =>
    rw [renumber_of_kind hc hkind rfl, h.undefined_iff]
    refine ⟨hc.ne_zero hkind nofun, ?_, ?_,
      (hc.used_describe hlive hd).2 (htidy.exists_reader hc hkind)⟩
    · rw [Option.eq_none_iff_forall_ne_some]
      intro e he
      obtain ⟨_, hinput⟩ := (hc.input?_describe hd).1 he
      rw [hkind] at hinput
      cases hinput
    · rw [Option.eq_none_iff_forall_ne_some]
      intro gate hgate
      obtain ⟨_, _, hgate⟩ := (hlive.gate?_describe hd).1 hgate
      rw [hkind] at hgate
      cases hgate

/-- Nothing else is read. -/
theorem Tidy.exists_of_kind? {kind : Kind} (hkind : d.kind? id = some kind) :
    ∃ old, c.kind? old = some kind ∧ c.renumber old = id := by
  cases kind with
  | constant =>
    have hconstant := hc.constant_iff.2 (h.wellFormed.constant_iff.1 hkind)
    exact ⟨id, hconstant, renumber_of_kind hc hconstant rfl⟩
  | input inverted =>
    obtain ⟨_, hinput⟩ := (hc.input?_describe hd).1 (h.input_iff.1 hkind)
    exact ⟨id, hinput, renumber_of_kind hc hinput rfl⟩
  | gate left right =>
    obtain ⟨_, _, hgate⟩ := (hlive.gate?_describe hd).1 (h.gate_iff.1 hkind)
    exact ⟨id, hgate, renumber_of_kind hc hgate rfl⟩
  | output driver =>
    obtain ⟨position, hposition, rfl⟩ := h.output_iff.1 hkind
    obtain ⟨old, hold, houtput⟩ := hc.getElem?_outputs_describe.1 hposition
    exact ⟨old, houtput, renumber_output hc hold⟩
  | undefined =>
    obtain ⟨hzero, hinput, hgate, hused⟩ := h.undefined_iff.1 hkind
    obtain ⟨consumer, _, kind, hconsumer, e, he, rfl⟩ := (hc.used_describe hlive hd).1 hused
    obtain ⟨source, hsource, houtput⟩ := hc.fanin hconsumer e he
    refine ⟨e.node, ?_, renumber_of_kind hc hsource houtput⟩
    cases source with
    | undefined => exact hsource
    | constant => exact absurd (hc.constant_iff.1 hsource) hzero
    | output driver => cases houtput
    | input inverted =>
      have hsome : (c.describe order).input? e.node = some ⟨e.node, inverted⟩ :=
        (hc.input?_describe hd).2 ⟨rfl, hsource⟩
      rw [hinput] at hsome
      cases hsome
    | gate left right =>
      have hsome : (c.describe order).gate? e.node = some ⟨e.node, left, right⟩ :=
        (hlive.gate?_describe hd).2 ⟨rfl, htidy _ _ hsource rfl, hsource⟩
      rw [hgate] at hsome
      cases hsome

/-- The consumers of a node are those it had, under their new ids. -/
theorem Tidy.feeds_renumber (hwritable : c.Writable) {kind : Kind} (hkind : c.kind? id = some kind)
    {reader : NodeId} : d.Feeds (c.renumber id) reader ↔
      ∃ consumer, c.Feeds id consumer ∧ c.renumber consumer = reader := by
  constructor
  · intro hfeeds
    obtain ⟨readerKind, hreader, e, he, hnode⟩ := hfeeds
    obtain ⟨consumer, hconsumer, hlabel⟩ := htidy.exists_of_kind? hc hlive hd h hreader
    obtain ⟨source, hsource, houtput⟩ := hc.fanin hconsumer e he
    refine ⟨consumer, ⟨readerKind, hconsumer, e, he, ?_⟩, hlabel⟩
    apply hwritable.renumber_injective hc hsource hkind
    rw [renumber_of_kind hc hsource houtput, hnode]
  · intro hfeeds
    obtain ⟨consumer, ⟨consumerKind, hconsumer, e, he, rfl⟩, rfl⟩ := hfeeds
    obtain ⟨source, hsource, houtput⟩ := hc.fanin hconsumer e he
    exact ⟨consumerKind, htidy.kind?_renumber hc hlive hd h hconsumer, e, he,
      (renumber_of_kind hc hsource houtput).symm⟩

/-- What is read of a tidy circuit is the circuit again, with its outputs renumbered. -/
theorem Tidy.renumbered (hwritable : c.Writable) (hnamed : c.Named) : c.Renumbered d where
  wellFormed := h.wellFormed
  inputs := by
    refine eq_of_sorted h.wellFormed.inputs_sorted hc.inputs_sorted fun id => ?_
    rw [h.wellFormed.mem_inputs, hc.mem_inputs]
    simp only [h.input_iff, hc.input?_describe hd, true_and]
  outputs := by
    rw [h.outputs, outputIds_describe, map_renumber_outputs hc]
  maxVar := h.maxVar
  node := by
    intro id n hn
    have hkind := kind?_of_node? hn
    obtain ⟨m, hm, hkinds⟩ :=
      kind?_eq_some_iff.1 (htidy.kind?_renumber hc hlive hd h hkind)
    refine ⟨m, hm, hkinds, ?_, fun reader => ?_⟩
    · rw [h.name hm, hwritable.name?_describe hc hnamed hd hkind, name?_of_node? hn]
    · rw [← lists_iff_mem hm, ← h.wellFormed.mirror,
        htidy.feeds_renumber hc hlive hd h hwritable hkind]
      simp only [hc.mirror, lists_iff_mem hn]
  injective := by
    intro a b ha hb heq
    rw [← isSome_kind?] at ha hb
    obtain ⟨kind, hkind⟩ := Option.isSome_iff_exists.1 ha
    obtain ⟨kind', hkind'⟩ := Option.isSome_iff_exists.1 hb
    exact hwritable.renumber_injective hc hkind hkind' heq
  onto := by
    intro id hid
    rw [← isSome_kind?] at hid
    obtain ⟨kind, hkind⟩ := Option.isSome_iff_exists.1 hid
    obtain ⟨old, hold, hlabel⟩ := htidy.exists_of_kind? hc hlive hd h hkind
    exact ⟨old, by rw [← isSome_kind?, hold, Option.isSome_some], hlabel⟩

end Denotes

namespace Renumbered

theorem kind? (h : c.Renumbered d) {kind : Kind} (hkind : c.kind? id = some kind) :
    d.kind? (c.renumber id) = some kind := by
  obtain ⟨n, hn, rfl⟩ := kind?_eq_some_iff.1 hkind
  obtain ⟨m, hm, hkinds, _⟩ := h.node hn
  exact kind?_eq_some_iff.2 ⟨m, hm, hkinds⟩

theorem name? (h : c.Renumbered d) {kind : Kind} (hkind : c.kind? id = some kind) :
    d.name? (c.renumber id) = c.name? id := by
  obtain ⟨n, hn, _⟩ := kind?_eq_some_iff.1 hkind
  obtain ⟨m, hm, _, hname, _⟩ := h.node hn
  rw [name?_of_node? hn, name?_of_node? hm, hname]

/-- To be written and read again renames the outputs, and nothing that is read. -/
theorem relabeled (h : c.Renumbered d) (hc : c.WellFormed) : c.Relabeled c.renumber d where
  outputs := h.outputs
  injective := by
    intro a b ha hb heq
    have hpresent : ∀ {id}, c.Live id → (c.node? id).isSome = true := fun hid =>
      (isSome_kind? ..).symm.trans (hid.isSome hc)
    exact h.injective (hpresent ha) (hpresent hb) heq
  label_of_feeds := by
    intro source consumer hfeeds
    obtain ⟨kind, hkind, e, he, rfl⟩ := hfeeds
    obtain ⟨source, hsource, houtput⟩ := hc.fanin hkind e he
    exact renumber_of_kind hc hsource houtput
  kind? := by
    intro id hlive
    obtain ⟨kind, hkind⟩ := Option.isSome_iff_exists.1 (hlive.isSome hc)
    rw [hkind, h.kind? hkind]

/-- A renumbered circuit is described in the same way. -/
theorem describe_eq (h : c.Renumbered d) (hc : c.WellFormed) (hlive : c.IsLiveOrder order) :
    d.describe (order.map c.renumber) = c.describe order := by
  refine hc.describe_congr h.inputs h.outputs h.maxVar (renumber_of_kind hc) fun id hid => ?_
  have hpresent : ∃ kind, c.kind? id = some kind := by
    obtain hid | hid | hid := hid
    · obtain ⟨inverted, hkind⟩ := hc.mem_inputs.1 hid
      exact ⟨_, hkind⟩
    · obtain ⟨driver, hkind⟩ := hc.mem_outputs.1 hid
      exact ⟨_, hkind⟩
    · exact Option.isSome_iff_exists.1 ((hlive.mem_iff.1 hid).isSome hc)
  obtain ⟨kind, hkind⟩ := hpresent
  exact ⟨(h.kind? hkind).trans hkind.symm, h.name? hkind⟩

/-- A renumbered circuit is printed in the same way. -/
theorem print_eq (h : c.Renumbered d) (hc : c.WellFormed) : Aiger.print d = Aiger.print c := by
  obtain ⟨order, horder, hlive⟩ := hc.exists_liveOrder
  have hrelabeled := (h.relabeled hc).liveOrder hc h.wellFormed.own_id horder
  rw [h.wellFormed.print_eq hrelabeled, hc.print_eq horder, h.describe_eq hc hlive]

end Renumbered

/-- What is read of the text of a circuit is the circuit with its outputs renumbered, if it has no
    dead nodes. -/
theorem Tidy.read_print (htidy : c.Tidy) (hc : c.WellFormed) (hwritable : c.Writable)
    (hnamed : c.Named) (hacyclic : c.Acyclic) : ∃ text d, Aiger.print c = .ok text ∧
      Aiger.read text.toUTF8 = (.ok d, #[]) ∧ c.Renumbered d ∧ Aiger.print d = .ok text := by
  obtain ⟨order, horder, hlive⟩ := hc.exists_liveOrder
  have hprint := hc.print_eq horder
  have hwritten := (hwritable.printable hc hnamed hlive).writtenIn_join
  have hunambiguous := hwritable.unambiguous hc hnamed hlive
  have hdenotes := hwritten.denotes
  have hrenumbered := htidy.renumbered hc hlive hunambiguous hdenotes hwritable hnamed
  refine ⟨_, _, hprint, Prod.ext ?_ ?_, hrenumbered, ?_⟩
  · exact hwritten.read_eq_ok_iff.2 ⟨rfl, hlive.acyclic_describe hunambiguous hacyclic⟩
  · rw [hwritten.read_eq]
    exact hunambiguous.warnings_found hwritten.fits
  · rw [hrenumbered.print_eq hc, hprint]

/-- Printing leaves out what sweeping takes out. -/
theorem Swept.print_eq (h : c.Swept d) (hc : c.WellFormed) : Aiger.print d = Aiger.print c := by
  obtain ⟨order, horder, hlive⟩ := hc.exists_liveOrder
  rw [hc.print_eq horder, h.wellFormed.print_eq (h.liveOrder hc horder), h.describe_eq hc hlive]

/-- A circuit without cycles, whatever session has led to it, is read again from its text as
    sweeping would leave it, up to the ids of the outputs. Nothing is passed over, and the circuit
    that is read has the same text. There have to be literals for its edges and ids for its outputs,
    which there are as long as circuits are only read and reworked. -/
theorem print_roundTrip (ops : List Operation) :
    ((∀ op ∈ ops, ¬ op.IsAddition) → (empty.after ops).Writable) ∧
    ((empty.after ops).Acyclic → (empty.after ops).Writable →
      ∃ text ids swept d, Aiger.print (empty.after ops) = .ok text ∧
        Aiger.read text.toUTF8 = (.ok d, #[]) ∧
        Circuit.sweep (empty.after ops) = .ok ids swept ∧ swept.Renumbered d ∧
        Aiger.print d = .ok text) := by
  refine ⟨writable_after, fun hacyclic hwritable => ?_⟩
  have hc := wellFormed_empty.after ops
  obtain ⟨ids, swept, hsweep, hswept⟩ := hc.exists_swept
  have hnamed := lasting_named.sweep.of_ok ⟨hc, named_after ops⟩ hsweep
  have hkept := lasting_writable.sweep.of_ok ⟨hc, hwritable⟩ hsweep
  obtain ⟨text, d, hprint, hread, hrenumbered, hreprint⟩ := (hswept.tidy hc).read_print
    hswept.wellFormed hkept.2 hnamed.2 ((hswept.acyclic_iff hc).2 hacyclic.liveAcyclic)
  exact ⟨text, ids, swept, d, (hswept.print_eq hc).symm.trans hprint, hread, hsweep, hrenumbered,
    hreprint⟩

/-- The only gate gives way to an input, so it is dead when the circuit is printed. -/
def trimmed : List Operation := [.load (some Aiger.sample), .merge 3 2 true]

theorem print_roundTrip_trimmed : ∃ ids swept d,
    Aiger.print (empty.after trimmed) = .ok "aag 7 2 0 2 0\n3\n4\n5\n15\ni0 a b\no1 z\n" ∧
    Aiger.read "aag 7 2 0 2 0\n3\n4\n5\n15\ni0 a b\no1 z\n".toUTF8 = (.ok d, #[]) ∧
    Circuit.sweep (empty.after trimmed) = .ok ids swept ∧ swept.Renumbered d := by
  have haudit : (empty.after trimmed).audit = .ok () := by decide +kernel
  have hacyclic := (wellFormed_empty.after trimmed).audit_eq_ok_iff.1 haudit
  have hops : ∀ op ∈ trimmed, ¬ op.IsAddition := by simp [trimmed, Operation.IsAddition]
  have htext : Aiger.print (empty.after trimmed) =
      .ok "aag 7 2 0 2 0\n3\n4\n5\n15\ni0 a b\no1 z\n" := by decide +kernel
  obtain ⟨hwritable, hround⟩ := print_roundTrip trimmed
  obtain ⟨text, ids, swept, d, hprint, hread, hsweep, hrenumbered, _⟩ :=
    hround hacyclic (hwritable hops)
  obtain rfl := Except.ok.inj (htext.symm.trans hprint)
  exact ⟨ids, swept, d, htext, hread, hsweep, hrenumbered⟩

end Circuit

end AndInverter
