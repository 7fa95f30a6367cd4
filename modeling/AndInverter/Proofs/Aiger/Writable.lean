import AndInverter.Proofs.Aiger.Denotation
import AndInverter.Proofs.LiveCone
import AndInverter.Proofs.Session
import AndInverter.Proofs.Text.Layout

namespace AndInverter

/-- The name can be the rest of a line. -/
def Text.IsName (name : String) : Prop := name ≠ "" ∧ IsLine name.toList

namespace Circuit

variable {c d : Circuit} {id : NodeId} {name : String}

def name? (c : Circuit) (id : NodeId) : Option String := (c.node? id).bind (·.name)

/-- Only inputs and outputs have names, and the names can be written. -/
def Named (c : Circuit) : Prop := ∀ id name, c.name? id = some name →
  Text.IsName name ∧ ∃ kind, c.kind? id = some kind ∧ (kind.isInput || kind.isOutput) = true

/-- There is a literal for every edge. -/
def Expressible (c : Circuit) : Prop := ∀ id kind, c.kind? id = some kind →
  kind.isOutput = false → 2 * id.toNat < UInt64.size

/-- There is a literal for every edge, and above the bound an id for every output. -/
structure Writable (c : Circuit) : Prop where
  literal : ∀ {id kind}, c.kind? id = some kind → kind.isOutput = false →
    2 * id.toNat < UInt64.size
  room : c.maxVar.toNat + c.outputs.length < UInt64.size

theorem name?_of_node? {n : Node} (h : c.node? id = some n) : c.name? id = n.name := by
  rw [name?, h, Option.bind_some]

theorem name?_update (c : Circuit) (id other : NodeId) {f : Node → Node}
    (hname : ∀ n, (f n).name = n.name) : (c.update id f).name? other = c.name? other := by
  rw [name?, node?_update]
  split
  · next heq =>
    subst heq
    rw [name?, Option.bind_map]
    exact congrArg ((c.node? id).bind ·) (funext hname)
  · rfl

theorem name?_of_attach {n : Node} (hattach : c.attach n = .ok d) (id : NodeId) :
    d.name? id = if n.id = id then n.name else c.name? id := by
  obtain ⟨_, _, rfl⟩ := attach_eq_ok_iff.1 hattach
  have hfanouts : ∀ (edges : List Edge) (c : Circuit),
      (edges.foldl (fun c e => c.addFanout n.id e.node) c).name? id = c.name? id := by
    intro edges
    induction edges with
    | nil => exact fun _ => rfl
    | cons e edges ih => exact fun c => (ih _).trans (name?_update c e.node id fun _ => rfl)
  rw [hfanouts, name?, node?_insert]
  split <;> rfl

theorem name?_of_redirect {victim : NodeId} {replacement : Edge}
    (h : c.redirect victim replacement = .ok d) (id : NodeId) : d.name? id = c.name? id := by
  have hname := congrArg (Option.bind · Node.name) (unlinked_of_redirect h id)
  rwa [Option.bind_map, Option.bind_map] at hname

theorem name?_eq_of_unread (h : (d.node? id).map Node.unread = (c.node? id).map Node.unread) :
    d.name? id = c.name? id := by
  have hname := congrArg (Option.bind · Node.name) h
  rwa [Option.bind_map, Option.bind_map] at hname

theorem name?_of_remove {ids : List NodeId} (h : c.remove ids = .ok d) (id : NodeId) :
    d.name? id = if id ∈ ids then none else c.name? id := by
  obtain ⟨_, rfl⟩ := remove_eq_ok_iff.1 h
  have hnode := unread_foldl_erase c ids id
  by_cases hgone : id ∈ ids
  · rw [if_pos hgone] at hnode ⊢
    rw [name?, Option.map_eq_none_iff.1 hnode, Option.bind_none]
  · rw [if_neg hgone] at hnode ⊢
    exact name?_eq_of_unread hnode

/-- No edit and no pass renames a node. -/
theorem lasting_named : Lasting fun c => c.WellFormed ∧ c.Named where
  classify := by
    intro c d hboth hclassify
    obtain ⟨hc, hnamed⟩ := hboth
    obtain ⟨classes, rfl⟩ := exists_classes_of_classify hclassify
    exact ⟨(sameShape_classes c classes).wellFormed hc, hnamed⟩
  simulated := by
    intro c d hboth h
    obtain ⟨hc, hnamed⟩ := hboth
    refine ⟨h.wellFormed hc, fun id name hname => ?_⟩
    rw [h.kind?]
    have hsame : d.name? id = c.name? id := by
      have hnames := congrArg (Option.bind · fun name => name) (h.name id)
      rwa [Option.bind_map, Option.bind_map] at hnames
    exact hnamed id name (hsame.symm.trans hname)
  redirect := by
    intro c d victim replacement hboth hredirect
    obtain ⟨hc, hnamed⟩ := hboth
    obtain ⟨hredirected, hd⟩ := hc.of_redirect hredirect
    refine ⟨hd, fun id name hname => ?_⟩
    rw [name?_of_redirect hredirect] at hname
    obtain ⟨hgood, kind, hkind, hnamedKind⟩ := hnamed id name hname
    refine ⟨hgood, kind.retarget victim replacement, ?_, ?_⟩
    · rw [hredirected.kind?, hkind, Option.map_some]
    · cases kind <;> exact hnamedKind
  remove := by
    intro c d ids hboth hremove
    obtain ⟨hc, hnamed⟩ := hboth
    obtain ⟨hwithout, hd⟩ := hc.of_remove hremove
    refine ⟨hd, fun id name hname => ?_⟩
    rw [name?_of_remove hremove] at hname
    rw [hwithout.kind?]
    split at hname
    · cases hname
    · next hstays =>
      rw [if_neg hstays]
      exact hnamed id name hname

/-- Edges are moved to nodes that are there, so no pass brings in an id without a literal. -/
theorem lasting_expressible : Lasting fun c => c.WellFormed ∧ c.Expressible where
  classify := by
    intro c d hboth hclassify
    obtain ⟨classes, rfl⟩ := exists_classes_of_classify hclassify
    exact ⟨(sameShape_classes c classes).wellFormed hboth.1, hboth.2⟩
  simulated := by
    intro c d hboth h
    refine ⟨h.wellFormed hboth.1, fun id kind hkind houtput => ?_⟩
    rw [h.kind?] at hkind
    exact hboth.2 id kind hkind houtput
  redirect := by
    intro c d victim replacement hboth hredirect
    obtain ⟨hredirected, hd⟩ := hboth.1.of_redirect hredirect
    refine ⟨hd, fun id kind hkind houtput => ?_⟩
    rw [hredirected.kind?] at hkind
    obtain ⟨old, hold, rfl⟩ := Option.map_eq_some_iff.1 hkind
    exact hboth.2 id old hold ((Kind.isOutput_retarget ..).symm.trans houtput)
  remove := by
    intro c d ids hboth hremove
    obtain ⟨hwithout, hd⟩ := hboth.1.of_remove hremove
    refine ⟨hd, fun id kind hkind houtput => ?_⟩
    rw [hwithout.kind?] at hkind
    split at hkind
    · cases hkind
    · exact hboth.2 id kind hkind houtput

theorem Writable.expressible (h : c.Writable) : c.Expressible := fun _ _ => h.literal

/-- No edit of a pass raises the bound or adds a node. -/
theorem lasting_writable : Lasting fun c => c.WellFormed ∧ c.Writable where
  classify := by
    intro c d hboth hclassify
    obtain ⟨hd, hexpressible⟩ := lasting_expressible.classify ⟨hboth.1, hboth.2.expressible⟩ hclassify
    obtain ⟨classes, rfl⟩ := exists_classes_of_classify hclassify
    exact ⟨hd, hexpressible _ _, hboth.2.room⟩
  simulated := by
    intro c d hboth h
    obtain ⟨hd, hexpressible⟩ := lasting_expressible.simulated ⟨hboth.1, hboth.2.expressible⟩ h
    refine ⟨hd, hexpressible _ _, ?_⟩
    rw [h.maxVar, h.outputs]
    exact hboth.2.room
  redirect := by
    intro c d victim replacement hboth hredirect
    obtain ⟨hd, hexpressible⟩ := lasting_expressible.redirect ⟨hboth.1, hboth.2.expressible⟩ hredirect
    have hredirected := (hboth.1.of_redirect hredirect).1
    refine ⟨hd, hexpressible _ _, ?_⟩
    rw [hredirected.maxVar, hredirected.outputs]
    exact hboth.2.room
  remove := by
    intro c d ids hboth hremove
    obtain ⟨hd, hexpressible⟩ := lasting_expressible.remove ⟨hboth.1, hboth.2.expressible⟩ hremove
    have hwithout := (hboth.1.of_remove hremove).1
    refine ⟨hd, hexpressible _ _, ?_⟩
    rw [hwithout.maxVar, hwithout.outputs]
    exact hboth.2.room

end Circuit

namespace Aiger

open Text (Holds)

variable {text : ByteArray} {c : Circuit} {d : Description} {lines : List Text.Line}

theorem IsLiteral.node_lt {bound : NodeId} {word : List Char} {e : Edge}
    (h : IsLiteral bound word e) : 2 * e.node.toNat < UInt64.size := by
  obtain ⟨_, l, _, rfl⟩ := h
  have hl : l.toNat < UInt64.size := l.toNat_lt
  have hnode : (Edge.ofLiteral l).node.toNat = l.toNat / 2 := UInt64.toNat_div l 2
  omega

namespace Description

/-- The rest of a line that is read can be written as the rest of a line. -/
theorem WrittenIn.isName (hwritten : d.WrittenIn (Text.lines text)) {symbol : Symbol}
    (hsymbol : symbol ∈ d.symbols) : Text.IsName symbol.name := by
  obtain ⟨header, inputs, outputs, gates, symbols, rest, hlines, _, _, _, _, _, hsymbols, _⟩ :=
    hwritten
  obtain ⟨chars, hchars, hne, digits, _, hline⟩ :=
    exists_of_forall₂_holds hsymbols symbol hsymbol
  refine ⟨hne, ⟨fun hnewline => ?_, fun hreturn => ?_⟩⟩
  · have hmem : some chars ∈ Text.lines text := by
      rw [hlines]
      simp [hchars]
    refine Text.newline_not_mem_of_lines hmem (Text.mem_of_mem_dropReturns ?_)
    rw [hline]
    simp [hnewline]
  · refine Text.getLast?_dropReturns chars ?_
    rw [hline, List.getLast?_cons, List.getLast?_append, List.getLast?_cons, hreturn]
    rfl

/-- Symbols name inputs and outputs. -/
theorem Denotes.kind?_of_target? (h : d.Denotes c) {symbol : Symbol} {id : NodeId}
    (htarget : d.target? symbol = some id) :
    ∃ kind, c.kind? id = some kind ∧ (kind.isInput || kind.isOutput) = true := by
  have hmem := List.mem_of_getElem? htarget
  split at hmem
  · obtain ⟨e, he, hnode⟩ := List.mem_map.1 hmem
    have hsome : (d.input? id).isSome = true := List.find?_isSome.2 ⟨e, he, beq_iff_eq.2 hnode⟩
    obtain ⟨first, hfirst⟩ := Option.isSome_iff_exists.1 hsome
    exact ⟨_, h.input_iff.2 (declares_of_input? hfirst), rfl⟩
  · rw [← h.outputs] at hmem
    obtain ⟨driver, hdriver⟩ := h.wellFormed.mem_outputs.1 hmem
    exact ⟨_, hdriver, rfl⟩

theorem WrittenIn.named (hwritten : d.WrittenIn (Text.lines text)) (h : d.Denotes c) :
    c.Named := by
  intro id name hname
  obtain ⟨n, hn, hname⟩ := Option.bind_eq_some_iff.1 hname
  rw [h.name hn, name?] at hname
  obtain ⟨symbol, hfind, rfl⟩ := Option.map_eq_some_iff.1 hname
  have htarget : d.target? symbol = some id :=
    beq_iff_eq.1 (List.find?_some (p := fun symbol => d.target? symbol == some id) hfind)
  exact ⟨hwritten.isName (List.mem_of_find?_eq_some hfind), h.kind?_of_target? htarget⟩

/-- Half a 64-bit number is all that a literal leaves for an id. -/
theorem WrittenIn.writable (hwritten : d.WrittenIn lines) (h : d.Denotes c) :
    c.Writable := by
  have hfits := hwritten.fits
  obtain ⟨header, inputs, outputs, gates, symbols, rest, _, _, hinputs, houtputs, _, hgates, _⟩ :=
    hwritten
  have hgate : ∀ {id gate}, d.gate? id = some gate →
      2 * gate.id.toNat < UInt64.size ∧ 2 * gate.left.node.toNat < UInt64.size ∧
        2 * gate.right.node.toNat < UInt64.size := by
    intro id gate hgate
    obtain ⟨_, _, _, _, _, _, _, hfirst, hsecond, hthird⟩ :=
      exists_of_forall₂_holds hgates gate (List.mem_of_find?_eq_some (gate?_eq_some_iff.1 hgate).2)
    exact ⟨hfirst.node_lt, hsecond.node_lt, hthird.node_lt⟩
  constructor
  · intro id kind hkind houtput
    cases kind with
    | constant =>
      rw [h.wellFormed.constant_iff.1 hkind]
      decide
    | input inverted =>
      obtain ⟨_, _, _, _, _, hliteral⟩ := exists_of_forall₂_holds hinputs _
        (List.mem_of_find?_eq_some (h.input_iff.1 hkind))
      exact hliteral.node_lt
    | gate left right => exact (hgate (h.gate_iff.1 hkind)).1
    | output driver => cases houtput
    | undefined =>
      obtain ⟨_, _, _, ⟨driver, hdriver, rfl⟩ | ⟨consumer, gate, hconsumer, hnode⟩⟩ :=
        h.undefined_iff.1 hkind
      · obtain ⟨_, _, _, _, hliteral⟩ := exists_of_forall₂_holds houtputs driver hdriver
        exact hliteral.node_lt
      · obtain ⟨_, hleft, hright⟩ := hgate hconsumer
        obtain rfl | rfl := hnode
        · exact hleft
        · exact hright
  · rw [h.maxVar, h.outputs, outputIds, List.length_map, List.length_range]
    by_cases hnone : d.outputs = []
    · rw [hnone]
      exact d.bound.toNat_lt
    · exact hfits.room hnone

end Description

end Aiger

namespace Circuit

variable {c : Circuit}

/-- Names come from symbol lines only, and these hold no line break. -/
theorem Named.perform (hc : c.WellFormed) (hnamed : c.Named) (op : Operation) :
    (op.perform c).2.Named := by
  by_cases haddition : op.IsAddition
  · refine Operation.addition_induction haddition hc hnamed fun n d hattach _ _ _ hnew => ?_
    intro id name hname
    rw [name?_of_attach hattach] at hname
    rw [kind?_of_attach hattach]
    by_cases heq : n.id = id
    · rw [if_pos heq, hnew] at hname
      cases hname
    · rw [if_neg heq] at hname ⊢
      exact hnamed id name hname
  cases op with
  | load contents =>
    refine Operation.attempt_induction hnamed fun d hd => ?_
    cases contents with
    | none => cases hd
    | some text =>
      obtain ⟨description, hwritten⟩ := Aiger.exists_writtenIn_of_read hd
      obtain ⟨rfl, _⟩ := hwritten.read_eq_ok_iff.1 hd
      exact hwritten.named hwritten.denotes
  | merge victim survivor inverted =>
    exact Operation.attempt_induction hnamed fun d hd => (lasting_named.redirect ⟨hc, hnamed⟩ hd).2
  | addInput | addGate | addOutput => exact absurd trivial haddition
  | _ => exact (lasting_named.perform (by simp [Operation.IsConstruction]) (by simp) ⟨hc, hnamed⟩).2

/-- A description that can be read has literals for its edges. -/
theorem writable_of_readIfPresent {contents : Option ByteArray}
    (h : (Aiger.readIfPresent contents).1 = .ok c) : c.Writable := by
  cases contents with
  | none => cases h
  | some text =>
    obtain ⟨description, hwritten⟩ := Aiger.exists_writtenIn_of_read h
    obtain ⟨rfl, _⟩ := hwritten.read_eq_ok_iff.1 h
    exact hwritten.writable hwritten.denotes

theorem Writable.perform (hc : c.WellFormed) (hwritable : c.Writable) {op : Operation}
    (hop : ¬ op.IsAddition) : (op.perform c).2.Writable := by
  have hboth := And.intro hc hwritable
  cases op with
  | load contents =>
    exact Operation.attempt_induction hwritable fun d hd => writable_of_readIfPresent hd
  | merge victim survivor inverted =>
    exact Operation.attempt_induction hwritable fun d hd => (lasting_writable.redirect hboth hd).2
  | addInput | addGate | addOutput => exact absurd trivial hop
  | _ => exact (lasting_writable.perform (by simp [Operation.IsConstruction]) (by simp) hboth).2

theorem named_empty : empty.Named := by
  intro id name hname
  rw [name?, node?_empty] at hname
  split at hname <;> cases hname

theorem writable_empty : empty.Writable := by
  refine ⟨fun {id kind} hkind _ => ?_, by decide⟩
  rw [kind?_empty] at hkind
  split at hkind
  · next hzero =>
    rw [hzero]
    decide
  · cases hkind

/-- Only inputs and outputs have names in any state of any session. -/
theorem named_after (ops : List Operation) : (empty.after ops).Named := by
  suffices h : ∀ c : Circuit, c.WellFormed → c.Named → (c.after ops).Named from
    h empty wellFormed_empty named_empty
  induction ops with
  | nil => exact fun c _ hnamed => hnamed
  | cons op ops ih => exact fun c hc hnamed => ih _ (hc.perform op) (hnamed.perform hc op)

/-- All ids and outputs of a circuit that was read and then only reworked can be written. -/
theorem writable_after {ops : List Operation} (hops : ∀ op ∈ ops, ¬ op.IsAddition) :
    (empty.after ops).Writable := by
  suffices h : ∀ c : Circuit, c.WellFormed → c.Writable → (c.after ops).Writable from
    h empty wellFormed_empty writable_empty
  induction ops with
  | nil => exact fun c _ hwritable => hwritable
  | cons op ops ih =>
    obtain ⟨hop, hops⟩ := List.forall_mem_cons.1 hops
    exact fun c hc hwritable => ih hops _ (hc.perform op) (hwritable.perform hc hop)

end Circuit

end AndInverter
