import AndInverter.Circuit.Reduction
import AndInverter.Proofs.Encoding
import AndInverter.Proofs.LiveOrder.Listing
import AndInverter.Proofs.Walk.Calls

open Relation

namespace AndInverter

namespace Encoding

variable {enc : Encoding} {kind : Kind}

theorem edgeLit_eq_error {e : Edge} (h : e.node ∉ enc.vars) :
    enc.edgeLit e = .error (.invalid (.notEncoded e.node)) := by
  have hnone : enc.vars[e.node]? = none := Std.TreeMap.getElem?_eq_none h
  simp [edgeLit, nodeLit, lit?, hnone, Bind.bind, Except.bind]

/-- A node gets a variable when its fanins have theirs. An output gets none, and needs none. -/
theorem exists_encodeNode (id : NodeId)
    (h : kind.isOutput = false → ∀ e ∈ kind.fanins, e.node ∈ enc.vars) :
    ∃ enc', enc.encodeNode id kind = .ok enc' ∧
      ∀ other, other ∈ enc'.vars ↔ other ∈ enc.vars ∨ other = id ∧ kind.isOutput = false := by
  have hextend : kind.isOutput = false → ∀ made, ∀ other,
      other ∈ (enc.extend id made).vars ↔
        other ∈ enc.vars ∨ other = id ∧ kind.isOutput = false := by
    intro houtput made other
    rw [Circuit.mem_extend, and_iff_left houtput]
  cases kind with
  | output fanin => exact ⟨enc, rfl, fun other => by simp [Kind.isOutput]⟩
  | constant | undefined | input => exact ⟨_, rfl, hextend rfl _⟩
  | gate left right =>
    obtain ⟨u, hu⟩ := Circuit.exists_of_mem (h rfl left List.mem_cons_self)
    obtain ⟨v, hv⟩ := Circuit.exists_of_mem (h rfl right (.tail left List.mem_cons_self))
    have hencode : enc.encodeNode id (.gate left right) = .ok (enc.extend id (Sat.Cnf.andClauses
        ((Sat.Lit.pos u).negateIf left.inverted) ((Sat.Lit.pos v).negateIf right.inverted))) := by
      rw [encodeNode, Circuit.edgeLit_eq hu, Circuit.edgeLit_eq hv]
      rfl
    exact ⟨_, hencode, hextend rfl _⟩

/-- A gate whose fanins do not all have a variable is refused, with the name of the first that has
    none. -/
theorem encodeNode_eq_error (id : NodeId) (houtput : kind.isOutput = false) {e : Edge}
    (he : e ∈ kind.fanins) (hmissing : e.node ∉ enc.vars) :
    ∃ first ∈ kind.fanins, first.node ∉ enc.vars ∧
      enc.encodeNode id kind = .error (.invalid (.notEncoded first.node)) := by
  cases kind with
  | output fanin => cases houtput
  | constant | undefined | input => cases he
  | gate left right =>
    by_cases hleft : left.node ∈ enc.vars
    · obtain ⟨u, hu⟩ := Circuit.exists_of_mem hleft
      have hright : right.node ∉ enc.vars := by
        rcases List.mem_cons.1 he with rfl | he
        · exact absurd hleft hmissing
        · rwa [← List.mem_singleton.1 he]
      refine ⟨right, .tail left List.mem_cons_self, hright, ?_⟩
      rw [encodeNode, Circuit.edgeLit_eq hu, edgeLit_eq_error hright]
      rfl
    · refine ⟨left, List.mem_cons_self, hleft, ?_⟩
      rw [encodeNode, edgeLit_eq_error hleft]
      rfl

end Encoding

namespace Circuit

/-- Encodes one more node. -/
def encodeInto (c : Circuit) (id : NodeId) (enc : Encoding) : Except Error Encoding := do
  enc.encodeNode id (← c.node id).kind

variable {c : Circuit} {order ids : List NodeId}

theorem encode_eq (horder : c.liveOrder = .ok order) :
    c.encode = order.reverse.foldrM c.encodeInto .empty := by
  rw [List.foldrM_reverse, encode, horder]
  rfl

theorem encodeInto_eq {id : NodeId} {kind : Kind} (hkind : c.kind? id = some kind)
    (enc : Encoding) : c.encodeInto id enc = enc.encodeNode id kind := by
  obtain ⟨n, hn, rfl⟩ := kind?_eq_some_iff.1 hkind
  rw [encodeInto, node_eq_ok_iff.2 hn]
  rfl

/-- An output feeds nothing. -/
theorem WellFormed.isOutput_of_transGen (hc : c.WellFormed) {id other : NodeId} {kind : Kind}
    (hkind : c.kind? id = some kind) (h : TransGen c.Feeds id other) : kind.isOutput = false := by
  obtain ⟨consumer, ⟨reader, hreader, e, he, rfl⟩, _⟩ := TransGen.head'_iff.1 h
  obtain ⟨found, hfound, houtput⟩ := hc.fanin hreader e he
  rwa [Option.some.inj (hkind.symm.trans hfound)]

/-- The encoder stops at a fanin of the node, one that depends on the node. -/
def StopsAt (c : Circuit) (id : NodeId) (result : Except Error Encoding) : Prop :=
  ∃ source, c.Feeds source id ∧ TransGen c.Feeds id source ∧
    result = .error (.invalid (.notEncoded source))

/-- What becomes of a node when those of its fanins that do not depend on it are already listed. It
    gets through if all its fanins are, and otherwise the encoder stops. -/
theorem WellFormed.encodeInto_cases (hc : c.WellFormed) {id : NodeId} {kind : Kind}
    {enc : Encoding} (hkind : c.kind? id = some kind)
    (hsettled : ∀ source, c.Feeds source id → source ∈ ids ∨ TransGen c.Feeds id source)
    (hencoded : ∀ e ∈ kind.fanins, e.node ∈ enc.vars ↔ e.node ∈ ids) :
    ((∀ source, c.Feeds source id → source ∈ ids) ∧ ∃ enc', c.encodeInto id enc = .ok enc' ∧
      ∀ other, other ∈ enc'.vars ↔ other ∈ enc.vars ∨ other = id ∧ kind.isOutput = false) ∨
    c.StopsAt id (c.encodeInto id enc) := by
  rw [encodeInto_eq hkind]
  by_cases hfanins : kind.isOutput = false → ∀ e ∈ kind.fanins, e.node ∈ enc.vars
  · refine .inl ⟨fun source hsource => ?_, Encoding.exists_encodeNode id hfanins⟩
    rcases hsettled source hsource with hlisted | hpath
    · exact hlisted
    · have houtput := hc.isOutput_of_transGen hkind hpath
      obtain ⟨found, hfound, e, he, rfl⟩ := hsource
      obtain rfl := Option.some.inj (hkind.symm.trans hfound)
      exact (hencoded e he).1 (hfanins houtput e he)
  · simp only [Classical.not_imp, not_forall] at hfanins
    obtain ⟨houtput, e, he, hmissing⟩ := hfanins
    obtain ⟨first, hfirst, hlacks, hfails⟩ := Encoding.encodeNode_eq_error id houtput he hmissing
    have hfeeds : c.Feeds first.node id := ⟨kind, hkind, first, hfirst, rfl⟩
    rw [hencoded first hfirst] at hlacks
    exact .inr ⟨first.node, hfeeds, (hsettled first.node hfeeds).resolve_left hlacks, hfails⟩

/-- Nodes in postorder are encoded one after the other, up to the first gate that reads a node which
    depends on it and comes later. The latest node comes first in the list, so that the induction is
    on the last node encoded. -/
theorem WellFormed.foldrM_encodeInto (hc : c.WellFormed) (hpostordered : c.Postordered ids)
    (hpresent : ∀ id ∈ ids, (c.kind? id).isSome = true) :
    (c.Topological ids ∧ ∃ enc, ids.foldrM c.encodeInto .empty = .ok enc ∧
      ∀ id, id ∈ enc.vars ↔ id ∈ ids ∧ ∃ kind, c.kind? id = some kind ∧ kind.isOutput = false) ∨
    ∃ id ∈ ids, c.StopsAt id (ids.foldrM c.encodeInto .empty) := by
  induction ids with
  | nil => exact .inl ⟨trivial, .empty, rfl, by simp [Encoding.empty]⟩
  | cons id earlier ih =>
    obtain ⟨hsettled, hpostordered⟩ := hpostordered
    obtain ⟨hself, hpresent⟩ := List.forall_mem_cons.1 hpresent
    obtain ⟨kind, hkind⟩ := Option.isSome_iff_exists.1 hself
    rw [List.foldrM_cons]
    rcases ih hpostordered hpresent with ⟨htopological, enc, hfold, hmem⟩ | hstops
    · have hencoded : ∀ e ∈ kind.fanins, e.node ∈ enc.vars ↔ e.node ∈ earlier := by
        intro e he
        rw [hmem, and_iff_left (hc.fanin hkind e he)]
      have hlast : (earlier.foldrM c.encodeInto .empty >>= c.encodeInto id) =
          c.encodeInto id enc := by
        rw [hfold]
        rfl
      rw [hlast]
      rcases hc.encodeInto_cases hkind hsettled hencoded with ⟨hfirst, enc', hencode, hmem'⟩ | hstops
      · refine .inl ⟨⟨hfirst, htopological⟩, enc', hencode, fun other => ?_⟩
        rw [hmem', hmem, encoded_cons_iff hkind]
      · exact .inr ⟨id, List.mem_cons_self, hstops⟩
    · obtain ⟨consumer, hconsumer, source, hfeeds, hpath, hfold⟩ := hstops
      refine .inr ⟨consumer, .tail id hconsumer, source, hfeeds, hpath, ?_⟩
      rw [hfold]
      rfl

/-- Either the encoder gets through, and no live node depends on itself, or it stops at a live node
    that does. -/
theorem WellFormed.encode_cases (hc : c.WellFormed) :
    (c.LiveAcyclic ∧ ∃ enc, c.encode = .ok enc) ∨
    ∃ id, c.Live id ∧ TransGen c.Feeds id id ∧
      c.encode = .error (.invalid (.notEncoded id)) := by
  obtain ⟨order, horder, hlive⟩ := hc.exists_liveOrder
  have hmem : ∀ id ∈ order.reverse, c.Live id := fun id hid =>
    hlive.mem_iff.1 (List.mem_reverse.1 hid)
  rw [encode_eq horder]
  rcases hc.foldrM_encodeInto (hc.postordered horder) fun id hid => (hmem id hid).isSome hc
    with ⟨htopological, enc, hfold, _⟩ | ⟨id, hid, source, hfeeds, hpath, hfold⟩
  · exact .inl ⟨hlive.liveAcyclic htopological, enc, hfold⟩
  · exact .inr ⟨source, (hmem id hid).of_feeds hfeeds, TransGen.head hfeeds hpath, hfold⟩

/-- In any session: a circuit can be encoded if and only if no node that the outputs depend on
    depends on itself. Otherwise such a node is named, and a reduction is refused in the same way
    before it has done anything: whatever the oracle is, it is left as it was, and so is the circuit
    with its candidate groups. -/
theorem encode_refuses_cycles (ops : List Operation) :
    ((∃ enc, (empty.after ops).encode = .ok enc) ↔ (empty.after ops).LiveAcyclic) ∧
      (¬ (empty.after ops).LiveAcyclic →
        ∃ id, (empty.after ops).Live id ∧ TransGen (empty.after ops).Feeds id id ∧
          (empty.after ops).encode = .error (.invalid (.notEncoded id)) ∧
          ∀ {σ : Type} (oracle : Sat.Oracle σ) (s : σ),
            (empty.after ops).reduceWith oracle s =
              (.error (.invalid (.notEncoded id)), empty.after ops, s)) := by
  have hc := wellFormed_after ops
  generalize empty.after ops = c at hc ⊢
  rcases hc.encode_cases with ⟨hacyclic, hencode⟩ | ⟨id, hlive, hcycle, hencode⟩
  · exact ⟨iff_of_true hencode hacyclic, fun hcyclic => absurd hacyclic hcyclic⟩
  · have hcyclic : ¬ c.LiveAcyclic := fun hacyclic => hacyclic id hlive hcycle
    refine ⟨iff_of_false ?_ hcyclic, fun _ => ⟨id, hlive, hcycle, hencode, ?_⟩⟩
    · rintro ⟨enc, henc⟩
      cases hencode.symm.trans henc
    · intro σ oracle s
      rw [reduceWith, hencode]

/-- In the ring the walk turns back from gate 4, which reads gate 5, before it turns back from
    gate 5. -/
theorem encode_refuses_cycles_ring :
    ¬ (empty.after ring).LiveAcyclic ∧ TransGen (empty.after ring).Feeds 5 5 ∧
      ∀ {σ : Type} (oracle : Sat.Oracle σ) (s : σ), (empty.after ring).reduceWith oracle s =
        (.error (.invalid (.notEncoded 5)), empty.after ring, s) := by
  obtain ⟨hencoded, hrefused⟩ := encode_refuses_cycles ring
  have hnamed : (match (empty.after ring).encode with
    | .error (.invalid (.notEncoded id)) => some id
    | _ => none) = some 5 := by decide +kernel
  have hcyclic : ¬ (empty.after ring).LiveAcyclic := by
    rw [← hencoded]
    rintro ⟨enc, henc⟩
    rw [henc] at hnamed
    cases hnamed
  obtain ⟨id, _, hcycle, hencode, hreduce⟩ := hrefused hcyclic
  rw [hencode] at hnamed
  obtain rfl := Option.some.inj hnamed
  exact ⟨hcyclic, hcycle, hreduce⟩

end Circuit

end AndInverter
