import AndInverter.Proofs.Grouping
import AndInverter.Proofs.Report.Lines

namespace AndInverter

/-- Only a signature without values is its own opposite. -/
theorem Signature.complement_eq_self_iff {s : Signature} : s.complement = s ↔ s = #[] := by
  obtain ⟨values⟩ := s
  cases values with
  | nil => simp [complement]
  | cons value values => simp [complement]

/-- No gate is in two groups. -/
def Classes.Apart (classes : Classes) : Prop :=
  ∀ id s t, id ∈ classes.group s → id ∈ classes.group t → s = t

namespace Circuit

variable {c : Circuit} {order : List NodeId} {id : NodeId} {same opposite : List NodeId}

theorem Grouped.apart (h : c.Grouped order) : c.classes.Apart := by
  intro id s t hs ht
  rw [h.group, List.mem_filter, isGateWith_eq_true_iff] at hs ht
  exact Option.some.inj (hs.2.2.symm.trans ht.2.2)

theorem apart_after (ops : List Operation) : (empty.after ops).classes.Apart := by
  refine classes_after (fun id s t hs => ?_) (fun hgrouped => hgrouped.apart) ops
  rw [Classes.group_empty] at hs
  cases hs

theorem peers?_eq_some_iff : c.peers? id = some (same, opposite) ↔
    ∃ signature, c.signature? id = some signature ∧ id ∈ c.classes.group signature ∧
      (c.classes.group signature).filter (· != id) = same ∧
      c.classes.group signature.complement = opposite := by
  unfold peers? signature?
  cases c.node? id with
  | none => simp
  | some n => simp [Classes.opposites]

/-- The node is none of its own peers, and no other node is a peer in both ways. -/
def PeersApart (id : NodeId) (same opposite : List NodeId) : Prop :=
  id ∉ same ∧ id ∉ opposite ∧ ∀ other ∈ same, other ∉ opposite

theorem mem_opposite_of_unsampled (h : c.peers? id = some (same, opposite))
    (hunsampled : c.signature? id = some #[]) (other : NodeId) :
    other ∈ opposite ↔ other = id ∨ other ∈ same := by
  obtain ⟨signature, hsignature, hid, rfl, rfl⟩ := peers?_eq_some_iff.1 h
  obtain rfl := Option.some.inj (hunsampled.symm.trans hsignature)
  rw [Signature.complement_eq_self_iff.2 rfl, List.mem_filter, bne_iff_ne]
  by_cases heq : other = id
  · simp [heq, hid]
  · simp [heq]

theorem not_mem_same (h : c.peers? id = some (same, opposite)) : id ∉ same := by
  obtain ⟨signature, _, _, rfl, _⟩ := peers?_eq_some_iff.1 h
  simp

/-- The peers are apart as soon as a pattern was simulated: the group of the opposite signature is
    then another group. -/
theorem peersApart_iff (happart : c.classes.Apart) (h : c.peers? id = some (same, opposite)) :
    PeersApart id same opposite ↔ c.signature? id ≠ some #[] := by
  constructor
  · intro hpeers hunsampled
    exact hpeers.2.1 ((mem_opposite_of_unsampled h hunsampled id).2 (.inl rfl))
  · intro hsampled
    obtain ⟨signature, hsignature, hid, rfl, rfl⟩ := peers?_eq_some_iff.1 h
    have hother : ∀ other ∈ c.classes.group signature,
        other ∉ c.classes.group signature.complement := by
      intro other hmem hopposite
      have hself := happart other _ _ hopposite hmem
      rw [Signature.complement_eq_self_iff] at hself
      exact hsampled (hself ▸ hsignature)
    exact ⟨by simp, hother id hid, fun other hmem => hother other (List.mem_filter.1 hmem).1⟩

end Circuit

namespace Report

open Text (isBlank newline_not_mem_of_word)

/-- The peers of a node in the order of its report: the opposites stand at the end, inverted. -/
def listedPeers (c : Circuit) (id : NodeId) : List Edge :=
  match c.peers? id with
  | none => []
  | some (same, opposite) => same.map (⟨·, false⟩) ++ opposite.map (⟨·, true⟩)

/-- The word for a peer. -/
def peerText (e : Edge) : String := (if e.inverted then "!" else "") ++ toString e.node

/-- The peer that a word stands for. -/
def peer? : List Char → Option Edge
  | '!' :: digits => (Text.numeral? digits).map (⟨·, true⟩)
  | digits => (Text.numeral? digits).map (⟨·, false⟩)

/-- The peers on a line that has the label for them. -/
def peersOn : List Char → List (Option Edge)
  | 'F' :: 'E' :: 'C' :: 's' :: ':' :: peers => (Text.words peers).map peer?
  | _ => []

/-- The peers in the report of a gate. They stand in the second line. -/
def peersIn (text : String) : List (Option Edge) :=
  peersOn ((Text.lines text.toUTF8)[1]?.join.getD [])

/-- The report of the node lists the peer. -/
def ListsPeer (c : Circuit) (id : NodeId) (peer : Edge) : Prop :=
  ∃ text, node c id = .ok text ∧ some peer ∈ peersIn text

/-- The name of a node in its report. -/
def quoted : Option String → String
  | some name => s!"\"{name}\""
  | none => ""

/-- The first line of the report of a node, without its line feed. -/
def nodeHead (id : NodeId) (n : Node) : String :=
  s!"{n.kind.tag}({id}){quoted n.name}, line {n.line}"

/-- The lines of the report of a node, without their line feeds. -/
def nodeLines (c : Circuit) (id : NodeId) (n : Node) : List String :=
  nodeHead id n ::
    ((if n.kind.isGate then ["FECs:" ++ peersText c id] else []) ++ ["Value: " ++ n.signatureText])

variable {c : Circuit} {id : NodeId} {n : Node}

theorem node_eq (hn : c.node? id = some n) :
    node c id = .ok (String.join ((nodeLines c id n).map (· ++ "\n"))) := by
  unfold node nodeLines nodeHead quoted
  rw [Circuit.node_eq_ok_iff.2 hn]
  simp only [Bind.bind, Except.bind, pure, Except.pure, Except.ok.injEq, ← String.toList_inj]
  cases n.kind.isGate <;> cases n.name <;> simp [toString]

theorem toList_peersText (c : Circuit) (id : NodeId) : (peersText c id).toList =
    ((listedPeers c id).map fun e => (peerText e).toList).flatMap (' ' :: ·) := by
  unfold peersText listedPeers
  cases c.peers? id with
  | none => rfl
  | some found =>
    obtain ⟨same, opposite⟩ := found
    simp [String.toList_join, peerText, List.flatMap_map]
    rfl

theorem peerText_word (e : Edge) :
    (peerText e).toList ≠ [] ∧ ∀ c ∈ (peerText e).toList, isBlank c = false :=
  marked_word e.inverted (Text.toString_nat_word e.node.toNat)

theorem newline_not_mem_peersText (c : Circuit) (id : NodeId) : '\n' ∉ (peersText c id).toList := by
  rw [toList_peersText, List.mem_flatMap]
  rintro ⟨word, hword, hmem⟩
  obtain ⟨e, _, rfl⟩ := List.mem_map.1 hword
  obtain hspace | hmem := List.mem_cons.1 hmem
  · cases hspace
  · exact newline_not_mem_of_word (peerText_word e).2 hmem

theorem newline_not_mem_signatureText (n : Node) : '\n' ∉ n.signatureText.toList := by
  rw [Node.signatureText, bitsText, String.toList_ofList, List.mem_map]
  rintro ⟨bit, _, hbit⟩
  cases bit <;> cases hbit

theorem newline_not_mem_quoted {name : Option String}
    (h : ∀ text, name = some text → '\n' ∉ text.toList) : '\n' ∉ (quoted name).toList := by
  cases name with
  | none => simp [quoted]
  | some text => simpa [quoted, toString] using h text rfl

theorem newline_not_mem_nodeHead (hnamed : c.Named) (hn : c.node? id = some n) :
    '\n' ∉ (nodeHead id n).toList := by
  have htag := newline_not_mem_of_word (tag_word n.kind).2
  have hid := newline_not_mem_of_word (Text.toString_nat_word id.toNat).2
  have hline := newline_not_mem_of_word (Text.toString_nat_word n.line).2
  have hname : '\n' ∉ (quoted n.name).toList := by
    refine newline_not_mem_quoted fun text htext => ?_
    rw [← Circuit.name?_of_node? hn] at htext
    exact (hnamed id text htext).1.2.newline
  simp only [nodeHead, String.toList_append, List.mem_append, not_or]
  refine ⟨⟨⟨⟨⟨⟨htag, ?_⟩, hid⟩, ?_⟩, hname⟩, ?_⟩, hline⟩
  all_goals simp [toString]

theorem newline_not_mem_nodeLines (hnamed : c.Named) (hn : c.node? id = some n) :
    ∀ line ∈ nodeLines c id n, '\n' ∉ line.toList := by
  have hpeers : '\n' ∉ ("FECs:" ++ peersText c id).toList := by
    simpa using newline_not_mem_peersText c id
  have hvalues : '\n' ∉ ("Value: " ++ n.signatureText).toList := by
    simpa using newline_not_mem_signatureText n
  refine List.forall_mem_cons.2 ⟨newline_not_mem_nodeHead hnamed hn, ?_⟩
  cases n.kind.isGate
  · exact List.forall_mem_singleton.2 hvalues
  · exact List.forall_mem_cons.2 ⟨hpeers, List.forall_mem_singleton.2 hvalues⟩

/-- A candidate is read back from what is written for it, with its sign. -/
theorem peer?_peerText (e : Edge) : peer? (peerText e).toList = some e := by
  have hnumeral : Text.numeral? (toString e.node).toList = some e.node :=
    Text.numeral?_eq_some_iff.2 (Text.isNumeral_toString e.node.toNat_lt)
  have hplain : '!' ∉ (toString e.node).toList := by
    intro hmem
    change '!' ∈ (toString e.node.toNat).toList at hmem
    rw [Nat.toString_eq_repr, Nat.toList_repr] at hmem
    cases Nat.isDigit_of_mem_toDigits (by omega) (by omega) hmem
  obtain ⟨id, inverted⟩ := e
  cases inverted with
  | true =>
    have htext : (peerText ⟨id, true⟩).toList = '!' :: (toString id).toList := by
      simp [peerText]
    rw [htext, peer?, hnumeral]
    rfl
  | false =>
    have htext : (peerText ⟨id, false⟩).toList = (toString id).toList := by
      simp [peerText]
    rw [htext]
    unfold peer?
    split
    · next digits heq => exact absurd (heq ▸ List.mem_cons_self) hplain
    · rw [hnumeral]
      rfl

theorem peersOn_peersText (c : Circuit) (id : NodeId) :
    peersOn ("FECs:" ++ peersText c id).toList = (listedPeers c id).map some := by
  have hline : ("FECs:" ++ peersText c id).toList =
      'F' :: 'E' :: 'C' :: 's' :: ':' :: (peersText c id).toList := String.toList_append
  have hwords : ∀ word ∈ (listedPeers c id).map fun e => (peerText e).toList,
      word ≠ [] ∧ ∀ c ∈ word, isBlank c = false :=
    List.forall_mem_map.2 fun e _ => peerText_word e
  rw [hline, peersOn, toList_peersText, Text.words_flatMap_space hwords, List.map_map]
  exact List.map_congr_left fun e _ => peer?_peerText e

/-- The line of simulated values is not taken for a line of peers. -/
theorem peersOn_signatureText (n : Node) : peersOn ("Value: " ++ n.signatureText).toList = [] := by
  have hline : ("Value: " ++ n.signatureText).toList =
      'V' :: ("alue: ".toList ++ n.signatureText.toList) := String.toList_append
  rw [hline]
  rfl

theorem peersIn_node (hnamed : c.Named) (hn : c.node? id = some n) :
    ∃ text, node c id = .ok text ∧
      peersIn text = if n.kind.isGate then (listedPeers c id).map some else [] := by
  refine ⟨_, node_eq hn, ?_⟩
  rw [peersIn, Text.lines_join (newline_not_mem_nodeLines hnamed hn), nodeLines]
  cases n.kind.isGate with
  | true => exact peersOn_peersText c id
  | false => exact peersOn_signatureText n

/-- The report can be made for every node, and only a gate has peers in it. -/
theorem listsPeer_iff (hnamed : c.Named) {peer : Edge} :
    ListsPeer c id peer ↔ c.IsGate id ∧ peer ∈ listedPeers c id := by
  constructor
  · rintro ⟨text, htext, hpeer⟩
    obtain ⟨n, hn, _⟩ := except_bind_eq_ok_iff.1 htext
    rw [Circuit.node_eq_ok_iff] at hn
    obtain ⟨made, hmade, hpeers⟩ := peersIn_node hnamed hn
    obtain rfl := Except.ok.inj (hmade.symm.trans htext)
    rw [hpeers] at hpeer
    split at hpeer
    · next hgate =>
      obtain ⟨listed, hlisted, heq⟩ := List.mem_map.1 hpeer
      obtain rfl := Option.some.inj heq
      exact ⟨⟨n.kind, by rw [Circuit.kind?, hn]; rfl, hgate⟩, hlisted⟩
    · cases hpeer
  · rintro ⟨⟨kind, hkind, hgate⟩, hlisted⟩
    obtain ⟨n, hn, rfl⟩ := Option.map_eq_some_iff.1 hkind
    obtain ⟨text, htext, hpeers⟩ := peersIn_node hnamed hn
    refine ⟨text, htext, ?_⟩
    rw [hpeers, if_pos hgate]
    exact List.mem_map_of_mem hlisted

theorem mem_listedPeers_iff {peer : NodeId} {inverted : Bool} :
    ⟨peer, inverted⟩ ∈ listedPeers c id ↔ ∃ same opposite, c.peers? id = some (same, opposite) ∧
      peer ∈ (if inverted then opposite else same) := by
  unfold listedPeers
  cases c.peers? id with
  | none => simp
  | some found => cases inverted <;> simp [Prod.ext_iff]

end Report

namespace Circuit

open Report (ListsPeer listsPeer_iff mem_listedPeers_iff)

variable {c : Circuit} {id : NodeId}

/-- No peer is listed in both ways, unless no pattern was simulated and there is a peer at all. -/
theorem listsPeer_both_iff (hnamed : c.Named) (happart : c.classes.Apart) :
    (∃ peer, ListsPeer c id ⟨peer, false⟩ ∧ ListsPeer c id ⟨peer, true⟩) ↔
      c.IsGate id ∧ c.signature? id = some #[] ∧
        ∃ same opposite, c.peers? id = some (same, opposite) ∧ same ≠ [] := by
  simp only [listsPeer_iff hnamed, mem_listedPeers_iff]
  constructor
  · rintro ⟨peer, ⟨hgate, same, opposite, hpeers, hsame⟩, _, _, _, hagain, hopposite⟩
    obtain ⟨rfl, rfl⟩ := Prod.mk.inj (Option.some.inj (hpeers.symm.trans hagain))
    refine ⟨hgate, ?_, same, opposite, hpeers, List.ne_nil_of_mem hsame⟩
    by_contra hsampled
    exact ((peersApart_iff happart hpeers).2 hsampled).2.2 peer hsame hopposite
  · rintro ⟨hgate, hunsampled, same, opposite, hpeers, hne⟩
    obtain ⟨peer, hsame⟩ := List.exists_mem_of_ne_nil same hne
    have hopposite := (mem_opposite_of_unsampled hpeers hunsampled peer).2 (.inr hsame)
    exact ⟨peer, ⟨hgate, same, opposite, hpeers, hsame⟩, hgate, same, opposite, hpeers, hopposite⟩

theorem listsPeer_self_iff (hnamed : c.Named) (happart : c.classes.Apart) :
    ListsPeer c id ⟨id, true⟩ ↔
      c.IsGate id ∧ c.signature? id = some #[] ∧ (c.peers? id).isSome = true := by
  rw [listsPeer_iff hnamed, mem_listedPeers_iff, Option.isSome_iff_exists]
  refine and_congr_right fun _ => ⟨?_, ?_⟩
  · rintro ⟨same, opposite, hpeers, hopposite⟩
    refine ⟨?_, _, hpeers⟩
    by_contra hsampled
    exact ((peersApart_iff happart hpeers).2 hsampled).2.1 hopposite
  · rintro ⟨hunsampled, ⟨same, opposite⟩, hpeers⟩
    exact ⟨same, opposite, hpeers, (mem_opposite_of_unsampled hpeers hunsampled id).2 (.inl rfl)⟩

/-- The peers of a node are apart in every state of every session in which it has simulated values.
    Without values it is a candidate for its own opposite, as is everything it is a candidate for,
    and its report lists them twice. -/
theorem peers_apart_iff_sampled (ops : List Operation) (id : NodeId) :
    (∀ same opposite, (empty.after ops).peers? id = some (same, opposite) →
      id ∉ same ∧
      (PeersApart id same opposite ↔ (empty.after ops).signature? id ≠ some #[]) ∧
      ((empty.after ops).signature? id = some #[] →
        ∀ other, other ∈ opposite ↔ other = id ∨ other ∈ same)) ∧
    ((∃ peer, ListsPeer (empty.after ops) id ⟨peer, false⟩ ∧
        ListsPeer (empty.after ops) id ⟨peer, true⟩) ↔
      (empty.after ops).IsGate id ∧ (empty.after ops).signature? id = some #[] ∧
        ∃ same opposite, (empty.after ops).peers? id = some (same, opposite) ∧ same ≠ []) ∧
    (ListsPeer (empty.after ops) id ⟨id, true⟩ ↔
      (empty.after ops).IsGate id ∧ (empty.after ops).signature? id = some #[] ∧
        ((empty.after ops).peers? id).isSome = true) := by
  have hnamed := named_after ops
  have happart := apart_after ops
  refine ⟨fun same opposite hpeers => ⟨?_, peersApart_iff happart hpeers,
    mem_opposite_of_unsampled hpeers⟩, listsPeer_both_iff hnamed happart,
    listsPeer_self_iff hnamed happart⟩
  exact not_mem_same hpeers

/-- The gates in the row are one group before the first pattern, and that group is its own opposite.
    The first pattern sets them apart. -/
theorem peers_apart_iff_sampled_row :
    (empty.after row).peers? 4 = some ([3, 5], [3, 4, 5]) ∧
      Report.node (empty.after row) 4 = .ok "AIG(4), line 0\nFECs: 3 5 !3 !4 !5\nValue: \n" ∧
      ¬ PeersApart 4 [3, 5] [3, 4, 5] ∧
      (∃ peer, ListsPeer (empty.after row) 4 ⟨peer, false⟩ ∧
        ListsPeer (empty.after row) 4 ⟨peer, true⟩) ∧
      ListsPeer (empty.after row) 4 ⟨4, true⟩ ∧
      (empty.after (row ++ [.simulateText Sink.discard () "11\n".toUTF8])).peers? 4 =
        some ([5], [3]) ∧
      PeersApart 4 [5] [3] := by
  have hpeers : (empty.after row).peers? 4 = some ([3, 5], [3, 4, 5]) := by decide +kernel
  have hreport : Report.node (empty.after row) 4 =
      .ok "AIG(4), line 0\nFECs: 3 5 !3 !4 !5\nValue: \n" := by decide +kernel
  have hgate : (empty.after row).IsGate 4 := ⟨.gate ⟨3, false⟩ ⟨2, true⟩, by decide +kernel, rfl⟩
  have hunsampled : (empty.after row).signature? 4 = some #[] := by decide +kernel
  obtain ⟨hlists, hboth, hself⟩ := peers_apart_iff_sampled row 4
  have hnot : ¬ PeersApart 4 [3, 5] [3, 4, 5] := fun hapart =>
    (hlists _ _ hpeers).2.1.1 hapart hunsampled
  have hsimulated : (empty.after (row ++ [.simulateText Sink.discard () "11\n".toUTF8])).peers? 4 =
      some ([5], [3]) := by decide +kernel
  have hsampled :
      (empty.after (row ++ [.simulateText Sink.discard () "11\n".toUTF8])).signature? 4 =
        some #[false] := by decide +kernel
  obtain ⟨hlists', _⟩ :=
    peers_apart_iff_sampled (row ++ [.simulateText Sink.discard () "11\n".toUTF8]) 4
  refine ⟨hpeers, hreport, hnot, hboth.2 ⟨hgate, hunsampled, _, _, hpeers, List.cons_ne_nil _ _⟩,
    hself.2 ⟨hgate, hunsampled, by rw [hpeers]; rfl⟩, hsimulated,
    (hlists' _ _ hsimulated).2.1.2 ?_⟩
  rw [hsampled]
  simp

end Circuit

end AndInverter
