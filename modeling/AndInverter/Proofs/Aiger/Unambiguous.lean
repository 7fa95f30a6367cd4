import AndInverter.Proofs.Aiger.Denotation

namespace AndInverter.Aiger

/-- Where no two entries have the same key, the first one that is found is the only one. -/
theorem find?_eq_some_iff_of_nodup {α κ : Type} [BEq κ] [LawfulBEq κ] {key : α → κ} {l : List α}
    (hnodup : (l.map key).Nodup) {k : κ} {a : α} :
    l.find? (key · == k) = some a ↔ a ∈ l ∧ key a = k := by
  constructor
  · intro h
    exact ⟨List.mem_of_find?_eq_some h, beq_iff_eq.1 (List.find?_some (p := (key · == k)) h)⟩
  · intro h
    obtain ⟨ha, hkey⟩ := h
    have hsome : (l.find? (key · == k)).isSome = true :=
      List.find?_isSome.2 ⟨a, ha, beq_iff_eq.2 hkey⟩
    obtain ⟨b, hb⟩ := Option.isSome_iff_exists.1 hsome
    have hsame : key b = key a := by
      rw [hkey, beq_iff_eq.1 (List.find?_some (p := (key · == k)) hb)]
    rw [hb, List.inj_on_of_nodup_map hnodup (List.mem_of_find?_eq_some hb) ha hsame]

namespace Found

/-- Nodes with ids of their own are all entered. -/
theorem warnings_foldl_enter {f : Found} {nodes : List Node} (hnodup : (nodes.map (·.id)).Nodup)
    (hfresh : ∀ n ∈ nodes, f.circuit.node? n.id = none) :
    (nodes.foldl enter f).warnings = f.warnings := by
  induction nodes generalizing f with
  | nil => rfl
  | cons n nodes ih =>
    obtain ⟨hn, hrest⟩ := List.forall_mem_cons.1 hfresh
    rw [List.map_cons, List.nodup_cons] at hnodup
    have henter : f.enter n = ⟨f.circuit.insert n, f.warnings⟩ := by
      rw [enter, hn]
    rw [List.foldl_cons, ih hnodup.2, henter]
    intro other hother
    have hne : n.id ≠ other.id := fun heq => hnodup.1 (heq ▸ List.mem_map_of_mem hother)
    rw [henter, Circuit.node?_insert, if_neg hne]
    exact hrest other hother

/-- Names of different nodes are all taken. -/
theorem warnings_foldl_name {target? : Symbol → Option NodeId} {f : Found} {symbols : List Symbol}
    {number : Nat} (hnodup : (symbols.map target?).Nodup)
    (hfresh : ∀ symbol ∈ symbols, ∀ id, target? symbol = some id →
      ((f.circuit.node? id).bind (·.name)) = none) :
    ((symbols.zipIdx number).foldl (Found.name target?) f).warnings = f.warnings := by
  induction symbols generalizing f number with
  | nil => rfl
  | cons symbol symbols ih =>
    obtain ⟨hsymbol, hrest⟩ := List.forall_mem_cons.1 hfresh
    rw [List.map_cons, List.nodup_cons] at hnodup
    have hname : (f.name target? (symbol, number)).warnings = f.warnings := by
      unfold name
      cases htarget : target? symbol with
      | none => rfl
      | some id =>
        dsimp only
        rw [hsymbol id htarget]
    rw [List.zipIdx_cons, List.foldl_cons, ih hnodup.2, hname]
    intro other hother id htarget
    have hne : target? symbol ≠ some id := by
      intro heq
      exact hnodup.1 (heq.trans htarget.symm ▸ List.mem_map_of_mem hother)
    rw [node?_name, if_neg hne, Option.bind_map]
    simpa [Function.comp_def] using hrest other hother id htarget

end Found

namespace Description

variable {d : Description} {id : NodeId}

/-- Every node is declared once and named once. -/
structure Unambiguous (d : Description) : Prop where
  declared : (d.inputIds ++ d.gates.map (·.id)).Nodup
  named : (d.symbols.map d.target?).Nodup

namespace Unambiguous

theorem input?_eq_some_iff (hd : d.Unambiguous) {e : Edge} :
    d.input? id = some e ↔ e ∈ d.inputs ∧ e.node = id :=
  find?_eq_some_iff_of_nodup (List.nodup_append.1 hd.declared).1

theorem gate?_eq_some_iff (hd : d.Unambiguous) {gate : GateLine} :
    d.gate? id = some gate ↔ gate ∈ d.gates ∧ gate.id = id := by
  obtain ⟨_, hgates, hdisjoint⟩ := List.nodup_append.1 hd.declared
  have hfind : d.gates.find? (·.id == id) = some gate ↔ gate ∈ d.gates ∧ gate.id = id :=
    find?_eq_some_iff_of_nodup hgates
  rw [Description.gate?_eq_some_iff, hfind, and_iff_right_iff_imp, input?, List.find?_eq_none]
  intro h e he hnode
  obtain ⟨hgate, rfl⟩ := h
  exact hdisjoint _ (List.mem_map_of_mem he) _ (List.mem_map_of_mem hgate) (beq_iff_eq.1 hnode)

theorem name?_eq_some_iff (hd : d.Unambiguous) {name : String} : d.name? id = some name ↔
    ∃ symbol ∈ d.symbols, d.target? symbol = some id ∧ symbol.name = name := by
  rw [name?, Option.map_eq_some_iff]
  simp only [find?_eq_some_iff_of_nodup hd.named, and_assoc]

/-- No two lines declare the same node, outputs included. -/
theorem nodup_nodes (hd : d.Unambiguous) (hfits : d.Fits) : (d.nodes.map (·.id)).Nodup := by
  obtain ⟨hinputs, hgates, hdisjoint⟩ := List.nodup_append.1 hd.declared
  rw [ids_nodes, List.nodup_append, List.nodup_append]
  have habove : ∀ output ∈ d.outputIds, ∀ id, id ≤ d.bound → output ≠ id := by
    intro output houtput id hid heq
    subst heq
    exact UInt64.not_lt.2 hid (hfits.bound_lt_of_mem_outputIds houtput)
  refine ⟨hinputs, ⟨hfits.outputIds_sorted.imp UInt64.ne_of_lt, hgates, ?_⟩, ?_⟩
  · intro output houtput id hid
    obtain ⟨gate, hgate, rfl⟩ := List.mem_map.1 hid
    exact habove output houtput _ (hfits.gates gate hgate).2
  · intro id hid other hother
    obtain ⟨e, he, rfl⟩ := List.mem_map.1 hid
    obtain houtput | hgate := List.mem_append.1 hother
    · exact (habove other houtput _ (hfits.inputs e he).2).symm
    · exact hdisjoint _ hid other hgate

/-- Reading an unambiguous description passes over nothing. -/
theorem warnings_found (hd : d.Unambiguous) (hfits : d.Fits) : d.found.warnings = #[] := by
  have hfresh : ∀ n ∈ d.nodes, ({ Circuit.empty with maxVar := d.bound } : Circuit).node? n.id =
      none := by
    intro n hn
    have hid : n.id ∈ d.nodes.map (·.id) := List.mem_map_of_mem hn
    have hzero : n.id ≠ 0 := by
      rw [ids_nodes, List.mem_append, List.mem_append] at hid
      obtain hid | hid | hid := hid
      · obtain ⟨e, he, hnode⟩ := List.mem_map.1 hid
        exact hnode ▸ (hfits.inputs e he).1
      · intro heq
        have hlt := hfits.bound_lt_of_mem_outputIds hid
        rw [heq] at hlt
        exact UInt64.not_lt_zero hlt
      · obtain ⟨gate, hgate, hnode⟩ := List.mem_map.1 hid
        exact hnode ▸ (hfits.gates gate hgate).1
    change Circuit.empty.node? n.id = none
    rw [Circuit.node?_empty, if_neg hzero]
  have hdeclared : d.declared.warnings = #[] :=
    Found.warnings_foldl_enter (hd.nodup_nodes hfits) hfresh
  rw [← hdeclared]
  refine Found.warnings_foldl_name hd.named fun symbol _ id _ => ?_
  cases hn : d.declared.circuit.node? id with
  | none => rfl
  | some n =>
    obtain ⟨_, _, _, rfl⟩ := exists_fresh_of_node?_declared hn
    rfl

end Unambiguous

end Description

end AndInverter.Aiger
