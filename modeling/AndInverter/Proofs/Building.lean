import AndInverter.Proofs.Edit
import AndInverter.Proofs.Simulation.Course

namespace AndInverter

namespace Circuit

open Edit (CannotDrive Grown)

variable {c d : Circuit} {entries others : List (NodeId × Kind)} {id : NodeId} {kind : Kind}

/-- The circuits are equal, and so is what their equality leaves aside: the fanouts of the nodes and
    the bound on ids. They are walked through alike. -/
structure Coincides (c d : Circuit) : Prop where
  agrees : c.agrees d = true
  inputs : d.inputs = c.inputs
  outputs : d.outputs = c.outputs
  maxVar : d.maxVar = c.maxVar
  kind? : ∀ id, d.kind? id = c.kind? id
  fanouts : ∀ id, (d.node? id).map (·.fanouts.toList) = (c.node? id).map (·.fanouts.toList)
  liveOrder : d.liveOrder = c.liveOrder

theorem ids_congr (hkind : ∀ id, d.kind? id = c.kind? id) : d.ids = c.ids :=
  eq_of_sorted d.sorted_ids c.sorted_ids fun id => by rw [mem_ids, mem_ids, hkind]

theorem Indexed.inputs_congr (hc : c.Indexed) (hd : d.Indexed)
    (hkind : ∀ id, d.kind? id = c.kind? id) : d.inputs = c.inputs :=
  eq_of_sorted hd.inputs_sorted hc.inputs_sorted fun id => by
    rw [hd.mem_inputs, hc.mem_inputs, hkind]

theorem Indexed.outputs_congr (hc : c.Indexed) (hd : d.Indexed)
    (hkind : ∀ id, d.kind? id = c.kind? id) : d.outputs = c.outputs :=
  eq_of_sorted hd.outputs_sorted hc.outputs_sorted fun id => by
    rw [hd.mem_outputs, hc.mem_outputs, hkind]

/-- Circuits with the same nodes are equal. -/
theorem Indexed.agrees (hc : c.Indexed) (hd : d.Indexed) (hkind : ∀ id, d.kind? id = c.kind? id) :
    c.agrees d = true := by
  have hkeys : c.nodes.toList.map Prod.fst = d.nodes.toList.map Prod.fst := by
    rw [Std.TreeMap.map_fst_toList_eq_keys, Std.TreeMap.map_fst_toList_eq_keys]
    exact (ids_congr hkind).symm
  have hsize : c.nodes.size = d.nodes.size := by
    have hlength := congrArg List.length hkeys
    rwa [List.length_map, List.length_map, Std.TreeMap.length_toList,
      Std.TreeMap.length_toList] at hlength
  have hnodes : ∀ entry ∈ c.nodes.toList.zip d.nodes.toList,
      entry.1.1 == entry.2.1 && entry.1.2.agrees entry.2.2 := by
    intro entry hentry
    obtain ⟨⟨i, m⟩, ⟨j, n⟩⟩ := entry
    obtain ⟨k, hk⟩ := List.mem_iff_getElem?.1 hentry
    obtain ⟨him, hjn⟩ := List.getElem?_zip_eq_some.1 hk
    have hsame : i = j := by
      have hkey : (c.nodes.toList.map Prod.fst)[k]? = (d.nodes.toList.map Prod.fst)[k]? := by
        rw [hkeys]
      rw [List.getElem?_map, List.getElem?_map, him, hjn] at hkey
      exact Option.some.inj hkey
    subst hsame
    have hm : c.node? i = some m :=
      Std.TreeMap.mem_toList_iff_getElem?_eq_some.1 (List.mem_of_getElem? him)
    have hn : d.node? i = some n :=
      Std.TreeMap.mem_toList_iff_getElem?_eq_some.1 (List.mem_of_getElem? hjn)
    have hkinds := hkind i
    rw [kind?_of_node? hm, kind?_of_node? hn, Option.some.injEq] at hkinds
    simp [Node.agrees, hc.own_id hm, hd.own_id hn, hkinds]
  rw [Circuit.agrees, hc.inputs_congr hd hkind, hc.outputs_congr hd hkind, hsize]
  simpa using hnodes

/-- Fanouts mirror the edges, so that they are determined by what the nodes are. -/
theorem WellFormed.fanouts_congr (hc : c.WellFormed) (hd : d.WellFormed)
    (hkind : ∀ id, d.kind? id = c.kind? id) (id : NodeId) :
    (d.node? id).map (·.fanouts.toList) = (c.node? id).map (·.fanouts.toList) := by
  have hfeeds : ∀ consumer, d.Feeds id consumer ↔ c.Feeds id consumer := by
    intro consumer
    rw [Feeds, hkind]
    rfl
  have hpresent := congrArg Option.isSome (hkind id)
  rw [isSome_kind?, isSome_kind?] at hpresent
  cases hm : d.node? id with
  | none =>
    rw [hm, Option.isSome_none, eq_comm, Option.isSome_eq_false_iff, Option.isNone_iff_eq_none]
      at hpresent
    rw [hpresent]
  | some m =>
    rw [hm, Option.isSome_some, eq_comm, Option.isSome_iff_exists] at hpresent
    obtain ⟨n, hn⟩ := hpresent
    rw [hn]
    refine congrArg some (eq_of_sorted (sorted_toList _) (sorted_toList _) fun consumer => ?_)
    rw [Edit.mem_fanouts_iff hd hm, Edit.mem_fanouts_iff hc hn, hfeeds]

/-- The circuit is made of these nodes and the constant, and its bound is not larger than it has to
    be. -/
structure ComposedOf (c : Circuit) (entries : List (NodeId × Kind)) : Prop where
  wellFormed : c.WellFormed
  kind?_iff : ∀ {id kind}, c.kind? id = some kind ↔
    id = 0 ∧ kind = .constant ∨ (id, kind) ∈ entries
  tight : c.maxVar = 0 ∨ ∃ kind, c.kind? c.maxVar = some kind ∧ kind.isOutput = false

theorem composedOf_empty : empty.ComposedOf [] where
  wellFormed := wellFormed_empty
  kind?_iff := by
    intro id kind
    rw [kind?_empty]
    split <;> simp_all [eq_comm]
  tight := .inl rfl

theorem WellFormed.maxVar_le (hc : c.WellFormed) (hd : d.ComposedOf entries)
    (hkind : ∀ id, d.kind? id = c.kind? id) : d.maxVar ≤ c.maxVar := by
  rcases hd.tight with hzero | ⟨kind, hlast, houtput⟩
  · rw [hzero]
    exact UInt64.zero_le
  · rw [hkind] at hlast
    exact hc.id_le hlast houtput

/-- What a circuit is made of decides it, in whatever order it has been put together. -/
theorem ComposedOf.coincides (hc : c.ComposedOf entries) (hd : d.ComposedOf others)
    (hsame : ∀ entry, entry ∈ others ↔ entry ∈ entries) : c.Coincides d := by
  have hkind : ∀ id, d.kind? id = c.kind? id := fun id => Option.ext fun kind => by
    rw [hd.kind?_iff, hc.kind?_iff, hsame]
  exact {
    agrees := hc.wellFormed.toIndexed.agrees hd.wellFormed.toIndexed hkind
    inputs := hc.wellFormed.toIndexed.inputs_congr hd.wellFormed.toIndexed hkind
    outputs := hc.wellFormed.toIndexed.outputs_congr hd.wellFormed.toIndexed hkind
    maxVar := UInt64.le_antisymm (hc.wellFormed.maxVar_le hd hkind)
      (hd.wellFormed.maxVar_le hc fun id => (hkind id).symm)
    kind? := hkind
    fanouts := hc.wellFormed.fanouts_congr hd.wellFormed hkind
    liveOrder := hc.wellFormed.liveOrder_congr hd.wellFormed
      (hc.wellFormed.toIndexed.outputs_congr hd.wellFormed.toIndexed hkind) hkind }

theorem kind?_of_grown (hgrown : Grown c id kind d) (hfresh : c.kind? id = none) {other : NodeId}
    {old : Kind} (hold : c.kind? other = some old) : d.kind? other = some old := by
  rw [hgrown.kind?, if_neg, hold]
  rintro rfl
  cases hfresh.symm.trans hold

/-- A new node is added to what a circuit is made of. -/
theorem ComposedOf.grown (hc : c.ComposedOf entries) (hgrown : Grown c id kind d)
    (hfresh : c.kind? id = none) (hd : d.WellFormed) : d.ComposedOf (entries ++ [(id, kind)]) where
  wellFormed := hd
  kind?_iff := by
    intro other old
    rw [hgrown.kind?, List.mem_append, List.mem_singleton, Prod.mk.injEq, ← or_assoc,
      ← hc.kind?_iff]
    by_cases hother : other = id
    · rw [if_pos hother, hother, hfresh, Option.some.injEq]
      simp [eq_comm]
    · simp [hother]
  tight := by
    have hkept : c.maxVar = 0 ∨ ∃ kind, d.kind? c.maxVar = some kind ∧ kind.isOutput = false := by
      refine hc.tight.imp_right fun hlast => ?_
      obtain ⟨old, hlast, houtput⟩ := hlast
      exact ⟨old, kind?_of_grown hgrown hfresh hlast, houtput⟩
    rw [hgrown.maxVar]
    split
    · next hnumbered =>
      rw [max_eq_ite]
      split
      · refine .inr ⟨kind, ?_, Kind.isOutput_eq_false hnumbered⟩
        rw [hgrown.kind?, if_pos rfl]
      · exact hkept
    · exact hkept

/-- The calls succeed, one after the other, and lead from the one circuit to the other. -/
def Completes (c : Circuit) : List Operation → Circuit → Prop
  | [], d => d = c
  | op :: ops, d => ∃ next, op.perform c = (.ok (), next) ∧ next.Completes ops d

theorem Completes.append {ops rest : List Operation} {e : Circuit} (hcd : c.Completes ops d)
    (hde : d.Completes rest e) : c.Completes (ops ++ rest) e := by
  induction ops generalizing c with
  | nil =>
    obtain rfl := hcd
    exact hde
  | cons op ops ih =>
    obtain ⟨next, hstep, hrest⟩ := hcd
    exact ⟨next, hstep, ih hrest⟩

theorem Completes.eq_after {ops : List Operation} (h : c.Completes ops d) : d = c.after ops := by
  induction ops generalizing c with
  | nil => exact h
  | cons op ops ih =>
    obtain ⟨next, hstep, hrest⟩ := h
    have hafter : c.after (op :: ops) = (op.perform c).2.after ops := rfl
    rw [hafter, hstep]
    exact ih hrest

/-- A new output is the last node. -/
theorem lastId_of_grown (hgrown : Grown c id kind d) (houtput : kind.isOutput = true)
    (habove : c.lastId < id) : d.lastId = id := by
  have hkept : d.maxVar = c.maxVar := by
    rw [hgrown.maxVar, if_neg]
    intro hnumbered
    rw [Kind.isOutput_eq_false hnumbered] at houtput
    cases houtput
  have hle : ∀ other, (d.kind? other).isSome = true → other ≤ id := by
    intro other hother
    rw [hgrown.kind?] at hother
    split at hother
    · next heq => exact UInt64.le_of_eq heq
    · exact UInt64.le_trans (le_lastId hother) (UInt64.le_of_lt habove)
  refine UInt64.le_antisymm ?_ (le_lastId (by rw [hgrown.kind?, if_pos rfl]; rfl))
  rcases Edit.foldl_max_cases d.ids d.maxVar with hbound | hmem
  · rw [lastId, hbound, hkept]
    exact UInt64.le_trans (le_foldl_max c.ids c.maxVar).1 (UInt64.le_of_lt habove)
  · exact hle _ (mem_ids.1 hmem)

/-- Without outputs no id lies above the bound. -/
theorem Indexed.lastId_eq (hc : c.Indexed)
    (hnone : ∀ id kind, c.kind? id = some kind → kind.isOutput = false) : c.lastId = c.maxVar := by
  refine UInt64.le_antisymm ?_ (le_foldl_max c.ids c.maxVar).1
  rcases Edit.foldl_max_cases c.ids c.maxVar with hbound | hmem
  · exact UInt64.le_of_eq hbound
  · obtain ⟨kind, hkind⟩ := Option.isSome_iff_exists.1 (mem_ids.1 hmem)
    exact hc.id_le hkind (hnone _ kind hkind)

theorem not_cannotDrive_of_grown (hgrown : Grown c id kind d) (hfresh : c.kind? id = none)
    {source : NodeId} (hsource : ¬ CannotDrive c source) : ¬ CannotDrive d source := by
  rw [Edit.not_cannotDrive_iff] at hsource ⊢
  obtain ⟨old, hold, houtput⟩ := hsource
  exact ⟨old, kind?_of_grown hgrown hfresh hold, houtput⟩

/-- The outputs get the ids behind the last one, in the order in which they are added. -/
theorem ComposedOf.completes_addOutput (hc : c.ComposedOf entries) (drivers : List Edge) {next : Nat}
    (hnext : next = c.lastId.toNat + 1)
    (hroom : next + drivers.length ≤ UInt64.size)
    (hdrivers : ∀ e ∈ drivers, ¬ CannotDrive c e.node) :
    ∃ d, c.Completes (drivers.map .addOutput) d ∧
      d.ComposedOf (entries ++
        (drivers.zipIdx next).map fun entry => (UInt64.ofNat entry.2, .output entry.1)) := by
  induction drivers generalizing c entries next with
  | nil => exact ⟨c, rfl, by simpa using hc⟩
  | cons e drivers ih =>
    obtain ⟨he, hrest⟩ := List.forall_mem_cons.1 hdrivers
    rw [List.length_cons] at hroom
    have hid : UInt64.ofNat next = c.lastId + 1 := by
      rw [hnext, UInt64.ofNat_add, UInt64.ofNat_toNat]
      rfl
    have hlast : (c.lastId + 1).toNat = next := by
      rw [← hid, UInt64.toNat_ofNat_of_lt' (by omega)]
    have hspace : c.lastId + 1 ≠ 0 := by
      intro hzero
      rw [hzero, UInt64.toNat_zero] at hlast
      omega
    obtain ⟨made, d, hadd⟩ := Edit.addOutput_succeeds_iff.2 ⟨he, hspace⟩
    obtain ⟨hmade, hattach, source, hsource, _⟩ := of_addOutput hadd
    have hfresh : c.kind? made = none := by
      by_contra hpresent
      have hsome := Option.isSome_iff_ne_none.2 hpresent
      exact UInt64.lt_irrefl _ (lt_outputId hmade hsome)
    have hgrown : Grown c made (.output e) d := Edit.grown_of_attach hattach fun fanin hfanin => by
      rw [List.mem_singleton.1 hfanin, hsource]
      rfl
    obtain rfl := (outputId_eq_ok_iff.1 hmade).2
    have hd := hc.grown hgrown hfresh (hc.wellFormed.addOutput hadd)
    have hlastId := lastId_of_grown hgrown rfl (lt_add_one hspace (UInt64.le_refl c.lastId))
    obtain ⟨f, hrun, hf⟩ := ih hd (by rw [hlastId, hlast]) (by omega) fun e he =>
      not_cannotDrive_of_grown hgrown hfresh (hrest e he)
    refine ⟨f, ⟨d, ?_, hrun⟩, ?_⟩
    · rw [Operation.perform, hadd]
      rfl
    · rwa [List.zipIdx_cons, List.map_cons, hid, List.append_cons]

end Circuit

end AndInverter
