import AndInverter.Proofs.Encoding.Exact
import AndInverter.Proofs.Reduction.Transcript

open AndInverter.Sat

namespace AndInverter

/-- An element that only the first of two lists has splits the first of them. -/
theorem exists_split_of_append {α : Type} {before after front back : List α} {x : α}
    (h : front ++ back = before ++ x :: after) (hback : x ∉ back) :
    ∃ rest, front = before ++ x :: rest := by
  rcases List.append_eq_append_iff.1 h with ⟨middle, rfl, hrest⟩ | ⟨middle, rfl, hrest⟩
  · exact (hback (by simp [hrest])).elim
  · cases middle with
    | nil =>
      rw [List.nil_append] at hrest
      exact (hback (hrest ▸ List.mem_cons_self)).elim
    | cons y rest =>
      obtain ⟨rfl, _⟩ := List.cons.inj hrest
      exact ⟨rest, rfl⟩

namespace Encoding

variable {enc : Encoding} {log : List Comparison} {before after : List Call}
  {assumed : List Lit} {result : Except String Bool} {calls : List Call}

/-- Each question of a transcript comes after the calls for the comparisons before it and the
    clauses for its own. -/
theorem exists_of_transcript_split
    (h : enc.transcript log = before ++ .solve assumed result :: after) :
    ∃ earlier comparison later, log = earlier ++ comparison :: later ∧
      assumed = [.pos (enc.cnf.varCount + earlier.length + 1)] ∧
      before = enc.transcript earlier ++ Call.adds (enc.difference
        (enc.cnf.varCount + earlier.length + 1) comparison.first comparison.other) := by
  induction log using List.reverseRecOn generalizing after with
  | nil =>
    rw [enc.transcript_nil] at h
    have hmem : Call.solve assumed result ∈ Call.adds enc.cnf.clauses.toList := by simp [h]
    exact (Call.solve_notMem_adds _ hmem).elim
  | append_singleton log last ih =>
    rw [enc.transcript_concat, Encoding.query, ← List.append_assoc] at h
    cases after using List.reverseRecOn with
    | nil =>
      obtain ⟨hbefore, hlast⟩ := List.append_inj' h rfl
      cases hlast
      exact ⟨log, last, [], rfl, rfl, hbefore.symm⟩
    | append_singleton after _ =>
      rw [← List.cons_append, ← List.append_assoc] at h
      obtain ⟨hfront, _⟩ := List.append_inj' h rfl
      obtain ⟨rest, hsplit⟩ := exists_split_of_append hfront (Call.solve_notMem_adds _)
      obtain ⟨earlier, comparison, later, rfl, hassumed, hbefore⟩ := ih hsplit
      exact ⟨earlier, comparison, later ++ [last], by simp, hassumed, hbefore⟩

/-- Calls that break off ask what their plan asks. -/
theorem exists_of_breaksOff_split {plan : List Call} {reason : String}
    (h : Call.BreaksOff reason calls plan)
    (hsplit : calls = before ++ .solve assumed result :: after) :
    ∃ result after, plan = before ++ .solve assumed result :: after := by
  obtain ⟨kept, call, rest, rfl, rfl⟩ := h
  cases after using List.reverseRecOn with
  | nil =>
    obtain ⟨rfl, hlast⟩ := List.append_inj' hsplit rfl
    cases call with
    | add clause result => cases hlast
    | solve assumed' result =>
      cases hlast
      exact ⟨result, rest, rfl⟩
  | append_singleton after _ =>
    rw [← List.cons_append, ← List.append_assoc] at hsplit
    obtain ⟨rfl, _⟩ := List.append_inj' hsplit rfl
    exact ⟨result, after ++ call :: rest, by simp⟩

end Encoding

namespace Reducer

variable {c d : Circuit} {enc : Encoding} {calls : List Call}
  {result : Except Error ReductionReport}

/-- However a reduction ends, its calls are those for some comparisons, up to one that may fail. -/
theorem Ending.exists_plan (h : Ending c enc result d calls) :
    ∃ log, enc.Fits c.classes log ∧
      (calls = enc.transcript log ∨ ∃ reason, Call.BreaksOff reason calls (enc.transcript log)) := by
  cases h with
  | finished hlog _ _ => exact ⟨_, Encoding.fits_of_schedule hlog, .inl rfl⟩
  | unloaded hbreaks => exact ⟨[], nofun, .inr ⟨_, hbreaks⟩⟩
  | @unanswered log _ next _ reason _ hlog _ hbreaks =>
    refine ⟨_, Encoding.fits_of_schedule_next hlog next.equal, .inr ⟨reason, ?_⟩⟩
    rw [enc.transcript_concat]
    exact hbreaks.prepend _
  | refused hlog _ _ => exact ⟨_, Encoding.fits_of_schedule_next hlog true, .inl rfl⟩

/-- A question comes after the calls for the comparisons before it and the clauses for its own. -/
theorem Ending.exists_asked {before after : List Call} {assumed : List Lit}
    {answer : Except String Bool} (h : Ending c enc result d calls)
    (hsplit : calls = before ++ .solve assumed answer :: after) :
    ∃ earlier comparison, enc.Fits c.classes (earlier ++ [comparison]) ∧
      assumed = [.pos (enc.cnf.varCount + earlier.length + 1)] ∧
      before = enc.transcript earlier ++ Call.adds (enc.difference
        (enc.cnf.varCount + earlier.length + 1) comparison.first comparison.other) := by
  obtain ⟨log, hfits, hplan⟩ := h.exists_plan
  obtain ⟨answer, after, hsplit⟩ : ∃ answer after,
      enc.transcript log = before ++ .solve assumed answer :: after := by
    rcases hplan with rfl | ⟨reason, hbreaks⟩
    · exact ⟨answer, after, hsplit⟩
    · exact Encoding.exists_of_breaksOff_split hbreaks hsplit
  obtain ⟨earlier, comparison, later, rfl, hassumed, hbefore⟩ :=
    Encoding.exists_of_transcript_split hsplit
  rw [List.append_cons] at hfits
  exact ⟨earlier, comparison, fun other hother => hfits other (List.mem_append_left later hother),
    hassumed, hbefore⟩

end Reducer

namespace Circuit

variable {c d : Circuit} {enc : Encoding} {log : List Comparison} {p : Stimulus} {id : NodeId}

/-- The circuit with other groups of gates. -/
def regrouped (c : Circuit) (classes : Classes) : Circuit := { c with classes }

theorem nodup_ids (c : Circuit) : c.ids.Nodup := c.sorted_ids.imp UInt64.ne_of_lt

theorem Swept.valueWithin (h : c.Swept d) (hc : c.WellFormed) (hid : c.Live id) (depth : Nat) :
    d.valueWithin p depth id = c.valueWithin p depth id := by
  induction depth generalizing id with
  | zero => rfl
  | succ depth ih =>
    obtain ⟨kind, hkind⟩ := Option.isSome_iff_exists.1 (hid.isSome hc)
    rw [valueWithin_succ hkind, valueWithin_succ ((h.kind?_of_stays (.inl hid)).trans hkind)]
    exact Kind.eval_congr fun e he => ih (hid.of_feeds ⟨kind, hkind, e, he, rfl⟩)

/-- Sweeping changes no value of a live node, also where dead nodes form cycles. -/
theorem Swept.value (h : c.Swept d) (hc : c.WellFormed) (hlive : c.LiveAcyclic) (hid : c.Live id) :
    d.value p id = c.value p id := by
  obtain ⟨rank, hrank, hbound⟩ := h.wellFormed.exists_ranked ((h.acyclic_iff hc).2 hlive)
  have hids : d.ids ⊆ c.ids := by
    intro other hother
    have hsome := mem_ids.1 hother
    exact mem_ids.2 (h.kind?_of_stays (h.stays_of_isSome hsome) ▸ hsome)
  have hle : d.ids.length ≤ c.ids.length := (d.nodup_ids.subperm hids).length_le
  have hlt : rank id < d.ids.length :=
    hbound id (mem_ids.2 (h.kind?_of_stays (.inl hid) ▸ hid.isSome hc))
  rw [Circuit.value, Circuit.value, ← h.valueWithin hc hid]
  exact hrank.valueWithin_eq hlt (by omega)

/-- The clauses for comparisons leave the description of the circuit as it is. -/
theorem DescribedBy.transcript {classes : Classes} (h : c.DescribedBy enc)
    (hlog : enc.Fits classes log) : c.Describes enc.vars (enc.cnf.varCount + log.length)
      (Call.handed (enc.transcript log)) := by
  induction log using List.reverseRecOn with
  | nil =>
    rw [enc.transcript_nil, Call.handed_adds]
    exact h
  | append_singleton log last ih =>
    obtain ⟨_, hfirst, hother⟩ := hlog last (by simp)
    obtain ⟨u, hu⟩ := exists_of_mem hfirst
    obtain ⟨v, hv⟩ := exists_of_mem hother
    have hdescribes := ih fun comparison hmem => hlog comparison (List.mem_append_left _ hmem)
    have hnext := Reducer.describes_xorClauses hdescribes hu hv
    rw [enc.transcript_concat, Encoding.query, Encoding.difference_of_getElem? hu hv,
      Call.handed_append, Call.handed_append, Call.handed_adds, Call.handed_solve, List.append_nil,
      List.length_append]
    exact hnext

/-- The clauses so far and those of a question, with its variable assumed, can be true together if
    and only if the nodes differ somewhere. -/
theorem DescribedBy.satisfiable_query {classes : Classes} (h : c.DescribedBy enc)
    (hlog : enc.Fits classes log) {a b : NodeId} {u v : Nat} (hu : enc.vars[a]? = some u)
    (hv : enc.vars[b]? = some v) :
    Satisfiable (Call.handed (enc.transcript log ++ Call.adds (Cnf.xorClauses (.pos u) (.pos v)
        (.pos (enc.cnf.varCount + log.length + 1)))))
      [.pos (enc.cnf.varCount + log.length + 1)] ↔ ∃ p, c.value p a ≠ c.value p b := by
  rw [Call.handed_append, Call.handed_adds, Reducer.satisfiable_differ_iff (h.transcript hlog) hu hv,
    SameFunction, not_forall]

/-- Every question to the oracle is exact, whatever it answered before and whatever groups it is
    asked about: the clauses handed over so far and the assumed variable can be true together if and
    only if some stimulus tells the two nodes apart in the circuit as it was at the start. The
    clauses are those of the encoding and of the comparisons so far, and only the four that the
    question brings are about its variable. -/
theorem query_exact {σ : Type} (ops : List Operation) (hlive : (empty.after ops).LiveAcyclic)
    (classes : Classes) (oracle : Oracle σ) (start : σ) :
    ∃ enc result d s calls, ((empty.after ops).regrouped classes).encode = .ok enc ∧
      enc.Numbered ∧
      ((empty.after ops).regrouped classes).reduceWith oracle start = (result, d, s) ∧
      ((empty.after ops).regrouped classes).reduceWith oracle.recorded (start, []) =
        (result, d, s, calls) ∧
      ∀ before assumed answer after, calls = before ++ .solve assumed answer :: after →
        ∃ a b u v z log, (∃ group ∈ classes.candidates, [a, b].Sublist group) ∧
          enc.vars[a]? = some u ∧ enc.vars[b]? = some v ∧ assumed = [.pos z] ∧
          before = enc.transcript log ++ Call.adds (Cnf.xorClauses (.pos u) (.pos v) (.pos z)) ∧
          (∀ clause ∈ Call.handed (enc.transcript log), ∀ l ∈ clause, l.var ≠ z) ∧
          (Satisfiable (Call.handed before) assumed ↔
            ∃ p, ((empty.after ops).regrouped classes).value p a ≠
              ((empty.after ops).regrouped classes).value p b) := by
  have hc : ((empty.after ops).regrouped classes).WellFormed :=
    (sameShape_classes _ classes).wellFormed (wellFormed_after ops)
  have hclasses : ((empty.after ops).regrouped classes).classes = classes := rfl
  replace hlive : ((empty.after ops).regrouped classes).LiveAcyclic := hlive
  generalize (empty.after ops).regrouped classes = c at hc hlive hclasses ⊢
  subst hclasses
  obtain ⟨enc, d, hencode, hswept, hdescribed, hencoded⟩ := hc.exists_described hlive
  obtain ⟨result, e, s, calls, hrecorded, hreduce, hending⟩ := hc.exists_ending hencode oracle start
  refine ⟨enc, result, e, s, calls, hencode, hc.numbered_of_encode hencode, hreduce, hrecorded, ?_⟩
  intro before assumed answer after hsplit
  obtain ⟨earlier, comparison, hfits, rfl, rfl⟩ := hending.exists_asked hsplit
  obtain ⟨hgroup, hfirst, hother⟩ := hfits comparison (by simp)
  obtain ⟨u, hu⟩ := exists_of_mem hfirst
  obtain ⟨v, hv⟩ := exists_of_mem hother
  have hearlier : enc.Fits c.classes earlier := fun other hmem =>
    hfits other (List.mem_append_left _ hmem)
  have hlives : ∀ id ∈ enc.vars, c.Live id := fun id hid => ((hencoded id).1 hid).1
  rw [Encoding.difference_of_getElem? hu hv]
  refine ⟨comparison.first, comparison.other, u, v, _, earlier, hgroup, hu, hv, rfl, rfl, ?_, ?_⟩
  · intro clause hclause l hl heq
    have hle := (hdescribed.transcript hearlier).lit_le clause hclause l hl
    omega
  · rw [hdescribed.satisfiable_query hearlier hu hv]
    refine exists_congr fun p => ?_
    rw [hswept.value hc hlive (hlives _ hfirst), hswept.value hc hlive (hlives _ hother)]

/-- Two gates that compute the same, beside a loop of dead gates. -/
def liveTwins : List Operation :=
  deadLoop ++ [.addGate 8 ⟨2, true⟩ ⟨1, false⟩, .addOutput ⟨8, false⟩]

/-- An oracle that takes everything and finds it satisfiable. -/
def credulous : Oracle Unit := ⟨fun _ => pure (), fun _ => pure true⟩

/-- The two gates as one group, whatever their signatures. -/
def suspects : Classes := (Classes.empty.insert #[] 6).insert #[] 8

/-- The wrong answer comes to the right question. -/
theorem query_exact_liveTwins :
    (empty.after liveTwins).audit ≠ .ok () ∧ (empty.after liveTwins).LiveAcyclic ∧
      ∃ before, (((empty.after liveTwins).regrouped suspects).reduceWith
          credulous.recorded ((), [])).2.2.2 = before ++ [.solve [.pos 5] (.ok true)] ∧
        (Satisfiable (Call.handed before) [.pos 5] ↔ ∃ p,
          ((empty.after liveTwins).regrouped suspects).value p 6 ≠
          ((empty.after liveTwins).regrouped suspects).value p 8) := by
  have hc := wellFormed_empty.after liveTwins
  have hloop : (empty.after liveTwins).audit.isOk = false := by decide +kernel
  have hlive := hc.liveAcyclic_of_audit (by decide +kernel)
  refine ⟨fun h => ?_, hlive, ?_⟩
  · rw [h] at hloop
    cases hloop
  have hlast : (((empty.after liveTwins).regrouped suspects).reduceWith
      credulous.recorded ((), [])).2.2.2.getLast? = some (.solve [.pos 5] (.ok true)) := by
        decide +kernel
  have hcandidates : suspects.candidates = [[6, 8]] := by decide +kernel
  obtain ⟨before, hsplit⟩ := List.getLast?_eq_some_iff.1 hlast
  obtain ⟨enc, result, e, s, calls, _, _, _, hrecorded, hqueries⟩ :=
    query_exact liveTwins hlive suspects credulous ()
  rw [hrecorded] at hsplit ⊢
  obtain ⟨a, b, _, _, _, _, ⟨group, hgroup, hsublist⟩, _, _, _, _, _, hexact⟩ :=
    hqueries before [.pos 5] (.ok true) [] hsplit
  rw [hcandidates, List.mem_singleton] at hgroup
  subst hgroup
  obtain ⟨rfl, rfl⟩ : a = 6 ∧ b = 8 := by simpa using hsublist.eq_of_length rfl
  exact ⟨before, hsplit, hexact⟩

end Circuit

end AndInverter
