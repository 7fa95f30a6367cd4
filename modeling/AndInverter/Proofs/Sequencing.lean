import Mathlib.Logic.Basic

namespace AndInverter

variable {ε σ α β : Type}

theorem except_bind_eq_ok_iff {x : Except ε α} {f : α → Except ε β} {b : β} :
    (x >>= f) = .ok b ↔ ∃ a, x = .ok a ∧ f a = .ok b := by
  cases x <;> simp [Bind.bind, Except.bind]

theorem except_bind_eq_error_iff {x : Except ε α} {f : α → Except ε β} {failure : ε} :
    (x >>= f) = .error failure ↔ x = .error failure ∨ ∃ a, x = .ok a ∧ f a = .error failure := by
  cases x <;> simp [Bind.bind, Except.bind]

theorem except_seq_eq_ok_iff {x : Except ε Unit} {f : Unit → Except ε β} {b : β} :
    (x >>= f) = .ok b ↔ x = .ok () ∧ f () = .ok b := by
  rw [except_bind_eq_ok_iff]
  constructor
  · rintro ⟨⟨⟩, h⟩
    exact h
  · exact fun h => ⟨(), h⟩

theorem except_throw_bind (failure : ε) (f : α → Except ε β) :
    (throw failure >>= f) = .error failure := rfl

theorem except_map_eq_ok_iff {x : Except ε α} {f : α → β} {b : β} :
    x.map f = .ok b ↔ ∃ a, x = .ok a ∧ f a = b := by
  cases x <;> simp [Except.map]

theorem except_forM_eq_ok_iff {f : α → Except ε Unit} {l : List α} :
    l.forM f = .ok () ↔ ∀ a ∈ l, f a = .ok () := by
  induction l with
  | nil => simp [pure, Except.pure]
  | cons a l ih =>
    rw [List.forM, except_seq_eq_ok_iff, List.forall_mem_cons]
    exact and_congr_right fun _ => ih

/-- A loop does not fail with what none of its steps fails with. -/
theorem except_forM_ne_error {f : α → Except ε Unit} {l : List α} {failure : ε}
    (h : ∀ a ∈ l, f a ≠ .error failure) : l.forM f ≠ .error failure := by
  induction l with
  | nil => exact nofun
  | cons a l ih =>
    obtain ⟨hfirst, hrest⟩ := List.forall_mem_cons.1 h
    rw [List.forM, Ne, except_bind_eq_error_iff, or_iff_right hfirst]
    rintro ⟨_, _, hfails⟩
    exact ih hrest hfails

theorem mapM_eq_ok_filterMap {f : α → Except ε β} {g : α → Option β} {l : List α}
    (h : ∀ a ∈ l, ∃ b, f a = .ok b ∧ g a = some b) : l.mapM f = .ok (l.filterMap g) := by
  induction l with
  | nil => rfl
  | cons a l ih =>
    obtain ⟨⟨b, hf, hg⟩, hrest⟩ := List.forall_mem_cons.1 h
    rw [List.mapM_cons, List.filterMap_cons_some hg, hf, ih hrest]
    rfl

theorem mapM_eq_ok_map {f : α → Except ε β} {g : α → β} {l : List α}
    (h : ∀ a ∈ l, f a = .ok (g a)) : l.mapM f = .ok (l.map g) := by
  rw [← List.filterMap_eq_map]
  exact mapM_eq_ok_filterMap fun a ha => ⟨g a, h a ha, rfl⟩

/-- Two steps in a row succeed if the first one does and the second one does from where it ended. -/
theorem estateM_bind_eq_ok_iff {x : EStateM ε σ α} {f : α → EStateM ε σ β} {s u : σ} {b : β} :
    (x >>= f) s = .ok b u ↔ ∃ a t, x s = .ok a t ∧ f a t = .ok b u := by
  change EStateM.bind x f s = .ok b u ↔ _
  unfold EStateM.bind
  cases x s with
  | ok a t =>
    constructor
    · intro h
      exact ⟨a, t, rfl, h⟩
    · rintro ⟨_, _, ⟨⟩, h⟩
      exact h
  | error failure t => simp

theorem estateM_bind_of_ok {x : EStateM ε σ α} {s t : σ} {a : α} (h : x s = .ok a t)
    (f : α → EStateM ε σ β) : (x >>= f) s = f a t := by
  change EStateM.bind x f s = _
  rw [EStateM.bind, h]

theorem estateM_bind_of_error {x : EStateM ε σ α} {s t : σ} {failure : ε}
    (h : x s = .error failure t) (f : α → EStateM ε σ β) : (x >>= f) s = .error failure t := by
  change EStateM.bind x f s = _
  rw [EStateM.bind, h]

/-- A loop none of whose steps fails is a fold. -/
theorem estateM_forM_eq {f : α → EStateM ε σ PUnit} {g : σ → α → σ} {P : σ → Prop} {l : List α}
    {s : σ} (hs : P s) (hf : ∀ a ∈ l, ∀ s, P s → f a s = .ok ⟨⟩ (g s a) ∧ P (g s a)) :
    l.forM f s = .ok ⟨⟩ (l.foldl g s) ∧ P (l.foldl g s) := by
  induction l generalizing s with
  | nil => exact ⟨rfl, hs⟩
  | cons a l ih =>
    obtain ⟨hfirst, hrest⟩ := List.forall_mem_cons.1 hf
    obtain ⟨hstep, hkept⟩ := hfirst s hs
    rw [List.forM, estateM_bind_of_ok hstep]
    exact ih hkept hrest

/-- The state satisfies `P` afterwards if it did before, whether the steps succeed or fail. -/
def Keeps (P : σ → Prop) (x : EStateM ε σ α) : Prop :=
  ∀ s, P s → match x s with
    | .ok _ t => P t
    | .error _ t => P t

namespace Keeps

variable {P : σ → Prop} {x : EStateM ε σ α}

theorem of_ok (h : Keeps P x) {s t : σ} {a : α} (hs : P s) (hx : x s = .ok a t) : P t := by
  have hkept := h s hs
  rwa [hx] at hkept

theorem pure (P : σ → Prop) (a : α) : Keeps P (Pure.pure a : EStateM ε σ α) := fun _ hs => hs

theorem throw (P : σ → Prop) (failure : ε) : Keeps P (MonadExcept.throw failure : EStateM ε σ α) :=
  fun _ hs => hs

theorem get (P : σ → Prop) : Keeps P (MonadState.get : EStateM ε σ σ) := fun _ hs => hs

theorem modify {f : σ → σ} (h : ∀ s, P s → P (f s)) :
    Keeps P (modifyGet fun s => (PUnit.unit, f s) : EStateM ε σ PUnit) := fun s hs => h s hs

/-- What follows a step only has to be looked at for the results that the step can have. -/
theorem bind_of_ok {f : α → EStateM ε σ β} (hx : Keeps P x)
    (hf : ∀ a s t, P s → x s = .ok a t → Keeps P (f a)) : Keeps P (x >>= f) := by
  intro s hs
  have hkept := hx s hs
  change match EStateM.bind x f s with
    | .ok _ t => P t
    | .error _ t => P t
  unfold EStateM.bind
  cases hresult : x s with
  | ok a t =>
    rw [hresult] at hkept
    exact hf a s t hs hresult t hkept
  | error failure t =>
    rw [hresult] at hkept
    exact hkept

theorem bind {f : α → EStateM ε σ β} (hx : Keeps P x) (hf : ∀ a, Keeps P (f a)) :
    Keeps P (x >>= f) := hx.bind_of_ok fun a _ _ _ _ => hf a

theorem get_bind {f : σ → EStateM ε σ β} (hf : ∀ s, P s → Keeps P (f s)) :
    Keeps P (MonadState.get >>= f) := by
  apply (Keeps.get P).bind_of_ok
  intro a s t hs hget
  cases hget
  exact hf a hs

theorem set {s : σ} (hs : P s) : Keeps P (MonadStateOf.set s : EStateM ε σ PUnit) := fun _ _ => hs

theorem forM {f : α → EStateM ε σ PUnit} {l : List α} (h : ∀ a ∈ l, Keeps P (f a)) :
    Keeps P (l.forM f) := by
  induction l with
  | nil => exact Keeps.pure P PUnit.unit
  | cons a l ih =>
    exact (h a List.mem_cons_self).bind fun _ => ih fun x hx => h x (List.mem_cons_of_mem a hx)

end Keeps

end AndInverter
