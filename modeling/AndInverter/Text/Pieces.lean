namespace AndInverter.Text

variable {α : Type}

/-- The stretches of a list between its separators, one more than there are separators.
    Neighbouring separators have the empty stretch between them. -/
def pieces (sep : α → Bool) (s : List α) : List (List α) :=
  s.foldr (fun c rest =>
    if sep c then [] :: rest
    else match rest with
      | [] => [[c]]
      | first :: more => (c :: first) :: more) [[]]

@[simp]
theorem pieces_nil (sep : α → Bool) : pieces sep [] = [[]] := rfl

theorem pieces_cons_of_sep {sep : α → Bool} {c : α} (h : sep c = true) (s : List α) :
    pieces sep (c :: s) = [] :: pieces sep s := by
  simp [pieces, h]

theorem pieces_ne_nil (sep : α → Bool) (s : List α) : pieces sep s ≠ [] := by
  cases s with
  | nil => simp
  | cons c s =>
    simp only [pieces, List.foldr_cons]
    split
    · simp
    · split <;> simp

/-- A separator ends the stretch before it, whatever follows. -/
theorem pieces_append_cons {sep : α → Bool} {c : α} (h : sep c = true) {s : List α}
    (hs : ∀ x ∈ s, sep x = false) (rest : List α) :
    pieces sep (s ++ c :: rest) = s :: pieces sep rest := by
  induction s with
  | nil => simp [pieces_cons_of_sep h]
  | cons x s ih =>
    have hx : sep x = false := hs x List.mem_cons_self
    have htail := ih fun y hy => hs y (List.mem_cons_of_mem x hy)
    simp only [pieces, List.cons_append, List.foldr_cons] at htail ⊢
    simp [htail, hx]

end AndInverter.Text
