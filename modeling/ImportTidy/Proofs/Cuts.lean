/-!
# Lists cut where a test fails

A reader takes the elements in front that pass a test and goes on behind them.  `CutsAt` says of
two lists that the cut of their concatenation lies between them.  It is what a writer has to see
to: the first element of what follows must not pass the test.
-/

namespace ImportTidy

/-- All of the front passes the test, and the rest does not start with an element that does. -/
structure CutsAt {α : Type} (p : α → Bool) (front rest : List α) : Prop where
  front : ∀ x ∈ front, p x = true
  rest : ∀ x ∈ rest.head?, p x = false

namespace CutsAt

variable {α : Type} {p : α → Bool} {front rest : List α}

theorem takeWhile_eq (h : CutsAt p front rest) : (front ++ rest).takeWhile p = front := by
  rw [List.takeWhile_append_of_pos h.front]
  cases rest with
  | nil => exact List.append_nil front
  | cons x rest => rw [List.takeWhile_cons_of_neg (by simp [h.rest x rfl]), List.append_nil]

theorem dropWhile_eq (h : CutsAt p front rest) : (front ++ rest).dropWhile p = rest := by
  rw [List.dropWhile_append_of_pos h.front]
  cases rest with
  | nil => rfl
  | cons x rest => rw [List.dropWhile_cons_of_neg (by simp [h.rest x rfl])]

/-- Every list has such a cut. -/
theorem of_list (p : α → Bool) (xs : List α) : CutsAt p (xs.takeWhile p) (xs.dropWhile p) where
  front := by
    have every := List.all_takeWhile (p := p) (l := xs)
    rwa [List.all_eq_true] at every
  rest := by
    intro x first
    have fails := List.head?_dropWhile_not p xs
    rwa [Option.mem_def.mp first] at fails

end CutsAt

end ImportTidy
