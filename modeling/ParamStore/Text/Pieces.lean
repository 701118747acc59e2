/-!
# Pieces between separators

A text cut at every occurrence of one character. There is always one piece
more than there are separators; a text without any is its own one piece.

Main statement: `not_mem_of_mem_pieces`, no piece holds the separator.
-/

namespace ParamStore.Text

variable {α : Type} [DecidableEq α]

/-- The pieces of a list between the occurrences of `sep`. -/
def pieces (sep : α) : List α → List (List α)
  | [] => [[]]
  | c :: cs =>
    if c = sep then [] :: pieces sep cs
    else match pieces sep cs with
      | [] => [[c]]
      | p :: ps => (c :: p) :: ps

theorem pieces_ne_nil (sep : α) (cs : List α) : pieces sep cs ≠ [] := by
  cases cs with
  | nil => simp [pieces]
  | cons c cs => unfold pieces; split <;> (try split) <;> simp

theorem not_mem_of_mem_pieces {sep : α} {p cs : List α} (h : p ∈ pieces sep cs) :
    sep ∉ p := by
  induction cs generalizing p with
  | nil => simp [pieces] at h; simp [h]
  | cons c cs ih =>
    unfold pieces at h
    split at h
    · rcases List.mem_cons.1 h with rfl | h
      · simp
      · exact ih h
    · next hc =>
      split at h
      · rcases List.mem_cons.1 h with rfl | h
        · simpa using fun heq => hc heq.symm
        · cases h
      · next q qs heq =>
        rcases List.mem_cons.1 h with rfl | h
        · have := ih (p := q) (heq ▸ List.mem_cons_self)
          simp only [List.mem_cons, not_or]
          exact ⟨fun h => hc h.symm, this⟩
        · exact ih (heq ▸ List.mem_cons_of_mem _ h)

end ParamStore.Text
