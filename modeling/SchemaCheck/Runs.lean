/-!
Runs: a list cut wherever two neighbours are not related.
-/

namespace SchemaCheck

variable {α : Type}

/-- The maximal runs of neighbours that `same` relates, left to right. -/
def runs (same : α → α → Bool) : List α → List (List α)
  | [] => []
  | head :: tail =>
      match runs same tail with
      | (next :: run) :: rest =>
          if same head next then (head :: next :: run) :: rest
          else [head] :: (next :: run) :: rest
      | rest => [head] :: rest

theorem runs_flatten (same : α → α → Bool) (items : List α) :
    (runs same items).flatten = items := by
  induction items with
  | nil => rfl
  | cons head tail ih =>
      rw [runs]
      split
      · rename_i next run rest shape
        rw [shape] at ih
        split <;> simpa using ih
      · rename_i rest shape
        simpa using ih

theorem ne_nil_of_mem_runs (same : α → α → Bool) (items : List α) {run : List α}
    (member : run ∈ runs same items) : run ≠ [] := by
  induction items generalizing run with
  | nil => cases member
  | cons head tail ih =>
      rw [runs] at member
      split at member
      · rename_i next others rest shape
        split at member
        · rcases List.mem_cons.mp member with rfl | later
          · exact List.cons_ne_nil _ _
          · exact ih (shape ▸ List.mem_cons_of_mem _ later)
        · rcases List.mem_cons.mp member with rfl | later
          · exact List.cons_ne_nil _ _
          · exact ih (shape ▸ later)
      · rcases List.mem_cons.mp member with rfl | later
        · exact List.cons_ne_nil _ _
        · exact ih later

end SchemaCheck
