import Mathlib.Data.List.Chain
import SchemaCheck.Runs

/-!
Laws of runs: inside a run each item is related to the next, a list in which each item is related to
the next is a single run, and cutting a list cuts at most the run that the cut goes through.
-/

namespace SchemaCheck

variable {α : Type}

theorem isChain_of_mem_runs (same : α → α → Bool) (items : List α) {run : List α}
    (member : run ∈ runs same items) :
    List.IsChain (fun left right => same left right = true) run := by
  induction items generalizing run with
  | nil => cases member
  | cons head tail ih =>
      rw [runs] at member
      split at member
      · rename_i next others rest shape
        have inside : next :: others ∈ runs same tail := shape ▸ List.mem_cons_self
        have outside : ∀ run ∈ rest, run ∈ runs same tail := by
          intro run later
          exact shape ▸ List.mem_cons_of_mem _ later
        split at member
        · rename_i related
          rcases List.mem_cons.mp member with rfl | later
          · exact List.isChain_cons_cons.mpr ⟨related, ih inside⟩
          · exact ih (outside run later)
        · rcases List.mem_cons.mp member with rfl | later
          · exact List.IsChain.singleton head
          · rcases List.mem_cons.mp later with rfl | later
            · exact ih inside
            · exact ih (outside run later)
      · rcases List.mem_cons.mp member with rfl | later
        · exact List.IsChain.singleton head
        · exact ih later

theorem runs_of_isChain (same : α → α → Bool) {items : List α} (nonempty : items ≠ [])
    (chain : List.IsChain (fun left right => same left right = true) items) :
    runs same items = [items] := by
  induction items with
  | nil => exact absurd rfl nonempty
  | cons head tail ih =>
      cases tail with
      | nil => rfl
      | cons next rest =>
          obtain ⟨related, others⟩ := List.isChain_cons_cons.mp chain
          rw [runs, ih (List.cons_ne_nil next rest) others]
          simp only [related, if_true]

theorem exists_runs_cons (same : α → α → Bool) (head : α) (tail : List α) :
    ∃ run rest, runs same (head :: tail) = (head :: run) :: rest := by
  rw [runs]
  split
  · split
    · exact ⟨_, _, rfl⟩
    · exact ⟨_, _, rfl⟩
  · exact ⟨_, _, rfl⟩

theorem runs_cons_cons (same : α → α → Bool) (head next : α) (tail : List α) :
    runs same (head :: next :: tail) =
      if same head next = true then (runs same (next :: tail)).modifyHead (head :: ·)
      else [head] :: runs same (next :: tail) := by
  rcases exists_runs_cons same next tail with ⟨run, rest, shape⟩
  rw [runs, shape]
  rfl

theorem isChain_runs (same : α → α → Bool) (items : List α) :
    List.IsChain (fun run next =>
      ∀ last ∈ run.getLast?, ∀ first ∈ next.head?, same last first = false)
      (runs same items) := by
  induction items with
  | nil => exact .nil
  | cons head tail ih =>
      cases tail with
      | nil => exact .singleton [head]
      | cons next others =>
          rcases exists_runs_cons same next others with ⟨run, rest, shape⟩
          rw [runs_cons_cons, shape]
          rw [shape] at ih
          split
          · rw [List.modifyHead_cons]
            cases rest with
            | nil => exact .singleton _
            | cons following later =>
                rcases List.isChain_cons_cons.mp ih with ⟨apart, chain⟩
                refine List.isChain_cons_cons.mpr ⟨?_, chain⟩
                rw [List.getLast?_cons_cons]
                exact apart
          · rename_i unrelated
            refine List.isChain_cons_cons.mpr ⟨?_, ih⟩
            rintro _ ⟨⟩ _ ⟨⟩
            exact Bool.eq_false_iff.mpr unrelated

/-- A list cut between two items that are not related has the runs of both its parts. -/
theorem runs_append_of_unrelated (same : α → α → Bool) {front back : List α}
    (unrelated : ∀ last ∈ front.getLast?, ∀ first ∈ back.head?, same last first = false) :
    runs same (front ++ back) = runs same front ++ runs same back := by
  induction front with
  | nil => rfl
  | cons head tail ih =>
      cases tail with
      | nil =>
          cases back with
          | nil => simp [runs]
          | cons first rest =>
              have apart : ¬same head first = true := by simpa using unrelated
              rw [List.singleton_append, runs_cons_cons, if_neg apart]
              rfl
      | cons next others =>
          have joined := ih (by simpa using unrelated)
          rcases exists_runs_cons same next others with ⟨run, rest, shape⟩
          rw [List.cons_append, List.cons_append, runs_cons_cons, ← List.cons_append, joined,
            runs_cons_cons, shape]
          split
          · rfl
          · rfl

/-- A list cut between two related items has the runs of both its parts, but for the one that the
cut goes through. -/
theorem runs_append_of_related (same : α → α → Bool) {front back : List α} {last first : α}
    (ending : front.getLast? = some last) (opening : back.head? = some first)
    (related : same last first = true) :
    ∃ before run next after, runs same front = before ++ [run] ∧ runs same back = next :: after ∧
      runs same (front ++ back) = before ++ (run ++ next) :: after := by
  induction front with
  | nil => cases ending
  | cons head tail ih =>
      cases tail with
      | nil =>
          cases back with
          | nil => cases opening
          | cons start rest =>
              have isLast : head = last := by simpa using ending
              have isFirst : start = first := by simpa using opening
              subst isLast isFirst
              rcases exists_runs_cons same start rest with ⟨run, others, shape⟩
              refine ⟨[], [head], start :: run, others, rfl, shape, ?_⟩
              rw [List.singleton_append, runs_cons_cons, if_pos related, shape]
              rfl
      | cons next others =>
          rcases ih ending with ⟨before, run, later, after, left, right, whole⟩
          have split : runs same (head :: next :: others ++ back) =
              if same head next = true then
                (before ++ (run ++ later) :: after).modifyHead (head :: ·)
              else [head] :: (before ++ (run ++ later) :: after) := by
            rw [← whole]
            exact runs_cons_cons same head next (others ++ back)
          rw [split, runs_cons_cons, left]
          split_ifs
          · cases before with
            | nil => exact ⟨[], head :: run, later, after, rfl, right, rfl⟩
            | cons start middle =>
                exact ⟨(head :: start) :: middle, run, later, after, rfl, right, rfl⟩
          · exact ⟨[head] :: before, run, later, after, rfl, right, rfl⟩

end SchemaCheck
