import Mathlib.Data.List.ModifyLast
import SchemaCheck.Proofs.Runs

/-!
Runs are maximal, and nothing else is. There is one way to cut a list up into parts of related
neighbours such that no two related neighbours are parted, and taking the items one by one, each
compared with the one before it, finds that way. Nothing is asked of the relation.
-/

namespace SchemaCheck

variable {α : Type} {same : α → α → Bool} {items : List α} {groups : List (List α)}

/-- The items, cut wherever two neighbours are not related and nowhere else. -/
structure MaximalRuns (same : α → α → Bool) (items : List α) (groups : List (List α)) : Prop where
  flatten : groups.flatten = items
  nonempty : ∀ run ∈ groups, run ≠ []
  related : ∀ run ∈ groups, List.IsChain (fun left right => same left right = true) run
  apart : List.IsChain
    (fun run next => ∀ last ∈ run.getLast?, ∀ first ∈ next.head?, same last first = false) groups

/-- One item more: it joins the last run if the last item of that run is related to it, and else
begins a run. -/
def extendRuns (same : α → α → Bool) (groups : List (List α)) (item : α) : List (List α) :=
  match groups.getLast?.bind List.getLast? with
  | some last => if same last item then groups.modifyLast (· ++ [item]) else groups ++ [[item]]
  | none => groups ++ [[item]]

theorem maximalRuns_runs (same : α → α → Bool) (items : List α) :
    MaximalRuns same items (runs same items) where
  flatten := runs_flatten same items
  nonempty _ := ne_nil_of_mem_runs same items
  related _ := isChain_of_mem_runs same items
  apart := isChain_runs same items

theorem MaximalRuns.tail {run : List α} (maximal : MaximalRuns same items (run :: groups)) :
    MaximalRuns same groups.flatten groups where
  flatten := rfl
  nonempty := (List.forall_mem_cons.mp maximal.nonempty).2
  related := (List.forall_mem_cons.mp maximal.related).2
  apart := maximal.apart.tail

theorem MaximalRuns.unrelated {run : List α} (maximal : MaximalRuns same items (run :: groups)) :
    ∀ last ∈ run.getLast?, ∀ first ∈ groups.flatten.head?, same last first = false := by
  cases groups with
  | nil => simp
  | cons next rest =>
      have present : next ≠ [] := maximal.tail.nonempty next List.mem_cons_self
      have opening : (next :: rest).flatten.head? = next.head? := by
        rw [List.flatten_cons, List.head?_append_of_ne_nil _ present]
      rw [opening]
      exact (List.isChain_cons_cons.mp maximal.apart).1

theorem MaximalRuns.eq_runs (maximal : MaximalRuns same items groups) :
    groups = runs same items := by
  induction groups generalizing items with
  | nil =>
      rw [← maximal.flatten]
      rfl
  | cons run rest ih =>
      have present := maximal.nonempty run List.mem_cons_self
      have chain := maximal.related run List.mem_cons_self
      calc run :: rest
        _ = [run] ++ runs same rest.flatten := by rw [← ih maximal.tail, List.singleton_append]
        _ = runs same run ++ runs same rest.flatten := by rw [runs_of_isChain same present chain]
        _ = runs same (run ++ rest.flatten) :=
          (runs_append_of_unrelated same maximal.unrelated).symm
        _ = runs same items := by rw [← List.flatten_cons, maximal.flatten]

theorem MaximalRuns.last_item (maximal : MaximalRuns same items groups) :
    groups.getLast?.bind List.getLast? = items.getLast? := by
  rcases List.eq_nil_or_concat groups with rfl | ⟨front, run, rfl⟩
  · rw [← maximal.flatten]
    rfl
  · rw [List.concat_eq_append] at maximal ⊢
    have present : run ≠ [] := maximal.nonempty run (by simp)
    rw [← maximal.flatten, List.flatten_concat, List.getLast?_append_of_ne_nil _ present,
      List.getLast?_concat]
    rfl

theorem runs_concat (same : α → α → Bool) (items : List α) (item : α) :
    runs same (items ++ [item]) = extendRuns same (runs same items) item := by
  have reached := (maximalRuns_runs same items).last_item
  cases ending : items.getLast? with
  | none =>
      rw [List.getLast?_eq_none_iff.mp ending]
      rfl
  | some last =>
      -- A run that is extended ends with the last item, so the cut before the new item decides.
      rw [extendRuns, reached, ending]
      by_cases related : same last item = true
      · have opening : [item].head? = some item := rfl
        obtain ⟨before, run, next, after, front, back, whole⟩ :=
          runs_append_of_related same ending opening related
        have single : [[item]] = next :: after := back
        obtain ⟨rfl, rfl⟩ := List.cons.inj single
        simp only [related, if_true]
        rw [whole, front, List.modifyLast_concat]
      · have apart : ∀ last ∈ items.getLast?, ∀ first ∈ [item].head?, same last first = false := by
          rw [ending]
          rintro _ ⟨⟩ _ ⟨⟩
          exact Bool.eq_false_iff.mpr related
        simp only [related]
        exact runs_append_of_unrelated same apart

theorem foldl_extendRuns (same : α → α → Bool) (items : List α) :
    items.foldl (extendRuns same) [] = runs same items := by
  -- From the end of the list: after each item, the runs of the items so far are there.
  induction items using List.reverseRecOn with
  | nil => rfl
  | append_singleton items item ih => rw [List.foldl_concat, ih, runs_concat]

/-- Extending the runs item by item leads to the runs of all items; and these are the only way to
cut the items up so that no part is empty, neighbours inside a part are related, and the last item
of a part is not related to the first of the next. -/
theorem runs_unique (same : α → α → Bool) (items : List α) :
    items.foldl (extendRuns same) [] = runs same items ∧
      ∀ groups, MaximalRuns same items groups ↔ groups = runs same items := by
  refine ⟨foldl_extendRuns same items, fun groups => ⟨MaximalRuns.eq_runs, ?_⟩⟩
  rintro rfl
  exact maximalRuns_runs same items

-- Each item is compared with the one before it, not with the first of its run.
example : runs (fun left right : Nat => right == left + 1) [1, 2, 3, 5, 6] =
  [[1, 2, 3], [5, 6]] := by
  decide

end SchemaCheck
