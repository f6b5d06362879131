import SchemaCheck.Proofs.Enums
import SchemaCheck.Proofs.Joining

/-!
The normal form of a chain. Merging cuts a chain into segments, each of which becomes one step: a
single step stays as it is, several objects become one with all their fields, several enums one with
all their options. No two neighbours that come out could become one step again, and this settles
what comes out.
-/

namespace SchemaCheck.Chain

/-- What a segment of a chain becomes: one step stays as it is, several objects or enums are put
together, with repetitions and in order. -/
inductive Collapses : List Schema → Schema → Prop
  | single (step : Schema) : Collapses [step] step
  | objects {objects : List Fields} :
      2 ≤ objects.length → Collapses (chainOfObjects objects) (.step (.object objects.flatten))
  | enums {enums : List Value} :
      2 ≤ enums.length → (∀ options ∈ enums, options.IsOptionList) →
      Collapses (chainOfEnums enums) (.step (.enum (.list (optionsOf enums))))

/-- The steps are those of the chain, segment by segment, and no two neighbours are both objects or
both enums. -/
structure Normalized (steps merged : List Schema) : Prop where
  segments : ∃ segments, segments.flatten = steps ∧ List.Forall₂ Collapses segments merged
  apart : List.IsChain (fun left right => ¬Schema.JoinsWith left right) merged

theorem Collapses.cons {step next whole : Schema} {segment : List Schema}
    (collapses : Collapses segment next)
    (joined : Schema.Joined step next whole) : Collapses (step :: segment) whole := by
  cases joined with
  | objects fields others =>
      cases collapses with
      | single => simpa [chainOfObjects] using @objects [fields, others] (by simp)
      | @objects members several =>
          exact @objects (fields :: members) (Nat.le_succ_of_le several)
  | @enums options others items more own later =>
      have first := literalOptions_eq_ok.mp own
      have second := literalOptions_eq_ok.mp later
      cases collapses with
      | single =>
          have listed : ∀ each ∈ [options, others], each.IsOptionList :=
            List.forall_mem_cons.mpr ⟨⟨items, first⟩, List.forall_mem_singleton.mpr ⟨more, second⟩⟩
          simpa [chainOfEnums, optionsOf, first.1, second.1] using enums (by simp) listed
      | @enums members several listed =>
          have same : more = optionsOf members := (Option.some.inj second.1).symm
          have all : optionsOf (options :: members) = items ++ more := by
            simp [optionsOf, first.1, same]
          rw [← all]
          exact @enums (options :: members) (Nat.le_succ_of_le several)
            (List.forall_mem_cons.mpr ⟨⟨items, first⟩, listed⟩)

theorem normalized_of_merge {steps merged : List Schema} (merging : merge steps = .ok merged) :
    Normalized steps merged := by
  refine ⟨?_, isChain_apart_of_merge merging⟩
  -- Each step opens a segment of its own or goes in front of the first one.
  induction steps generalizing merged with
  | nil =>
      cases merging
      exact ⟨[], rfl, .nil⟩
  | cons step rest ih =>
      obtain ⟨_, later, others, prepended⟩ := merge_cons_iff.mp merging
      obtain ⟨segments, rfl, collapse⟩ := ih others
      cases prepended with
      | single =>
          cases collapse
          exact ⟨[[step]], rfl, .cons (.single step) .nil⟩
      | beside => exact ⟨[step] :: segments, rfl, .cons (.single step) collapse⟩
      | joined joined =>
          obtain ⟨segment, segments, own, following, rfl⟩ := List.forall₂_cons_right_iff.mp collapse
          exact ⟨(step :: segment) :: segments, rfl, .cons (own.cons joined) following⟩

theorem Collapses.merge {segment : List Schema} {step : Schema} (collapses : Collapses segment step)
    (kinds : ∀ step ∈ segment, ∃ kind, step.kind = .ok kind) : merge segment = .ok [step] := by
  cases collapses with
  | single =>
      obtain ⟨kind, known⟩ := kinds step List.mem_cons_self
      exact merge_singleton known
  | objects several => exact merge_objects (List.ne_nil_of_length_pos (Nat.zero_lt_of_lt several))
  | @enums members several listed =>
      have whole : listedOptions members = .list (optionsOf members) := by
        unfold listedOptions
        split
        · simp at several
        · rfl
      rw [merge_enums (List.ne_nil_of_length_pos (Nat.zero_lt_of_lt several)) listed, whole]

theorem merge_of_normalized {steps merged : List Schema}
    (kinds : ∀ step ∈ steps, ∃ kind, step.kind = .ok kind)
    (normalized : Normalized steps merged) : merge steps = .ok merged := by
  obtain ⟨⟨segments, rfl, collapse⟩, apart⟩ := normalized
  induction collapse with
  | nil => rfl
  | @cons segment step segments merged first _ ih =>
      obtain ⟨own, later⟩ := List.forall_mem_append.mp kinds
      have front := first.merge own
      have back := ih apart.tail later
      have known : ∀ each ∈ [step] ++ merged, ∃ kind, each.kind = .ok kind :=
        List.forall_mem_append.mpr ⟨kind_of_mem_merge front, kind_of_mem_merge back⟩
      exact merge_append_iff.mpr ⟨[step], merged, front, back, merge_of_apart known apart⟩

/-- Merging a chain succeeds if its steps have kinds and neighbouring enums list literals. What
comes out is the normal form of the chain and merges to itself, and wherever a chain is cut its
parts may be merged first. -/
theorem merge_normalizes (steps : List Schema) :
    ((∃ merged, merge steps = .ok merged) ↔
      (∀ step ∈ steps, ∃ kind, step.kind = .ok kind) ∧ List.IsChain Schema.OptionsListed steps) ∧
    (∀ merged, merge steps = .ok merged ↔
      (∀ step ∈ steps, ∃ kind, step.kind = .ok kind) ∧ Normalized steps merged) ∧
    merge steps >>= merge = merge steps ∧
    ∀ back merged, merge (steps ++ back) = .ok merged ↔
      ∃ left right, merge steps = .ok left ∧ merge back = .ok right ∧
        merge (left ++ right) = .ok merged := by
  refine ⟨exists_merge_iff, fun merged => ⟨?_, ?_⟩, ?_, fun _ _ => merge_append_iff⟩
  · intro merging
    exact ⟨(exists_merge_iff.mp ⟨merged, merging⟩).1, normalized_of_merge merging⟩
  · intro found
    exact merge_of_normalized found.1 found.2
  · cases merging : merge steps with
    | error fault => rfl
    | ok merged => exact merge_merged merging

-- An enum between other steps is not looked at.
example : merge [.step (.object []), .step (.enum .null), .step (.object [])] =
    .ok [.step (.object []), .step (.enum .null), .step (.object [])] := by
  cbv

end SchemaCheck.Chain
