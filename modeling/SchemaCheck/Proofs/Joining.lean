import SchemaCheck.Proofs.Joining.Step

/-!
Merging from the right. Merging puts each step in front of the others once they are merged and does
nothing else; so it succeeds wherever neighbouring enums list literals, a merged chain stays as it
is, and the parts of a chain may be merged before the whole is.
-/

namespace SchemaCheck

namespace Chain

open Schema (Joined Prepended)

variable {step next : Schema} {rest merged : List Schema}

theorem uniform_tail {kind : Kind} {pair : Kind × Schema} {run : List (Kind × Schema)}
    (uniform : Uniform kind (pair :: run)) (nonempty : run ≠ []) : Uniform kind run :=
  ⟨nonempty, fun pair member => uniform.2 pair (List.mem_cons_of_mem _ member)⟩

theorem mergeRun_of_objects {run : List (Kind × Schema)} (uniform : Uniform .object run) :
    mergeRun run = .ok [.step (.object ((run.map (·.2)).flatMap Schema.objectFields))] := by
  obtain ⟨nonempty, kinds⟩ := uniform
  obtain ⟨⟨kind, first⟩, others, rfl⟩ := List.exists_cons_of_ne_nil nonempty
  obtain ⟨rfl, known⟩ := kinds _ List.mem_cons_self
  cases others with
  | nil =>
      obtain ⟨fields, rfl⟩ := Schema.eq_object_of_kind known
      simp [mergeRun, Schema.objectFields]
  | cons second others => rfl

theorem allOptions_of_enums {run : List (Kind × Schema)} (uniform : Uniform .enum run)
    {options : List Value} :
    allOptions (run.map (·.2)) = .ok options ↔
      ∃ listed, mergeRun run = .ok [.step (.enum listed)] ∧
        literalOptions listed = .ok options := by
  obtain ⟨nonempty, kinds⟩ := uniform
  obtain ⟨⟨kind, first⟩, others, rfl⟩ := List.exists_cons_of_ne_nil nonempty
  obtain ⟨rfl, known⟩ := kinds _ List.mem_cons_self
  cases others with
  | nil =>
      obtain ⟨listed, rfl⟩ := Schema.eq_enum_of_kind known
      simp [mergeRun, allOptions_eq_ok, Schema.enumOptions, List.forall₂_cons_left_iff]
  | cons second others =>
      simp only [mergeRun, bind_eq_ok]
      constructor
      · intro gathered
        exact ⟨_, ⟨options, gathered, rfl⟩, literalOptions_list (isLiteral_of_allOptions gathered)⟩
      · intro found
        obtain ⟨listed, ⟨found, gathered, same⟩, literal⟩ := found
        cases same
        rw [literalOptions_list (isLiteral_of_allOptions gathered)] at literal
        cases literal
        exact gathered

theorem mergeRun_cons_iff {kind : Kind} {pair : Kind × Schema} {run : List (Kind × Schema)}
    {own : List Schema} (uniform : Uniform kind (pair :: run)) (several : run ≠ [])
    (merges : kind = .object ∨ kind = .enum) :
    mergeRun (pair :: run) = .ok own ↔
      ∃ head whole, mergeRun run = .ok [head] ∧ Joined pair.2 head whole ∧ own = [whole] := by
  have tail := uniform_tail uniform several
  obtain ⟨kindOf, known⟩ := uniform.2 pair List.mem_cons_self
  obtain rfl | rfl := merges
  · obtain ⟨fields, object⟩ := Schema.eq_object_of_kind known
    simp only [mergeRun_of_objects uniform, mergeRun_of_objects tail, List.map_cons,
      List.flatMap_cons, object, Schema.objectFields, Except.ok.injEq]
    constructor
    · intro same
      subst same
      exact ⟨_, _, rfl, .objects fields _, rfl⟩
    · intro found
      obtain ⟨_, _, merged, joined, rfl⟩ := found
      cases merged
      cases joined with
      | objects => rfl
  · obtain ⟨options, enum⟩ := Schema.eq_enum_of_kind known
    have gathered : mergeRun (pair :: run) = .ok own ↔
        ∃ items, allOptions (pair.2 :: run.map (·.2)) = .ok items ∧
          own = [.step (.enum (.list items))] := by
      obtain ⟨second, others, rfl⟩ := List.exists_cons_of_ne_nil several
      obtain ⟨kind, step⟩ := pair
      cases kindOf
      simp only [mergeRun, bind_eq_ok, List.map_cons, pure, Except.pure, Except.ok.injEq,
        @eq_comm _ own]
    simp only [gathered, allOptions_cons, allOptions_of_enums tail, enum, Schema.enumOptions]
    constructor
    · intro found
      obtain ⟨_, ⟨items, more, first, ⟨listed, merged, second⟩, rfl⟩, rfl⟩ := found
      exact ⟨_, _, merged, .enums first second, rfl⟩
    · intro found
      obtain ⟨_, _, merged, joined, rfl⟩ := found
      cases joined with
      | enums first second => exact ⟨_, ⟨_, _, first, ⟨_, merged, second⟩, rfl⟩, rfl⟩

theorem merge_cons_of_joins (joins : step.JoinsWith next) :
    merge (step :: next :: rest) = .ok merged ↔
      ∃ head tail whole, merge (next :: rest) = .ok (head :: tail) ∧ Joined step head whole ∧
        merged = whole :: tail := by
  obtain ⟨kind, known, knownNext, merges⟩ := Schema.kinds_of_joinsWith joins
  cases classified : classify rest with
  | error fault => simp [merge, classify, known, knownNext, classified, bind, Except.bind]
  | ok others =>
      have own : merge (next :: rest) = mergeRuns (runs sameKind ((kind, next) :: others)) := by
        simp [merge, classify, knownNext, classified, bind, Except.bind, pure, Except.pure]
      have all : merge (step :: next :: rest) =
          mergeRuns (runs sameKind ((kind, step) :: (kind, next) :: others)) := by
        simp [merge, classify, known, knownNext, classified, bind, Except.bind, pure, Except.pure]
      obtain ⟨run, later, shape⟩ := exists_runs_cons sameKind (kind, next) others
      have same : sameKind (kind, step) (kind, next) = true := beq_self_eq_true kind
      have tail : Uniform kind ((kind, next) :: run) := by
        have knownAll : classify (next :: rest) = .ok ((kind, next) :: others) := by
          simp [classify, knownNext, classified, bind, Except.bind, pure, Except.pure]
        obtain ⟨found, alike⟩ := uniform_of_classify knownAll _ (shape ▸ List.mem_cons_self)
        obtain rfl := (alike.2 _ List.mem_cons_self).1
        exact alike
      have uniform : Uniform kind ((kind, step) :: (kind, next) :: run) :=
        ⟨List.cons_ne_nil _ _, List.forall_mem_cons.mpr ⟨⟨rfl, known⟩, tail.2⟩⟩
      rw [own, all, runs_cons_cons, if_pos same, shape, List.modifyHead_cons]
      simp only [mergeRuns_cons, mergeRun_cons_iff uniform (List.cons_ne_nil _ _) merges]
      constructor
      · intro found
        obtain ⟨_, tail, ⟨head, whole, merging, joined, rfl⟩, others, rfl⟩ := found
        exact ⟨head, tail, whole, ⟨[head], tail, merging, others, rfl⟩, joined, rfl⟩
      · intro found
        obtain ⟨head, after, whole, ⟨own, more, merging, others, same⟩, joined, rfl⟩ := found
        obtain ⟨one, rfl⟩ | ⟨_, plain⟩ := single_or_plain_of_mergeRun tail merging
        · cases same
          exact ⟨[whole], _, ⟨head, whole, merging, joined, rfl⟩, others, rfl⟩
        · exact absurd merges plain

theorem merge_cons_of_apart (apart : ∀ next ∈ rest.head?, ¬step.JoinsWith next) :
    merge (step :: rest) = .ok merged ↔
      (∃ kind, step.kind = .ok kind) ∧ ∃ later, merge rest = .ok later ∧
        merged = step :: later := by
  have cut : merge ([step] ++ rest) = .ok merged ↔
      ∃ left right, merge [step] = .ok left ∧ merge rest = .ok right ∧ merged = left ++ right := by
    apply merge_append_eq_ok
    intro last opening
    cases opening
    exact apart
  rw [← List.singleton_append, cut]
  constructor
  · intro found
    obtain ⟨left, later, alone, others, rfl⟩ := found
    obtain rfl := eq_singleton_of_merge alone
    obtain ⟨classified, _, known, _⟩ := merge_eq_ok.mp alone
    exact ⟨exists_classify_iff.mp ⟨classified, known⟩ _ List.mem_cons_self, later, others, rfl⟩
  · intro found
    obtain ⟨⟨kind, known⟩, later, others, rfl⟩ := found
    exact ⟨[step], later, merge_singleton known, others, rfl⟩

theorem exists_head_of_merge (merging : merge (next :: rest) = .ok merged) :
    ∃ head tail, merged = head :: tail ∧ head.kind = next.kind ∧
      ∀ step : Schema, step.OptionsListed head ↔ step.OptionsListed next := by
  by_cases joins : ∃ second ∈ rest.head?, next.JoinsWith second
  · obtain ⟨second, opening, joins⟩ := joins
    obtain ⟨others, rfl⟩ := List.head?_eq_some_iff.mp opening
    obtain ⟨head, tail, whole, _, joined, rfl⟩ := (merge_cons_of_joins joins).mp merging
    exact ⟨whole, tail, rfl, joined.kind_left, fun step => joined.optionsListed_iff⟩
  · have apart : ∀ second ∈ rest.head?, ¬next.JoinsWith second :=
      fun second opening found => joins ⟨second, opening, found⟩
    obtain ⟨_, later, _, rfl⟩ := (merge_cons_of_apart apart).mp merging
    exact ⟨next, later, rfl, rfl, fun step => Iff.rfl⟩

/-- Merging puts each step in front of the others once they are merged. -/
theorem merge_cons_iff :
    merge (step :: rest) = .ok merged ↔
      (∃ kind, step.kind = .ok kind) ∧ ∃ later, merge rest = .ok later ∧
        Prepended step later merged := by
  cases rest with
  | nil =>
      have nothing : merge [] = .ok [] := rfl
      rw [merge_cons_of_apart (by simp)]
      simp [nothing, Prepended.nil_iff]
  | cons next rest =>
      by_cases joins : step.JoinsWith next
      · obtain ⟨kind, known, _⟩ := Schema.kinds_of_joinsWith joins
        rw [merge_cons_of_joins joins]
        constructor
        · intro found
          obtain ⟨head, tail, whole, merging, joined, rfl⟩ := found
          exact ⟨⟨kind, known⟩, _, merging, .joined joined⟩
        · intro found
          obtain ⟨_, later, merging, prepended⟩ := found
          obtain ⟨head, tail, rfl, alike, _⟩ := exists_head_of_merge merging
          rw [Prepended.joins_iff ((Schema.joinsWith_congr_right alike).mpr joins)] at prepended
          obtain ⟨whole, joined, rfl⟩ := prepended
          exact ⟨head, tail, whole, merging, joined, rfl⟩
      · rw [merge_cons_of_apart (by simpa using joins)]
        refine and_congr_right fun _ => exists_congr fun later => and_congr_right fun merging => ?_
        obtain ⟨head, tail, rfl, alike, _⟩ := exists_head_of_merge merging
        exact (Prepended.apart_iff
          (fun found => joins ((Schema.joinsWith_congr_right alike).mp found))).symm

theorem exists_merge_iff {steps : List Schema} :
    (∃ merged, merge steps = .ok merged) ↔
      (∀ step ∈ steps, ∃ kind, step.kind = .ok kind) ∧ List.IsChain Schema.OptionsListed steps := by
  induction steps with
  | nil => exact ⟨fun _ => ⟨List.forall_mem_nil _, .nil⟩, fun _ => ⟨[], rfl⟩⟩
  | cons step rest ih =>
      cases rest with
      | nil =>
          have nothing : merge [] = .ok [] := rfl
          simp [merge_cons_iff, nothing, Prepended.nil_iff]
      | cons next rest =>
          rw [List.forall_mem_cons, List.isChain_cons_cons]
          calc (∃ merged, merge (step :: next :: rest) = .ok merged)
              ↔ (∃ kind, step.kind = .ok kind) ∧
                  ∃ later, merge (next :: rest) = .ok later ∧ step.OptionsListed next := by
                constructor
                · intro found
                  obtain ⟨merged, merging⟩ := found
                  obtain ⟨known, later, others, prepended⟩ := merge_cons_iff.mp merging
                  obtain ⟨head, tail, rfl, _, listed⟩ := exists_head_of_merge others
                  exact ⟨known, _, others,
                    (listed step).mp (Prepended.exists_iff.mp ⟨_, prepended⟩)⟩
                · intro found
                  obtain ⟨known, later, others, follows⟩ := found
                  obtain ⟨head, tail, rfl, _, listed⟩ := exists_head_of_merge others
                  obtain ⟨merged, prepended⟩ := Prepended.exists_iff.mpr ((listed step).mpr follows)
                  exact ⟨merged, merge_cons_iff.mpr ⟨known, _, others, prepended⟩⟩
            _ ↔ _ := by
                rw [exists_and_right, ih]
                tauto

theorem merge_joined_iff (joins : step.JoinsWith next) :
    merge (step :: next :: rest) = .ok merged ↔
      ∃ whole, Joined step next whole ∧ merge (whole :: rest) = .ok merged := by
  obtain ⟨kind, known, knownNext, _⟩ := Schema.kinds_of_joinsWith joins
  calc merge (step :: next :: rest) = .ok merged
      ↔ ∃ later, merge rest = .ok later ∧
          ∃ middle, Prepended next later middle ∧ Prepended step middle merged := by
        simp only [merge_cons_iff]
        constructor
        · intro found
          obtain ⟨_, middle, ⟨_, later, others, inner⟩, outer⟩ := found
          exact ⟨later, others, middle, inner, outer⟩
        · intro found
          obtain ⟨later, others, middle, inner, outer⟩ := found
          exact ⟨⟨kind, known⟩, middle, ⟨⟨kind, knownNext⟩, later, others, inner⟩, outer⟩
    _ ↔ ∃ later, merge rest = .ok later ∧
          ∃ whole, Joined step next whole ∧ Prepended whole later merged := by
        simp only [Prepended.twice_iff joins]
    _ ↔ ∃ whole, Joined step next whole ∧ merge (whole :: rest) = .ok merged := by
        simp only [merge_cons_iff]
        constructor
        · intro found
          obtain ⟨later, others, whole, joined, prepended⟩ := found
          exact ⟨whole, joined, ⟨kind, joined.kind_left.trans known⟩, later, others, prepended⟩
        · intro found
          obtain ⟨whole, joined, _, later, others, prepended⟩ := found
          exact ⟨later, others, whole, joined, prepended⟩

theorem merge_of_apart {steps : List Schema} (kinds : ∀ step ∈ steps, ∃ kind, step.kind = .ok kind)
    (apart : List.IsChain (fun left right => ¬Schema.JoinsWith left right) steps) :
    merge steps = .ok steps := by
  induction steps with
  | nil => rfl
  | cons step rest ih =>
      obtain ⟨known, others⟩ := List.forall_mem_cons.mp kinds
      refine (merge_cons_of_apart ?_).mpr ⟨known, rest, ih others apart.tail, rfl⟩
      intro next opening
      exact (List.isChain_cons.mp apart).1 next opening

theorem merge_merged {steps : List Schema} (merging : merge steps = .ok merged) :
    merge merged = .ok merged :=
  merge_of_apart (kind_of_mem_merge merging) (isChain_apart_of_merge merging)

theorem merge_cons_append_iff {left back : List Schema} :
    merge (step :: (left ++ back)) = .ok merged ↔
      (∃ kind, step.kind = .ok kind) ∧
        ∃ front, Prepended step left front ∧ merge (front ++ back) = .ok merged := by
  have known : merge (step :: (left ++ back)) = .ok merged → ∃ kind, step.kind = .ok kind :=
    fun merging => (merge_cons_iff.mp merging).1
  cases left with
  | nil =>
      simp only [Prepended.nil_iff, exists_eq_left, List.nil_append, List.singleton_append]
      exact ⟨fun merging => ⟨known merging, merging⟩, fun merging => merging.2⟩
  | cons next rest =>
      by_cases joins : step.JoinsWith next
      · simp only [Prepended.joins_iff joins]
        constructor
        · intro merging
          obtain ⟨whole, joined, later⟩ := (merge_joined_iff joins).mp merging
          exact ⟨known merging, _, ⟨whole, joined, rfl⟩, later⟩
        · intro found
          obtain ⟨_, _, ⟨whole, joined, rfl⟩, later⟩ := found
          exact (merge_joined_iff joins).mpr ⟨whole, joined, later⟩
      · simp only [Prepended.apart_iff joins, exists_eq_left, List.cons_append]
        exact ⟨fun merging => ⟨known merging, merging⟩, fun merging => merging.2⟩

/-- Two parts of a chain may be merged before the whole is, wherever it is cut. -/
theorem merge_append_iff {front back : List Schema} :
    merge (front ++ back) = .ok merged ↔
      ∃ left right, merge front = .ok left ∧ merge back = .ok right ∧
        merge (left ++ right) = .ok merged := by
  induction front generalizing merged with
  | nil =>
      have nothing : merge [] = .ok [] := rfl
      simp only [nothing, Except.ok.injEq, exists_eq_left', exists_and_left, List.nil_append]
      constructor
      · intro merging
        exact ⟨merged, merging, merge_merged merging⟩
      · intro found
        obtain ⟨right, merging, again⟩ := found
        rwa [← (merge_merged merging).symm.trans again]
  | cons step rest ih =>
      calc merge (step :: (rest ++ back)) = .ok merged
          ↔ ∃ left right, merge rest = .ok left ∧ merge back = .ok right ∧
              merge (step :: (left ++ right)) = .ok merged := by
            simp only [merge_cons_iff, ih]
            constructor
            · intro found
              obtain ⟨known, whole, ⟨left, right, first, second, both⟩, prepended⟩ := found
              exact ⟨left, right, first, second, known, whole, both, prepended⟩
            · intro found
              obtain ⟨left, right, first, second, known, whole, both, prepended⟩ := found
              exact ⟨known, whole, ⟨left, right, first, second, both⟩, prepended⟩
        _ ↔ ∃ left right, merge (step :: rest) = .ok left ∧ merge back = .ok right ∧
              merge (left ++ right) = .ok merged := by
            simp only [merge_cons_append_iff]
            simp only [merge_cons_iff]
            constructor
            · intro found
              obtain ⟨later, right, others, second, known, left, prepended, both⟩ := found
              exact ⟨left, right, ⟨known, later, others, prepended⟩, second, both⟩
            · intro found
              obtain ⟨left, right, ⟨known, later, others, prepended⟩, second, both⟩ := found
              exact ⟨later, right, others, second, known, left, prepended, both⟩

end Chain

end SchemaCheck
