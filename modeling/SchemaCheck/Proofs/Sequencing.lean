import Mathlib
import SchemaCheck.Proofs.Merging

/-!
Chains in sequence. A chain may be cut anywhere but between two objects or two enums: its parts
merge apart from each other, and its check is that of the first part followed by that of the second.
After an optional step the cut is always possible.

All of Mathlib is imported for the equations by which runs on closed chains are evaluated.
-/

namespace SchemaCheck

namespace Schema

/-- Two objects, or two enums, which next to each other in a chain become one step. -/
def JoinsWith : Schema → Schema → Prop
  | .step (.object _), .step (.object _) => True
  | .step (.enum _), .step (.enum _) => True
  | _, _ => False

theorem joinsWith_of_kind {left right : Schema} {kind : Kind} (first : left.kind = .ok kind)
    (second : right.kind = .ok kind) (merged : kind = .object ∨ kind = .enum) :
    JoinsWith left right := by
  rcases merged with rfl | rfl
  · rcases eq_object_of_kind first with ⟨fields, rfl⟩
    rcases eq_object_of_kind second with ⟨others, rfl⟩
    trivial
  · rcases eq_enum_of_kind first with ⟨options, rfl⟩
    rcases eq_enum_of_kind second with ⟨others, rfl⟩
    trivial

theorem refinement_eq_none_of_kind {step : Schema} {kind : Kind} (known : step.kind = .ok kind)
    (composite : ∀ basic, kind ≠ .basic basic) : step.refinement? = none := by
  cases step with
  | str name =>
      rw [Schema.kind] at known
      cases named : BasicKind.ofName? name with
      | none => simp [named] at known
      | some basic =>
          simp only [named, Except.ok.injEq] at known
          exact absurd known.symm (composite basic)
  | _ => rfl

end Schema

namespace Chain

theorem classify_append_eq_ok {front back : List Schema} {classified : List (Kind × Schema)} :
    classify (front ++ back) = .ok classified ↔
      ∃ left right, classify front = .ok left ∧ classify back = .ok right ∧
        classified = left ++ right := by
  simp only [classify_eq_ok]
  constructor
  · intro found
    rcases found with ⟨steps, kinds⟩
    rcases List.map_eq_append_iff.mp steps with ⟨left, right, rfl, leftSteps, rightSteps⟩
    rcases List.forall_mem_append.mp kinds with ⟨leftKinds, rightKinds⟩
    exact ⟨left, right, ⟨leftSteps, leftKinds⟩, ⟨rightSteps, rightKinds⟩, rfl⟩
  · intro found
    rcases found with ⟨left, right, ⟨leftSteps, leftKinds⟩, ⟨rightSteps, rightKinds⟩, rfl⟩
    exact ⟨by rw [List.map_append, leftSteps, rightSteps],
      List.forall_mem_append.mpr ⟨leftKinds, rightKinds⟩⟩

theorem mergeRuns_append (front back : List (List (Kind × Schema))) :
    mergeRuns (front ++ back) = do
      let left ← mergeRuns front
      let right ← mergeRuns back
      return left ++ right := by
  induction front with
  | nil =>
      change mergeRuns back = mergeRuns back >>= fun right => Except.ok ([] ++ right)
      cases mergeRuns back <;> rfl
  | cons run rest ih =>
      rw [List.cons_append, mergeRuns, mergeRuns, ih]
      cases mergeRun run with
      | error fault => rfl
      | ok own =>
          cases mergeRuns rest with
          | error fault => rfl
          | ok later =>
              cases mergeRuns back with
              | error fault => rfl
              | ok right => exact congrArg Except.ok (List.append_assoc own later right).symm

theorem mergeRun_of_plain {run : List (Kind × Schema)}
    (plain : ∀ pair ∈ run, pair.1 ≠ .object ∧ pair.1 ≠ .enum) :
    mergeRun run = .ok (run.map (·.2)) := by
  unfold mergeRun
  dsimp only
  split
  · exact absurd rfl (plain _ List.mem_cons_self).1
  · exact absurd rfl (plain _ List.mem_cons_self).2
  · rfl

theorem mergeRuns_cut {before after : List (List (Kind × Schema))} {run next : List (Kind × Schema)}
    (plain : ∀ pair ∈ run ++ next, pair.1 ≠ .object ∧ pair.1 ≠ .enum) :
    mergeRuns (before ++ (run ++ next) :: after) =
      mergeRuns ((before ++ [run]) ++ next :: after) := by
  rcases List.forall_mem_append.mp plain with ⟨left, right⟩
  have whole := mergeRun_of_plain plain
  have first := mergeRun_of_plain left
  have second := mergeRun_of_plain right
  rw [List.append_assoc, List.singleton_append, mergeRuns_append, mergeRuns_append before]
  congr 1
  funext steps
  simp only [mergeRuns, whole, first, second]
  cases mergeRuns after with
  | error fault => rfl
  | ok later => simp [bind, Except.bind, pure, Except.pure]

/-- Classified lists merge side by side, unless a run that is merged goes on from the one to the
other. -/
theorem mergeRuns_runs_append {left right : List (Kind × Schema)}
    (kinds : ∀ pair ∈ left ++ right, pair.2.kind = .ok pair.1)
    (apart : ∀ last ∈ left.getLast?, ∀ first ∈ right.head?,
      last.1 = first.1 → last.1 ≠ .object ∧ last.1 ≠ .enum) :
    mergeRuns (runs sameKind (left ++ right)) =
      mergeRuns (runs sameKind left ++ runs sameKind right) := by
  by_cases related : ∃ last ∈ left.getLast?, ∃ first ∈ right.head?, sameKind last first = true
  · rcases related with ⟨last, ending, first, opening, related⟩
    rcases runs_append_of_related sameKind ending opening related with
      ⟨before, run, next, after, leftRuns, rightRuns, wholeRuns⟩
    have inside : last ∈ run := by
      have nonempty : run ≠ [] := by
        apply ne_nil_of_mem_runs sameKind left
        rw [leftRuns]
        exact List.mem_append_right before List.mem_cons_self
      have whole := runs_flatten sameKind left
      rw [leftRuns, List.flatten_append, List.flatten_singleton] at whole
      rw [← whole, List.getLast?_append_of_ne_nil _ nonempty] at ending
      exact List.mem_of_mem_getLast? ending
    have member : run ++ next ∈ runs sameKind (left ++ right) := by
      rw [wholeRuns]
      exact List.mem_append_right before List.mem_cons_self
    rcases uniform_of_mem_runs kinds member with ⟨kind, _, uniform⟩
    -- The run that the cut goes through is all of one kind, which is that of the two steps at the
    -- cut.
    have plain := apart last ending first opening (beq_iff_eq.mp related)
    rw [(uniform last (List.mem_append_left next inside)).1] at plain
    rw [wholeRuns, leftRuns, rightRuns]
    apply mergeRuns_cut
    intro pair present
    rw [(uniform pair present).1]
    exact plain
  · have unrelated :
      ∀ last ∈ left.getLast?, ∀ first ∈ right.head?, sameKind last first = false := by
      intro last ending first opening
      rw [← Bool.not_eq_true]
      intro same
      exact related ⟨last, ending, first, opening, same⟩
    rw [runs_append_of_unrelated sameKind unrelated]

/-- A chain merges as its two parts do, unless the last step of the one and the first step of the
other become one. -/
theorem merge_append_eq_ok {front back merged : List Schema}
    (apart : ∀ last ∈ front.getLast?, ∀ first ∈ back.head?, ¬last.JoinsWith first) :
    merge (front ++ back) = .ok merged ↔
      ∃ left right, merge front = .ok left ∧ merge back = .ok right ∧ merged = left ++ right := by
  have together : ∀ left right, classify front = .ok left → classify back = .ok right →
      mergeRuns (runs sameKind (left ++ right)) =
        mergeRuns (runs sameKind left ++ runs sameKind right) := by
    intro left right first second
    rcases classify_eq_ok.mp first with ⟨rfl, leftKinds⟩
    rcases classify_eq_ok.mp second with ⟨rfl, rightKinds⟩
    apply mergeRuns_runs_append (List.forall_mem_append.mpr ⟨leftKinds, rightKinds⟩)
    intro last ending first opening same
    have lastKind := leftKinds last (List.mem_of_mem_getLast? ending)
    have firstKind := rightKinds first (List.mem_of_mem_head? opening)
    have separate : ¬last.2.JoinsWith first.2 := by
      apply apart
      · rw [List.getLast?_map]
        exact Option.mem_map_of_mem _ ending
      · rw [List.head?_map]
        exact Option.mem_map_of_mem _ opening
    rw [← same] at firstKind
    constructor
    · intro object
      exact separate (Schema.joinsWith_of_kind lastKind firstKind (.inl object))
    · intro enum
      exact separate (Schema.joinsWith_of_kind lastKind firstKind (.inr enum))
  simp only [merge, bind_eq_ok, classify_append_eq_ok]
  constructor
  · intro found
    rcases found with ⟨_, ⟨left, right, first, second, rfl⟩, merging⟩
    rw [together left right first second, mergeRuns_append] at merging
    rcases bind_eq_ok.mp merging with ⟨leftSteps, leftMerging, merging⟩
    rcases bind_eq_ok.mp merging with ⟨rightSteps, rightMerging, merging⟩
    cases merging
    exact ⟨leftSteps, rightSteps, ⟨left, first, leftMerging⟩, ⟨right, second, rightMerging⟩, rfl⟩
  · intro found
    rcases found with
      ⟨leftSteps, rightSteps, ⟨left, first, leftMerging⟩, ⟨right, second, rightMerging⟩, rfl⟩
    refine ⟨left ++ right, ⟨left, right, first, second, rfl⟩, ?_⟩
    rw [together left right first second, mergeRuns_append, leftMerging, rightMerging]
    rfl

theorem merge_singleton {step : Schema} {kind : Kind} (known : step.kind = .ok kind) :
    merge [step] = .ok [step] := by
  have classified : classify [step] = .ok [(kind, step)] := by
    rw [classify, known]
    rfl
  rw [merge, classified]
  cases kind <;> rfl

theorem eq_singleton_of_merge {step : Schema} {merged : List Schema}
    (merging : merge [step] = .ok merged) :
    merged = [step] := by
  rcases merge_eq_ok.mp merging with ⟨classified, _, known, _⟩
  rcases exists_classify_iff.mp ⟨classified, known⟩ step List.mem_cons_self with ⟨kind, own⟩
  exact Except.ok.inj (merging.symm.trans (merge_singleton own))

/-- Arranging steps of known kinds is merging them; for a single step that changes nothing. -/
theorem arrange_eq_ok_iff_merge {first : Schema} {rest arranged : List Schema}
    (kinds : ∀ step ∈ first :: rest, ∃ kind, step.kind = .ok kind) :
    arrange (first :: rest) = .ok arranged ↔
      first.refinement? = none ∧ List.IsChain Schema.MayFollow (first :: rest) ∧
        merge (first :: rest) = .ok arranged := by
  rw [arrange_eq_ok]
  by_cases single : rest = []
  · subst single
    rcases kinds first List.mem_cons_self with ⟨kind, known⟩
    simp only [merge_singleton known, if_true, Except.ok.injEq, @eq_comm _ [first]]
  · simp only [if_neg single]

end Chain

theorem Check.chain_append (front back : List Check) (value : Value) :
    Check.chain (front ++ back) value = Check.chain front value >>= Check.chain back := by
  induction front generalizing value with
  | nil => rfl
  | cons check rest ih =>
      rw [List.cons_append]
      simp only [Check.chain]
      cases check value with
      | error issues => rfl
      | ok between => exact ih between

section Compiled

variable {calls : Calls} {path : Path}

theorem checkOfSteps_eq_ok {steps : List Schema} {check : Check} :
    checkOfSteps calls steps path = .ok check ↔
      ∃ arranged checks, Chain.arrange steps = .ok arranged ∧
        List.Forall₂ (fun step check => checkOfStep calls step path = .ok check) arranged checks ∧
          Check.chain checks = check := by
  cases arranging : Chain.arrange steps with
  | error fault =>
      rw [checkOfSteps_of_fault calls path arranging]
      simp
  | ok arranged =>
      rw [checkOfSteps_of_arranged calls path arranging, map_eq_ok]
      simp only [checksOfSteps_eq_ok, Except.ok.injEq]
      constructor
      · intro found
        rcases found with ⟨checks, compiled, same⟩
        exact ⟨arranged, checks, rfl, compiled, same⟩
      · intro found
        rcases found with ⟨_, checks, rfl, compiled, same⟩
        exact ⟨checks, compiled, same⟩

theorem kinds_of_arrange {first : Schema} {rest arranged : List Schema} (several : rest ≠ [])
    (success : Chain.arrange (first :: rest) = .ok arranged) :
    ∀ step ∈ first :: rest, ∃ kind, step.kind = .ok kind := by
  have merging := (Chain.arrange_eq_ok.mp success).2.2
  rw [if_neg several] at merging
  rcases Chain.merge_eq_ok.mp merging with ⟨classified, _, known, _⟩
  exact Chain.exists_classify_iff.mp ⟨classified, known⟩

/-- A chain does what its two parts do one after the other, wherever it is cut but between two
steps that become one. -/
theorem chain_is_sequential {front back : List Schema} {whole first second : Check}
    (compiled : checkOfSteps calls (front ++ back) path = .ok whole)
    (left : checkOfSteps calls front path = .ok first)
    (right : checkOfSteps calls back path = .ok second)
    (apart : ∀ last ∈ front.getLast?, ∀ next ∈ back.head?, ¬last.JoinsWith next)
    (value : Value) :
    whole value =
      match first value with
      | .ok between => second between
      | .error issues => .error issues := by
  rcases checkOfSteps_eq_ok.mp compiled with ⟨steps, checks, arranging, matched, rfl⟩
  rcases checkOfSteps_eq_ok.mp left with ⟨leftSteps, leftChecks, leftArranging, leftMatched, rfl⟩
  rcases checkOfSteps_eq_ok.mp right with
    ⟨rightSteps, rightChecks, rightArranging, rightMatched, rfl⟩
  have sameSteps : steps = leftSteps ++ rightSteps := by
    -- No chain is empty; one step alone is not merged, but merging would leave it as it is.
    cases front with
    | nil => cases leftArranging
    | cons start rest =>
        cases back with
        | nil => cases rightArranging
        | cons next others =>
            have several : rest ++ next :: others ≠ [] := by simp
            have kinds : ∀ step ∈ (start :: rest) ++ next :: others, ∃ kind, step.kind = .ok kind :=
              kinds_of_arrange several arranging
            rcases List.forall_mem_append.mp kinds with ⟨leftKinds, rightKinds⟩
            have whole := ((Chain.arrange_eq_ok_iff_merge kinds).mp arranging).2.2
            have left := ((Chain.arrange_eq_ok_iff_merge leftKinds).mp leftArranging).2.2
            have right := ((Chain.arrange_eq_ok_iff_merge rightKinds).mp rightArranging).2.2
            have merged := (Chain.merge_append_eq_ok apart).mpr ⟨_, _, left, right, rfl⟩
            exact Except.ok.inj (whole.symm.trans merged)
  subst sameSteps
  have sameChecks : checks = leftChecks ++ rightChecks := by
    have joined := checksOfSteps_eq_ok.mpr (List.rel_append leftMatched rightMatched)
    exact Except.ok.inj ((checksOfSteps_eq_ok.mpr matched).symm.trans joined)
  calc Check.chain checks value
      = Check.chain leftChecks value >>= Check.chain rightChecks := by
        rw [sameChecks, Check.chain_append]
    _ = _ := by cases Check.chain leftChecks value <;> rfl

end Compiled

def objectsThenPredicate : List Schema :=
  [.step (.object [("a", .str "number")]), .step (.object [("b", .str "string")]),
    .step (.predicate ⟨"large", 0⟩ "too small" none)]

def predicateThenObject : List Schema :=
  [.step (.predicate ⟨"new", 1⟩ "too old" none),
    .step (.object [("a", .list [.str "number", .str "integer"]), ("b", .str "string")])]

theorem cut_between_predicates_is_sequential :
    ∃ whole first second,
      checkOfSteps (fun _ _ => .value (.bool true))
        (objectsThenPredicate ++ predicateThenObject) [] =
        .ok whole ∧
      checkOfSteps (fun _ _ => .value (.bool true)) objectsThenPredicate [] = .ok first ∧
      checkOfSteps (fun _ _ => .value (.bool true)) predicateThenObject [] = .ok second ∧
      ∀ value, whole value =
        match first value with
        | .ok between => second between
        | .error issues => .error issues := by
  have compiled : ∀ steps, (checkOfSteps (fun _ _ => .value (.bool true)) steps []).isOk = true →
      ∃ check, checkOfSteps (fun _ _ => .value (.bool true)) steps [] = .ok check :=
    fun _ => exists_ok_of_isOk
  rcases compiled (objectsThenPredicate ++ predicateThenObject) (by cbv) with ⟨whole, compiledWhole⟩
  rcases compiled objectsThenPredicate (by cbv) with ⟨first, left⟩
  rcases compiled predicateThenObject (by cbv) with ⟨second, right⟩
  refine ⟨whole, first, second, compiledWhole, left, right, ?_⟩
  apply chain_is_sequential compiledWhole left right
  rintro _ ⟨⟩ _ ⟨⟩ joins
  exact joins

section Optional

variable {calls : Calls} {path : Path}

theorem checkOfStep_optional_eq_ok {inner : Schema} {fallback : Value} {check : Check} :
    checkOfStep calls (.step (.optional inner fallback)) path = .ok check ↔
      ∃ own default, compile calls inner path = .ok own ∧ own fallback = .ok default ∧
        Check.optional default own = check := by
  simp only [checkOfStep_optional, bind_eq_ok, map_eq_ok, acceptedFallback_eq_ok]
  constructor
  · intro found
    rcases found with ⟨own, compiled, default, accepted, made⟩
    exact ⟨own, default, compiled, accepted, made⟩
  · intro found
    rcases found with ⟨own, default, compiled, accepted, made⟩
    exact ⟨own, compiled, default, accepted, made⟩

/-- An optional step merges with nothing, and the steps after it are a chain of their own, since
only predicates and functions follow it. -/
theorem arrange_optional_then {inner : Schema} {fallback : Value} {rest arranged : List Schema}
    (success : Chain.arrange (.step (.optional inner fallback) :: rest) = .ok arranged) :
    ∃ later, arranged = .step (.optional inner fallback) :: later ∧
      (rest = [] ∧ later = [] ∨ Chain.arrange rest = .ok later) := by
  cases rest with
  | nil =>
      have alone := (Chain.arrange_eq_ok.mp success).2.2
      rw [if_pos rfl] at alone
      exact ⟨[], alone, .inl ⟨rfl, rfl⟩⟩
  | cons next others =>
      have kinds := kinds_of_arrange (List.cons_ne_nil next others) success
      rcases (Chain.arrange_eq_ok_iff_merge kinds).mp success with ⟨_, follow, merging⟩
      have apart : ∀ last ∈ [Value.step (.optional inner fallback)].getLast?,
          ∀ first ∈ (next :: others).head?, ¬Schema.JoinsWith last first := by
        rintro _ ⟨⟩ first _ joins
        exact joins
      rcases (Chain.merge_append_eq_ok apart).mp merging with ⟨left, later, alone, rest, rfl⟩
      have known : Schema.kind (.step (.optional inner fallback)) = .ok .optional := rfl
      have single : left = [.step (.optional inner fallback)] :=
        Except.ok.inj (alone.symm.trans (Chain.merge_singleton known))
      subst single
      rcases List.isChain_cons_cons.mp follow with
        ⟨⟨before, after, isOptional, following, admitted⟩, chain⟩
      have plain : next.refinement? = none := by
        apply Schema.refinement_eq_none_of_kind following
        rintro basic rfl
        cases isOptional
        cases admitted
      refine ⟨later, rfl, .inr ?_⟩
      apply (Chain.arrange_eq_ok_iff_merge fun step member =>
        kinds step (List.mem_cons_of_mem _ member)).mpr
      exact ⟨plain, chain, rest⟩

theorem optional_then {inner : Schema} {fallback : Value} {rest : List Schema} {check : Check}
    (compiled : checkOfSteps calls (.step (.optional inner fallback) :: rest) path = .ok check) :
    ∃ own default later, compile calls inner path = .ok own ∧ own fallback = .ok default ∧
      (rest = [] ∧ later = Check.chain [] ∨ checkOfSteps calls rest path = .ok later) ∧
        ∀ value, check value = Check.optional default own value >>= later := by
  rcases checkOfSteps_eq_ok.mp compiled with ⟨steps, checks, arranging, matched, rfl⟩
  rcases arrange_optional_then arranging with ⟨others, rfl, alone⟩
  rcases List.forall₂_cons_left_iff.mp matched with ⟨first, later, head, tail, rfl⟩
  rcases checkOfStep_optional_eq_ok.mp head with ⟨own, default, inside, accepted, rfl⟩
  refine ⟨own, default, Check.chain later, inside, accepted, ?_, fun value => rfl⟩
  rcases alone with ⟨none, rfl⟩ | arranging
  · rw [List.forall₂_nil_left_iff.mp tail]
    exact .inl ⟨none, rfl⟩
  · exact .inr (checkOfSteps_eq_ok.mpr ⟨others, later, arranging, tail, rfl⟩)

end Optional

end SchemaCheck
