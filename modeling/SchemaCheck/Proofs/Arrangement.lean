import SchemaCheck.Proofs.Acceptance
import SchemaCheck.Proofs.Sequencing

/-!
What an arranged chain looks like. Merging leaves no neighbours that could still become one step,
and the kinds that come up are some of those that came up before, in their order. So where functions
and alternatives are left out and predicates come last, one step at most makes a value anew: the
first one, or the one after the test for an array.
-/

namespace SchemaCheck

namespace Kind

/-- A step of this kind may make a value anew, though it calls no function and makes no choice. -/
def rebuilds : Kind → Bool
  | optional => true
  | object => true
  | indexed => true
  | _ => false

theorem mem_all (kind : Kind) : kind ∈ all := by
  cases kind with
  | basic kind => cases kind <;> decide
  | _ => decide

theorem keeps_or_rebuilds {kind : Kind} (plain : kind ∉ [.function, .oneOf]) :
    kind.keeps = true ∨ kind.rebuilds = true := by
  have table : ∀ kind ∈ all, kind ∉ [.function, .oneOf] →
      kind.keeps = true ∨ kind.rebuilds = true := by
    decide
  exact table kind kind.mem_all plain

/-- Apart from objects in a row, steps that make values anew come after predicates, functions and
the test for an array only. -/
theorem keeps_of_admits {earlier later : Kind} (admitted : earlier.admits later = true)
    (narrow : earlier ∉ [.predicate, .function, .basic .array])
    (plain : later ∉ [.function, .oneOf]) (apart : ¬(earlier = .object ∧ later = .object)) :
    later.keeps = true ∧ later ≠ .basic .array := by
  have table : ∀ earlier ∈ all, ∀ later ∈ all, earlier.admits later = true →
      earlier ∉ [.predicate, .function, .basic .array] → later ∉ [.function, .oneOf] →
      ¬(earlier = .object ∧ later = .object) → later.keeps = true ∧ later ≠ .basic .array := by
    decide
  exact table earlier earlier.mem_all later later.mem_all admitted narrow plain apart

theorem indexed_of_admits {later : Kind} (admitted : (basic .array).admits later = true)
    (plain : later ∉ [.function, .oneOf]) :
    later = .indexed ∨ later.keeps = true ∧ later ≠ .basic .array := by
  have table : ∀ later ∈ all, (basic .array).admits later = true → later ∉ [.function, .oneOf] →
      later = .indexed ∨ later.keeps = true ∧ later ≠ .basic .array := by
    decide
  exact table later later.mem_all admitted plain

end Kind

namespace Schema

/-- What comes after a predicate makes no value anew. -/
def InTurn (earlier later : Except Fault Kind) : Prop :=
  earlier = .ok .predicate → ∀ kind, later = .ok kind → kind.rebuilds = false

theorem kinds_of_joinsWith {left right : Schema} (joins : left.JoinsWith right) :
    ∃ kind, left.kind = .ok kind ∧ right.kind = .ok kind ∧ (kind = .object ∨ kind = .enum) := by
  unfold JoinsWith at joins
  split at joins
  · exact ⟨.object, rfl, rfl, .inl rfl⟩
  · exact ⟨.enum, rfl, rfl, .inr rfl⟩
  · cases joins

end Schema

namespace Chain

theorem eq_of_mergeRun {kind : Kind} {run : List (Kind × Schema)} {own : List Schema}
    (uniform : Uniform kind run) (success : mergeRun run = .ok own)
    (plain : ¬(kind = .object ∨ kind = .enum)) : own = run.map (·.2) := by
  have unmerged : mergeRun run = .ok (run.map (·.2)) := by
    apply mergeRun_of_plain
    intro pair member
    rw [(uniform.2 pair member).1]
    exact not_or.mp plain
  exact Except.ok.inj (success.symm.trans unmerged)

theorem mem_or_merged_of_arrange {steps arranged : List Schema}
    (success : arrange steps = .ok arranged) {step : Schema} (member : step ∈ arranged) :
    step ∈ steps ∨ step.kind = .ok .object ∨ step.kind = .ok .enum := by
  rcases steps with _ | ⟨first, rest⟩
  · cases success
  · have merging := (arrange_eq_ok.mp success).2.2
    split at merging
    · rename_i alone
      subst alone merging
      exact .inl member
    · rcases merge_eq_ok.mp merging with ⟨classified, lists, known, matched, rfl⟩
      rcases List.mem_flatten.mp member with ⟨own, listed, inside⟩
      rcases exists_mem_of_forall₂ matched listed with ⟨run, present, merged⟩
      rcases uniform_of_classify known run present with ⟨kind, uniform⟩
      have alike := (mergeRun_uniform uniform merged).2.1 step inside
      by_cases joined : kind = .object ∨ kind = .enum
      · rcases joined with rfl | rfl
        · exact .inr (.inl alike)
        · exact .inr (.inr alike)
      · left
        rw [eq_of_mergeRun uniform merged joined] at inside
        rw [← (classify_eq_ok.mp known).1, ← runs_flatten sameKind classified, List.map_flatten]
        exact List.mem_flatten.mpr ⟨_, List.mem_map_of_mem present, inside⟩

theorem single_or_plain_of_mergeRun {kind : Kind} {run : List (Kind × Schema)} {own : List Schema}
    (uniform : Uniform kind run) (success : mergeRun run = .ok own) :
    (∃ one, own = [one]) ∨ own = run.map (·.2) ∧ ¬(kind = .object ∨ kind = .enum) := by
  by_cases merged : kind = .object ∨ kind = .enum
  · left
    unfold mergeRun at success
    dsimp only at success
    split at success
    · cases success
      exact ⟨_, rfl⟩
    · rcases bind_eq_ok.mp success with ⟨options, _, same⟩
      cases same
      exact ⟨_, rfl⟩
    · rename_i notObjects notEnums
      cases success
      rcases uniform with ⟨nonempty, kinds⟩
      rcases run with _ | ⟨⟨own, step⟩, _ | ⟨next, rest⟩⟩
      · exact absurd rfl nonempty
      · exact ⟨step, rfl⟩
      · have head : own = kind := (kinds _ List.mem_cons_self).1
        subst head
        rcases merged with rfl | rfl
        · exact absurd rfl (notObjects step next rest)
        · exact absurd rfl (notEnums step next rest)
  · exact .inr ⟨eq_of_mergeRun uniform success merged, merged⟩

theorem kinds_sublist_of_merge {steps merged : List Schema} (success : merge steps = .ok merged) :
    (merged.map Schema.kind).Sublist (steps.map Schema.kind) := by
  rcases merge_eq_ok.mp success with ⟨classified, lists, known, matched, rfl⟩
  have uniform := uniform_of_classify known
  rw [← (classify_eq_ok.mp known).1, ← runs_flatten sameKind classified]
  generalize runs sameKind classified = groups at matched uniform
  clear known success
  induction matched with
  | nil => exact .refl _
  | @cons run own groups lists first _ ih =>
      rcases List.forall_mem_cons.mp uniform with ⟨⟨kind, alike⟩, others⟩
      have kept : (own.map Schema.kind).Sublist ((run.map (·.2)).map Schema.kind) := by
        rcases single_or_plain_of_mergeRun alike first with ⟨one, rfl⟩ | ⟨rfl, _⟩
        · rcases List.exists_mem_of_ne_nil run alike.1 with ⟨pair, member⟩
          have same : one.kind = pair.2.kind :=
            ((mergeRun_uniform alike first).2.1 one List.mem_cons_self).trans
              (alike.2 pair member).2.symm
          apply List.singleton_sublist.mpr
          rw [same]
          exact List.mem_map_of_mem (List.mem_map_of_mem member)
        · exact .refl _
      rw [List.flatten_cons, List.flatten_cons, List.map_append, List.map_append, List.map_append]
      exact kept.append (ih others)

theorem isChain_apart_of_merge {steps merged : List Schema} (success : merge steps = .ok merged) :
    List.IsChain (fun left right => ¬Schema.JoinsWith left right) merged := by
  rcases merge_eq_ok.mp success with ⟨classified, lists, known, matched, rfl⟩
  have uniform := uniform_of_classify known
  have between := isChain_runs sameKind classified
  generalize runs sameKind classified = groups at matched uniform between
  clear known success
  induction matched with
  | nil => exact .nil
  | @cons run own groups lists first rest ih =>
      rcases List.forall_mem_cons.mp uniform with ⟨⟨kind, alike⟩, others⟩
      rcases mergeRun_uniform alike first with ⟨_, kinds, _⟩
      have inside : List.IsChain (fun left right => ¬Schema.JoinsWith left right) own := by
        rcases single_or_plain_of_mergeRun alike first with ⟨one, rfl⟩ | ⟨_, plain⟩
        · exact .singleton one
        · apply List.Pairwise.isChain
          refine List.pairwise_of_forall_mem_list ?_
          intro left member right _ joins
          rcases Schema.kinds_of_joinsWith joins with ⟨found, leftKind, _, merged⟩
          rw [kinds left member] at leftKind
          cases leftKind
          exact plain merged
      refine inside.append (ih others between.tail) ?_
      -- The next run is of another kind, and so is what it became.
      intro last ending next opening joins
      cases rest with
      | nil => cases opening
      | @cons following later _ _ second _ =>
          rcases others following List.mem_cons_self with ⟨other, alikeNext⟩
          rcases mergeRun_uniform alikeNext second with ⟨nonempty, kindsNext, _⟩
          rw [List.flatten_cons, List.head?_append_of_ne_nil _ nonempty] at opening
          rcases Schema.kinds_of_joinsWith joins with ⟨found, lastKind, nextKind, _⟩
          rw [kinds last (List.mem_of_mem_getLast? ending)] at lastKind
          rw [kindsNext next (List.mem_of_mem_head? opening)] at nextKind
          cases lastKind
          cases nextKind
          have apart := (List.isChain_cons_cons.mp between).1
            _ (List.getLast?_eq_some_getLast alike.1) _ (List.head?_eq_some_head alikeNext.1)
          rw [sameKind, (alike.2 _ (List.getLast_mem alike.1)).1,
            (alikeNext.2 _ (List.head_mem alikeNext.1)).1, beq_self_eq_true] at apart
          cases apart

/-- Steps of which one at most makes a value anew, but for the test for an array before it. -/
structure Tidy (steps : List Schema) : Prop where
  plain : ∀ step ∈ steps, ∃ kind, step.kind = .ok kind ∧ kind ∉ [.function, .oneOf]
  follow : List.IsChain Schema.MayFollow steps
  apart : List.IsChain (fun left right => ¬Schema.JoinsWith left right) steps
  turns : (steps.map Schema.kind).Pairwise Schema.InTurn

namespace Tidy

variable {first next : Schema} {rest : List Schema}

theorem tail (tidy : Tidy (first :: rest)) : Tidy rest where
  plain step member := tidy.plain step (List.mem_cons_of_mem _ member)
  follow := tidy.follow.tail
  apart := tidy.apart.tail
  turns := (List.pairwise_cons.mp tidy.turns).2

theorem keeps_after_predicate (tidy : Tidy (first :: rest))
    (predicate : first.kind = .ok .predicate) :
    ∀ step ∈ rest, step.Keeps := by
  intro step member
  rcases tidy.plain step (List.mem_cons_of_mem _ member) with ⟨kind, known, plain⟩
  have turn := (List.pairwise_cons.mp tidy.turns).1 step.kind (List.mem_map_of_mem member)
  rcases Kind.keeps_or_rebuilds plain with keeps | rebuilds
  · exact ⟨kind, known, keeps⟩
  · rw [turn predicate kind known] at rebuilds
    cases rebuilds

theorem admits_next (tidy : Tidy (first :: next :: rest)) {earlier later : Kind}
    (before : first.kind = .ok earlier) (after : next.kind = .ok later) :
    earlier.admits later = true ∧ ¬(earlier = .object ∧ later = .object) := by
  have follows := (List.isChain_cons_cons.mp tidy.follow).1
  refine ⟨(Schema.mayFollow_iff before after).mp follows, ?_⟩
  intro objects
  rcases objects with ⟨rfl, rfl⟩
  exact (List.isChain_cons_cons.mp tidy.apart).1 (Schema.joinsWith_of_kind before after (.inl rfl))

theorem keeps_after (tidy : Tidy (first :: rest)) (other : first.kind ≠ .ok (.basic .array)) :
    ∀ step ∈ rest, step.Keeps := by
  induction rest generalizing first with
  | nil => exact List.forall_mem_nil _
  | cons next others ih =>
      rcases tidy.plain first List.mem_cons_self with ⟨earlier, before, plain⟩
      by_cases late : earlier = .predicate
      · subst late
        exact tidy.keeps_after_predicate before
      · rcases tidy.plain next (List.mem_cons_of_mem _ List.mem_cons_self) with
          ⟨later, after, plainNext⟩
        rcases tidy.admits_next before after with ⟨admitted, apart⟩
        have narrow : earlier ∉ [.predicate, .function, .basic .array] := by
          intro banned
          simp only [List.mem_cons, List.not_mem_nil, or_false] at banned plain
          rcases banned with isPredicate | isFunction | isArray
          · exact late isPredicate
          · exact plain (.inl isFunction)
          · exact other (before.trans (congrArg Except.ok isArray))
        rcases Kind.keeps_of_admits admitted narrow plainNext apart with ⟨keeps, notArray⟩
        refine List.forall_mem_cons.mpr ⟨⟨later, after, keeps⟩, ih tidy.tail ?_⟩
        rw [after]
        exact fun same => notArray (Except.ok.inj same)

/-- Only the first step makes a value anew, or only an indexed one right after the test for an
array. -/
theorem rebuilt_once (tidy : Tidy (first :: rest)) :
    (∀ step ∈ rest, step.Keeps) ∨
      first.kind = .ok (.basic .array) ∧ ∃ indexed back, rest = indexed :: back ∧
        indexed.kind = .ok .indexed ∧ ∀ step ∈ back, step.Keeps := by
  by_cases array : first.kind = .ok (.basic .array)
  · cases rest with
    | nil => exact .inl (List.forall_mem_nil _)
    | cons next others =>
        rcases tidy.plain next (List.mem_cons_of_mem _ List.mem_cons_self) with
          ⟨later, after, plain⟩
        rcases Kind.indexed_of_admits (tidy.admits_next array after).1 plain with
          rfl | ⟨keeps, notArray⟩
        · refine .inr ⟨array, next, others, rfl, after, tidy.tail.keeps_after ?_⟩
          rw [after]
          exact nofun
        · refine .inl (List.forall_mem_cons.mpr ⟨⟨later, after, keeps⟩, tidy.tail.keeps_after ?_⟩)
          rw [after]
          exact fun same => notArray (Except.ok.inj same)
  · exact .inl (tidy.keeps_after array)

end Tidy

theorem tidy_of_arrange {steps arranged : List Schema} (success : arrange steps = .ok arranged)
    (plain : ∀ step ∈ arranged, ∃ kind, step.kind = .ok kind ∧ kind ∉ [.function, .oneOf])
    (turns : (steps.map Schema.kind).Pairwise Schema.InTurn) : Tidy arranged := by
  rcases steps with _ | ⟨first, rest⟩
  · cases success
  · rcases arrange_eq_ok.mp success with ⟨_, follow, merging⟩
    split at merging
    · subst merging
      exact ⟨plain, .singleton first, .singleton first, List.pairwise_singleton _ first.kind⟩
    · exact ⟨plain, (isChain_merge merging).mpr follow, isChain_apart_of_merge merging,
        turns.sublist (kinds_sublist_of_merge merging)⟩

end Chain

end SchemaCheck
