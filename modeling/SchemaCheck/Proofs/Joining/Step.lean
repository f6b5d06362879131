import SchemaCheck.Proofs.Arrangement
import SchemaCheck.Proofs.Decomposition

/-!
Steps that join. Two neighbours that are both objects or both enums become one step, and joining
three of them comes to the same from either side. So a step may be put in front of a merged chain,
where it joins the first step or else stands beside it.
-/

namespace SchemaCheck

/-- A list or tuple of literals. -/
def Value.IsOptionList (options : Value) : Prop :=
  ∃ items, options.items? = some items ∧ ∀ item ∈ items, item.isLiteral = true

theorem Value.isOptionList_iff {options : Value} :
    options.IsOptionList ↔ ∃ items, literalOptions options = .ok items := by
  simp only [literalOptions_eq_ok, IsOptionList]

theorem literalOptions_list {items : List Value} (literal : ∀ item ∈ items, item.isLiteral = true) :
    literalOptions (.list items) = .ok items :=
  literalOptions_eq_ok.mpr ⟨rfl, literal⟩

theorem literalOptions_append {options others : Value} {items more : List Value}
    (first : literalOptions options = .ok items) (second : literalOptions others = .ok more) :
    literalOptions (.list (items ++ more)) = .ok (items ++ more) := by
  apply literalOptions_list
  rw [List.forall_mem_append]
  exact ⟨(literalOptions_eq_ok.mp first).2, (literalOptions_eq_ok.mp second).2⟩

namespace Schema

variable {step next other whole : Schema}

/-- The step that two neighbours become: an object with the fields of both, an enum with the options
of both. -/
inductive Joined : Schema → Schema → Schema → Prop
  | objects (fields others : Fields) :
      Joined (.step (.object fields)) (.step (.object others)) (.step (.object (fields ++ others)))
  | enums {options others : Value} {items more : List Value} :
      literalOptions options = .ok items → literalOptions others = .ok more →
      Joined (.step (.enum options)) (.step (.enum others)) (.step (.enum (.list (items ++ more))))

theorem joinsWith_iff : step.JoinsWith next ↔
    step.kind = .ok .object ∧ next.kind = .ok .object ∨
      step.kind = .ok .enum ∧ next.kind = .ok .enum := by
  constructor
  · intro joins
    obtain ⟨kind, left, right, rfl | rfl⟩ := kinds_of_joinsWith joins
    · exact .inl ⟨left, right⟩
    · exact .inr ⟨left, right⟩
  · intro alike
    obtain ⟨left, right⟩ | ⟨left, right⟩ := alike
    · exact joinsWith_of_kind left right (.inl rfl)
    · exact joinsWith_of_kind left right (.inr rfl)

theorem joinsWith_congr_left (same : step.kind = other.kind) :
    step.JoinsWith next ↔ other.JoinsWith next := by
  rw [joinsWith_iff, joinsWith_iff, same]

theorem joinsWith_congr_right (same : next.kind = other.kind) :
    step.JoinsWith next ↔ step.JoinsWith other := by
  rw [joinsWith_iff, joinsWith_iff, same]

namespace Joined

theorem joinsWith (joined : Joined step next whole) : step.JoinsWith next := by
  cases joined <;> trivial

theorem kind_left (joined : Joined step next whole) : whole.kind = step.kind := by
  cases joined <;> rfl

theorem kind_right (joined : Joined step next whole) : whole.kind = next.kind := by
  cases joined <;> rfl

/-- Of three steps in a row either two may be joined first. -/
theorem assoc {first second third : Schema} :
    (∃ later, Joined second third later ∧ Joined first later whole) ↔
      ∃ earlier, Joined first second earlier ∧ Joined earlier third whole := by
  constructor
  · intro found
    obtain ⟨_, later, outer⟩ := found
    cases later with
    | objects fields others =>
        cases outer with
        | objects earlier =>
            refine ⟨_, .objects earlier fields, ?_⟩
            rw [← List.append_assoc]
            exact .objects _ others
    | enums middle last =>
        cases outer with
        | enums start both =>
            rw [literalOptions_append middle last] at both
            cases both
            refine ⟨_, .enums start middle, ?_⟩
            rw [← List.append_assoc]
            exact .enums (literalOptions_append start middle) last
  · intro found
    obtain ⟨_, earlier, outer⟩ := found
    cases earlier with
    | objects fields others =>
        cases outer with
        | objects _ later =>
            refine ⟨_, .objects others later, ?_⟩
            rw [List.append_assoc]
            exact .objects fields _
    | enums start middle =>
        cases outer with
        | enums both last =>
            rw [literalOptions_append start middle] at both
            cases both
            refine ⟨_, .enums middle last, ?_⟩
            rw [List.append_assoc]
            exact .enums start (literalOptions_append middle last)

end Joined

/-- Neighbours that are both enums list literals as their options. -/
def OptionsListed : Schema → Schema → Prop
  | .step (.enum options), .step (.enum others) => options.IsOptionList ∧ others.IsOptionList
  | _, _ => True

theorem optionsListed_of_apart (apart : ¬step.JoinsWith next) : step.OptionsListed next := by
  unfold OptionsListed
  split
  · exact absurd trivial apart
  · trivial

theorem exists_joined_iff (joins : step.JoinsWith next) :
    (∃ whole, Joined step next whole) ↔ step.OptionsListed next := by
  unfold JoinsWith at joins
  split at joins
  · rename_i fields others
    exact ⟨fun _ => trivial, fun _ => ⟨_, .objects fields others⟩⟩
  · simp only [OptionsListed, Value.isOptionList_iff]
    constructor
    · intro found
      obtain ⟨_, joined⟩ := found
      cases joined with
      | enums left right => exact ⟨⟨_, left⟩, _, right⟩
    · intro found
      obtain ⟨⟨items, left⟩, more, right⟩ := found
      exact ⟨_, .enums left right⟩
  · cases joins

/-- To a step before it, what two neighbours become lists literals as the first of them does. -/
theorem Joined.optionsListed_iff (joined : Joined next other whole) :
    step.OptionsListed whole ↔ step.OptionsListed next := by
  cases joined with
  | objects => unfold OptionsListed; simp
  | enums left right =>
      have own := Value.isOptionList_iff.mpr ⟨_, left⟩
      have all := Value.isOptionList_iff.mpr ⟨_, literalOptions_append left right⟩
      unfold OptionsListed
      split <;> simp_all

/-- What a step and the merged chain after it become. -/
inductive Prepended (step : Schema) : List Schema → List Schema → Prop
  | single : Prepended step [] [step]
  | beside {next : Schema} {rest : List Schema} :
      ¬step.JoinsWith next → Prepended step (next :: rest) (step :: next :: rest)
  | joined {next whole : Schema} {rest : List Schema} :
      Joined step next whole → Prepended step (next :: rest) (whole :: rest)

namespace Prepended

variable {rest merged : List Schema}

theorem nil_iff : Prepended step [] merged ↔ merged = [step] := by
  constructor
  · intro found
    cases found
    rfl
  · intro same
    subst same
    exact .single

theorem apart_iff (apart : ¬step.JoinsWith next) :
    Prepended step (next :: rest) merged ↔ merged = step :: next :: rest := by
  constructor
  · intro found
    cases found with
    | beside => rfl
    | joined joined => exact absurd joined.joinsWith apart
  · intro same
    subst same
    exact .beside apart

theorem joins_iff (joins : step.JoinsWith next) :
    Prepended step (next :: rest) merged ↔
      ∃ whole, Joined step next whole ∧ merged = whole :: rest := by
  constructor
  · intro found
    cases found with
    | beside apart => exact absurd joins apart
    | joined joined => exact ⟨_, joined, rfl⟩
  · intro found
    obtain ⟨whole, joined, rfl⟩ := found
    exact .joined joined

theorem exists_iff :
    (∃ merged, Prepended step (next :: rest) merged) ↔ step.OptionsListed next := by
  by_cases joins : step.JoinsWith next
  · simp only [joins_iff joins, ← exists_joined_iff joins]
    constructor
    · intro found
      obtain ⟨_, whole, joined, _⟩ := found
      exact ⟨whole, joined⟩
    · intro found
      obtain ⟨whole, joined⟩ := found
      exact ⟨_, whole, joined, rfl⟩
  · simp [apart_iff joins, optionsListed_of_apart joins]

theorem twice_iff (joins : step.JoinsWith next) :
    (∃ later, Prepended next rest later ∧ Prepended step later merged) ↔
      ∃ whole, Joined step next whole ∧ Prepended whole rest merged := by
  cases rest with
  | nil => simp only [nil_iff, exists_eq_left, joins_iff joins]
  | cons third rest =>
      have alike : ∀ whole, Joined step next whole →
          (whole.JoinsWith third ↔ next.JoinsWith third) :=
        fun whole joined => joinsWith_congr_left joined.kind_right
      by_cases follows : next.JoinsWith third
      · calc (∃ later, Prepended next (third :: rest) later ∧ Prepended step later merged)
            ↔ ∃ top, (∃ middle, Joined next third middle ∧ Joined step middle top) ∧
              merged = top :: rest := by
              simp only [joins_iff follows]
              constructor
              · intro found
                obtain ⟨_, ⟨middle, inner, rfl⟩, outer⟩ := found
                rw [joins_iff ((joinsWith_congr_right inner.kind_left).mpr joins)] at outer
                obtain ⟨top, joined, same⟩ := outer
                exact ⟨top, ⟨middle, inner, joined⟩, same⟩
              · intro found
                obtain ⟨top, ⟨middle, inner, joined⟩, rfl⟩ := found
                exact ⟨_, ⟨middle, inner, rfl⟩, .joined joined⟩
          _ ↔ ∃ top, (∃ whole, Joined step next whole ∧ Joined whole third top) ∧
            merged = top :: rest := by
              simp only [Joined.assoc]
          _ ↔ ∃ whole, Joined step next whole ∧ Prepended whole (third :: rest) merged := by
              constructor
              · intro found
                obtain ⟨top, ⟨whole, joined, outer⟩, rfl⟩ := found
                exact ⟨whole, joined, .joined outer⟩
              · intro found
                obtain ⟨whole, joined, outer⟩ := found
                rw [joins_iff ((alike whole joined).mpr follows)] at outer
                obtain ⟨top, outer, same⟩ := outer
                exact ⟨top, ⟨whole, joined, outer⟩, same⟩
      · simp only [apart_iff follows, exists_eq_left, joins_iff joins]
        refine exists_congr fun whole => and_congr_right fun joined => ?_
        exact (apart_iff (fun found => follows ((alike whole joined).mp found))).symm

end Prepended

end Schema

end SchemaCheck
