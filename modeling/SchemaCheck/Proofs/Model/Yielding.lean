import SchemaCheck.Proofs.Model.Describing
import SchemaCheck.Proofs.Model.Sharing

/-!
Runs among sound shapes. A step of describing starts with sound shapes and what was made so far, and
ends with sound shapes and perhaps some more that were made; one rule for each way of putting steps
together.
-/

namespace SchemaCheck

/-- Started where all shapes kept are sound, the run ends where they are sound with those made
since, and its result is good for those. -/
def Yields {α : Type} (made : List Shape) (run : Describing α) (good : List Shape → α → Prop) :
    Prop :=
  ∀ start result finish, Shared.Sound made start → run.run start = .ok (result, finish) →
    ∃ later, made <+: later ∧ Shared.Sound later finish ∧ good later result

namespace Yields

variable {α β : Type} {made : List Shape} {run : Describing α} {good : List Shape → α → Prop}

theorem imp {better : List Shape → α → Prop} (yields : Yields made run good)
    (better_of_good : ∀ later value, good later value → better later value) :
    Yields made run better := by
  intro start result finish sound success
  rcases yields start result finish sound success with ⟨later, grown, after, holds⟩
  exact ⟨later, grown, after, better_of_good later result holds⟩

theorem bind {next : α → Describing β} {goal : List Shape → β → Prop} (first : Yields made run good)
    (second : ∀ value later, made <+: later → good later value → Yields later (next value) goal) :
    Yields made (run >>= next) goal := by
  intro start result finish sound success
  rcases run_bind_eq_ok.mp success with ⟨value, middle, before, after⟩
  rcases first start value middle sound before with ⟨later, grown, kept, holds⟩
  rcases second value later grown holds middle result finish kept after with
    ⟨last, more, final, goal⟩
  exact ⟨last, grown.trans more, final, goal⟩

theorem pure {value : α} (holds : good made value) : Yields made (Pure.pure value) good := by
  intro start result finish sound success
  rcases run_pure_eq_ok.mp success with ⟨rfl, rfl⟩
  exact ⟨made, List.prefix_rfl, sound, holds⟩

theorem lift {known : Except ModelError α} (holds : ∀ value, known = .ok value → good made value) :
    Yields made (liftM known) good := by
  intro start result finish sound success
  rcases run_lift_eq_ok.mp success with ⟨same, rfl⟩
  exact ⟨made, List.prefix_rfl, sound, holds result same⟩

theorem literal (made : List Shape) (options : List Value) :
    Yields made (modifyGet (Shared.literal options)) (Wanted.Answers · (.literal options)) := by
  intro start result finish sound success
  rcases sound.literal options with ⟨later, grown, after, answers⟩
  rw [run_modifyGet_eq_ok.mp success] at after answers
  exact ⟨later, grown, after, answers⟩

theorem union {parts : List Shape} (madeIn : ∀ part ∈ parts, part.MadeIn made) :
    Yields made (modifyGet (Shared.union parts)) (Wanted.Answers · (.union parts)) := by
  intro start result finish sound success
  rcases sound.union madeIn with ⟨after, answers⟩
  rw [run_modifyGet_eq_ok.mp success] at after answers
  exact ⟨made, List.prefix_rfl, after, answers⟩

theorem orNull {shape : Shape} (madeIn : shape.MadeIn made) :
    Yields made (modifyGet (Shared.orNull shape)) (Wanted.Answers · (.orNull shape)) := by
  intro start result finish sound success
  rcases sound.orNull madeIn with ⟨after, answers⟩
  rw [run_modifyGet_eq_ok.mp success] at after answers
  exact ⟨made, List.prefix_rfl, after, answers⟩

theorem model (made : List Shape) (maker : Maker) (name : String) (given : List Field) :
    Yields made (makeModel maker name given) fun later model =>
      maker.make name given = .ok model.fields ∧ (Shape.model model).MadeIn later := by
  intro start result finish sound success
  have handed := fields_of_makeModel success
  rcases run_makeModel_eq_ok.mp success with ⟨fields, _, known⟩
  rcases sound.model maker name fields with ⟨later, grown, after, madeIn⟩
  rw [known] at after madeIn
  exact ⟨later, grown, after, handed, madeIn⟩

end Yields

end SchemaCheck
