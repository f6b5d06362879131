import SchemaCheck.Model.Shared
import SchemaCheck.Proofs.Equality
import SchemaCheck.Proofs.Model.Conformance

/-!
Sharing is sound. A shape that is reused was asked for by what counts as the same, which admits the
same values: literals and models are told apart by their serial numbers, of which each was given out
once.
-/

namespace SchemaCheck

namespace Shape

/-- The shapes directly inside a shape, of which a model counts as one. -/
def parts : Shape → List Shape
  | list item => [item]
  | tuple items => items
  | union members => members
  | _ => []

def serial? : Shape → Option Nat
  | literal serial _ => some serial
  | model own => some own.serial
  | _ => none

inductive Within (inner : Shape) : Shape → Prop
  | self : Within inner inner
  | deeper {part outer : Shape} : part ∈ outer.parts → Within inner part → Within inner outer

/-- Every literal and model inside is the one that was made under its serial number. -/
def MadeIn (made : List Shape) (shape : Shape) : Prop :=
  ∀ inner, Within inner shape → ∀ serial, inner.serial? = some serial → made[serial]? = some inner

namespace MadeIn

variable {made later : List Shape} {shape : Shape}

theorem found (madeIn : shape.MadeIn made) {serial : Nat} (known : shape.serial? = some serial) :
    made[serial]? = some shape :=
  madeIn shape .self serial known

theorem part (madeIn : shape.MadeIn made) {part : Shape} (member : part ∈ shape.parts) :
    part.MadeIn made := by
  intro inner within
  exact madeIn inner (.deeper member within)

theorem of_parts (parts : ∀ part ∈ shape.parts, part.MadeIn made)
    (found : ∀ serial, shape.serial? = some serial → made[serial]? = some shape) :
    shape.MadeIn made := by
  intro inner within
  cases within with
  | self => exact found
  | deeper member within => exact parts _ member inner within

theorem of_unnumbered (unnumbered : shape.serial? = none)
    (parts : ∀ part ∈ shape.parts, part.MadeIn made) : shape.MadeIn made := by
  apply of_parts parts
  intro serial known
  cases unnumbered.symm.trans known

theorem of_plain (plain : shape.parts = []) (unnumbered : shape.serial? = none) :
    shape.MadeIn made := by
  apply of_unnumbered unnumbered
  rw [plain]
  exact List.forall_mem_nil _

theorem mono (madeIn : shape.MadeIn made) (grown : made <+: later) : shape.MadeIn later := by
  rcases grown with ⟨more, rfl⟩
  intro inner within serial known
  have present := madeIn inner within serial known
  rcases List.getElem?_eq_some_iff.mp present with ⟨bound, _⟩
  rw [List.getElem?_append_left bound]
  exact present

end MadeIn

section Same

theorem sameAll_iff {lefts rights : List Shape} :
    sameAll lefts rights = true ↔
      List.Forall₂ (fun left right => left.same right = true) lefts rights := by
  induction lefts generalizing rights with
  | nil => cases rights <;> simp [sameAll]
  | cons left rest ih => cases rights <;> simp [sameAll, ih]

theorem among_iff {shapes : List Shape} {shape : Shape} :
    among shapes shape = true ↔ ∃ left ∈ shapes, left.same shape = true := by
  induction shapes with
  | nil => simp [among]
  | cons head tail ih => simp [among, ih]

variable {made : List Shape}

/-- Shapes that are taken to be the same admit the same values. -/
theorem firm_of_same {left right : Shape} (alike : left.same right = true)
    (leftMade : left.MadeIn made) (rightMade : right.MadeIn made) {value : Value}
    (firm : right.Firm value) : left.Firm value := by
  -- The induction is on how the value fits the right shape, since it stays the same value through
  -- unions. The fields of models are not gone into: two models of one serial number are the same.
  induction firm generalizing left with
  | any value =>
      cases left with
      | any => exact .any value
      | _ => simp [same] at alike
  | boolean b =>
      cases left with
      | boolean => exact .boolean b
      | _ => simp [same] at alike
  | number known =>
      cases left with
      | number => exact .number known
      | _ => simp [same] at alike
  | integer known whole =>
      cases left with
      | integer => exact .integer known whole
      | _ => simp [same] at alike
  | string text =>
      cases left with
      | string => exact .string text
      | _ => simp [same] at alike
  | list listed held ih =>
      cases left with
      | list item =>
          rw [same] at alike
          apply Firm.list listed
          intro inner member
          exact ih inner member alike (leftMade.part List.mem_cons_self)
            (rightMade.part List.mem_cons_self)
      | _ => simp [same] at alike
  | @tuple shapes value items listed length held ih =>
      cases left with
      | tuple lefts =>
          rw [same, sameAll_iff] at alike
          have known := (List.forall₂_and_left _ _).mpr ⟨fun left => leftMade.part, alike⟩
          have fitting : List.Forall₂ (fun shape item => ∀ left : Shape, left.same shape = true →
              left.MadeIn made → left.Firm item) shapes items := by
            refine List.forall₂_iff_zip.mpr ⟨length, ?_⟩
            intro shape item member left alike leftMade
            exact ih _ member alike leftMade (rightMade.part (List.of_mem_zip member).1)
          apply firm_tuple_iff.mpr
          refine ⟨items, listed, forall₂_trans ?_ known fitting⟩
          intro left shape item found fits
          rcases found with ⟨leftMade, alike⟩
          exact fits left alike leftMade
      | _ => simp [same] at alike
  | @literal serial options value option member equal =>
      cases left with
      | literal other lefts =>
          rw [same, Bool.or_eq_true, beq_iff_eq, Bool.and_eq_true] at alike
          rcases alike with rfl | ⟨_, within⟩
          · cases (leftMade.found rfl).symm.trans (rightMade.found rfl)
            exact .literal member equal
          · rcases List.any_eq_true.mp (List.all_eq_true.mp within option member) with
              ⟨other, listed, typed⟩
            rw [Value.equalsLiteral_congr typed] at equal
            exact .literal listed equal
      | _ => simp [same] at alike
  | @union members member value inside _ ih =>
      cases left with
      | union lefts =>
          rw [same, Bool.and_eq_true, List.all_eq_true] at alike
          rcases among_iff.mp (alike.2 member inside) with ⟨left, listed, own⟩
          exact .union listed (ih own (leftMade.part listed) (rightMade.part inside))
      | _ => simp [same] at alike
  | @model model entries present held _ =>
      cases left with
      | model other =>
          rw [same, beq_iff_eq] at alike
          have first := leftMade.found rfl
          have second := rightMade.found rfl
          rw [alike] at first
          cases first.symm.trans second
          exact .model present held
      | _ => simp [same] at alike

end Same

end Shape

section Distinct

variable {α : Type} {same : α → α → Bool} {items : List α}

theorem mem_of_mem_distinct {item : α} (member : item ∈ distinct same items) : item ∈ items := by
  induction items with
  | nil => cases member
  | cons head tail ih =>
      rcases List.mem_cons.mp member with rfl | later
      · exact List.mem_cons_self
      · exact List.mem_cons_of_mem _ (ih (List.mem_of_mem_filter later))

/-- What holds of an item holds of one that was not left out, if it passes to the same items. -/
theorem exists_mem_distinct {P : α → Prop}
    (passes : ∀ left ∈ items, ∀ right ∈ items, same left right = true → P right → P left) {item : α}
    (member : item ∈ items) (holds : P item) : ∃ kept ∈ distinct same items, P kept := by
  induction items with
  | nil => cases member
  | cons head tail ih =>
      rcases List.mem_cons.mp member with rfl | later
      · exact ⟨item, List.mem_cons_self, holds⟩
      · have inner := fun left first right second =>
          passes left (List.mem_cons_of_mem _ first) right (List.mem_cons_of_mem _ second)
        rcases ih inner later with ⟨kept, inside, holds⟩
        by_cases repeated : same head kept = true
        · have listed := List.mem_cons_of_mem head (mem_of_mem_distinct inside)
          exact ⟨head, List.mem_cons_self,
            passes head List.mem_cons_self kept listed repeated holds⟩
        · have left : kept ∈ (distinct same tail).filter fun item => !same head item :=
            List.mem_filter.mpr ⟨inside, by simp [repeated]⟩
          exact ⟨kept, List.mem_cons_of_mem _ left, holds⟩

end Distinct

namespace Shape

variable {made : List Shape}

theorem firm_literalOf (serial : Nat) {options : List Value} {value option : Value}
    (member : option ∈ options) (equal : value.equalsLiteral option = true) :
    (literalOf serial options).Firm value := by
  apply firm_literal_iff.mpr
  apply exists_mem_distinct (P := fun option => value.equalsLiteral option = true) ?_ member equal
  intro left _ right _ typed equal
  rw [Value.equalsLiteral_congr typed]
  exact equal

theorem madeIn_members {shape : Shape} (madeIn : shape.MadeIn made) :
    ∀ member ∈ shape.members, member.MadeIn made := by
  intro member inside
  unfold members at inside
  split at inside
  · exact madeIn.part inside
  · rw [List.mem_singleton.mp inside]
    exact madeIn

theorem exists_firm_member {shape : Shape} {value : Value} (firm : shape.Firm value) :
    ∃ member ∈ shape.members, member.Firm value := by
  unfold members
  split
  · exact firm_union_iff.mp firm
  · exact ⟨shape, List.mem_singleton.mpr rfl, firm⟩

variable {shapes : List Shape} (madeIn : ∀ shape ∈ shapes, shape.MadeIn made)

include madeIn

theorem madeIn_flatMap_members : ∀ member ∈ shapes.flatMap members, member.MadeIn made := by
  intro member inside
  rcases List.mem_flatMap.mp inside with ⟨shape, listed, own⟩
  exact madeIn_members (madeIn shape listed) member own

theorem madeIn_unionOf : (unionOf shapes).MadeIn made := by
  have kept : ∀ member ∈ distinct same (shapes.flatMap members), member.MadeIn made :=
    fun member inside => madeIn_flatMap_members madeIn member (mem_of_mem_distinct inside)
  unfold unionOf
  split
  · rename_i only shape
    exact kept only (by rw [shape]; exact List.mem_cons_self)
  · exact .of_unnumbered rfl kept

/-- Neither splicing nor leaving out repetitions takes a value away from a union. -/
theorem firm_unionOf {shape : Shape} (listed : shape ∈ shapes) {value : Value}
    (firm : shape.Firm value) : (unionOf shapes).Firm value := by
  have all := madeIn_flatMap_members madeIn
  rcases exists_firm_member firm with ⟨member, inside, own⟩
  have spliced := List.mem_flatMap.mpr ⟨shape, listed, inside⟩
  have passes : ∀ left ∈ shapes.flatMap members, ∀ right ∈ shapes.flatMap members,
      left.same right = true → right.Firm value → left.Firm value :=
    fun left first right second alike => firm_of_same alike (all left first) (all right second)
  rcases exists_mem_distinct passes spliced own with ⟨kept, present, holds⟩
  unfold unionOf
  split
  · rename_i only shape
    rw [shape] at present
    rw [← List.mem_singleton.mp present]
    exact holds
  · exact firm_union_iff.mpr ⟨kept, present, holds⟩

end Shape

namespace Wanted

/-- The shapes that a shape is asked for by. -/
def parts : Wanted → List Shape
  | union parts => parts
  | orNull shape => [shape]
  | _ => []

/-- A shape asked for by this is to admit the value. -/
def Covers (value : Value) : Wanted → Prop
  | literal options => ∃ option ∈ options, value.equalsLiteral option = true
  | union parts => ∃ part ∈ parts, part.Firm value
  | orNull shape => shape.Firm value
  | ofModels _ => False

/-- The shape is what was asked for. -/
structure Answers (made : List Shape) (key : Wanted) (shape : Shape) : Prop where
  parts : ∀ part ∈ key.parts, part.MadeIn made
  madeIn : shape.MadeIn made
  covers : ∀ value, key.Covers value → shape.Firm value

variable {made later : List Shape} {key kept : Wanted} {shape : Shape}

theorem Answers.mono (answers : key.Answers made shape) (grown : made <+: later) :
    key.Answers later shape :=
  ⟨fun part member => (answers.parts part member).mono grown, answers.madeIn.mono grown,
    answers.covers⟩

theorem exists_of_sameOptions {left right : List Value} (alike : sameOptions left right = true)
    {value option : Value} (member : option ∈ right) (equal : value.equalsLiteral option = true) :
    ∃ other ∈ left, value.equalsLiteral other = true := by
  induction left generalizing right with
  | nil => cases right <;> simp [sameOptions] at alike member
  | cons head tail ih =>
      cases right with
      | nil => cases member
      | cons first rest =>
          rw [sameOptions, Bool.and_eq_true] at alike
          rcases List.mem_cons.mp member with rfl | later
          · rw [← Value.equalsLiteral_congr alike.1] at equal
            exact ⟨head, List.mem_cons_self, equal⟩
          · rcases ih alike.2 later with ⟨other, inside, equal⟩
            exact ⟨other, List.mem_cons_of_mem _ inside, equal⟩

theorem covers_of_same (alike : kept.same key = true)
    (keptParts : ∀ part ∈ kept.parts, part.MadeIn made)
    (keyParts : ∀ part ∈ key.parts, part.MadeIn made) {value : Value} (covers : key.Covers value) :
    kept.Covers value := by
  cases key with
  | literal options =>
      cases kept with
      | literal others =>
          rcases covers with ⟨option, member, equal⟩
          exact exists_of_sameOptions alike member equal
      | _ => cases alike
  | union parts =>
      cases kept with
      | union others =>
          rcases covers with ⟨part, member, firm⟩
          rcases exists_mem_of_forall₂ (Shape.sameAll_iff.mp alike) member with ⟨other, listed, own⟩
          exact ⟨other, listed,
            Shape.firm_of_same own (keptParts other listed) (keyParts part member) firm⟩
      | _ => cases alike
  | orNull shape =>
      cases kept with
      | orNull other =>
          exact Shape.firm_of_same alike (keptParts other List.mem_cons_self)
            (keyParts shape List.mem_cons_self) covers
      | _ => cases alike
  | ofModels position => exact covers.elim

theorem Answers.of_same (answers : kept.Answers made shape) (alike : kept.same key = true)
    (parts : ∀ part ∈ key.parts, part.MadeIn made) : key.Answers made shape :=
  ⟨parts, answers.madeIn, fun value covers =>
    answers.covers value (covers_of_same alike answers.parts parts covers)⟩

theorem answers_ofModels (made : List Shape) (position : Nat) :
    (ofModels position).Answers made .any :=
  ⟨List.forall_mem_nil _, .of_plain rfl rfl, fun value _ => .any value⟩

end Wanted

namespace Kept

/-- Every shape kept is what it was asked for as. -/
def Sound (made : List Shape) (kept : Kept) : Prop :=
  ∀ entry ∈ kept, entry.1.Answers made entry.2

variable {made later : List Shape} {kept : Kept} {key : Wanted}

theorem Sound.mono (sound : kept.Sound made) (grown : made <+: later) : kept.Sound later :=
  fun entry member => (sound entry member).mono grown

theorem Sound.reuse (sound : kept.Sound made) (parts : ∀ part ∈ key.parts, part.MadeIn made)
    {shape : Shape} {rest : Kept} (found : kept.reuse key = some (shape, rest)) :
    key.Answers made shape ∧ Kept.Sound made rest := by
  unfold Kept.reuse at found
  split at found
  · rename_i entry present
    cases found
    have member := List.mem_of_find?_eq_some present
    have alike := List.find?_some present
    refine ⟨(sound entry member).of_same alike parts, ?_⟩
    intro other inside
    rcases List.mem_cons.mp inside with rfl | later
    · exact sound other member
    · exact sound other (List.mem_of_mem_eraseP later)
  · cases found

theorem Sound.add (sound : kept.Sound made) {shape : Shape} (answers : key.Answers made shape) :
    Kept.Sound made (kept.add key shape) := by
  intro entry member
  rcases List.mem_cons.mp (List.mem_of_mem_take member) with rfl | inside
  · exact answers
  · exact sound entry inside

theorem Sound.ask (sound : kept.Sound made) {new : Shape} (answers : key.Answers made new) :
    key.Answers made (kept.ask key new).1 ∧ Kept.Sound made (kept.ask key new).2 := by
  unfold Kept.ask
  split
  · rename_i found reused
    exact sound.reuse answers.parts reused
  · exact ⟨answers, sound.add answers⟩

theorem Sound.askForModel (sound : kept.Sound made) (count : Nat) :
    Kept.Sound made (kept.askForModel count) := by
  unfold Kept.askForModel
  induction List.range count generalizing kept with
  | nil => exact sound
  | cons position rest ih => exact ih (sound.ask (Wanted.answers_ofModels made position)).2

end Kept

namespace Shared

/-- One shape was made for each serial number given out, and all shapes kept are sound. -/
structure Sound (made : List Shape) (shared : Shared) : Prop where
  serials : made.length = shared.serials
  literals : shared.literals.Sound made
  unions : shared.unions.Sound made

theorem sound_start : Sound [] start :=
  ⟨rfl, List.forall_mem_nil _, List.forall_mem_nil _⟩

namespace Sound

variable {made : List Shape} {shared : Shared}

theorem literal (sound : shared.Sound made) (options : List Value) :
    ∃ later, made <+: later ∧ (shared.literal options).2.Sound later ∧
      (Wanted.literal options).Answers later (shared.literal options).1 := by
  have grown : made <+: made ++ [.literalOf shared.serials options] := List.prefix_append _ _
  have answers : (Wanted.literal options).Answers (made ++ [.literalOf shared.serials options])
      (.literalOf shared.serials options) := by
    refine ⟨List.forall_mem_nil _, ?_, ?_⟩
    · apply Shape.MadeIn.of_parts (List.forall_mem_nil _)
      intro serial same
      cases same
      rw [← sound.serials]
      exact List.getElem?_concat_length
    · intro value found
      rcases found with ⟨option, member, equal⟩
      exact Shape.firm_literalOf _ member equal
  have asked := (sound.literals.mono grown).ask answers
  refine ⟨_, grown, ⟨?_, asked.2, sound.unions.mono grown⟩, asked.1⟩
  rw [List.length_append, sound.serials]
  rfl

theorem union (sound : shared.Sound made) {parts : List Shape}
    (madeIn : ∀ part ∈ parts, part.MadeIn made) :
    (shared.union parts).2.Sound made ∧
      (Wanted.union parts).Answers made (shared.union parts).1 := by
  have answers : (Wanted.union parts).Answers made (.unionOf parts) := by
    refine ⟨madeIn, Shape.madeIn_unionOf madeIn, ?_⟩
    intro value found
    rcases found with ⟨part, member, firm⟩
    exact Shape.firm_unionOf madeIn member firm
  have asked := sound.unions.ask answers
  exact ⟨⟨sound.serials, sound.literals, asked.2⟩, asked.1⟩

theorem orNull (sound : shared.Sound made) {shape : Shape} (madeIn : shape.MadeIn made) :
    (shared.orNull shape).2.Sound made ∧
      (Wanted.orNull shape).Answers made (shared.orNull shape).1 := by
  have parts : ∀ part ∈ (Wanted.orNull shape).parts, part.MadeIn made :=
    List.forall_mem_singleton.mpr madeIn
  unfold Shared.orNull
  split
  · rename_i reused unions found
    rcases sound.unions.reuse parts found with ⟨answers, kept⟩
    exact ⟨⟨sound.serials, sound.literals, kept⟩, answers⟩
  · have both : ∀ part ∈ [shape, .null], part.MadeIn made :=
      List.forall_mem_cons.mpr ⟨madeIn, List.forall_mem_singleton.mpr (.of_plain rfl rfl)⟩
    rcases sound.union both with ⟨after, answers⟩
    have own : (Wanted.orNull shape).Answers made (shared.union [shape, .null]).1 :=
      ⟨parts, answers.madeIn, fun value firm =>
        answers.covers value ⟨shape, List.mem_cons_self, firm⟩⟩
    exact ⟨⟨after.serials, after.literals, after.unions.add own⟩, own⟩

theorem model (sound : shared.Sound made) (maker : Maker) (name : String) (fields : List Field) :
    ∃ later, made <+: later ∧ (shared.model maker name fields).2.Sound later ∧
      (Shape.model (shared.model maker name fields).1).MadeIn later := by
  have grown : made <+: made ++ [.model ⟨shared.serials, name, fields⟩] := List.prefix_append _ _
  have literals := (sound.literals.mono grown).askForModel maker.literals
  have unions := (sound.unions.mono grown).askForModel maker.unions
  unfold Shared.model
  refine ⟨_, grown, ⟨?_, ?_, ?_⟩, ?_⟩
  · rw [List.length_append, sound.serials]
    rfl
  · dsimp only
    exact literals
  · dsimp only
    exact unions
  · apply Shape.MadeIn.of_parts (List.forall_mem_nil _)
    intro serial same
    cases same
    rw [← sound.serials]
    exact List.getElem?_concat_length

end Sound

end Shared

end SchemaCheck
