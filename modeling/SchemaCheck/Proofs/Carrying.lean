import SchemaCheck.Proofs.Acceptance
import SchemaCheck.Proofs.Decomposition
import SchemaCheck.Proofs.Sequencing
import SchemaCheck.Proofs.Within

/-!
What checks do to the values they accept. A check that calls no function takes values apart, keeps,
fills in and puts together again; so a relation that follows values through this relates whatever is
accepted to what is made of it.
-/

namespace SchemaCheck

/-- What a name of an accepted dict held is related to what it holds afterwards; it may have held
nothing only where steps may be optional. -/
def FilledBy (kinds : List Kind) (R : Value → Value → Prop) (entries : List (Value × Value))
    (pair : String × Value) : Prop :=
  match Value.property pair.1 entries with
  | some held => R held pair.2
  | none => .optional ∉ kinds

/-- A relation between values that checks free of some kinds of steps carry on, functions apart. -/
structure Carried (kinds : List Kind) (R : Value → Value → Prop) : Prop where
  refl : ∀ value, R value value
  trans : ∀ {value between output}, R value between → R between output → R value output
  null : .optional ∉ kinds → ∀ output, R .null output
  items : ∀ {value : Value} {items results}, value.items? = some items →
    List.Forall₂ R items results → R value (.list results)
  entries : ∀ {entries pairs}, (pairs.map (·.1)).Nodup →
    (∀ entry ∈ entries, entry.1.isAmong (pairs.map (·.1)) = true) →
    (∀ pair ∈ pairs, FilledBy kinds R entries pair) → R (.dict entries) (.dict (Check.named pairs))

def Check.Relates (R : Value → Value → Prop) (check : Check) : Prop :=
  ∀ value output, check value = .ok output → R value output

theorem Schema.FreeOf.required {kinds : List Kind} {schema : Schema} (free : schema.FreeOf kinds)
    (banned : .optional ∈ kinds) : schema.mayBeAbsent = false := by
  fun_induction Schema.mayBeAbsent schema with
  | case1 first rest ih => exact ih (free.component List.mem_cons_self)
  | case2 inner fallback => exact absurd banned (free.kind_not_mem rfl)
  | case3 => rfl

section Carrying

variable {calls : Calls} {kinds : List Kind} {R : Value → Value → Prop}

theorem relates_of_parts {parts : List Schema} {segment : Nat → Segment} {checks : List Check}
    (compiled : checksOfParts calls segment 0 parts [] = .ok checks)
    (each : ∀ part ∈ parts, ∀ check, compile calls part [] = .ok check → check.Relates R) :
    ∀ check ∈ checks, check.Relates R := by
  intro check member value output accepted
  rcases part_of_check compiled member with ⟨part, listed, place, own⟩
  rcases accepted_at_root own accepted with ⟨root, compiledPart, acceptedPart⟩
  exact each part listed root compiledPart value output acceptedPart

variable (carried : Carried kinds R)

include carried

theorem Carried.chain {checks : List Check} (each : ∀ check ∈ checks, check.Relates R) :
    (Check.chain checks).Relates R := by
  intro value output accepted
  apply Check.chain_related carried.refl carried.trans ?_ accepted
  intro check member value output accepted
  exact each check member value output accepted

theorem Carried.object {fields : Fields} {properties : List Check.Property}
    (compiled : propertiesOfFields calls fields [] = .ok properties)
    (free : ∀ field ∈ fields, field.2.FreeOf kinds)
    (each : ∀ field ∈ fields, ∀ check, compile calls field.2 [] = .ok check → check.Relates R) :
    (Check.object properties []).Relates R := by
  intro value output accepted
  rcases fills_of_accepted compiled accepted with
    ⟨entries, pairs, rfl, present, declared, filled, rfl⟩
  apply carried.entries (nodup_of_fills filled)
  · intro entry member
    have among := Check.surplus_eq_nil.mp declared entry member
    rw [names_of_compiled compiled, Value.isAmong_iff] at among
    rw [← names_of_fills filled, Value.isAmong_iff]
    rcases among with ⟨name, listed, same⟩
    exact ⟨name, (Entries.mem_keys_ofPairs fun _ _ => beq_iff_eq).mpr listed, same⟩
  · intro pair member
    rcases exists_mem_of_forall₂ filled member with ⟨field, kept, fills⟩
    have inside : field ∈ fields := Entries.mem_of_mem_ofPairs (fun _ _ => beq_iff_eq) kept
    rcases fills.accepted with ⟨check, compiledField, acceptedField⟩
    have related := each field inside check compiledField _ _ acceptedField
    rw [fills.name] at related
    unfold FilledBy
    cases found : Value.property pair.1 entries with
    | some held =>
        rw [found] at related
        exact related
    | none =>
        -- Where a name is absent it was not required, so an optional step was among the kinds.
        intro banned
        have required := (free field inside).required banned
        have there := (missing_of_compiled compiled entries).mp present field inside required
        rw [fills.name, found] at there
        cases there

theorem Carried.step (banned : .function ∈ kinds) {step : Schema} (free : step.FreeOf kinds)
    (each : ∀ part ∈ step.parts, ∀ check, compile calls part [] = .ok check → check.Relates R)
    {check : Check} (compiled : checkOfStep calls step [] = .ok check) : check.Relates R := by
  intro value output accepted
  have kept : step.Keeps → R value output := by
    intro keeps
    rw [checkOfStep_keeps keeps compiled accepted]
    exact carried.refl value
  cases turnsInto_of_compiled compiled with
  | basic found => exact kept (Schema.keeps_of_name found)
  | function callable => exact absurd banned (free.kind_not_mem rfl)
  | predicate => exact kept ⟨.predicate, rfl, rfl⟩
  | enum => exact kept ⟨.enum, rfl, rfl⟩
  | @optional inner _ _ own inside _ =>
      rcases Check.optional_eq_ok.mp accepted with ⟨rfl, rfl⟩ | ⟨_, accepted⟩
      · exact carried.null (free.kind_not_mem rfl) output
      · exact each inner List.mem_cons_self own inside value output accepted
  | @object fields _ known =>
      have inside : ∀ field ∈ fields, field.2 ∈ Schema.parts (.step (.object fields)) :=
        fun field member => List.mem_map_of_mem member
      exact carried.object known (fun field member => free.part (inside field member))
        (fun field member => each field.2 (inside field member)) value output accepted
  | indexed listed known =>
      rw [Schema.parts_indexed listed] at each
      rcases Check.indexed_eq_ok.mp accepted with ⟨items, results, valueItems, length, answers, rfl⟩
      apply carried.items valueItems
      apply (Check.forall₂_of_accepted length answers).2.imp
      intro item result found
      rcases found with ⟨check, member, accepted⟩
      exact relates_of_parts known each check member item result accepted
  | oneOf listed known =>
      rw [Schema.parts_oneOf listed] at each
      rcases Check.oneOf_eq_ok accepted with ⟨branch, member, accepted⟩
      exact relates_of_parts known each branch member value output accepted

theorem Carried.arranged {schema : Schema} {check : Check}
    (compiled : compile calls schema [] = .ok check)
    (each : ∀ arranged, Chain.arrange schema.steps = .ok arranged → ∀ step ∈ arranged,
      ∀ own, checkOfStep calls step [] = .ok own → own.Relates R) : check.Relates R := by
  rw [compile_eq] at compiled
  rcases checkOfSteps_eq_ok.mp compiled with ⟨arranged, checks, arranging, matched, rfl⟩
  apply carried.chain
  intro own member
  rcases exists_mem_of_forall₂ matched member with ⟨step, inside, compiledStep⟩
  exact each arranged arranging step inside own compiledStep

/-- What a check accepts is related to what it makes of it, for schemas and for single steps. -/
theorem Carried.related (banned : .function ∈ kinds) :
    (∀ schema : Schema, schema.FreeOf kinds → ∀ check, compile calls schema [] = .ok check →
      check.Relates R) ∧
    ∀ step : Schema, step.FreeOf kinds → ∀ check, checkOfStep calls step [] = .ok check →
      check.Relates R := by
  apply Schema.induction
    (P := fun schema => schema.FreeOf kinds → ∀ check, compile calls schema [] = .ok check →
      check.Relates R)
    (Q := fun step => step.FreeOf kinds → ∀ check, checkOfStep calls step [] = .ok check →
      check.Relates R)
  · intro schema _ arrangedSteps free check compiled
    apply carried.arranged compiled
    intro arranged arranging step member
    exact arrangedSteps arranged arranging step member (free.arranged arranging member)
  · intro step parts free check compiled
    apply carried.step banned free ?_ compiled
    intro part member
    exact parts part member (free.part member)

end Carrying

end SchemaCheck
