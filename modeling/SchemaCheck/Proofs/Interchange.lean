import SchemaCheck.Proofs.Absence

/-!
What may stand for a value that may be absent. An object whose schema under a name opens with an
optional step answers the same whether the name is left out, holds nothing or holds the fallback,
and wherever among the other entries it stands.
-/

namespace SchemaCheck

namespace Value

variable {name : String} {front back : List (Value × Value)}

theorem property_inserted_of_ne {other : String} (different : other ≠ name) (held : Value) :
    property other (front ++ (.str name, held) :: back) = property other (front ++ back) := by
  induction front with
  | nil => simp [property, different.symm]
  | cons entry rest ih =>
      obtain ⟨key, value⟩ := entry
      cases key <;> simp [property, ih]

theorem property_inserted (absent : property name (front ++ back) = none) (held : Value) :
    property name (front ++ (.str name, held) :: back) = some held := by
  induction front with
  | nil => simp [property]
  | cons entry rest ih =>
      obtain ⟨key, value⟩ := entry
      cases key with
      | str text =>
          by_cases same : text = name
          · simp [property, same] at absent
          · simp only [List.cons_append, property, if_neg same] at absent ⊢
            exact ih absent
      | _ => exact ih absent

end Value

namespace Check

variable {properties : List Property} {name : String} {front back : List (Value × Value)}

theorem missing_inserted
    (waived : ∀ property ∈ properties, property.name = name → property.required = false)
    (held : Value) :
    missing properties (front ++ (.str name, held) :: back) =
      missing properties (front ++ back) := by
  unfold missing
  congr 1
  apply List.filter_congr
  intro property member
  by_cases same : property.name = name
  · simp [waived property member same]
  · rw [Value.property_inserted_of_ne same]

theorem surplus_inserted (declared : isDeclared properties (.str name) = true) (held : Value) :
    surplus properties (front ++ (.str name, held) :: back) =
      surplus properties (front ++ back) := by
  simp [surplus, declared]

/-- An object does not notice an entry under a name that it declares without requiring it, if every
property of that name answers to what the entry holds as it does to nothing. -/
theorem object_inserted {path : Path} {held : Value}
    (absent : Value.property name (front ++ back) = none)
    (declared : isDeclared properties (.str name) = true)
    (waived : ∀ property ∈ properties, property.name = name → property.required = false)
    (alike : ∀ property ∈ properties, property.name = name →
      property.check held = property.check .null) :
    object properties path (.dict (front ++ (.str name, held) :: back)) =
      object properties path (.dict (front ++ back)) := by
  have outcomes : propertyOutcomes properties (front ++ (.str name, held) :: back) =
      propertyOutcomes properties (front ++ back) := by
    apply List.map_congr_left
    intro property member
    by_cases same : property.name = name
    · rw [same, Value.property_inserted absent, absent, Option.getD_some, Option.getD_none,
        alike property member same]
    · rw [Value.property_inserted_of_ne same]
  simp only [object, missing_inserted waived, surplus_inserted declared, outcomes]

end Check

/-- What opens with an optional step goes on from the same default whether it is given the fallback
or nothing. -/
theorem answers_fallback_as_null {calls : Calls} {path : Path} {schema inner : Schema}
    {fallback : Value} {rest : List Schema} {check : Check}
    (shape : schema.steps = .step (.optional inner fallback) :: rest)
    (compiled : compile calls schema path = .ok check) : check fallback = check .null := by
  rw [compile_eq, shape] at compiled
  obtain ⟨own, default, later, _, accepted, _, answers⟩ := optional_then compiled
  have filled : Check.optional default own fallback = .ok default := by
    by_cases null : fallback = .null
    · exact Check.optional_eq_ok.mpr (.inl ⟨null, rfl⟩)
    · exact Check.optional_eq_ok.mpr (.inr ⟨null, accepted⟩)
  calc check fallback
      = Check.optional default own fallback >>= later := answers fallback
    _ = Check.optional default own .null >>= later := by
        rw [filled]
        rfl
    _ = check .null := (answers .null).symm

/-- An object that declares a name once, with a schema that may be absent, answers the same to a
dict without the name, to one that holds nothing under it and to one that holds the fallback,
wherever the name stands. -/
theorem absent_null_fallback_agree {calls : Calls} {path : Path} {fields : Fields} {check : Check}
    (compiled : compile calls (.step (.object fields)) path = .ok check) {name : String}
    {schema : Schema}
    (once : schemasUnder name fields = [schema]) (optional : schema.mayBeAbsent = true) :
    ∃ inner fallback rest, schema.steps = .step (.optional inner fallback) :: rest ∧
      ∀ front back, Value.property name (front ++ back) = none →
        check (.dict (front ++ (.str name, .null) :: back)) = check (.dict (front ++ back)) ∧
        check (.dict (front ++ (.str name, fallback) :: back)) = check (.dict (front ++ back)) := by
  rw [compile_object] at compiled
  obtain ⟨properties, known, rfl⟩ := map_eq_ok.mp compiled
  have matched := propertiesOfFields_eq_ok.mp known
  obtain ⟨field, inside, rfl, rfl⟩ := mem_schemasUnder.mp (once ▸ List.mem_singleton_self schema)
  have compiles : ∀ property ∈ properties, property.name = field.1 →
      property.Compiles calls path (field.1, field.2) := by
    intro property member same
    obtain ⟨source, listed, compiles⟩ := exists_mem_of_forall₂ matched member
    have named : source.1 = field.1 := compiles.name.symm.trans same
    have only := mem_schemasUnder.mpr ⟨source, listed, named, rfl⟩
    rw [once, List.mem_singleton] at only
    rwa [← named, ← only]
  have waived : ∀ property ∈ properties, property.name = field.1 → property.required = false := by
    intro property member same
    simp [(compiles property member same).required, optional]
  obtain ⟨property, present, own⟩ := exists_mem_of_forall₂ matched.flip inside
  have declared : Check.isDeclared properties (.str field.1) = true :=
    List.any_eq_true.mpr ⟨property, present, beq_iff_eq.mpr own.name⟩
  obtain ⟨root, ownCompiled, _⟩ := eq_under_of_compiled own.check
  obtain ⟨inner, fallback, rest, shape⟩ := Schema.steps_of_mayBeAbsent ⟨root, ownCompiled⟩ optional
  refine ⟨inner, fallback, rest, shape, fun front back absent => ⟨?_, ?_⟩⟩
  · exact Check.object_inserted absent declared waived fun _ _ _ => rfl
  · apply Check.object_inserted absent declared waived
    intro property member same
    exact answers_fallback_as_null shape (compiles property member same).check

def labelledNumber : Fields :=
  ("n", .str "string") :: guardedNumber 3

theorem labelledNumber_interchanged :
    ∃ check, compile aboveOne (.step (.object labelledNumber)) [] = .ok check ∧
      check (.dict [(.str "n", .str "a")]) =
        .ok (.dict [(.str "n", .str "a"), (.str "k", .int 3)]) ∧
      ∀ held ∈ [Value.null, .int 3],
        check (.dict [(.str "k", held), (.str "n", .str "a")]) =
          check (.dict [(.str "n", .str "a")]) := by
  have answers : (compile aboveOne (.step (.object labelledNumber)) []).map
      (fun check => check (.dict [(.str "n", .str "a")])) =
        .ok (.ok (.dict [(.str "n", .str "a"), (.str "k", .int 3)])) := by
    cbv
  obtain ⟨check, compiled, accepted⟩ := map_eq_ok.mp answers
  have once : schemasUnder "k" labelledNumber = [.list [.step (.optional (.str "number") (.int 3)),
      .step (.predicate ⟨"large", 0⟩ "too small" none)]] := by
    cbv
  obtain ⟨inner, fallback, rest, shape, alike⟩ := absent_null_fallback_agree compiled once rfl
  cases shape
  obtain ⟨null, filled⟩ := alike [] [(.str "n", .str "a")] (by cbv)
  exact ⟨check, compiled, accepted,
    List.forall_mem_cons.mpr ⟨null, List.forall_mem_singleton.mpr filled⟩⟩

end SchemaCheck
