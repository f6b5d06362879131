import SchemaCheck.Proofs.Decomposition.Object
import SchemaCheck.Proofs.Placement

/-!
What the check of an object says about missing names. It reports them before it looks at any value,
and no field can report the same in its place, so a report of missing names lists the required names
that are absent.
-/

namespace SchemaCheck

theorem missing_injective {α : Type} {path : Path} {left right : List String}
    (same : (Complaint.reject path (.missing left) : Outcome α) =
      Complaint.reject path (.missing right)) : left = right := by
  have details : some (Detail.expected (.list (left.map .str))) =
      some (Detail.expected (.list (right.map .str))) :=
    congrArg Issue.detail (List.head_eq_of_cons_eq (Except.error.inj same))
  have values : left.map Value.str = right.map Value.str :=
    Value.list.inj (Detail.expected.inj (Option.some.inj details))
  exact List.map_injective_iff.mpr (fun _ _ => Value.str.inj) values

namespace Check

variable {properties : List Property} {entries : List (Value × Value)}

theorem object_of_missing (path : Path) (absent : missing properties entries ≠ []) :
    object properties path (.dict entries) =
      Complaint.reject path (.missing (missing properties entries)) := by
  simp [object, absent]

theorem object_of_surplus (path : Path) (present : missing properties entries = [])
    (undeclared : surplus properties entries ≠ []) :
    object properties path (.dict entries) =
      Complaint.reject path (.surplus (surplus properties entries)) := by
  simp [object, present, undeclared]

theorem mem_missing {name : String} (absent : Value.property name entries = none) :
    name ∈ missing properties entries ↔
      ∃ property ∈ properties, property.name = name ∧ property.required = true := by
  simp only [missing, List.mem_map, List.mem_filter, Bool.and_eq_true, Option.isNone_iff_eq_none]
  constructor
  · intro found
    obtain ⟨property, ⟨member, required, _⟩, same⟩ := found
    exact ⟨property, member, same, required⟩
  · intro found
    obtain ⟨property, member, same, required⟩ := found
    exact ⟨property, ⟨member, required, same ▸ absent⟩, same⟩

end Check

section Issues

variable {calls : Calls} {fields : List (String × Schema)} {properties : List Check.Property}

/-- What the check of a field reports lies below the object. -/
theorem Check.Property.Compiles.path_ne_nil {field : String × Schema} {property : Check.Property}
    (compiled : property.Compiles calls [] field) {value : Value} {issue : Issue}
    (member : issue ∈ (property.check value).issues) : issue.path ≠ [] := by
  rcases eq_under_of_compiled compiled.check with ⟨root, _, moved⟩
  rw [moved, Check.under, Outcome.issues_under] at member
  rcases List.mem_map.mp member with ⟨inner, _, rfl⟩
  exact List.cons_ne_nil _ _

theorem complete_ne_missing (compiled : propertiesOfFields calls fields [] = .ok properties)
    (entries : List (Value × Value)) (names : List String) :
    (Outcome.collect (Check.propertyOutcomes properties entries)).map Check.rebuild ≠
      Complaint.reject [] (.missing names) := by
  intro same
  have reported : (Complaint.missing names).issueAt [] ∈
      (Outcome.collect (Check.propertyOutcomes properties entries)).issues := by
    cases collected : Outcome.collect (Check.propertyOutcomes properties entries) with
    | ok values =>
        rw [collected] at same
        cases same
    | error issues =>
        rw [collected] at same
        cases same
        exact List.mem_cons_self
  rw [Outcome.issues_collect] at reported
  obtain ⟨outcome, member, inside⟩ := List.mem_flatMap.mp reported
  obtain ⟨property, known, rfl⟩ := List.mem_map.mp member
  have matched := propertiesOfFields_eq_ok.mp compiled
  obtain ⟨field, own⟩ := exists_forall₂_iff.mp ⟨fields, matched.flip⟩ property known
  have below : (Complaint.missing names).issueAt [] ∈
      (property.check ((Value.property property.name entries).getD .null)).issues := by
    cases answer : property.check ((Value.property property.name entries).getD .null) with
    | ok value =>
        rw [answer] at inside
        cases inside
    | error issues =>
        rw [answer] at inside
        exact inside
  exact own.path_ne_nil below rfl

/-- A report of missing names lists all of them, and nothing else makes one. -/
theorem object_eq_missing_iff (compiled : propertiesOfFields calls fields [] = .ok properties)
    (entries : List (Value × Value)) {names : List String} :
    Check.object properties [] (.dict entries) = Complaint.reject [] (.missing names) ↔
      Check.missing properties entries = names ∧ names ≠ [] := by
  constructor
  · intro reported
    by_cases none : Check.missing properties entries = []
    · by_cases declared : Check.surplus properties entries = []
      · rw [Check.object_of_complete [] none declared] at reported
        exact absurd reported (complete_ne_missing compiled entries names)
      · have message := congrArg (fun outcome => outcome.issues.map Issue.message) reported
        simp [Check.object, none, declared, Complaint.reject, Complaint.issueAt,
          Complaint.message, Outcome.issues] at message
    · rw [Check.object_of_missing [] none] at reported
      have same := missing_injective reported
      exact ⟨same, same ▸ none⟩
  · intro found
    rcases found with ⟨rfl, absent⟩
    exact Check.object_of_missing [] absent

/-- Objects that answer the same to a dict miss the same names in it. -/
theorem missing_eq_of_object_eq {others : List (String × Schema)} {rest : List Check.Property}
    (left : propertiesOfFields calls fields [] = .ok properties)
    (right : propertiesOfFields calls others [] = .ok rest) {entries : List (Value × Value)}
    (same : Check.object properties [] (.dict entries) = Check.object rest [] (.dict entries)) :
    Check.missing properties entries = Check.missing rest entries := by
  by_cases absent : Check.missing properties entries = []
  · by_cases other : Check.missing rest entries = []
    · rw [absent, other]
    · rw [Check.object_of_missing [] other] at same
      exact ((object_eq_missing_iff left entries).mp same).1
  · rw [Check.object_of_missing [] absent] at same
    exact ((object_eq_missing_iff right entries).mp same.symm).1.symm

end Issues

end SchemaCheck
