import SchemaCheck.Check
import SchemaCheck.Proofs.Entries
import SchemaCheck.Proofs.Outcome

/-!
Objects whose properties come in groups. A group sees only the entries under its own names; where no
entry is surplus and no required one is missing, the outcome for the whole is collected from the
outcomes for the groups.
-/

namespace SchemaCheck

/-- Whether a key is one of some names. -/
def Value.isAmong (names : List String) : Value → Bool
  | .str key => names.contains key
  | _ => false

theorem Value.isAmong_iff {names : List String} {key : Value} :
    key.isAmong names = true ↔ ∃ name ∈ names, key = .str name := by
  cases key with
  | str text => simp [Value.isAmong]
  | _ => simp [Value.isAmong]

theorem Value.isAmong_flatten {groups : List (List String)} {key : Value} :
    key.isAmong groups.flatten = true ↔ ∃ names ∈ groups, key.isAmong names = true := by
  simp only [isAmong_iff, List.mem_flatten]
  constructor
  · intro found
    obtain ⟨name, ⟨names, inside, member⟩, same⟩ := found
    exact ⟨names, inside, name, member, same⟩
  · intro found
    obtain ⟨names, inside, name, member, same⟩ := found
    exact ⟨name, ⟨names, inside, member⟩, same⟩

/-- The entries under some names. -/
def restricted (names : List String) (entries : List (Value × Value)) : List (Value × Value) :=
  entries.filter fun entry => entry.1.isAmong names

theorem property_restricted {names : List String} {name : String} (inside : name ∈ names)
    (entries : List (Value × Value)) :
    Value.property name (restricted names entries) = Value.property name entries := by
  induction entries with
  | nil => rfl
  | cons entry rest ih =>
      obtain ⟨key, value⟩ := entry
      cases key with
      | str text =>
          by_cases listed : text ∈ names
          · have kept : (Value.str text).isAmong names = true := by simp [Value.isAmong, listed]
            rw [restricted, List.filter_cons, if_pos kept]
            by_cases found : text = name
            · simp only [Value.property, found, if_true]
            · simp only [Value.property, found, if_false]
              exact ih
          · have dropped : ¬(Value.str text).isAmong names = true := by
              simp [Value.isAmong, listed]
            have other : text ≠ name := fun same => listed (same ▸ inside)
            rw [restricted, List.filter_cons, if_neg dropped]
            simp only [Value.property, other, if_false]
            exact ih
      | _ => exact ih

namespace Check

variable {properties : List Property} {entries : List (Value × Value)}

def names (properties : List Property) : List String :=
  properties.map (·.name)

theorem mem_names {property : Property} (member : property ∈ properties) :
    property.name ∈ names properties :=
  List.mem_map_of_mem member

theorem isDeclared_eq (properties : List Property) (key : Value) :
    isDeclared properties key = key.isAmong (names properties) := by
  cases key with
  | str text =>
      rw [isDeclared, Value.isAmong, names, List.contains_eq_any_beq, List.any_map]
      refine congrArg (properties.any ·) (funext fun property => ?_)
      exact Bool.beq_comm
  | _ => rfl

theorem missing_eq_nil :
    missing properties entries = [] ↔ ∀ property ∈ properties, property.required = true →
      (Value.property property.name entries).isSome = true := by
  simp [missing, List.filter_eq_nil_iff, Option.ne_none_iff_isSome]

theorem surplus_eq_nil :
    surplus properties entries = [] ↔
      ∀ entry ∈ entries, entry.1.isAmong (names properties) = true := by
  simp [surplus, List.filter_eq_nil_iff, isDeclared_eq]

theorem missing_restricted (properties : List Property) (entries : List (Value × Value)) :
    missing properties (restricted (names properties) entries) = missing properties entries := by
  unfold missing
  congr 1
  apply List.filter_congr
  intro property member
  rw [property_restricted (mem_names member)]

theorem surplus_restricted (properties : List Property) (entries : List (Value × Value)) :
    surplus properties (restricted (names properties) entries) = [] :=
  surplus_eq_nil.mpr fun _ member => (List.mem_filter.mp member).2

theorem propertyOutcomes_restricted (properties : List Property)
    (entries : List (Value × Value)) :
    propertyOutcomes properties (restricted (names properties) entries) =
      propertyOutcomes properties entries := by
  apply List.map_congr_left
  intro property member
  rw [property_restricted (mem_names member)]

/-- Without anything missing or surplus, the properties decide. -/
theorem object_of_complete (path : Path) (present : missing properties entries = [])
    (declared : surplus properties entries = []) :
    object properties path (.dict entries) =
      (Outcome.collect (propertyOutcomes properties entries)).map rebuild := by
  simp [object, present, declared]

theorem complete_of_object {path : Path} {output : Value}
    (accepted : object properties path (.dict entries) = .ok output) :
    missing properties entries = [] ∧ surplus properties entries = [] := by
  by_cases present : missing properties entries = []
  · by_cases declared : surplus properties entries = []
    · exact ⟨present, declared⟩
    · simp [object, present, declared, Complaint.reject] at accepted
  · simp [object, present, Complaint.reject] at accepted

theorem object_restricted (path : Path) (present : missing properties entries = []) :
    object properties path (.dict (restricted (names properties) entries)) =
      (Outcome.collect (propertyOutcomes properties entries)).map rebuild := by
  rw [← propertyOutcomes_restricted]
  apply object_of_complete path
  · rw [missing_restricted, present]
  · exact surplus_restricted properties entries

/-- What a list of named values is as a dict. -/
def named (pairs : List (String × Value)) : List (Value × Value) :=
  pairs.map (Prod.map .str id)

theorem sameKey_str (left right : String) :
    Value.sameKey (.str left) (.str right) = (left == right) := by
  rw [Value.sameKey]

/-- Dicts that were built group by group, taken over in order, are the dict built of all. -/
theorem foldl_updated_named (groups : List (List (String × Value)))
    (left : List (String × Value)) :
    (groups.map fun pairs => named (Entries.ofNamed pairs)).foldl
        (Entries.updated Value.sameKey) (named left) =
      named (Entries.updated (fun left right => left == right) left groups.flatten) := by
  induction groups generalizing left with
  | nil => rfl
  | cons group rest ih =>
      have taken : Entries.updated Value.sameKey (named left) (named (Entries.ofNamed group)) =
          named (Entries.updated (fun left right => left == right) left group) :=
        calc Entries.updated Value.sameKey (named left) (named (Entries.ofNamed group))
            = named (Entries.updated (fun left right => left == right) left
                (Entries.ofNamed group)) := Entries.updated_renamed _ sameKey_str _ _
          _ = named (Entries.updated (fun left right => left == right) left group) :=
              congrArg named (Entries.updated_ofPairs (fun left right => beq_iff_eq) left group)
      rw [List.map_cons, List.foldl_cons, taken, ih, List.flatten_cons, Entries.updated_append]

section Groups

variable {groups : List (List Property)}

theorem missing_flatten :
    missing groups.flatten entries = [] ↔
      ∀ properties ∈ groups, missing properties entries = [] := by
  simp only [missing_eq_nil, List.forall_mem_flatten]

/-- What each group says of its own entries. -/
def shares (groups : List (List Property)) (path : Path) (entries : List (Value × Value)) :
    List (Outcome Value) :=
  groups.map fun properties =>
    object properties path (.dict (restricted (names properties) entries))

/-- What the properties of each group say, before dicts are built of it. -/
def gathered (groups : List (List Property)) (entries : List (Value × Value)) :
    Outcome (List (List (String × Value))) :=
  Outcome.collect (groups.map fun properties =>
    Outcome.collect (propertyOutcomes properties entries))

theorem collect_shares (path : Path) (present : missing groups.flatten entries = []) :
    Outcome.collect (shares groups path entries) =
      (gathered groups entries).map (List.map rebuild) := by
  rw [gathered, ← Outcome.collect_map, List.map_map]
  congr 1
  apply List.map_congr_left
  intro properties member
  exact object_restricted path (missing_flatten.mp present properties member)

theorem object_flatten (path : Path) (present : missing groups.flatten entries = [])
    (declared : surplus groups.flatten entries = []) :
    object groups.flatten path (.dict entries) =
      (gathered groups entries).map fun lists => rebuild lists.flatten := by
  have outcomes : propertyOutcomes groups.flatten entries =
      (groups.map (propertyOutcomes · entries)).flatten := List.map_flatten
  calc object groups.flatten path (.dict entries)
      = (Outcome.collect (propertyOutcomes groups.flatten entries)).map rebuild :=
        object_of_complete path present declared
    _ = ((gathered groups entries).map List.flatten).map rebuild := by
        rw [outcomes, Outcome.collect_flatten, List.map_map]
        rfl
    _ = (gathered groups entries).map fun lists => rebuild lists.flatten := by
        cases gathered groups entries <;> rfl

/-- The whole accepts what has no surplus entry and is accepted by every group as to its own. -/
theorem object_accepts_iff (path : Path) :
    (∃ output, object groups.flatten path (.dict entries) = .ok output) ↔
      surplus groups.flatten entries = [] ∧
        ∀ outcome ∈ shares groups path entries, ∃ output, outcome = .ok output := by
  rw [← Outcome.exists_collect_iff]
  constructor
  · intro accepted
    obtain ⟨output, accepted⟩ := accepted
    obtain ⟨present, declared⟩ := complete_of_object accepted
    refine ⟨declared, ?_⟩
    rw [collect_shares path present, exists_map_eq_ok]
    rw [object_flatten path present declared] at accepted
    exact exists_map_eq_ok.mp ⟨output, accepted⟩
  · intro each
    obtain ⟨declared, accepted⟩ := each
    have present : missing groups.flatten entries = [] := by
      apply missing_flatten.mpr
      intro properties member
      have share := Outcome.exists_collect_iff.mp accepted _ (List.mem_map_of_mem member)
      obtain ⟨output, share⟩ := share
      rw [← missing_restricted]
      exact (complete_of_object share).1
    rw [collect_shares path present, exists_map_eq_ok] at accepted
    rw [object_flatten path present declared, exists_map_eq_ok]
    exact accepted

theorem object_of_accepted {path : Path} {outputs : List Value}
    (declared : surplus groups.flatten entries = [])
    (accepted : shares groups path entries = outputs.map .ok) :
    ∃ dicts : List (List (Value × Value)), outputs = dicts.map .dict ∧
      object groups.flatten path (.dict entries) =
        .ok (.dict (dicts.foldl (Entries.updated Value.sameKey) [])) := by
  have each : ∀ outcome ∈ shares groups path entries, ∃ output, outcome = .ok output := by
    intro outcome member
    rw [accepted] at member
    obtain ⟨output, _, rfl⟩ := List.mem_map.mp member
    exact ⟨output, rfl⟩
  obtain ⟨output, whole⟩ := (object_accepts_iff path).mpr ⟨declared, each⟩
  have present := (complete_of_object whole).1
  have collected := Outcome.collect_eq_ok.mpr accepted
  rw [collect_shares path present, map_eq_ok] at collected
  obtain ⟨lists, known, rfl⟩ := collected
  refine ⟨lists.map fun pairs => named (Entries.ofNamed pairs), ?_, ?_⟩
  · rw [List.map_map]
    rfl
  · rw [object_flatten path present declared, known]
    have built := foldl_updated_named lists []
    exact congrArg (fun dict => Except.ok (Value.dict dict)) built.symm

theorem object_of_rejected {path : Path} {issues : List Issue}
    (present : missing groups.flatten entries = []) (declared : surplus groups.flatten entries = [])
    (rejected : .error issues ∈ shares groups path entries) :
    object groups.flatten path (.dict entries) =
      .error ((shares groups path entries).flatMap Outcome.issues) := by
  have collected := Outcome.collect_of_rejected rejected
  rw [collect_shares path present] at collected
  rw [object_flatten path present declared]
  cases known : gathered groups entries with
  | ok lists =>
      rw [known] at collected
      cases collected
  | error found =>
      rw [known] at collected
      cases collected
      rfl

end Groups

end Check

end SchemaCheck
