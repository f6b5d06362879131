import SchemaCheck.Proofs.Decomposition.Object
import SchemaCheck.Proofs.Placement
import SchemaCheck.Proofs.Steps

/-!
What acceptance says. For each check there is one statement on the values it accepts and what it
makes of them; the built-in tests, predicates and enums leave a value as it is.
-/

namespace SchemaCheck

namespace Check

variable {calls : Calls} {path : Path} {value output : Value}

/-- A test leaves what passes it as it is. -/
theorem test_eq_ok {passes : Bool} {complaint : Complaint} :
    (if passes then .ok value else complaint.reject path) = (.ok output : Outcome Value) ↔
      passes = true ∧ output = value := by
  cases passes with
  | false => simp [Complaint.reject]
  | true => simp [eq_comm]

theorem basic_eq_ok {kind : BasicKind} :
    basic kind path value = .ok output ↔ kind.accepts value = true ∧ output = value :=
  test_eq_ok

theorem predicate_eq_ok {test : Callable} {message : String} {detail : Option Detail}
    (accepted : predicate calls test message detail path value = .ok output) : output = value := by
  rw [predicate] at accepted
  split at accepted
  · cases accepted
  · exact (Except.ok.inj accepted).symm
  · cases accepted

theorem enum_eq_ok {listed : Value} {options : List Value} :
    enum listed options path value = .ok output ↔
      (∃ option ∈ options, value.equalsLiteral option = true) ∧ output = value := by
  rw [← List.any_eq_true]
  exact test_eq_ok

theorem optional_eq_ok {default : Value} {inner : Check} :
    optional default inner value = .ok output ↔
      value = .null ∧ output = default ∨ value ≠ .null ∧ inner value = .ok output := by
  cases value <;> simp [optional, Value.isNull, eq_comm]

theorem oneOf_eq_ok {branches : List Check} (accepted : oneOf branches value = .ok output) :
    ∃ branch ∈ branches, branch value = .ok output :=
  List.mem_map.mp (Outcome.mem_of_first_eq_ok accepted)

theorem indexed_eq_ok {checks : List Check} :
    indexed checks path value = .ok output ↔
      ∃ items results, value.items? = some items ∧ items.length = checks.length ∧
        List.zipWith (fun check item => check item) checks items = results.map .ok ∧
          output = .list results := by
  rw [indexed]
  cases listed : value.items? with
  | none => simp [Complaint.reject]
  | some items =>
      by_cases sized : items.length = checks.length
      · simp only [sized, ne_eq, not_true_eq_false, if_false, map_eq_ok, Outcome.collect_eq_ok,
          Option.some.injEq]
        constructor
        · intro found
          rcases found with ⟨results, accepted, rfl⟩
          exact ⟨items, results, rfl, sized, accepted, rfl⟩
        · intro found
          rcases found with ⟨_, results, rfl, _, accepted, rfl⟩
          exact ⟨results, accepted, rfl⟩
      · simp [sized, Complaint.reject]

/-- What each check accepted, and what was made of each item. -/
theorem forall₂_of_accepted {checks : List Check} {items results : List Value}
    (length : items.length = checks.length)
    (accepted : List.zipWith (fun check item => check item) checks items = results.map .ok) :
    List.Forall₂ (fun check result => ∃ item, check item = .ok result) checks results ∧
      List.Forall₂ (fun item result => ∃ check ∈ checks, check item = .ok result)
        items results := by
  induction checks generalizing items results with
  | nil =>
      cases List.length_eq_zero_iff.mp length
      cases List.map_eq_nil_iff.mp accepted.symm
      exact ⟨.nil, .nil⟩
  | cons check rest ih =>
      rcases List.exists_cons_of_length_eq_add_one length with ⟨item, others, rfl⟩
      rcases List.map_eq_cons_iff.mp accepted.symm with ⟨result, more, rfl, own, later⟩
      rcases ih (Nat.succ.inj length) later.symm with ⟨byChecks, byItems⟩
      refine ⟨.cons ⟨item, own.symm⟩ byChecks, .cons ⟨check, List.mem_cons_self, own.symm⟩ ?_⟩
      apply byItems.imp
      intro item result found
      rcases found with ⟨check, member, accepted⟩
      exact ⟨check, List.mem_cons_of_mem _ member, accepted⟩

theorem propertyOutcomes_eq_ok {properties : List Property} {entries : List (Value × Value)}
    {pairs : List (String × Value)} :
    propertyOutcomes properties entries = pairs.map .ok ↔
      List.Forall₂ (fun property pair => property.name = pair.1 ∧
        property.check ((Value.property property.name entries).getD .null) = .ok pair.2)
        properties pairs := by
  rw [propertyOutcomes, map_eq_map_iff]
  have same : ∀ (property : Property) (pair : String × Value),
      (property.check ((Value.property property.name entries).getD .null)).map
          (fun value => (property.name, value)) = .ok pair ↔
        property.name = pair.1 ∧
          property.check ((Value.property property.name entries).getD .null) = .ok pair.2 := by
    intro property pair
    rcases pair with ⟨name, value⟩
    rw [map_eq_ok]
    constructor
    · intro found
      rcases found with ⟨_, accepted, ⟨⟩⟩
      exact ⟨rfl, accepted⟩
    · intro found
      rcases found with ⟨rfl, accepted⟩
      exact ⟨value, accepted, rfl⟩
  simp only [same]

theorem object_eq_ok {properties : List Property}
    (accepted : object properties path value = .ok output) :
    ∃ entries pairs, value = .dict entries ∧ missing properties entries = [] ∧
      surplus properties entries = [] ∧
        propertyOutcomes properties entries = pairs.map .ok ∧ output = rebuild pairs := by
  cases value with
  | dict entries =>
      rcases complete_of_object accepted with ⟨present, declared⟩
      rw [object_of_complete path present declared] at accepted
      rcases map_eq_ok.mp accepted with ⟨pairs, collected, rfl⟩
      exact ⟨entries, pairs, rfl, present, declared, Outcome.collect_eq_ok.mp collected, rfl⟩
  | _ => cases accepted

/-- What relates each accepted value of every check to what was made of it relates those of the
chain. -/
theorem chain_related {R : Value → Value → Prop} (refl : ∀ value, R value value)
    (trans : ∀ {value between output}, R value between → R between output → R value output)
    {checks : List Check}
    (each : ∀ check ∈ checks, ∀ {value output}, check value = .ok output → R value output)
    {value output : Value} (accepted : chain checks value = .ok output) : R value output := by
  induction checks generalizing value with
  | nil =>
      rw [← Except.ok.inj accepted]
      exact refl value
  | cons check rest ih =>
      rcases bind_eq_ok.mp accepted with ⟨between, first, later⟩
      apply trans (each check List.mem_cons_self first)
      exact ih (fun check member => each check (List.mem_cons_of_mem _ member)) later

end Check

theorem Value.mem_of_property {name : String} {entries : List (Value × Value)} {held : Value}
    (found : Value.property name entries = some held) : (.str name, held) ∈ entries := by
  fun_induction Value.property name entries with
  | case1 => cases found
  | case2 value rest =>
      cases found
      exact List.mem_cons_self
  | case3 key value rest different ih => exact List.mem_cons_of_mem _ (ih found)
  | case4 entry rest other ih => exact List.mem_cons_of_mem _ (ih found)

theorem Value.property_eq_none {name : String} {entries : List (Value × Value)} :
    property name entries = none ↔ ∀ held, (.str name, held) ∉ entries := by
  constructor
  · intro absent held member
    induction entries with
    | nil => cases member
    | cons entry rest ih =>
        rcases entry with ⟨key, value⟩
        rcases List.mem_cons.mp member with now | later
        · cases now
          rw [property, if_pos rfl] at absent
          cases absent
        · cases key with
          | str text =>
              rw [property] at absent
              split at absent
              · cases absent
              · exact ih absent later
          | _ => exact ih absent later
  · intro outside
    cases found : property name entries with
    | none => rfl
    | some held => exact absurd (mem_of_property found) (outside held)

theorem Value.property_named {pairs : List (String × Value)} (distinct : (pairs.map (·.1)).Nodup)
    {name : String} {value : Value} (member : (name, value) ∈ pairs) :
    Value.property name (Check.named pairs) = some value := by
  induction pairs with
  | nil => cases member
  | cons head rest ih =>
      rcases head with ⟨first, held⟩
      rcases List.nodup_cons.mp distinct with ⟨absent, others⟩
      rw [Check.named, List.map_cons, Prod.map_apply, Value.property]
      rcases List.mem_cons.mp member with now | later
      · cases now
        exact if_pos rfl
      · have different : first ≠ name := by
          intro same
          have inside : name ∈ rest.map (·.1) := List.mem_map_of_mem later
          exact absent (same ▸ inside)
        rw [if_neg different]
        exact ih others later

namespace Kind

/-- A step of this kind returns what it accepts. -/
def keeps : Kind → Bool
  | basic _ => true
  | predicate => true
  | enum => true
  | _ => false

end Kind

namespace Schema

def Keeps (step : Schema) : Prop :=
  ∃ kind, step.kind = .ok kind ∧ kind.keeps = true

end Schema

section Keeping

variable {calls : Calls} {path : Path} {check : Check}

theorem Schema.keeps_of_name {name : String} {kind : BasicKind}
    (found : BasicKind.ofName? name = some kind) :
    Schema.Keeps (.str name) :=
  ⟨.basic kind, by rw [Schema.kind, found], rfl⟩

theorem checkOfStep_keeps {step : Schema} (keeps : step.Keeps)
    (compiled : checkOfStep calls step path = .ok check) {value output : Value}
    (accepted : check value = .ok output) : output = value := by
  rcases keeps with ⟨kind, known, keeps⟩
  cases turnsInto_of_compiled compiled with
  | basic found => exact (Check.basic_eq_ok.mp accepted).2
  | predicate test detail worded => exact Check.predicate_eq_ok accepted
  | enum literals => exact (Check.enum_eq_ok.mp accepted).2
  | _ =>
      cases known
      cases keeps

end Keeping

section Fields

variable {calls : Calls} {path : Path}

theorem accepted_at_root {schema : Schema} {check : Check} {value output : Value}
    (compiled : compile calls schema path = .ok check) (accepted : check value = .ok output) :
    ∃ root, compile calls schema [] = .ok root ∧ root value = .ok output := by
  rcases eq_under_of_compiled compiled with ⟨root, known, rfl⟩
  exact ⟨root, known, Outcome.under_eq_ok.mp accepted⟩

/-- What the schema of a field makes of the value under its name, or of nothing. -/
structure Fills (calls : Calls) (entries : List (Value × Value)) (field : String × Schema)
    (pair : String × Value) : Prop where
  name : field.1 = pair.1
  accepted : ∃ check, compile calls field.2 [] = .ok check ∧
    check ((Value.property field.1 entries).getD .null) = .ok pair.2

/-- An accepted dict is taken for one with what the last field under each name makes of it. -/
theorem fills_of_accepted {fields : List (String × Schema)} {properties : List Check.Property}
    {value output : Value} (compiled : propertiesOfFields calls fields path = .ok properties)
    (accepted : Check.object properties path value = .ok output) :
    ∃ entries pairs, value = .dict entries ∧ Check.missing properties entries = [] ∧
      Check.surplus properties entries = [] ∧
        List.Forall₂ (Fills calls entries) (Entries.ofNamed fields) pairs ∧
          output = .dict (Check.named pairs) := by
  rcases Check.object_eq_ok accepted with ⟨entries, pairs, rfl, present, declared, outcomes, rfl⟩
  have matched := propertiesOfFields_eq_ok.mp compiled
  have filled : List.Forall₂ (Fills calls entries) fields pairs := by
    refine forall₂_trans ?_ matched (Check.propertyOutcomes_eq_ok.mp outcomes)
    intro field property pair compiles found
    rcases found with ⟨named, accepted⟩
    rw [compiles.name] at named accepted
    exact ⟨named, accepted_at_root compiles.check accepted⟩
  have kept : List.Forall₂ (Fills calls entries) (Entries.ofNamed fields) (Entries.ofNamed pairs) :=
    Entries.ofPairs_forall₂ (fun _ _ => beq_iff_eq) (fun _ _ fills => fills.name) filled
  exact ⟨entries, Entries.ofNamed pairs, rfl, present, declared, kept, rfl⟩

section Filled

variable {fields : List (String × Schema)} {entries : List (Value × Value)}
  {pairs : List (String × Value)}
  (filled : List.Forall₂ (Fills calls entries) (Entries.ofNamed fields) pairs)

include filled

theorem names_of_fills : (Entries.ofNamed fields).map (·.1) = pairs.map (·.1) := by
  apply map_eq_map_iff.mpr
  exact filled.imp fun _ _ fills => fills.name

theorem nodup_of_fills : (pairs.map (·.1)).Nodup := by
  rw [← names_of_fills filled]
  exact Entries.nodup_ofPairs (fun _ _ => beq_iff_eq) fields

/-- Where the value of a field is found in what was accepted. -/
theorem property_of_fills {field : String × Schema} (member : field ∈ Entries.ofNamed fields) :
    ∃ output, Fills calls entries field (field.1, output) ∧
      Value.property field.1 (Check.named pairs) = some output := by
  rcases exists_mem_of_forall₂ filled.flip member with ⟨⟨name, output⟩, inside, fills⟩
  have same : field.1 = name := fills.name
  subst same
  exact ⟨output, fills, Value.property_named (nodup_of_fills filled) inside⟩

end Filled

end Fields

end SchemaCheck
