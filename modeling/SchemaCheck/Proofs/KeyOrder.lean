import SchemaCheck.Proofs.Arrangement
import SchemaCheck.Proofs.Decomposition
import SchemaCheck.Proofs.KeyOrder.Agreement
import SchemaCheck.Proofs.Missing
import SchemaCheck.Proofs.Within

/-!
Checks do not care for the order of keys. Run on two values that differ in that order alone, a check
accepts both or rejects both, and its outcomes agree, as long as this holds of the callables that
come up in the schema.
-/

namespace SchemaCheck

namespace Check

variable {calls : Calls} {path : Path}

def IgnoresOrder (check : Check) : Prop :=
  ∀ left right : Value, left.Reordered right →
    Outcome.Agrees Value.Reordered (check left) (check right)

theorem test_ignoresOrder {passes : Value → Bool} {complaint : Complaint}
    (same : ∀ left right : Value, left.Reordered right → passes left = passes right) :
    IgnoresOrder fun value => if passes value then .ok value else complaint.reject path := by
  intro left right reordered
  dsimp only
  rw [same left right reordered]
  split
  · exact .ok reordered
  · exact complaint.reject_agrees_self path

/-- A predicate passes what it answers true on, and only true itself is true in another order. -/
theorem predicate_ignoresOrder {test : Callable} {message : String} {detail : Option Detail}
    (ignores : calls.IgnoresOrder test) :
      (predicate calls test message detail path).IgnoresOrder := by
  intro left right reordered
  have replies := ignores left right reordered
  rw [predicate, predicate]
  generalize calls test left = first, calls test right = second at replies
  cases replies with
  | value values =>
      cases values with
      | same =>
          split
          · rename_i impossible
            cases impossible
          · exact .ok reordered
          · exact Complaint.reject_agrees_self _ path
      | _ => exact Complaint.reject_agrees_self _ path
  | outcome => exact Complaint.reject_agrees_self _ path
  | raised => exact Complaint.reject_agrees_self _ path

theorem function_ignoresOrder {callable : Callable} (ignores : calls.IgnoresOrder callable) :
    (function calls callable path).IgnoresOrder := by
  intro left right reordered
  have replies := ignores left right reordered
  rw [function, function]
  generalize calls callable left = first, calls callable right = second at replies
  cases replies with
  | @value first second values =>
      exact Complaint.reject_agrees (.noOutcome first) (.noOutcome second) rfl
        (.some (.found values)) path
  | outcome agrees => exact agrees.under path
  | raised => exact Complaint.reject_agrees_self _ path

theorem optional_ignoresOrder {default : Value} {inner : Check} (ignores : inner.IgnoresOrder) :
    (optional default inner).IgnoresOrder := by
  intro left right reordered
  rw [optional, optional, reordered.isNull_eq]
  split
  · exact .ok (.same default)
  · exact ignores left right reordered

theorem oneOf_ignoresOrder {branches : List Check}
    (ignores : ∀ branch ∈ branches, branch.IgnoresOrder) :
    (oneOf branches).IgnoresOrder := by
  intro left right reordered
  apply Outcome.Agrees.first
  rw [List.forall₂_map_left_iff, List.forall₂_map_right_iff]
  exact List.forall₂_same.mpr fun branch member => ignores branch member left right reordered

theorem chain_ignoresOrder {checks : List Check} (ignores : ∀ check ∈ checks, check.IgnoresOrder) :
    (chain checks).IgnoresOrder := by
  induction checks with
  | nil => exact fun left right reordered => .ok reordered
  | cons check rest ih =>
      rcases List.forall_mem_cons.mp ignores with ⟨first, others⟩
      intro left right reordered
      exact (first left right reordered).bind (ih others)

theorem zipWith_agrees {checks : List Check} (ignores : ∀ check ∈ checks, check.IgnoresOrder)
    {lefts rights : List Value} (each : List.Forall₂ Value.Reordered lefts rights) :
    List.Forall₂ (Outcome.Agrees Value.Reordered)
      (List.zipWith (fun check item => check item) checks lefts)
      (List.zipWith (fun check item => check item) checks rights) := by
  induction each generalizing checks with
  | nil =>
      rw [List.zipWith_nil_right]
      exact .nil
  | @cons left right _ _ first _ ih =>
      cases checks with
      | nil => exact .nil
      | cons check rest =>
          rcases List.forall_mem_cons.mp ignores with ⟨own, others⟩
          exact .cons (own left right first) (ih others)

theorem indexed_ignoresOrder {checks : List Check}
    (ignores : ∀ check ∈ checks, check.IgnoresOrder) :
    (indexed checks path).IgnoresOrder := by
  intro left right reordered
  have items := reordered.items
  rw [indexed, indexed]
  generalize left.items? = first, right.items? = second at items
  cases items with
  | none => exact Complaint.reject_agrees_self _ path
  | some each =>
      dsimp only
      rw [each.length_eq]
      split
      · exact Complaint.reject_agrees_self _ path
      · exact (Outcome.Agrees.collect (zipWith_agrees ignores each)).map fun _ _ results =>
          .list results

section Objects

variable {properties : List Property} {lefts rights : List (Value × Value)}

theorem keysDistinct_rebuilt (pairs : List (String × Value)) :
    KeysDistinct (named (Entries.ofNamed pairs)) := by
  have distinct := Entries.nodup_ofPairs (fun left right : String => beq_iff_eq) pairs
  apply List.pairwise_map.mpr
  apply (List.pairwise_map.mp distinct).imp
  intro left right different
  exact (sameKey_str left.1 right.1).trans (beq_eq_false_iff_ne.mpr different)

/-- Results under the same names, in the same order, make up dicts in that order. -/
theorem rebuild_reordered {pairs others : List (String × Value)}
    (each : List.Forall₂
      (fun pair other => pair.1 = other.1 ∧ pair.2.Reordered other.2) pairs others) :
    (rebuild pairs).Reordered (rebuild others) := by
  have matched : List.Forall₂ (fun pair other => pair.1 = other.1 ∧ pair.2.Reordered other.2)
      (Entries.ofNamed pairs) (Entries.ofNamed others) :=
    Entries.ofPairs_forall₂ (fun _ _ => beq_iff_eq) (fun _ _ related => related.1) each
  refine Value.Reordered.dict (keysDistinct_rebuilt pairs) (keysDistinct_rebuilt others)
    (.refl _) ?_ ?_
  · rw [map_eq_map_iff, List.forall₂_map_left_iff, List.forall₂_map_right_iff]
    exact matched.imp fun _ _ related => congrArg Value.str related.1
  · rw [List.forall₂_map_left_iff, List.forall₂_map_right_iff, List.forall₂_map_left_iff,
      List.forall₂_map_right_iff]
    exact matched.imp fun _ _ related => related.2

variable (reordered : Value.Reordered (.dict lefts) (.dict rights))

include reordered

theorem missing_eq : missing properties lefts = missing properties rights := by
  unfold missing
  congr 1
  apply List.filter_congr
  intro property _
  have held := reordered.property property.name
  generalize Value.property property.name lefts = first,
    Value.property property.name rights = second at held ⊢
  cases held <;> rfl

theorem surplus_perm : (surplus properties lefts).Perm (surplus properties rights) :=
  reordered.keys_perm.filter _

theorem propertyOutcomes_agree (ignores : ∀ property ∈ properties, property.check.IgnoresOrder) :
    List.Forall₂ (Outcome.Agrees fun pair other => pair.1 = other.1 ∧ pair.2.Reordered other.2)
      (propertyOutcomes properties lefts) (propertyOutcomes properties rights) := by
  rw [propertyOutcomes, propertyOutcomes, List.forall₂_map_left_iff, List.forall₂_map_right_iff]
  apply List.forall₂_same.mpr
  intro property member
  have held : Value.Reordered ((Value.property property.name lefts).getD .null)
      ((Value.property property.name rights).getD .null) := by
    have found := reordered.property property.name
    generalize Value.property property.name lefts = first,
      Value.property property.name rights = second at found ⊢
    cases found with
    | none => exact .same .null
    | some held => exact held
  exact (ignores property member _ _ held).map fun _ _ results => ⟨rfl, results⟩

theorem object_dict_agrees (ignores : ∀ property ∈ properties, property.check.IgnoresOrder) :
    Outcome.Agrees Value.Reordered (object properties path (.dict lefts))
      (object properties path (.dict rights)) := by
  have absent : missing properties lefts = missing properties rights := missing_eq reordered
  have others : (surplus properties lefts).Perm (surplus properties rights) :=
    surplus_perm reordered
  by_cases present : missing properties lefts = []
  · by_cases declared : surplus properties lefts = []
    · have declaredRight : surplus properties rights = [] := (declared ▸ others).nil_eq.symm
      rw [object_of_complete path present declared,
        object_of_complete path (absent ▸ present) declaredRight]
      exact (Outcome.Agrees.collect (propertyOutcomes_agree reordered ignores)).map
        fun _ _ => rebuild_reordered
    · have undeclaredRight : surplus properties rights ≠ [] := by
        intro none
        exact declared (none ▸ others).eq_nil
      rw [object_of_surplus path present declared,
        object_of_surplus path (absent ▸ present) undeclaredRight]
      exact Complaint.reject_agrees (.surplus (surplus properties lefts))
        (.surplus (surplus properties rights)) rfl
          (.some (.listed (Value.Reordered.refl_all _) others))
        path
  · rw [object_of_missing path present, object_of_missing path (absent ▸ present), absent]
    exact Complaint.reject_agrees_self _ path

end Objects

theorem object_ignoresOrder {properties : List Property}
    (ignores : ∀ property ∈ properties, property.check.IgnoresOrder) :
    (object properties path).IgnoresOrder := by
  intro left right reordered
  cases left with
  | dict lefts =>
      cases reordered with
      | same => exact object_dict_agrees (.same _) ignores
      | dict distinct distinctRight perm keys each =>
          exact object_dict_agrees (.dict distinct distinctRight perm keys each) ignores
  | _ => cases reordered <;> exact Complaint.reject_agrees_self _ path

end Check

namespace Schema

/-- What the step calls. -/
def callable? : Schema → Option Callable
  | .function callable => some callable
  | .step (.predicate test ..) => some test
  | _ => none

/-- No predicate and no function in the schema cares for the order of keys. -/
def CallsIgnoreOrder (calls : Calls) (schema : Schema) : Prop :=
  ∀ inner, Within inner schema → ∀ callable ∈ inner.callable?, calls.IgnoresOrder callable

theorem CallsIgnoreOrder.within {calls : Calls} {schema inner : Schema}
    (ignore : schema.CallsIgnoreOrder calls) (inside : Within inner schema) :
    inner.CallsIgnoreOrder calls :=
  fun deepest deeper => ignore deepest (deeper.trans inside)

/-- What is called in an arranged chain stood in the chain before. -/
theorem within_of_callable {schema step : Schema} {arranged : List Schema} {callable : Callable}
    (success : Chain.arrange schema.steps = .ok arranged) (member : step ∈ arranged)
    (called : callable ∈ step.callable?) : Within step schema := by
  rcases Chain.mem_or_merged_of_arrange success member with before | object | enum
  · exact .step before
  · rcases eq_object_of_kind object with ⟨fields, rfl⟩
    cases called
  · rcases eq_enum_of_kind enum with ⟨options, rfl⟩
    cases called

end Schema

section Compiled

variable {calls : Calls} {path : Path}

theorem ignoresOrder_of_step {step : Schema} {check : Check}
    (called : ∀ callable ∈ step.callable?, calls.IgnoresOrder callable)
    (parts : ∀ part ∈ step.parts, ∀ path check, compile calls part path = .ok check →
      check.IgnoresOrder)
    (compiled : checkOfStep calls step path = .ok check) : check.IgnoresOrder := by
  cases turnsInto_of_compiled compiled with
  | basic => exact Check.test_ignoresOrder fun _ _ reordered => reordered.accepts_eq _
  | function callable => exact Check.function_ignoresOrder (called callable rfl)
  | predicate test => exact Check.predicate_ignoresOrder (called test rfl)
  | optional inside => exact Check.optional_ignoresOrder (parts _ List.mem_cons_self path _ inside)
  | @enum _ literals =>
      apply Check.test_ignoresOrder
      intro left right reordered
      exact congrArg literals.any (funext reordered.equalsLiteral_eq)
  | object known =>
      apply Check.object_ignoresOrder
      intro property member
      rcases part_of_property known member with ⟨part, inside, place, own⟩
      exact parts part inside place property.check own
  | indexed listed known =>
      rw [Schema.parts_indexed listed] at parts
      apply Check.indexed_ignoresOrder
      intro check member
      rcases part_of_check known member with ⟨part, inside, place, own⟩
      exact parts part inside place check own
  | oneOf listed known =>
      rw [Schema.parts_oneOf listed] at parts
      apply Check.oneOf_ignoresOrder
      intro branch member
      rcases part_of_check known member with ⟨part, inside, place, own⟩
      exact parts part inside place branch own

theorem ignoresOrder_of_compiled {schema : Schema} {check : Check}
    (ignore : schema.CallsIgnoreOrder calls) (compiled : compile calls schema path = .ok check) :
    check.IgnoresOrder := by
  have everywhere := Schema.induction
    (P := fun schema => schema.CallsIgnoreOrder calls → ∀ path check,
      compile calls schema path = .ok check → check.IgnoresOrder)
    (Q := fun step => (∀ callable ∈ step.callable?, calls.IgnoresOrder callable) →
      (∀ part ∈ step.parts, part.CallsIgnoreOrder calls) → ∀ path check,
        checkOfStep calls step path = .ok check → check.IgnoresOrder) ?_ ?_
  · exact everywhere.1 schema ignore path check compiled
  · intro schema _ steps ignore path check compiled
    rw [compile_eq] at compiled
    rcases checkOfSteps_eq_ok.mp compiled with ⟨arranged, checks, arranging, matched, rfl⟩
    apply Check.chain_ignoresOrder
    intro own member
    rcases exists_mem_of_forall₂ matched member with ⟨step, inside, compiledStep⟩
    refine steps arranged arranging step inside ?_ ?_ path own compiledStep
    · intro callable called
      exact ignore step (Schema.within_of_callable arranging inside called) callable called
    · intro part belongs
      exact ignore.within (.arranged arranging inside (Schema.mem_components_of_part belongs))
  · intro step parts called ignore path check compiled
    exact ignoresOrder_of_step called
      (fun part member => parts part member (ignore part member)) compiled

/-- What an object step makes of a dict has the declared names as its keys, in the order of
declaration. -/
theorem keys_of_object {fields : Fields} {check : Check}
    (compiled : compile calls (.step (.object fields)) path = .ok check) {value output : Value}
    (accepted : check value = .ok output) :
    ∃ entries, output = .dict entries ∧
      entries.map (·.1) = (fields.map (·.1)).eraseDups.map Value.str := by
  rw [compile_object] at compiled
  rcases map_eq_ok.mp compiled with ⟨properties, known, rfl⟩
  rcases fills_of_accepted known accepted with ⟨entries, pairs, rfl, _, _, filled, rfl⟩
  refine ⟨Check.named pairs, rfl, ?_⟩
  calc (Check.named pairs).map (·.1)
      = (pairs.map (·.1)).map Value.str := by
        rw [Check.named, List.map_map, List.map_map]
        rfl
    _ = ((Entries.ofNamed fields).map (·.1)).map Value.str := by rw [names_of_fills filled]
    _ = (fields.map (·.1)).eraseDups.map Value.str := by
        rw [Entries.ofNamed, Entries.keys_ofPairs fun _ _ => beq_iff_eq]

end Compiled

/-- On values that differ in the order of keys alone, the outcomes of a check agree. What an object
step accepts comes out in the order of declaration, whatever the order was. -/
theorem key_order_ignored {calls : Calls} {path : Path} {schema : Schema} {check : Check}
    (compiled : compile calls schema path = .ok check) (ignore : schema.CallsIgnoreOrder calls)
    {left right : Value} (reordered : left.Reordered right) :
    Outcome.Agrees Value.Reordered (check left) (check right) ∧
      ∀ fields, schema = .step (.object fields) → ∀ value ∈ [left, right], ∀ output,
        check value = .ok output → ∃ entries, output = .dict entries ∧
          entries.map (·.1) = (fields.map (·.1)).eraseDups.map Value.str := by
  refine ⟨ignoresOrder_of_compiled ignore compiled left right reordered, ?_⟩
  rintro fields rfl value _ output accepted
  exact keys_of_object compiled accepted

/-- The first callable says yes to everything, the others hand on what they get. -/
def yesOrSame : Calls := fun callable value =>
  if callable.key = 0 then .value (.bool true) else .outcome (.ok value)

theorem yesOrSame_ignoresOrder (callable : Callable) : yesOrSame.IgnoresOrder callable := by
  intro left right reordered
  unfold yesOrSame
  split
  · exact .value (.same _)
  · exact .outcome (.ok reordered)

/-- Two numbers, one of them looked at by a predicate and handed on by a function. -/
def numberedPair : Schema :=
  .step (.object [("first", .str "number"),
    ("second", .list
      [.str "number", .step (.predicate ⟨"yes", 0⟩ "no" none), .function ⟨"same", 1⟩])])

theorem numberedPair_swapped :
    ∃ check, compile yesOrSame numberedPair [] = .ok check ∧
      Outcome.Agrees Value.Reordered
        (check (.dict [(.str "second", .int 2), (.str "first", .int 1)]))
        (check (.dict [(.str "first", .int 1), (.str "second", .int 2)])) := by
  have compiles : (compile yesOrSame numberedPair []).isOk = true := by
    cbv
  rcases exists_ok_of_isOk compiles with ⟨check, compiled⟩
  refine ⟨check, compiled, ?_⟩
  apply (key_order_ignored compiled (fun _ _ callable _ => yesOrSame_ignoresOrder callable) ?_).1
  apply Value.Reordered.dict (by simp [KeysDistinct, Check.sameKey_str])
    (by simp [KeysDistinct, Check.sameKey_str]) (.swap _ _ []) rfl
  exact Value.Reordered.refl_all _

end SchemaCheck
