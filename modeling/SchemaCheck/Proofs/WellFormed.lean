import SchemaCheck.Proofs.Merging
import SchemaCheck.Proofs.Placement
import SchemaCheck.Proofs.Steps

/-!
The language of schemas, described on chains as they are written. A schema compiles if and only if
it belongs to that language: merging neither hides nor invents a fault.
-/

namespace SchemaCheck

/-- A chain with the chains among its items opened, and those inside them left closed. -/
def Schema.opened : List Schema → List Schema
  | [] => []
  | .list inner :: rest => inner ++ opened rest
  | step :: rest => step :: opened rest

theorem Schema.steps_list (schemas : List Schema) : steps (.list schemas) = opened schemas := by
  rw [steps]
  induction schemas with
  | nil => rfl
  | cons head rest ih =>
      rw [List.flatMap_cons, ih]
      cases head <;> rfl

mutual

/-- A chain is judged by its steps once it is opened; anything else is a chain of itself. -/
inductive WellFormed (calls : Calls) : Schema → Prop
  | chain {schemas : List Schema} {first : Schema} {rest : List Schema} :
      Schema.opened schemas = first :: rest →
      first ≠ .str "integer" → first ≠ .str "non-empty" →
      (∀ step ∈ first :: rest, GoodStep calls step) →
      List.IsChain Schema.MayFollow (first :: rest) →
      WellFormed calls (.list schemas)
  | single {step : Schema} :
      (∀ schemas, step ≠ .list schemas) →
      step ≠ .str "integer" → step ≠ .str "non-empty" →
      GoodStep calls step → WellFormed calls step

inductive GoodStep (calls : Calls) : Schema → Prop
  | basic {name : String} :
      name ∈ ["array", "boolean", "number", "integer", "string", "non-empty"] →
      GoodStep calls (.str name)
  | function (callable : Callable) : GoodStep calls (.function callable)
  | predicate {test : Callable} {message : String} {detail : Option Detail} :
      message ≠ "" → GoodStep calls (.step (.predicate test message detail))
  | enum {options : Value} {items : List Value} :
      options.IsArrayOf items → (∀ item ∈ items, item.IsScalar) →
      GoodStep calls (.step (.enum options))
  | optional {inner : Schema} {fallback value : Value} {check : Check} :
      WellFormed calls inner → compile calls inner [] = .ok check →
      check fallback = .ok value → GoodStep calls (.step (.optional inner fallback))
  | object {fields : List (String × Schema)} :
      (∀ field ∈ fields, WellFormed calls field.2) →
      GoodStep calls (.step (.object fields))
  | indexed {entries : Value} {parts : List Schema} :
      entries.IsArrayOf parts → (∀ part ∈ parts, WellFormed calls part) →
      GoodStep calls (.step (.indexed entries))
  | oneOf {branches : Value} {parts : List Schema} :
      branches.IsArrayOf parts → parts ≠ [] → (∀ part ∈ parts, WellFormed calls part) →
      GoodStep calls (.step (.oneOf branches))

end

namespace Schema

def Compiles (calls : Calls) (schema : Schema) : Prop :=
  ∃ check, compile calls schema [] = .ok check

def StepCompiles (calls : Calls) (step : Schema) : Prop :=
  ∃ check, checkOfStep calls step [] = .ok check

theorem refinement_eq_none {schema : Schema} :
    schema.refinement? = none ↔ schema ≠ .str "integer" ∧ schema ≠ .str "non-empty" := by
  constructor
  · intro plain
    constructor <;>
      · intro same
        subst same
        exact absurd plain (by decide)
  · intro different
    unfold refinement?
    split
    · rename_i name
      cases found : BasicKind.ofName? name with
      | none => rfl
      | some kind =>
          have named := BasicKind.name_of_ofName? found
          cases kind with
          | integer => exact absurd (congrArg Value.str named.symm) different.1
          | nonEmpty => exact absurd (congrArg Value.str named.symm) different.2
          | _ => rfl
    · rfl

section Everywhere

variable {calls : Calls}

theorem compiles_anywhere {schema : Schema} (path : Path) :
    (∃ check, compile calls schema path = .ok check) ↔ schema.Compiles calls := by
  rw [Compiles, compile_from_root]
  cases compile calls schema [] with
  | error defect => simp [placed]
  | ok check => exact ⟨fun _ => ⟨check, rfl⟩, fun _ => ⟨check.under path, rfl⟩⟩

theorem exists_checksOfParts {segment : Nat → Segment} {parts : List Schema} :
    (∃ checks, checksOfParts calls segment 0 parts [] = .ok checks) ↔
      ∀ part ∈ parts, part.Compiles calls := by
  simp only [checksOfParts_eq_ok, exists_forall₂_iff, compiles_anywhere]
  constructor
  · intro each part member
    obtain ⟨position, bound, same⟩ := List.mem_iff_getElem.mp member
    have placed : (part, position) ∈ parts.zipIdx := by
      rw [List.mk_mem_zipIdx_iff_getElem?, List.getElem?_eq_getElem bound, same]
    exact each (part, position) placed
  · intro each part member
    exact each part.1 (List.fst_mem_of_mem_zipIdx member)

theorem stepCompiles_object {fields : List (String × Schema)} :
    StepCompiles calls (.step (.object fields)) ↔ ∀ field ∈ fields, field.2.Compiles calls := by
  rw [StepCompiles, checkOfStep_object, exists_map_eq_ok]
  simp only [propertiesOfFields_eq_ok, exists_forall₂_iff]
  constructor
  · intro each field member
    obtain ⟨property, compiled⟩ := each field member
    exact (compiles_anywhere _).mp ⟨property.check, compiled.check⟩
  · intro each field member
    obtain ⟨check, compiled⟩ :=
      (compiles_anywhere (Path.extended [] (.name field.1))).mpr (each field member)
    exact ⟨⟨field.1, !field.2.mayBeAbsent, check⟩, rfl, rfl, compiled⟩

theorem stepCompiles_enum {options : Value} :
    StepCompiles calls (.step (.enum options)) ↔
      ∃ items, options.items? = some items ∧ ∀ item ∈ items, item.isLiteral = true := by
  simp only [← literalOptions_eq_ok]
  rw [StepCompiles, checkOfStep]
  cases literalOptions options with
  | error fault => simp
  | ok items => exact ⟨fun _ => ⟨items, rfl⟩, fun _ => ⟨_, rfl⟩⟩

theorem stepCompiles_optional {inner : Schema} {fallback : Value} :
    StepCompiles calls (.step (.optional inner fallback)) ↔
      ∃ check value, compile calls inner [] = .ok check ∧ check fallback = .ok value := by
  rw [StepCompiles, checkOfStep_optional]
  cases compile calls inner [] with
  | error defect => simp [bind_eq_ok]
  | ok check =>
      have accepted : (∃ result, acceptedFallback check fallback [] = .ok result) ↔
          ∃ value, check fallback = .ok value := by
        unfold acceptedFallback
        cases check fallback with
        | error issues => simp
        | ok value => exact ⟨fun _ => ⟨value, rfl⟩, fun _ => ⟨value, rfl⟩⟩
      constructor
      · intro success
        obtain ⟨value, same⟩ := accepted.mp (exists_map_eq_ok.mp success)
        exact ⟨check, value, rfl, same⟩
      · intro success
        obtain ⟨other, value, equal, same⟩ := success
        cases equal
        exact exists_map_eq_ok.mpr (accepted.mpr ⟨value, same⟩)

theorem stepCompiles_indexed {entries : Value} :
    StepCompiles calls (.step (.indexed entries)) ↔
      ∃ parts : List Schema, entries.items? = some parts ∧
        ∀ part ∈ parts, part.Compiles calls := by
  rw [StepCompiles]
  cases listed : entries.items? with
  | none =>
      rw [checkOfStep_indexed_of_none _ _ listed]
      simp
  | some parts =>
      rw [checkOfStep_indexed _ _ listed, exists_map_eq_ok, exists_checksOfParts]
      simp

theorem stepCompiles_oneOf {branches : Value} :
    StepCompiles calls (.step (.oneOf branches)) ↔
      ∃ parts : List Schema, branches.items? = some parts ∧ parts ≠ [] ∧
        ∀ part ∈ parts, part.Compiles calls := by
  rw [StepCompiles]
  by_cases empty : branches.items?.getD [] = []
  · rw [checkOfStep_oneOf_of_empty _ _ empty]
    constructor
    · intro success
      obtain ⟨_, impossible⟩ := success
      cases impossible
    · intro listed
      obtain ⟨parts, same, nonempty, _⟩ := listed
      rw [same] at empty
      exact absurd empty nonempty
  · obtain ⟨first, rest, listed⟩ := Value.items_of_nonempty empty
    rw [checkOfStep_oneOf _ _ listed, exists_map_eq_ok, exists_checksOfParts, listed]
    simp

theorem stepCompiles_predicate {test : Callable} {message : String} {detail : Option Detail} :
    StepCompiles calls (.step (.predicate test message detail)) ↔ message ≠ "" := by
  rw [StepCompiles, checkOfStep]
  split
  · rename_i empty
    simp only [String.isEmpty_iff] at empty
    simp [empty]
  · rename_i nonempty
    simp only [String.isEmpty_iff] at nonempty
    exact ⟨fun _ => nonempty, fun _ => ⟨_, rfl⟩⟩

theorem exists_name_iff {name : String} :
    (∃ kind : BasicKind, kind.name = name) ↔
      name ∈ ["array", "boolean", "number", "integer", "string", "non-empty"] := by
  constructor
  · intro named
    obtain ⟨kind, rfl⟩ := named
    cases kind <;> decide
  · intro listed
    have among : name ∈ BasicKind.all.map BasicKind.name := listed
    obtain ⟨kind, _, named⟩ := List.mem_map.mp among
    exact ⟨kind, named⟩

theorem stepCompiles_basic {name : String} :
    StepCompiles calls (.str name) ↔ ∃ kind : BasicKind, kind.name = name := by
  rw [StepCompiles, checkOfStep]
  cases found : BasicKind.ofName? name with
  | none =>
      constructor
      · intro success
        obtain ⟨_, impossible⟩ := success
        cases impossible
      · intro named
        obtain ⟨kind, rfl⟩ := named
        rw [BasicKind.ofName?_name] at found
        cases found
  | some kind => exact ⟨fun _ => ⟨kind, BasicKind.name_of_ofName? found⟩, fun _ => ⟨_, rfl⟩⟩

theorem kind_of_stepCompiles {step : Schema} (compiles : step.StepCompiles calls) :
    ∃ kind, step.kind = .ok kind := by
  obtain ⟨check, success⟩ := compiles
  exact (turnsInto_of_compiled success).kind

/-- A step compiles if and only if it is good, provided this is known of its parts. -/
theorem stepCompiles_iff_good {step : Schema}
    (known : ∀ part ∈ step.parts, part.Compiles calls ↔ WellFormed calls part) :
    step.StepCompiles calls ↔ GoodStep calls step := by
  cases step with
  | str name =>
      rw [stepCompiles_basic, exists_name_iff]
      constructor
      · exact .basic
      · intro good
        cases good with
        | basic listed => exact listed
  | function callable =>
      rw [StepCompiles, checkOfStep]
      exact ⟨fun _ => .function callable, fun _ => ⟨_, rfl⟩⟩
  | step composite =>
      cases composite with
      | predicate test message detail =>
          rw [stepCompiles_predicate]
          constructor
          · exact .predicate
          · intro good
            cases good with
            | predicate nonempty => exact nonempty
      | optional inner fallback =>
          have inside := known inner (List.mem_singleton.mpr rfl)
          rw [stepCompiles_optional]
          constructor
          · intro success
            obtain ⟨check, value, compiled, accepted⟩ := success
            exact .optional (inside.mp ⟨check, compiled⟩) compiled accepted
          · intro good
            cases good with
            | optional _ compiled accepted => exact ⟨_, _, compiled, accepted⟩
      | enum options =>
          simp only [stepCompiles_enum, Value.items?_eq_some_iff, Value.isLiteral_iff]
          constructor
          · intro listed
            obtain ⟨items, array, scalar⟩ := listed
            exact .enum array scalar
          · intro good
            cases good with
            | enum array scalar => exact ⟨_, array, scalar⟩
      | object fields =>
          have inside : ∀ field ∈ fields, Compiles calls field.2 ↔ WellFormed calls field.2 :=
            fun field member => known field.2 (List.mem_map_of_mem member)
          rw [stepCompiles_object]
          constructor
          · intro compile
            exact .object fun field member => (inside field member).mp (compile field member)
          · intro good
            cases good with
            | object wellFormed =>
                exact fun field member => (inside field member).mpr (wellFormed field member)
      | indexed entries =>
          rw [stepCompiles_indexed]
          constructor
          · intro listed
            obtain ⟨parts, same, compile⟩ := listed
            rw [parts_indexed same] at known
            exact .indexed (Value.items?_eq_some_iff.mp same) fun part member =>
              (known part member).mp (compile part member)
          · intro good
            cases good with
            | indexed array wellFormed =>
                have same := Value.items?_eq_some_iff.mpr array
                rw [parts_indexed same] at known
                exact ⟨_, same, fun part member =>
                  (known part member).mpr (wellFormed part member)⟩
      | oneOf branches =>
          rw [stepCompiles_oneOf]
          constructor
          · intro listed
            obtain ⟨parts, same, nonempty, compile⟩ := listed
            rw [parts_oneOf same] at known
            exact .oneOf (Value.items?_eq_some_iff.mp same) nonempty fun part member =>
              (known part member).mp (compile part member)
          · intro good
            cases good with
            | oneOf array nonempty wellFormed =>
                have same := Value.items?_eq_some_iff.mpr array
                rw [parts_oneOf same] at known
                exact ⟨_, same, nonempty, fun part member =>
                  (known part member).mpr (wellFormed part member)⟩
  | _ =>
      constructor
      · intro compiles
        obtain ⟨kind, known⟩ := kind_of_stepCompiles compiles
        cases known
      · intro good
        cases good

end Everywhere

end Schema

section Merged

variable {calls : Calls}

/-- Merging a run succeeds with steps that compile if and only if its own steps do. -/
theorem mergeRun_compiles {kind : Kind} {run : List (Kind × Schema)}
    (uniform : Chain.Uniform kind run) :
    (∃ own : List Schema, Chain.mergeRun run = .ok own ∧
      ∀ step ∈ own, step.StepCompiles calls) ↔
      ∀ pair ∈ run, pair.2.StepCompiles calls := by
  obtain ⟨nonempty, kinds⟩ := uniform
  unfold Chain.mergeRun
  dsimp only
  split
  · rename_i first second rest
    have head := (kinds _ List.mem_cons_self).1
    subst head
    generalize (Kind.object, first) :: second :: rest = run at kinds
    have own : ∀ pair ∈ run, pair.2.StepCompiles calls ↔
        ∀ field ∈ pair.2.objectFields, Schema.Compiles calls field.2 := by
      intro pair member
      obtain ⟨fields, same⟩ := Schema.eq_object_of_kind (kinds pair member).2
      rw [same, Schema.stepCompiles_object, Schema.objectFields]
    simp only [Except.ok.injEq, exists_eq_left', List.forall_mem_singleton,
      Schema.stepCompiles_object, List.forall_mem_flatMap, List.forall_mem_map]
    constructor
    · intro compile pair member
      exact (own pair member).mpr (compile pair member)
    · intro compile pair member
      exact (own pair member).mp (compile pair member)
  · rename_i first second rest
    have head := (kinds _ List.mem_cons_self).1
    subst head
    generalize (Kind.enum, first) :: second :: rest = run at kinds
    have own : ∀ pair ∈ run, pair.2.StepCompiles calls ↔
        ∃ items, literalOptions pair.2.enumOptions = .ok items := by
      intro pair member
      obtain ⟨options, same⟩ := Schema.eq_enum_of_kind (kinds pair member).2
      simp only [same, Schema.stepCompiles_enum, Schema.enumOptions, literalOptions_eq_ok]
    have gathered := @Chain.exists_allOptions_iff (run.map (·.2))
    rw [List.forall_mem_map] at gathered
    constructor
    · intro success pair member
      obtain ⟨merged, merging, _⟩ := success
      obtain ⟨options, success, _⟩ := bind_eq_ok.mp merging
      exact (own pair member).mpr (gathered.mp ⟨options, success⟩ pair member)
    · intro compile
      obtain ⟨options, success⟩ :=
        gathered.mpr fun pair member => (own pair member).mp (compile pair member)
      refine ⟨_, bind_eq_ok.mpr ⟨options, success, rfl⟩, ?_⟩
      have literal := Chain.isLiteral_of_allOptions success
      exact List.forall_mem_singleton.mpr (Schema.stepCompiles_enum.mpr ⟨options, rfl, literal⟩)
  · simp only [Except.ok.injEq, exists_eq_left', List.forall_mem_map]

theorem merge_compiles {steps : List Schema}
    (kinds : ∀ step ∈ steps, ∃ kind, step.kind = .ok kind) :
    (∃ merged, Chain.merge steps = .ok merged ∧ ∀ step ∈ merged, step.StepCompiles calls) ↔
      ∀ step ∈ steps, step.StepCompiles calls := by
  obtain ⟨classified, success⟩ := Chain.exists_classify_iff.mpr kinds
  have uniform := Chain.uniform_of_classify success
  have runwise : (∃ lists, List.Forall₂ (fun run own => Chain.mergeRun run = .ok own ∧
        ∀ step ∈ own, Schema.StepCompiles calls step) (runs Chain.sameKind classified) lists) ↔
      ∀ run ∈ runs Chain.sameKind classified, ∀ pair ∈ run, pair.2.StepCompiles calls := by
    rw [exists_forall₂_iff]
    refine forall₂_congr fun run member => ?_
    obtain ⟨kind, alike⟩ := uniform run member
    exact mergeRun_compiles alike
  have together : (∀ run ∈ runs Chain.sameKind classified, ∀ pair ∈ run,
      pair.2.StepCompiles calls) ↔ ∀ step ∈ steps, step.StepCompiles calls := by
    rw [← List.forall_mem_flatten, runs_flatten, ← (Chain.classify_eq_ok.mp success).1,
      List.forall_mem_map]
  rw [← together, ← runwise]
  simp only [forall₂_flatten_iff, Chain.merge_eq_ok, success, Except.ok.injEq]
  constructor
  · intro merging
    obtain ⟨_, ⟨_, lists, rfl, matched, rfl⟩, compile⟩ := merging
    exact ⟨lists, matched, compile⟩
  · intro merging
    obtain ⟨lists, matched, compile⟩ := merging
    exact ⟨lists.flatten, ⟨classified, lists, rfl, matched, rfl⟩, compile⟩

theorem arrange_compiles {first : Schema} {rest : List Schema} :
    (∃ arranged, Chain.arrange (first :: rest) = .ok arranged ∧
      ∀ step ∈ arranged, step.StepCompiles calls) ↔
      first.refinement? = none ∧ (∀ step ∈ first :: rest, step.StepCompiles calls) ∧
        List.IsChain Schema.MayFollow (first :: rest) := by
  simp only [Chain.arrange_eq_ok]
  by_cases single : rest = []
  · subst single
    simp [and_comm]
  · simp only [if_neg single]
    constructor
    · intro success
      obtain ⟨merged, ⟨plain, chain, merging⟩, compile⟩ := success
      obtain ⟨_, _, known, _⟩ := Chain.merge_eq_ok.mp merging
      have kinds := Chain.exists_classify_iff.mp ⟨_, known⟩
      exact ⟨plain, (merge_compiles kinds).mp ⟨merged, merging, compile⟩, chain⟩
    · intro success
      obtain ⟨plain, compile, chain⟩ := success
      have kinds := fun step member => Schema.kind_of_stepCompiles (compile step member)
      obtain ⟨merged, merging, compile⟩ := (merge_compiles kinds).mpr compile
      exact ⟨merged, ⟨plain, chain, merging⟩, compile⟩

theorem compiles_iff_arranged {schema : Schema} :
    schema.Compiles calls ↔
      ∃ arranged, Chain.arrange schema.steps = .ok arranged ∧
        ∀ step ∈ arranged, step.StepCompiles calls := by
  rw [Schema.Compiles, compile_eq]
  cases arranging : Chain.arrange schema.steps with
  | error fault =>
      rw [checkOfSteps_of_fault _ _ arranging]
      simp
  | ok arranged =>
      rw [checkOfSteps_of_arranged _ _ arranging, exists_map_eq_ok]
      simp only [checksOfSteps_eq_ok, exists_forall₂_iff, Except.ok.injEq, exists_eq_left']
      exact Iff.rfl

end Merged

theorem Schema.steps_of_not_list {schema : Schema} (plain : ∀ schemas, schema ≠ .list schemas) :
    schema.steps = [schema] := by
  unfold Schema.steps
  split
  · rename_i schemas
    exact absurd rfl (plain schemas)
  · rfl

/-- A schema compiles to a check if and only if it is well formed. -/
theorem compiles_iff_wellFormed (calls : Calls) (schema : Schema) :
    (∃ check, compile calls schema [] = .ok check) ↔ WellFormed calls schema := by
  have everywhere := Schema.induction
    (P := fun schema => schema.Compiles calls ↔ WellFormed calls schema)
    (Q := fun step => step.StepCompiles calls ↔ GoodStep calls step) ?_ ?_
  · exact everywhere.1 schema
  · intro schema known _
    rw [compiles_iff_arranged]
    by_cases listed : ∃ schemas, schema = .list schemas
    · obtain ⟨schemas, rfl⟩ := listed
      rw [Schema.steps_list] at known ⊢
      cases spliced : Schema.opened schemas with
      | nil =>
          constructor
          · intro success
            obtain ⟨_, impossible, _⟩ := success
            cases impossible
          · intro wellFormed
            cases wellFormed with
            | chain same => rw [spliced] at same; cases same
            | single plain => exact absurd rfl (plain schemas)
      | cons first rest =>
          rw [spliced] at known
          rw [arrange_compiles, Schema.refinement_eq_none, forall₂_congr known]
          constructor
          · intro conditions
            obtain ⟨⟨notInteger, notEmpty⟩, good, chain⟩ := conditions
            exact .chain spliced notInteger notEmpty good chain
          · intro wellFormed
            cases wellFormed with
            | chain same notInteger notEmpty good chain =>
                rw [spliced] at same
                cases same
                exact ⟨⟨notInteger, notEmpty⟩, good, chain⟩
            | single plain => exact absurd rfl (plain schemas)
    · have plain : ∀ schemas, schema ≠ .list schemas :=
        fun schemas same => listed ⟨schemas, same⟩
      have alone := Schema.steps_of_not_list plain
      rw [alone] at known
      rw [alone, arrange_compiles, Schema.refinement_eq_none, forall₂_congr known]
      constructor
      · intro conditions
        obtain ⟨⟨notInteger, notEmpty⟩, good, _⟩ := conditions
        exact .single plain notInteger notEmpty (good schema List.mem_cons_self)
      · intro wellFormed
        cases wellFormed with
        | chain => exact absurd rfl (plain _)
        | single _ notInteger notEmpty good =>
            exact ⟨⟨notInteger, notEmpty⟩, List.forall_mem_singleton.mpr good,
              List.IsChain.singleton schema⟩
  · exact fun step known => Schema.stepCompiles_iff_good known

end SchemaCheck
