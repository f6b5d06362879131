import Mathlib.Data.List.Forall2
import SchemaCheck.Compile

/-!
Schemas by their parts. Compiling a schema reaches the steps of its chain, merged or as they stand,
and compiling a step reaches the schemas directly inside it; lists of steps, fields and parts
compile member by member.
-/

namespace SchemaCheck

section Binding

variable {ε α β : Type}

theorem bind_eq_ok {first : Except ε α} {next : α → Except ε β} {result : β} :
    first >>= next = .ok result ↔ ∃ value, first = .ok value ∧ next value = .ok result := by
  constructor
  · intro success
    cases first with
    | error reason => cases success
    | ok value => exact ⟨value, rfl, success⟩
  · intro found
    obtain ⟨value, rfl, success⟩ := found
    exact success

theorem unit_bind_eq_ok {first : Except ε Unit} {next : Unit → Except ε β} {result : β} :
    first >>= next = .ok result ↔ first = .ok () ∧ next () = .ok result := by
  rw [bind_eq_ok]
  constructor
  · intro success
    obtain ⟨_, passed, later⟩ := success
    exact ⟨passed, later⟩
  · intro success
    exact ⟨(), success⟩

theorem bind_eq_error {first : Except ε α} {next : α → Except ε β} {reason : ε} :
    first >>= next = .error reason ↔
      first = .error reason ∨ ∃ value, first = .ok value ∧ next value = .error reason := by
  constructor
  · intro failure
    cases first with
    | error other =>
        cases failure
        exact .inl rfl
    | ok value => exact .inr ⟨value, rfl, failure⟩
  · intro found
    rcases found with rfl | ⟨value, rfl, failure⟩
    · rfl
    · exact failure

theorem map_eq_ok {first : Except ε α} {change : α → β} {result : β} :
    first.map change = .ok result ↔ ∃ value, first = .ok value ∧ change value = result := by
  cases first with
  | error reason => simp [Except.map]
  | ok value => simp [Except.map]

theorem map_eq_error {first : Except ε α} {change : α → β} {reason : ε} :
    first.map change = .error reason ↔ first = .error reason := by
  cases first <;> simp [Except.map]

theorem exists_map_eq_ok {first : Except ε α} {change : α → β} :
    (∃ result, first.map change = .ok result) ↔ ∃ value, first = .ok value := by
  constructor
  · intro success
    obtain ⟨result, mapped⟩ := success
    obtain ⟨value, same, _⟩ := map_eq_ok.mp mapped
    exact ⟨value, same⟩
  · intro success
    obtain ⟨value, same⟩ := success
    exact ⟨change value, by rw [same]; rfl⟩

theorem exists_ok_of_isOk {first : Except ε α} (success : first.isOk = true) :
    ∃ value, first = .ok value := by
  cases first with
  | error reason => cases success
  | ok value => exact ⟨value, rfl⟩

end Binding

theorem Value.items_of_nonempty {value : Value} (nonempty : value.items?.getD [] ≠ []) :
    ∃ first rest, value.items? = some (first :: rest) := by
  cases listed : value.items? with
  | none =>
      rw [listed] at nonempty
      exact absurd rfl nonempty
  | some items =>
      rw [listed, Option.getD_some] at nonempty
      obtain ⟨first, rest, rfl⟩ := List.exists_cons_of_ne_nil nonempty
      exact ⟨first, rest, rfl⟩

namespace Schema

/-- The schemas directly inside a step. -/
def parts : Schema → List Schema
  | .step (.optional inner _) => [inner]
  | .step (.object fields) => fields.map (·.2)
  | .step (.indexed entries) => entries.items?.getD []
  | .step (.oneOf branches) => branches.items?.getD []
  | _ => []

/-- The schemas directly inside a schema: those in a chain as it is written, else those in a
step. -/
def components : Schema → List Schema
  | .list schemas => schemas
  | step => step.parts

/-- The schemas directly inside a schema, each beside the way to it: a field stands under its name,
a part or a branch at its position; a chain and an optional step add nothing to the way. -/
def located : Schema → List (Path × Schema)
  | .list schemas => schemas.map fun schema => ([], schema)
  | .step (.optional inner _) => [([], inner)]
  | .step (.object fields) => fields.map fun field => ([.name field.1], field.2)
  | .step (.indexed entries) =>
      (entries.items?.getD []).zipIdx.map fun part => ([indexSegment part.2], part.1)
  | .step (.oneOf branches) =>
      (branches.items?.getD []).zipIdx.map fun part => ([branchSegment part.2], part.1)
  | _ => []

theorem map_located (schema : Schema) : schema.located.map (·.2) = schema.components := by
  cases schema with
  | list schemas =>
      rw [located, List.map_map]
      exact List.map_id schemas
  | step composite =>
      cases composite with
      | indexed entries =>
          rw [located, List.map_map]
          exact List.zipIdx_map_fst 0 _
      | oneOf branches =>
          rw [located, List.map_map]
          exact List.zipIdx_map_fst 0 _
      | _ => simp [located, components, parts]
  | _ => rfl

theorem parts_indexed {entries : Value} {items : List Schema}
    (listed : entries.items? = some items) : parts (.step (.indexed entries)) = items := by
  simp only [parts, listed, Option.getD_some]

theorem parts_oneOf {branches : Value} {items : List Schema}
    (listed : branches.items? = some items) : parts (.step (.oneOf branches)) = items := by
  simp only [parts, listed, Option.getD_some]

theorem sizeOf_of_mem_items {value item : Value} (member : item ∈ value.items?.getD []) :
    sizeOf item < sizeOf value := by
  cases listed : value.items? with
  | none =>
      rw [listed] at member
      cases member
  | some items =>
      rw [listed, Option.getD_some] at member
      have inside := sizeOf_member member
      have outside := Value.sizeOf_items listed
      omega

theorem sizeOf_of_mem_fields {fields : List (String × Schema)} {field : String × Schema}
    (member : field ∈ fields) : sizeOf field.2 < sizeOf fields := by
  induction fields with
  | nil => cases member
  | cons head rest ih =>
      rcases List.mem_cons.mp member with rfl | later
      · obtain ⟨name, schema⟩ := field
        simp only [List.cons.sizeOf_spec, Prod.mk.sizeOf_spec]
        omega
      · have bound := ih later
        simp only [List.cons.sizeOf_spec]
        omega

theorem sizeOf_of_mem_parts {step part : Schema} (member : part ∈ step.parts) :
    sizeOf part < sizeOf step := by
  unfold parts at member
  split at member
  · rename_i inner fallback
    rw [List.mem_singleton.mp member, Value.step.sizeOf_spec, Step.optional.sizeOf_spec]
    omega
  · rename_i fields
    obtain ⟨field, inside, rfl⟩ := List.mem_map.mp member
    have bound := sizeOf_of_mem_fields inside
    rw [Value.step.sizeOf_spec, Step.object.sizeOf_spec]
    omega
  · rename_i entries
    have bound := sizeOf_of_mem_items member
    rw [Value.step.sizeOf_spec, Step.indexed.sizeOf_spec]
    omega
  · rename_i branches
    have bound := sizeOf_of_mem_items member
    rw [Value.step.sizeOf_spec, Step.oneOf.sizeOf_spec]
    omega
  · cases member

theorem sizeOf_of_mem_steps {schema step : Schema} (member : step ∈ schema.steps) :
    sizeOf step ≤ sizeOf schema := by
  have inside := sizeOf_member member
  have spliced := sizeOf_steps_le schema
  omega

theorem sizeOf_of_mem_arranged {schema step : Schema} {arranged : List Schema}
    (success : Chain.arrange schema.steps = .ok arranged) (member : step ∈ arranged) :
    sizeOf step ≤ sizeOf schema := by
  have inside := sizeOf_member member
  have merged := Chain.sizeOf_arrange success
  have spliced := sizeOf_steps_le schema
  omega

/-- What passes from the parts of a step to the step, and from the steps of a chain, as they stand
and as they are arranged, to the schema, holds of every schema and of every step. -/
theorem induction {P Q : Schema → Prop}
    (chain : ∀ schema : Schema, (∀ step ∈ schema.steps, Q step) →
      (∀ arranged, Chain.arrange schema.steps = .ok arranged → ∀ step ∈ arranged, Q step) →
      P schema)
    (step : ∀ step : Schema, (∀ part ∈ step.parts, P part) → Q step) :
    (∀ schema, P schema) ∧ ∀ step, Q step := by
  have bounded : ∀ size, (∀ schema : Schema, sizeOf schema ≤ size → P schema) ∧
      ∀ step : Schema, sizeOf step ≤ size → Q step := by
    intro size
    induction size with
    | zero =>
        constructor <;>
          · intro schema bound
            have positive := sizeOf_value_pos schema
            omega
    | succ size ih =>
        have steps : ∀ step : Schema, sizeOf step ≤ size + 1 → Q step := by
          intro whole bound
          refine step whole fun part member => ih.1 part ?_
          have smaller := sizeOf_of_mem_parts member
          omega
        refine ⟨fun schema bound => chain schema ?_ ?_, steps⟩
        · intro inner member
          exact steps inner (Nat.le_trans (sizeOf_of_mem_steps member) bound)
        · intro arranged success inner member
          exact steps inner (Nat.le_trans (sizeOf_of_mem_arranged success member) bound)
  exact ⟨fun schema => (bounded _).1 schema (Nat.le_refl _),
    fun step => (bounded _).2 step (Nat.le_refl _)⟩

end Schema

section Lists

variable {α β : Type} {R : α → β → Prop}

theorem exists_forall₂_iff {items : List α} :
    (∃ results, List.Forall₂ R items results) ↔ ∀ item ∈ items, ∃ result, R item result := by
  induction items with
  | nil => simp
  | cons item rest ih =>
      constructor
      · intro matched
        obtain ⟨_, matched⟩ := matched
        obtain ⟨result, results, first, others, rfl⟩ := List.forall₂_cons_left_iff.mp matched
        exact List.forall_mem_cons.mpr ⟨⟨result, first⟩, ih.mp ⟨results, others⟩⟩
      · intro each
        obtain ⟨result, first⟩ := each item List.mem_cons_self
        obtain ⟨results, others⟩ :=
          ih.mpr fun item member => each item (List.mem_cons_of_mem _ member)
        exact ⟨result :: results, .cons first others⟩

theorem forall₂_flatten_iff {P : β → Prop} {S : α → List β → Prop} {items : List α}
    {lists : List (List β)} :
    List.Forall₂ (fun item list => S item list ∧ ∀ result ∈ list, P result) items lists ↔
      List.Forall₂ S items lists ∧ ∀ result ∈ lists.flatten, P result := by
  induction lists generalizing items with
  | nil => simp
  | cons list rest ih =>
      cases items with
      | nil => simp
      | cons item others =>
          simp only [List.forall₂_cons, ih, List.flatten_cons, List.forall_mem_append]
          exact and_and_and_comm

theorem exists_mem_of_forall₂ {items : List α} {results : List β} {result : β}
    (matched : List.Forall₂ R items results) (member : result ∈ results) :
    ∃ item ∈ items, R item result := by
  induction matched with
  | nil => cases member
  | cons first _ ih =>
      rcases List.mem_cons.mp member with rfl | later
      · exact ⟨_, List.mem_cons_self, first⟩
      · rcases ih later with ⟨item, inside, related⟩
        exact ⟨item, List.mem_cons_of_mem _ inside, related⟩

theorem exists_getElem_of_forall₂ {items : List α} {results : List β}
    (matched : List.Forall₂ R items results) {position : Nat} {result : β}
    (found : results[position]? = some result) :
    ∃ item, items[position]? = some item ∧ R item result := by
  induction matched generalizing position with
  | nil => cases found
  | cons first _ ih =>
      cases position with
      | zero =>
          cases found
          exact ⟨_, rfl, first⟩
      | succ position => exact ih found

theorem forall₂_trans {γ : Type} {S : β → γ → Prop} {T : α → γ → Prop}
    (through : ∀ {item middle result}, R item middle → S middle result → T item result)
    {items : List α} {middles : List β} {results : List γ} (first : List.Forall₂ R items middles)
    (second : List.Forall₂ S middles results) : List.Forall₂ T items results := by
  induction first generalizing results with
  | nil =>
      cases second
      exact .nil
  | cons head _ ih =>
      cases second with
      | cons next later => exact .cons (through head next) (ih later)

theorem map_eq_map_iff {γ : Type} {left : α → γ} {right : β → γ} {items : List α}
    {results : List β} :
    items.map left = results.map right ↔
      List.Forall₂ (fun item result => left item = right result) items results := by
  rw [← List.forall₂_eq_eq_eq, List.forall₂_map_left_iff, List.forall₂_map_right_iff]

theorem getLast_of_forall₂ {items : List α} {results : List β} {result : β}
    (matched : List.Forall₂ R items results) (last : results.getLast? = some result) :
    ∃ item, items.getLast? = some item ∧ R item result := by
  have reversed := List.forall₂_reverse_iff.mpr matched
  rw [List.getLast?_eq_head?_reverse] at last
  obtain ⟨earlier, shape⟩ := List.head?_eq_some_iff.mp last
  rw [shape] at reversed
  obtain ⟨item, others, first, _, same⟩ := List.forall₂_cons_right_iff.mp reversed
  refine ⟨item, ?_, first⟩
  rw [List.getLast?_eq_head?_reverse, same, List.head?_cons]

section Walking

variable {ε : Type} {visit : α → Except ε β} {items : List α}

/-- A walk succeeds with what each item gives. -/
theorem mapM_eq_ok {results : List β} :
    items.mapM visit = .ok results ↔
      List.Forall₂ (fun item result => visit item = .ok result) items results := by
  induction items generalizing results with
  | nil =>
      simp only [List.mapM_nil, List.forall₂_nil_left_iff, pure, Except.pure, Except.ok.injEq]
      exact eq_comm
  | cons item rest ih =>
      simp only [List.mapM_cons, bind_eq_ok, List.forall₂_cons_left_iff, ih, pure, Except.pure,
        Except.ok.injEq]
      constructor
      · intro found
        obtain ⟨result, first, others, later, rfl⟩ := found
        exact ⟨result, others, first, later, rfl⟩
      · intro found
        obtain ⟨result, others, first, later, rfl⟩ := found
        exact ⟨result, first, others, later, rfl⟩

/-- A walk fails for the reason of one item. -/
theorem mapM_eq_error {reason : ε} (refused : items.mapM visit = .error reason) :
    ∃ item ∈ items, visit item = .error reason := by
  induction items with
  | nil => cases refused
  | cons item rest ih =>
      rw [List.mapM_cons] at refused
      rcases bind_eq_error.mp refused with own | ⟨result, _, later⟩
      · exact ⟨item, List.mem_cons_self, own⟩
      · rcases bind_eq_error.mp later with others | ⟨results, _, impossible⟩
        · rcases ih others with ⟨found, member, own⟩
          exact ⟨found, List.mem_cons_of_mem _ member, own⟩
        · cases impossible

section Appending

variable (visit : α → Except ε (List β)) (walk : List α → Except ε (List β))
    (start : walk [] = .ok [])
  (move : ∀ item rest, walk (item :: rest) = do
    let own ← visit item
    let more ← walk rest
    return own ++ more)

include start move

/-- A walk that appends what it finds at each item finds the lists of all items, one after the
other. -/
theorem appended_eq_mapM (items : List α) : walk items = (items.mapM visit).map List.flatten := by
  induction items with
  | nil =>
      rw [start]
      rfl
  | cons item rest ih =>
      rw [move, ih, List.mapM_cons]
      cases visit item with
      | error reason => rfl
      | ok own => cases List.mapM visit rest <;> rfl

theorem appended_eq_ok {items : List α} {results : List β} :
    walk items = .ok results ↔
      ∃ lists, List.Forall₂ (fun item own => visit item = .ok own) items lists ∧
        results = lists.flatten := by
  rw [appended_eq_mapM visit walk start move, map_eq_ok]
  simp only [mapM_eq_ok, @eq_comm _ results]

theorem appended_eq_error {items : List α} {reason : ε} (refused : walk items = .error reason) :
    ∃ item ∈ items, visit item = .error reason := by
  rw [appended_eq_mapM visit walk start move] at refused
  exact mapM_eq_error (map_eq_error.mp refused)

end Appending

end Walking

end Lists

section Members

variable {calls : Calls} {path : Path}

theorem acceptedFallback_eq_ok {check : Check} {fallback default : Value} :
    acceptedFallback check fallback path = .ok default ↔ check fallback = .ok default := by
  unfold acceptedFallback
  cases check fallback with
  | error issues => simp
  | ok value => simp

theorem checksOfSteps_eq_mapM (steps : List Schema) :
    checksOfSteps calls steps path = steps.mapM (checkOfStep calls · path) := by
  induction steps with
  | nil =>
      rw [checksOfSteps]
      rfl
  | cons step rest ih => rw [checksOfSteps, ih, List.mapM_cons]

theorem checksOfSteps_eq_ok {steps : List Schema} {checks : List Check} :
    checksOfSteps calls steps path = .ok checks ↔
      List.Forall₂ (fun step check => checkOfStep calls step path = .ok check) steps checks := by
  rw [checksOfSteps_eq_mapM, mapM_eq_ok]

/-- What a field turns into. -/
structure Check.Property.Compiles (calls : Calls) (path : Path) (field : String × Schema)
    (property : Check.Property) : Prop where
  name : property.name = field.1
  required : property.required = !field.2.mayBeAbsent
  check : compile calls field.2 (path.extended (.name field.1)) = .ok property.check

theorem propertiesOfFields_eq_mapM (fields : List (String × Schema)) :
    propertiesOfFields calls fields path = fields.mapM fun field =>
      (compile calls field.2 (path.extended (.name field.1))).map fun check =>
        Check.Property.mk field.1 (!field.2.mayBeAbsent) check := by
  induction fields with
  | nil =>
      rw [propertiesOfFields]
      rfl
  | cons field rest ih =>
      rw [propertiesOfFields, ih, List.mapM_cons]
      cases compile calls field.2 (path.extended (.name field.1)) <;> rfl

theorem propertiesOfFields_eq_ok {fields : List (String × Schema)}
    {properties : List Check.Property} :
    propertiesOfFields calls fields path = .ok properties ↔
      List.Forall₂ (Check.Property.Compiles calls path) fields properties := by
  have own : ∀ field property,
      (compile calls field.2 (path.extended (.name field.1))).map (fun check =>
          Check.Property.mk field.1 (!field.2.mayBeAbsent) check) = .ok property ↔
        Check.Property.Compiles calls path field property := by
    intro field property
    rw [map_eq_ok]
    constructor
    · intro found
      obtain ⟨check, compiled, rfl⟩ := found
      exact ⟨rfl, rfl, compiled⟩
    · intro compiles
      obtain ⟨name, required, check⟩ := property
      obtain ⟨rfl, rfl, compiled⟩ := compiles
      exact ⟨check, compiled, rfl⟩
  rw [propertiesOfFields_eq_mapM, mapM_eq_ok]
  simp only [own]

theorem checksOfParts_eq_mapM (segment : Nat → Segment) (position : Nat) (parts : List Schema) :
    checksOfParts calls segment position parts path = (parts.zipIdx position).mapM fun part =>
      compile calls part.1 (path.extended (segment part.2)) := by
  induction parts generalizing position with
  | nil =>
      rw [checksOfParts]
      rfl
  | cons part rest ih => rw [checksOfParts, ih, List.zipIdx_cons, List.mapM_cons]

theorem checksOfParts_eq_ok {segment : Nat → Segment} {position : Nat} {parts : List Schema}
    {checks : List Check} :
    checksOfParts calls segment position parts path = .ok checks ↔
      List.Forall₂ (fun part check =>
        compile calls part.1 (path.extended (segment part.2)) = .ok check)
        (parts.zipIdx position) checks := by
  rw [checksOfParts_eq_mapM, mapM_eq_ok]

/-- The check at a position is that of the part at that position. -/
theorem exists_part_of_getElem {segment : Nat → Segment} {parts : List Schema} {checks : List Check}
    (compiled : checksOfParts calls segment 0 parts path = .ok checks) {position : Nat}
    {check : Check} (found : checks[position]? = some check) :
    ∃ part, parts[position]? = some part ∧
      compile calls part (path.extended (segment position)) = .ok check := by
  rcases exists_getElem_of_forall₂ (checksOfParts_eq_ok.mp compiled) found with
    ⟨⟨part, index⟩, source, own⟩
  rw [List.getElem?_zipIdx, Option.map_eq_some_iff] at source
  rcases source with ⟨_, partAt, ⟨⟩⟩
  rw [Nat.zero_add] at own
  exact ⟨part, partAt, own⟩

end Members

end SchemaCheck
