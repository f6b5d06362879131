import SchemaCheck.Proofs.Model.Yielding
import SchemaCheck.Proofs.WellFormed

/-!
Models are sound for what was validated. Whatever a check accepts and returns fits the shape that
its schema is described by: the last step of a chain that has a shape types the value, the steps
after it keep it fitting, and a name holds what the last field under it made.
-/

namespace SchemaCheck

namespace Check

/-- What the check returns fits the shape. -/
def Guarantees (shape : Shape) (check : Check) : Prop :=
  ∀ value output, check value = .ok output → shape.Firm output

/-- What the check returns fits the shape, or without one any shape that the accepted value fits. -/
def Refines (shape? : Option Shape) (check : Check) : Prop :=
  ∀ shape value output, shape.Firm value → check value = .ok output →
    (shape?.getD shape).Firm output

variable {check : Check} {shape : Shape}

theorem Guarantees.refines (guarantees : check.Guarantees shape) : check.Refines (some shape) :=
  fun _ value output _ accepted => guarantees value output accepted

theorem Refines.guarantees {shape? : Option Shape} (refines : check.Refines shape?) :
    check.Guarantees (shape?.getD .any) :=
  fun value output accepted => refines .any value output (.any value) accepted

/-- The shape that a step is described by, if any, consists of shapes made so far and refines what
the check of the step returns. -/
structure ShapedBy (made : List Shape) (shape? : Option Shape) (check : Check) : Prop where
  madeIn : ∀ shape ∈ shape?, shape.MadeIn made
  refines : check.Refines shape?

theorem ShapedBy.some {made : List Shape} (madeIn : shape.MadeIn made)
    (guarantees : check.Guarantees shape) : check.ShapedBy made (some shape) := by
  refine ⟨?_, guarantees.refines⟩
  intro other same
  cases same
  exact madeIn

theorem ShapedBy.none {made : List Shape} (preserves : check.Relates Preserves) :
    check.ShapedBy made none := by
  refine ⟨?_, fun shape value output firm accepted => preserves value output accepted shape firm⟩
  intro other same
  cases same

end Check

section Compiled

variable {calls : Calls}

variable (calls)

def Typed (schema : Schema) (shape : Shape) : Prop :=
  ∀ check, compile calls schema [] = .ok check → check.Guarantees shape

variable {calls}

theorem Typed.anywhere {schema : Schema} {shape : Shape} (typed : Typed calls schema shape)
    {path : Path} {check : Check} (compiled : compile calls schema path = .ok check) :
    check.Guarantees shape := by
  intro value output accepted
  rcases accepted_at_root compiled accepted with ⟨root, compiledRoot, acceptedRoot⟩
  exact typed root compiledRoot value output acceptedRoot

theorem guarantees_of_parts {parts : List Schema} {shapes : List Shape} {segment : Nat → Segment}
    {checks : List Check} (typed : List.Forall₂ (Typed calls) parts shapes)
    (compiled : checksOfParts calls segment 0 parts [] = .ok checks) :
    List.Forall₂ Check.Guarantees shapes checks := by
  rw [← List.zipIdx_map_fst 0 parts, List.forall₂_map_left_iff] at typed
  apply forall₂_trans ?_ typed.flip (checksOfParts_eq_ok.mp compiled)
  intro shape part check typed own
  exact Typed.anywhere typed own

end Compiled

section Sound

variable (maker : Maker) (calls : Calls)

/-- The description of a schema is sound, by itself and as that of a field. -/
def SoundlyDescribed (schema : Schema) : Prop :=
  schema.Compiles calls → ∀ name made,
    (Yields made (shapeOf maker calls name schema) fun later shape =>
      shape.MadeIn later ∧ Typed calls schema shape) ∧
    ∀ key, Yields made (describeField maker calls key name schema) fun _ field =>
      field.name = key ∧ Typed calls schema field.shape

def SoundStep (step : Schema) : Prop :=
  ∀ check, checkOfStep calls step [] = .ok check → ∀ name made,
    Yields made (stepShape maker calls name step) fun later shape? => check.ShapedBy later shape?

variable {maker} {calls} {made : List Shape} {name : String}

section Chains

theorem yields_lastShape {steps : List Schema} {checks : List Check}
    (matched : List.Forall₂ (fun step check => checkOfStep calls step [] = .ok check) steps checks)
    (sound : ∀ step ∈ steps, SoundStep maker calls step) {shape : Shape}
    (madeIn : shape.MadeIn made) :
    Yields made (lastShape maker calls name shape steps) fun later last => last.MadeIn later ∧
      ∀ value output, shape.Firm value → Check.chain checks value = .ok output →
        last.Firm output := by
  -- Along the chain goes the shape that the value fits so far, which a step of no shape leaves as
  -- it is.
  induction matched generalizing made shape with
  | nil =>
      rw [lastShape]
      apply Yields.pure
      refine ⟨madeIn, ?_⟩
      intro value output firm accepted
      rw [← Except.ok.inj accepted]
      exact firm
  | @cons step check rest checks compiled _ ih =>
      rw [lastShape]
      apply (sound step List.mem_cons_self check compiled name made).bind
      intro shape? later grown shaped
      have known : (shape?.getD shape).MadeIn later := by
        cases shape? with
        | none => exact madeIn.mono grown
        | some own => exact shaped.madeIn own rfl
      apply (ih (fun step member => sound step (List.mem_cons_of_mem _ member)) known).imp
      intro last lastShape found
      rcases found with ⟨lastMade, follows⟩
      refine ⟨lastMade, ?_⟩
      intro value output firm accepted
      rcases bind_eq_ok.mp accepted with ⟨between, first, others⟩
      exact follows between output (shaped.refines shape value between firm first) others

end Chains

section Parts

theorem yields_shapesOf {parts : List Schema} {names : Nat → String}
    (compiles : ∀ part ∈ parts, Schema.Compiles calls part)
    (sound : ∀ part ∈ parts, SoundlyDescribed maker calls part) (position : Nat) :
    Yields made (shapesOf maker calls names position parts) fun later shapes =>
      (∀ shape ∈ shapes, shape.MadeIn later) ∧ List.Forall₂ (Typed calls) parts shapes := by
  induction parts generalizing made position with
  | nil =>
      rw [shapesOf]
      exact Yields.pure ⟨List.forall_mem_nil _, .nil⟩
  | cons part rest ih =>
      rcases List.forall_mem_cons.mp compiles with ⟨own, others⟩
      rcases List.forall_mem_cons.mp sound with ⟨ownSound, otherSound⟩
      rw [shapesOf]
      apply (ownSound own (names position) made).1.bind
      intro shape later _ found
      rcases found with ⟨madeIn, typed⟩
      apply (ih others otherSound (position + 1)).bind
      intro shapes last grown found
      rcases found with ⟨allMade, allTyped⟩
      apply Yields.pure
      exact ⟨List.forall_mem_cons.mpr ⟨madeIn.mono grown, allMade⟩, .cons typed allTyped⟩

end Parts

section Fields

structure TypedField (calls : Calls) (field : String × Schema) (described : String × Field) :
    Prop where
  key : field.1 = described.1
  name : described.2.name = field.1
  typed : Typed calls field.2 described.2.shape

theorem yields_describeFields {fields : Fields}
    (compiles : ∀ field ∈ fields, Schema.Compiles calls field.2)
    (sound : ∀ field ∈ fields, SoundlyDescribed maker calls field.2) :
    Yields made (describeFields maker calls name fields) fun _ described =>
      List.Forall₂ (TypedField calls) fields described := by
  induction fields generalizing made with
  | nil =>
      rw [describeFields]
      exact Yields.pure .nil
  | cons field rest ih =>
      rcases field with ⟨key, schema⟩
      rcases List.forall_mem_cons.mp compiles with ⟨own, others⟩
      rcases List.forall_mem_cons.mp sound with ⟨ownSound, otherSound⟩
      rw [describeFields]
      apply ((ownSound own (name ++ Text.capitalized key) made).2 key).bind
      intro described later _ found
      rcases found with ⟨named, typed⟩
      apply (ih others otherSound).bind
      intro more last _ matched
      exact Yields.pure (.cons ⟨rfl, named, typed⟩ matched)

/-- What was accepted has the fields of a model in order, each fitting. -/
def Fits (fields : List Field) (pairs : List (String × Value)) : Prop :=
  List.Forall₂ (fun field pair => field.name = pair.1 ∧ field.shape.Firm pair.2) fields pairs

theorem Fits.filter {given : List Field} {pairs : List (String × Value)} (fits : Fits given pairs)
    (keeps : String → Bool) :
    Fits (given.filter fun field => keeps field.name) (pairs.filter fun pair => keeps pair.1) := by
  apply List.rel_filter ?_ fits
  intro field pair found
  dsimp only
  rw [found.1]

theorem fits_of_accepted {fields : Fields} {described : List (String × Field)}
    (matched : List.Forall₂ (TypedField calls) fields described) {properties : List Check.Property}
    (compiled : propertiesOfFields calls fields [] = .ok properties) {value output : Value}
    (accepted : Check.object properties [] value = .ok output) :
    ∃ pairs, output = .dict (Check.named pairs) ∧ (pairs.map (·.1)).Nodup ∧
      Fits ((Entries.ofNamed described).map (·.2)) pairs := by
  rcases fills_of_accepted compiled accepted with ⟨entries, pairs, _, _, _, filled, rfl⟩
  have kept : List.Forall₂ (TypedField calls) (Entries.ofNamed fields)
      (Entries.ofNamed described) :=
    Entries.ofPairs_forall₂ (fun _ _ => beq_iff_eq) (fun _ _ typed => typed.key) matched
  refine ⟨pairs, rfl, nodup_of_fills filled, ?_⟩
  rw [Fits, List.forall₂_map_left_iff]
  apply forall₂_trans ?_ kept.flip filled
  intro described field pair typed fills
  rcases fills.accepted with ⟨check, own, passed⟩
  have typed : TypedField calls field described := typed
  exact ⟨typed.name.trans fills.name, typed.typed check own _ _ passed⟩

theorem Fits.firm {given : List Field} {pairs : List (String × Value)} (fits : Fits given pairs)
    (distinct : (pairs.map (·.1)).Nodup) {model : Model}
    (among : ∀ field ∈ model.fields, field ∈ given) :
    (Shape.model model).Firm (.dict (Check.named pairs)) := by
  have held : ∀ field ∈ model.fields, ∃ output,
      Value.property field.name (Check.named pairs) = some output ∧ field.shape.Firm output := by
    intro field member
    rcases exists_mem_of_forall₂ fits.flip (among field member) with
      ⟨⟨name, output⟩, inside, named, firm⟩
    rw [named]
    exact ⟨output, Value.property_named distinct inside, firm⟩
  apply Shape.Firm.model
  · intro field member
    rcases held field member with ⟨output, found, _⟩
    exact ⟨output, found⟩
  · intro field member other known
    rcases held field member with ⟨output, found, firm⟩
    cases known.symm.trans found
    exact firm

theorem yields_modelOf {fields : Fields}
    (sound : ∀ field ∈ fields, SoundlyDescribed maker calls field.2) :
    Yields made (modelOf maker calls name (.step (.object fields))) fun later model =>
      (Shape.model model).MadeIn later ∧
        ∃ described, List.Forall₂ (TypedField calls) fields described ∧
        maker.make name ((Entries.ofNamed described).map (·.2)) = .ok model.fields := by
  intro start model finish kept success
  have shape : Schema.steps (.step (.object fields)) = chainOfObjects [fields] := rfl
  rcases describeFields_of_modelOf shape success with
    ⟨check, described, middle, compiled, known, handed⟩
  rw [List.flatten_singleton] at known
  have compiles : Schema.StepCompiles calls (.step (.object fields)) := by
    rw [compile_object] at compiled
    exact ⟨check, (checkOfStep_object calls [] fields).trans compiled⟩
  rcases yields_describeFields (Schema.stepCompiles_object.mp compiles) sound start described middle
    kept known with ⟨later, grown, after, matched⟩
  rcases Yields.model later maker name _ middle model finish after handed with
    ⟨final, more, finalSound, made, madeIn⟩
  exact ⟨final, grown.trans more, finalSound, madeIn, described, matched, made⟩

end Fields

section Steps

theorem basic_guarantees {kind : BasicKind} {shape : Shape} (known : kind.shape? = some shape)
    (path : Path) : (Check.basic kind path).Guarantees shape := by
  intro value output accepted
  rcases Check.basic_eq_ok.mp accepted with ⟨passes, rfl⟩
  cases kind with
  | array =>
      cases known
      rcases Option.isSome_iff_exists.mp passes with ⟨items, listed⟩
      exact .list listed fun held _ => .any held
  | boolean =>
      cases known
      cases output with
      | bool b => exact .boolean b
      | _ => cases passes
  | number =>
      cases known
      cases output with
      | int n => exact .number rfl
      | float x => exact .number rfl
      | _ => cases passes
  | integer =>
      cases known
      cases output with
      | int n => exact .integer rfl (Quantity.isWhole_ofInt n)
      | float x => exact .integer rfl (Bool.and_eq_true_iff.mp passes).1
      | _ => cases passes
  | string =>
      cases known
      cases output with
      | str text => exact .string text
      | _ => cases passes
  | nonEmpty => cases known

theorem basic_madeIn {kind : BasicKind} {shape : Shape} (known : kind.shape? = some shape) :
    shape.MadeIn made := by
  cases kind with
  | array =>
      cases known
      exact .of_unnumbered rfl (List.forall_mem_singleton.mpr (.of_plain rfl rfl))
  | nonEmpty => cases known
  | _ =>
      cases known
      exact .of_plain rfl rfl

theorem soundStep_optional {inner : Schema} {fallback : Value}
    (sound : SoundlyDescribed maker calls inner) :
      SoundStep maker calls (.step (.optional inner fallback)) := by
  intro check compiled name made
  rcases checkOfStep_optional_eq_ok.mp compiled with ⟨own, default, compiledInner, accepted, rfl⟩
  rw [stepShape]
  apply (sound ⟨own, compiledInner⟩ name made).1.bind
  intro shape later _ found
  rcases found with ⟨madeIn, typed⟩
  apply (Yields.orNull madeIn).bind
  intro union last _ answers
  apply Yields.pure
  apply Check.ShapedBy.some answers.madeIn
  intro value output passed
  apply answers.covers
  rcases Check.optional_eq_ok.mp passed with ⟨_, rfl⟩ | ⟨_, passed⟩
  · exact typed own compiledInner fallback output accepted
  · exact typed own compiledInner value output passed

theorem soundStep_enum {options : Value} {items : List Value} (listed : options.items? = some items)
    {check : Check} (compiled : checkOfStep calls (.step (.enum options)) [] = .ok check) :
    Yields made (modifyGet (Shared.literal items)) fun later shape =>
      shape.MadeIn later ∧ check.Guarantees shape := by
  apply (Yields.literal made items).imp
  intro later shape answers
  refine ⟨answers.madeIn, ?_⟩
  intro value output accepted
  rw [checkOfStep] at compiled
  split at compiled
  · cases compiled
  · rename_i literals known
    cases compiled
    cases (literalOptions_eq_ok.mp known).1.symm.trans listed
    rcases Check.enum_eq_ok.mp accepted with ⟨equal, rfl⟩
    exact answers.covers output equal

theorem soundStep_object (lawful : maker.Lawful) {fields : Fields}
    (sound : ∀ field ∈ fields, SoundlyDescribed maker calls field.2) :
    SoundStep maker calls (.step (.object fields)) := by
  intro check compiled name made
  rw [checkOfStep_object] at compiled
  rcases map_eq_ok.mp compiled with ⟨properties, known, rfl⟩
  rw [stepShape]
  apply (yields_modelOf sound).bind
  intro model later _ found
  rcases found with ⟨madeIn, described, matched, handed⟩
  apply Yields.pure
  apply Check.ShapedBy.some madeIn
  intro value output accepted
  rcases fits_of_accepted matched known accepted with ⟨pairs, rfl, distinct, fits⟩
  exact fits.firm distinct fun _ member => lawful.mem handed member

theorem soundStep_indexed {entries : Value} {parts : List Schema}
    (listed : entries.items? = some parts)
    (sound : ∀ part ∈ parts, SoundlyDescribed maker calls part) :
    SoundStep maker calls (.step (.indexed entries)) := by
  intro check compiled name made
  rcases Schema.stepCompiles_indexed.mp ⟨check, compiled⟩ with ⟨_, same, compiles⟩
  cases same.symm.trans listed
  rw [checkOfStep_indexed _ _ listed] at compiled
  rcases map_eq_ok.mp compiled with ⟨checks, known, rfl⟩
  rw [stepShape]
  split
  · rename_i others same
    cases same.symm.trans listed
    apply (yields_shapesOf compiles sound 0).bind
    intro shapes later _ found
    rcases found with ⟨madeIn, typed⟩
    have tuple : (Shape.tuple shapes).MadeIn later := .of_unnumbered rfl madeIn
    apply Yields.pure
    apply Check.ShapedBy.some tuple
    intro value output accepted
    rcases Check.indexed_eq_ok.mp accepted with ⟨items, results, _, length, answers, rfl⟩
    apply Shape.firm_tuple_iff.mpr
    refine ⟨results, rfl, ?_⟩
    apply forall₂_trans ?_ (guarantees_of_parts typed known)
      (Check.forall₂_of_accepted length answers).1
    intro shape check result guarantees passed
    rcases passed with ⟨item, accepted⟩
    exact guarantees item result accepted
  · rename_i unlisted
    cases unlisted.symm.trans listed

theorem soundStep_oneOf {branches : Value} {first : Schema} {rest : List Schema}
    (listed : branches.items? = some (first :: rest))
    (sound : ∀ part ∈ first :: rest, SoundlyDescribed maker calls part) :
    SoundStep maker calls (.step (.oneOf branches)) := by
  intro check compiled name made
  rcases Schema.stepCompiles_oneOf.mp ⟨check, compiled⟩ with ⟨_, same, _, compiles⟩
  cases same.symm.trans listed
  rw [checkOfStep_oneOf _ _ listed] at compiled
  rcases map_eq_ok.mp compiled with ⟨checks, known, rfl⟩
  rw [stepShape]
  split
  · rename_i head tail same
    cases same.symm.trans listed
    apply (yields_shapesOf compiles sound 0).bind
    intro shapes later _ found
    rcases found with ⟨madeIn, typed⟩
    apply (Yields.union madeIn).bind
    intro union last _ answers
    apply Yields.pure
    apply Check.ShapedBy.some answers.madeIn
    intro value output accepted
    rcases Check.oneOf_eq_ok accepted with ⟨branch, member, passed⟩
    rcases exists_mem_of_forall₂ (guarantees_of_parts typed known) member with
      ⟨shape, inside, guarantees⟩
    exact answers.covers output ⟨shape, inside, guarantees value output passed⟩
  · rename_i others
    exact absurd listed (others first rest)

theorem soundStep_of_parts (lawful : maker.Lawful) {step : Schema} (free : step.FreeOf [.function])
    (sound : ∀ part ∈ step.parts, SoundlyDescribed maker calls part) :
      SoundStep maker calls step := by
  intro check compiled name made
  -- A step that no shape is made for leaves the value fitting whatever it fitted before.
  have preserving := (Preserves.carried.related List.mem_cons_self).2 step free check compiled
  have untyped : Yields made (pure none) fun later shape? => check.ShapedBy later shape? :=
    Yields.pure (.none preserving)
  cases step with
  | str text =>
      rw [stepShape]
      apply Yields.pure
      rw [checkOfStep] at compiled
      split at compiled
      · rename_i kind found
        cases compiled
        rw [found, Option.bind_some]
        cases known : kind.shape? with
        | none => exact .none preserving
        | some shape => exact .some (basic_madeIn known) (basic_guarantees known [])
      · cases compiled
  | function callable => exact absurd List.mem_cons_self (free.kind_not_mem rfl)
  | step composite =>
      cases composite with
      | predicate test message detail =>
          rw [stepShape]
          · exact untyped
          all_goals simp
      | optional inner fallback =>
          exact soundStep_optional (sound inner List.mem_cons_self) check compiled name made
      | enum options =>
          rw [stepShape]
          split
          · rename_i first rest listed
            apply (soundStep_enum listed compiled).bind
            intro shape later _ found
            rcases found with ⟨madeIn, guarantees⟩
            exact Yields.pure (.some madeIn guarantees)
          · exact untyped
      | object fields =>
          apply soundStep_object lawful ?_ check compiled name made
          intro field member
          exact sound field.2 (List.mem_map_of_mem member)
      | indexed entries =>
          rcases Schema.stepCompiles_indexed.mp ⟨check, compiled⟩ with ⟨parts, listed, _⟩
          rw [Schema.parts_indexed listed] at sound
          exact soundStep_indexed listed sound check compiled name made
      | oneOf branches =>
          rcases Schema.stepCompiles_oneOf.mp ⟨check, compiled⟩ with ⟨parts, listed, nonempty, _⟩
          rcases List.exists_cons_of_ne_nil nonempty with ⟨first, rest, rfl⟩
          rw [Schema.parts_oneOf listed] at sound
          exact soundStep_oneOf listed sound check compiled name made
  | _ =>
      rcases Schema.kind_of_stepCompiles ⟨check, compiled⟩ with ⟨_, known⟩
      cases known

end Steps

section Schemas

theorem yields_shapeOf {schema : Schema} {merged : List Schema} {checks : List Check}
    (merging : Chain.merge schema.steps = .ok merged)
    (matched : List.Forall₂ (fun step check => checkOfStep calls step [] = .ok check) merged checks)
    (compiled : compile calls schema [] = .ok (Check.chain checks))
    (sound : ∀ step ∈ merged, SoundStep maker calls step) :
    Yields made (shapeOf maker calls name schema) fun later shape =>
      shape.MadeIn later ∧ Typed calls schema shape := by
  rw [shapeOf_eq_lastShape merging]
  apply (yields_lastShape matched sound (.of_plain rfl rfl)).imp
  intro later shape found
  rcases found with ⟨madeIn, follows⟩
  refine ⟨madeIn, ?_⟩
  intro check known value output accepted
  cases compiled.symm.trans known
  exact follows value output (.any value) accepted

/-- A chain is typed by its first step alone if no function comes after, since whatever else comes
after keeps the value fitting. -/
theorem typed_of_first {schema : Schema} {own : Check} {others : List Check} {later : List Schema}
    (free : ∀ step ∈ later, step.FreeOf [.function])
    (matched : List.Forall₂ (fun step check => checkOfStep calls step [] = .ok check) later others)
    (compiled : compile calls schema [] = .ok (Check.chain (own :: others))) {shape? : Option Shape}
    (shaped : own.ShapedBy made shape?) : Typed calls schema (shape?.getD .any) := by
  have preserving : (Check.chain others).Relates Preserves := by
    apply Preserves.carried.chain
    intro other member
    rcases exists_mem_of_forall₂ matched member with ⟨step, inside, compiledStep⟩
    exact (Preserves.carried.related List.mem_cons_self).2 step
      (free step inside) other compiledStep
  intro check known value output accepted
  cases compiled.symm.trans known
  rcases bind_eq_ok.mp accepted with ⟨between, first, last⟩
  exact preserving between output last _ (shaped.refines.guarantees value between first)

theorem soundlyDescribed_of_steps {schema : Schema} (free : schema.FreeOf [.function])
    (sound : ∀ arranged, Chain.arrange schema.steps = .ok arranged →
      ∀ step ∈ arranged, SoundStep maker calls step) : SoundlyDescribed maker calls schema := by
  intro found name made
  rcases found with ⟨check, compiled⟩
  rcases merge_of_compiled compiled with ⟨merged, checks, arranging, merging, matched, rfl⟩
  have steps := sound merged arranging
  have whole : ∀ made, Yields made (shapeOf maker calls name schema) fun later shape =>
      shape.MadeIn later ∧ Typed calls schema shape :=
    fun made => yields_shapeOf merging matched compiled steps
  refine ⟨whole made, ?_⟩
  intro key
  cases opening : optionalHead? schema with
  | none =>
      rw [describeField_of_plain opening]
      apply (whole made).bind
      intro shape later _ found
      rcases found with ⟨_, typed⟩
      exact Yields.pure ⟨rfl, typed⟩
  | some head =>
      rcases head with ⟨inner, fallback⟩
      rcases steps_of_optionalHead opening with ⟨rest, shape⟩
      rw [shape] at arranging
      rcases arrange_optional_then arranging with ⟨later, rfl, _⟩
      have freeLater : ∀ step ∈ later, step.FreeOf [.function] := by
        intro step member
        rw [← shape] at arranging
        exact free.arranged arranging (List.mem_cons_of_mem _ member)
      rcases List.forall₂_cons_left_iff.mp matched with
        ⟨own, others, compiledOwn, matchedLater, rfl⟩
      have checked : Yields made (liftM (defaultOf calls inner fallback)) fun _ _ => True :=
        Yields.lift fun _ _ => trivial
      rw [describeField_of_optionalHead opening]
      apply checked.bind
      intro default between _ _
      apply (steps _ List.mem_cons_self own compiledOwn name between).bind
      intro shape? after _ shaped
      exact Yields.pure ⟨rfl, typed_of_first freeLater matchedLater compiled shaped⟩

theorem soundlyDescribed (lawful : maker.Lawful) {schema : Schema}
    (free : schema.FreeOf [.function]) :
    SoundlyDescribed maker calls schema := by
  have both := Schema.induction
    (P := fun schema => schema.FreeOf [.function] → SoundlyDescribed maker calls schema)
    (Q := fun step => step.FreeOf [.function] → SoundStep maker calls step) ?_ ?_
  · exact both.1 schema free
  · intro schema _ arrangedSteps free
    apply soundlyDescribed_of_steps free
    intro arranged arranging step member
    exact arrangedSteps arranged arranging step member (free.arranged arranging member)
  · intro step parts free
    apply soundStep_of_parts lawful free
    intro part member
    exact parts part member (free.part member)

end Schemas

end Sound

/-- What the check of an object accepts has the names of its model's fields, in order, once those
that no model has are left out, and holds under each a value of the type of the field. -/
theorem model_sound {maker : Maker} {calls : Calls} {name : String} {fields : Fields}
    {model : Model} (lawful : maker.Lawful) (free : ∀ field ∈ fields, field.2.FreeOf [.function])
    (success : describe maker calls name (.step (.object fields)) = .ok model) :
    ∃ check, compile calls (.step (.object fields)) [] = .ok check ∧
      ∀ value output, check value = .ok output → ∃ pairs : List (String × Value),
        output = .dict (pairs.map fun pair => (.str pair.1, pair.2)) ∧
          List.Forall₂ (fun field pair => field.name = pair.1 ∧ field.shape.Conforms pair.2)
            model.fields (pairs.filter fun pair => !isReserved pair.1) := by
  rcases run_of_describe success with ⟨finish, running⟩
  have shape : Schema.steps (.step (.object fields)) = chainOfObjects [fields] := rfl
  rcases describeFields_of_modelOf shape running with ⟨check, _, _, compiled, _, _⟩
  refine ⟨check, compiled, ?_⟩
  rcases object_of_compiled shape compiled with ⟨properties, known, rfl⟩
  rw [List.flatten_singleton] at known
  intro value output accepted
  have sound : ∀ field ∈ fields, SoundlyDescribed maker calls field.2 :=
    fun field member => soundlyDescribed lawful (free field member)
  rcases yields_modelOf sound Shared.start model finish Shared.sound_start running with
    ⟨_, _, _, _, described, matched, handed⟩
  rcases fits_of_accepted matched known accepted with ⟨pairs, rfl, _, fits⟩
  refine ⟨pairs, rfl, ?_⟩
  rw [lawful _ _ _ handed]
  apply (fits.filter fun name => !isReserved name).imp
  intro field pair found
  rcases found with ⟨named, firm⟩
  exact ⟨named, firm.conforms⟩

def labelledPoint : Fields :=
  [("xy", .step (.indexed (.list [.str "number", .list [.str "number", .str "integer"]]))),
    ("label", .step
      (.optional (.step (.oneOf (.list [.str "string", .str "boolean"]))) (.str "none"))),
    ("owner", .step (.object [("kind", .step (.enum (.list [.str "user", .int 1])))]))]

theorem labelledPoint_free : ∀ field ∈ labelledPoint, field.2.FreeOf [.function] := by
  have text : ∀ name, Schema.FreeOf [.function] (.str name) :=
    Schema.FreeOf.of_text fun kind => by simp
  simp only [labelledPoint, List.forall_mem_cons]
  refine ⟨?_, ?_, ?_, List.forall_mem_nil _⟩
  · have chain : Schema.FreeOf [.function] (.list [.str "number", .str "integer"]) :=
      .of_list (List.forall_mem_cons.mpr ⟨text _, List.forall_mem_singleton.mpr (text _)⟩)
    apply Schema.FreeOf.of_step (by decide)
    exact List.forall_mem_cons.mpr ⟨text _, List.forall_mem_singleton.mpr chain⟩
  · apply Schema.FreeOf.of_step (by decide)
    intro part member
    rw [List.mem_singleton.mp member]
    apply Schema.FreeOf.of_step (by decide)
    exact List.forall_mem_cons.mpr ⟨text _, List.forall_mem_singleton.mpr (text _)⟩
  · apply Schema.FreeOf.of_step (by decide)
    intro part member
    rw [List.mem_singleton.mp member]
    exact Schema.FreeOf.of_step (by decide) (List.forall_mem_nil _)

def unlabelledPoint : Value :=
  .dict [(.str "owner", .dict [(.str "kind", .int 1)]), (.str "xy", .tuple [.int 3, .int 4])]

theorem unlabelledPoint_fits :
    ∃ model check, ∃ pairs : List (String × Value),
      describe (.lenient 1 10) (fun _ _ => .value .null) "Point" (.step (.object labelledPoint)) =
        .ok model ∧
      compile (fun _ _ => .value .null) (.step (.object labelledPoint)) [] = .ok check ∧
        check unlabelledPoint = .ok (.dict (pairs.map fun pair => (.str pair.1, pair.2))) ∧
          List.Forall₂ (fun field pair => field.name = pair.1 ∧ field.shape.Conforms pair.2)
            model.fields (pairs.filter fun pair => !isReserved pair.1) := by
  have described : (describe (.lenient 1 10) (fun _ _ => .value .null) "Point"
      (.step (.object labelledPoint))).isOk = true := by
    cbv
    rw [lastShape]
    cbv
  have accepts : (compile (fun _ _ => .value .null) (.step (.object labelledPoint)) []).map
      (fun check => (check unlabelledPoint).isOk) = .ok true := by
    cbv
  rcases exists_ok_of_isOk described with ⟨model, success⟩
  rcases model_sound (Maker.lenient_lawful 1 10) labelledPoint_free success with
    ⟨check, compiled, sound⟩
  rw [compiled] at accepts
  rcases exists_ok_of_isOk (Except.ok.inj accepts) with ⟨output, accepted⟩
  rcases sound unlabelledPoint output accepted with ⟨pairs, rfl, conforming⟩
  exact ⟨model, check, pairs, success, compiled, accepted, conforming⟩

/-- A name that no model has, though the check asks for it and returns what it holds. -/
def reservedName : Schema :=
  .step (.object [("_id", .str "string")])

theorem reservedName_left_out :
    ∃ model check, describe (.lenient 1 10) (fun _ _ => .value .null) "M" reservedName = .ok model ∧
      compile (fun _ _ => .value .null) reservedName [] = .ok check ∧
        model.fields = [] ∧
          check (.dict [(.str "_id", .str "a")]) = .ok (.dict [(.str "_id", .str "a")]) := by
  have described : (describe (.lenient 1 10) (fun _ _ => .value .null) "M" reservedName).map
      (fun model => model.fields) = .ok [] := by
    cbv
  have accepts : (compile (fun _ _ => .value .null) reservedName []).map
      (fun check => check (.dict [(.str "_id", .str "a")])) =
        .ok (.ok (.dict [(.str "_id", .str "a")])) := by
    cbv
  rcases map_eq_ok.mp described with ⟨model, success, none⟩
  rcases map_eq_ok.mp accepts with ⟨check, compiled, accepted⟩
  exact ⟨model, check, success, compiled, none, accepted⟩

end SchemaCheck
