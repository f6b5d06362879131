import SchemaCheck.Proofs.Arrangement
import SchemaCheck.Proofs.Decomposition
import SchemaCheck.Proofs.Within

/-!
Rejections say why. The built-in checks list at least one issue whenever they reject, and whatever
combines checks lists what its parts list; so only a function that is called as a step could reject
without a word. All issues stand at or below the place where the schema was compiled, and a fallback
that its own schema rejects makes a defect that lists them.
-/

namespace SchemaCheck

namespace Outcome

variable {α β : Type}

def Explained (outcome : Outcome α) : Prop :=
  outcome ≠ .error []

theorem explained_reject (path : Path) (complaint : Complaint) :
    (complaint.reject path : Outcome α).Explained := by
  simp [Explained, Complaint.reject]

theorem issues_ne_nil {outcome : Outcome α} (explained : outcome.Explained)
    (rejected : outcome.Rejects) :
    outcome.issues ≠ [] := by
  obtain ⟨found, rfl⟩ := rejected
  simpa [Explained, issues] using explained

theorem Explained.map {outcome : Outcome α} (explained : outcome.Explained) (change : α → β) :
    Explained (outcome.map change) := by
  cases outcome with
  | ok value => simp [Explained, Except.map]
  | error found => simpa [Explained, Except.map] using explained

theorem Explained.under {outcome : Outcome α} (explained : outcome.Explained) (base : Path) :
    (outcome.under base).Explained := by
  cases outcome with
  | ok value => simp [Explained]
  | error found => simpa [Explained] using explained

theorem flatMap_issues_ne_nil {outcomes : List (Outcome α)}
    (each : ∀ outcome ∈ outcomes, outcome.Explained)
    (rejected : ∃ outcome ∈ outcomes, outcome.Rejects) : outcomes.flatMap issues ≠ [] := by
  obtain ⟨outcome, member, rejects⟩ := rejected
  intro silent
  have own := List.flatMap_eq_nil_iff.mp silent outcome member
  exact issues_ne_nil (each outcome member) rejects own

theorem Explained.collect {outcomes : List (Outcome α)}
    (each : ∀ outcome ∈ outcomes, outcome.Explained) : (collect outcomes).Explained := by
  intro silent
  obtain ⟨rejected, listed⟩ := collect_eq_error_iff.mp silent
  exact flatMap_issues_ne_nil each rejected listed.symm

/-- A choice needs something to choose from: no outcomes at all are rejected without a word. -/
theorem Explained.first {outcomes : List (Outcome α)} (several : outcomes ≠ [])
    (each : ∀ outcome ∈ outcomes, outcome.Explained) : (first outcomes).Explained := by
  intro silent
  obtain ⟨rejected, listed⟩ := first_eq_error_iff.mp silent
  obtain ⟨outcome, member⟩ := List.exists_mem_of_ne_nil outcomes several
  exact flatMap_issues_ne_nil each ⟨outcome, member, rejected outcome member⟩ listed.symm

end Outcome

/-- Every rejection of the check lists an issue. -/
def Check.Explains (check : Check) : Prop :=
  ∀ value, (check value).Explained

namespace Check

variable {calls : Calls} {path : Path}

theorem test_explains {passes : Value → Bool} {complaint : Complaint} :
    Explains fun value => if passes value then .ok value else complaint.reject path := by
  intro value
  dsimp only
  split
  · simp [Outcome.Explained]
  · exact Outcome.explained_reject path complaint

theorem predicate_explains {test : Callable} {message : String} {detail : Option Detail} :
    (predicate calls test message detail path).Explains := by
  intro value
  unfold predicate
  split
  · exact Outcome.explained_reject path _
  · simp [Outcome.Explained]
  · exact Outcome.explained_reject path _

/-- The only check that says what a caller makes it say. -/
theorem function_explains {callable : Callable}
    (speaks : ∀ value, calls callable value ≠ .outcome (.error [])) :
    (function calls callable path).Explains := by
  intro value
  unfold function
  split
  · exact Outcome.explained_reject path _
  · exact Outcome.explained_reject path _
  · rename_i outcome answer
    apply Outcome.Explained.under
    intro silent
    exact speaks value (by rw [answer, silent])

theorem optional_explains {default : Value} {inner : Check} (explains : inner.Explains) :
    (optional default inner).Explains := by
  intro value
  unfold optional
  split
  · simp [Outcome.Explained]
  · exact explains value

theorem object_explains {properties : List Property}
    (explain : ∀ property ∈ properties, property.check.Explains) :
      (object properties path).Explains := by
  intro value
  unfold object
  split
  · dsimp only
    split
    · exact Outcome.explained_reject path _
    · split
      · exact Outcome.explained_reject path _
      · apply Outcome.Explained.map
        apply Outcome.Explained.collect
        intro outcome member
        obtain ⟨property, listed, rfl⟩ := List.mem_map.mp member
        exact (explain property listed _).map _
  · exact Outcome.explained_reject path _

theorem indexed_explains {checks : List Check} (explain : ∀ check ∈ checks, check.Explains) :
    (indexed checks path).Explains := by
  intro value
  unfold indexed
  split
  · exact Outcome.explained_reject path _
  · split
    · exact Outcome.explained_reject path _
    · apply Outcome.Explained.map
      apply Outcome.Explained.collect
      intro outcome member
      obtain ⟨position, placed⟩ := List.mem_iff_getElem?.mp member
      obtain ⟨check, item, own, _, rfl⟩ := List.getElem?_zipWith_eq_some.mp placed
      exact explain check (List.mem_of_getElem? own) item

theorem oneOf_explains {branches : List Check} (several : branches ≠ [])
    (explain : ∀ branch ∈ branches, branch.Explains) : (oneOf branches).Explains := by
  intro value
  apply Outcome.Explained.first
  · simpa using several
  · intro outcome member
    obtain ⟨branch, listed, rfl⟩ := List.mem_map.mp member
    exact explain branch listed value

theorem chain_explains {checks : List Check} (explain : ∀ check ∈ checks, check.Explains) :
    (chain checks).Explains := by
  induction checks with
  | nil => simp [Explains, chain, Outcome.Explained]
  | cons check rest ih =>
      obtain ⟨own, others⟩ := List.forall_mem_cons.mp explain
      intro value silent
      obtain first | ⟨between, _, later⟩ := bind_eq_error.mp silent
      · exact own value first
      · exact ih others between later

end Check

namespace Schema

/-- No function that is called as a step inside the schema ever rejects without listing an issue. -/
def IsOutspoken (calls : Calls) (schema : Schema) : Prop :=
  ∀ callable, Within (.function callable) schema →
    ∀ value, calls callable value ≠ .outcome (.error [])

namespace IsOutspoken

variable {calls : Calls} {schema : Schema}

theorem part (outspoken : schema.IsOutspoken calls) {part : Schema} (member : part ∈ schema.parts) :
    part.IsOutspoken calls :=
  fun callable inside => outspoken callable (inside.trans (.part member))

/-- Merging makes up objects and enums alone, so a function in the arranged chain was there
before. -/
theorem arranged (outspoken : schema.IsOutspoken calls) {arranged : List Schema}
    (success : Chain.arrange schema.steps = .ok arranged) {step : Schema}
    (member : step ∈ arranged) :
    step.IsOutspoken calls := by
  intro callable inside
  apply outspoken callable
  cases inside with
  | self =>
      obtain before | object | enum := Chain.mem_or_merged_of_arrange success member
      · exact .step before
      · cases object
      · cases enum
  | deeper component within => exact within.trans (.arranged success member component)

end IsOutspoken

end Schema

section Compiled

variable {calls : Calls} {path : Path}

theorem explains_of_step {step : Schema} {check : Check} (outspoken : step.IsOutspoken calls)
    (parts : ∀ part ∈ step.parts, ∀ path check, compile calls part path = .ok check →
      check.Explains)
    (compiled : checkOfStep calls step path = .ok check) : check.Explains := by
  cases turnsInto_of_compiled compiled with
  | basic => exact Check.test_explains
  | function callable => exact Check.function_explains (outspoken callable .self)
  | predicate => exact Check.predicate_explains
  | optional inside => exact Check.optional_explains (parts _ List.mem_cons_self path _ inside)
  | enum => exact Check.test_explains
  | object known =>
      apply Check.object_explains
      intro property member
      obtain ⟨part, inside, place, own⟩ := part_of_property known member
      exact parts part inside place property.check own
  | indexed listed known =>
      rw [Schema.parts_indexed listed] at parts
      apply Check.indexed_explains
      intro check member
      obtain ⟨part, inside, place, own⟩ := part_of_check known member
      exact parts part inside place check own
  | @oneOf _ branches checks listed known =>
      have several : checks ≠ [] := by
        have length := (checksOfParts_eq_ok.mp known).length_eq
        have nonempty := branches_ne_nil compiled listed
        rintro rfl
        simp_all
      rw [Schema.parts_oneOf listed] at parts
      apply Check.oneOf_explains several
      intro branch member
      obtain ⟨part, inside, place, own⟩ := part_of_check known member
      exact parts part inside place branch own

theorem explains_of_compiled {schema : Schema} {check : Check}
    (outspoken : schema.IsOutspoken calls)
    (compiled : compile calls schema path = .ok check) : check.Explains := by
  have everywhere := Schema.induction
    (P := fun schema => schema.IsOutspoken calls → ∀ path check,
      compile calls schema path = .ok check → check.Explains)
    (Q := fun step => step.IsOutspoken calls → ∀ path check,
      checkOfStep calls step path = .ok check → check.Explains) ?_ ?_
  · exact everywhere.1 schema outspoken path check compiled
  · intro schema _ steps outspoken path check compiled
    rw [compile_eq] at compiled
    obtain ⟨arranged, checks, arranging, matched, rfl⟩ := checkOfSteps_eq_ok.mp compiled
    apply Check.chain_explains
    intro own member
    obtain ⟨step, inside, compiledStep⟩ := exists_mem_of_forall₂ matched member
    exact steps arranged arranging step inside
      (outspoken.arranged arranging inside) path own compiledStep
  · intro step parts outspoken path check compiled
    exact explains_of_step outspoken
      (fun part member => parts part member (outspoken.part member)) compiled

end Compiled

/-- At least one issue, and all of them at the place or further in. -/
structure Issue.Explain (path : Path) (issues : List Issue) : Prop where
  nonempty : issues ≠ []
  below : ∀ issue ∈ issues, path <+: issue.path

section Explaining

variable {calls : Calls} {path : Path}

theorem explain_of_rejected {schema : Schema} {check : Check} (outspoken : schema.IsOutspoken calls)
    (compiled : compile calls schema path = .ok check) {value : Value} {issues : List Issue}
    (rejected : check value = .error issues) : Issue.Explain path issues := by
  constructor
  · rintro rfl
    exact explains_of_compiled outspoken compiled value rejected
  · intro issue member
    obtain ⟨root, _, rfl⟩ := eq_under_of_compiled compiled
    have listed : issue ∈ ((root value).under path).issues := by
      have answer : (root value).under path = .error issues := rejected
      rwa [answer]
    rw [Outcome.issues_under] at listed
    obtain ⟨inner, _, rfl⟩ := List.mem_map.mp listed
    exact List.prefix_append path inner.path

/-- A defect that lists the issues of a fallback lists some. -/
def Defect.IsExplained (defect : Defect) : Prop :=
  ∀ issues, defect.fault = .fallbackRejected issues → Issue.Explain defect.path issues

theorem isExplained_of_step {step : Schema} {defect : Defect} (outspoken : step.IsOutspoken calls)
    (parts : ∀ part ∈ step.parts, ∀ path defect, compile calls part path = .error defect →
      defect.IsExplained)
    (refused : checkOfStep calls step path = .error defect) : defect.IsExplained := by
  cases refusedFor_of_refused refused with
  | itself _ static => exact fun issues same => absurd same (static issues)
  | fallback compiled rejected =>
      intro issues same
      cases same
      exact explain_of_rejected (outspoken.part List.mem_cons_self) compiled rejected
  | part _ member own => exact parts _ member _ defect own

theorem isExplained_of_refused {schema : Schema} {defect : Defect}
    (outspoken : schema.IsOutspoken calls)
    (refused : compile calls schema path = .error defect) : defect.IsExplained := by
  have everywhere := Schema.induction
    (P := fun schema => schema.IsOutspoken calls → ∀ path defect,
      compile calls schema path = .error defect → defect.IsExplained)
    (Q := fun step => step.IsOutspoken calls → ∀ path defect,
      checkOfStep calls step path = .error defect → defect.IsExplained) ?_ ?_
  · exact everywhere.1 schema outspoken path defect refused
  · intro schema _ steps outspoken path defect refused
    obtain ⟨fault, arranging, rfl⟩ | ⟨arranged, arranging, step, member, own⟩ :=
      refused_chain refused
    · exact fun issues same => absurd same (Chain.arrange_static arranging issues)
    · exact steps arranged arranging step member
        (outspoken.arranged arranging member) path defect own
  · intro step parts outspoken path defect refused
    exact isExplained_of_step outspoken
      (fun part member => parts part member (outspoken.part member)) refused

theorem compile_optional_of_rejected {inner : Schema} {check : Check}
    (compiled : compile calls inner path = .ok check) {fallback : Value} {issues : List Issue}
    (rejected : check fallback = .error issues) :
    compile calls (.step (.optional inner fallback)) path =
      .error ⟨path, .fallbackRejected issues⟩ := by
  have filling : acceptedFallback check fallback path =
      Fault.at path (.fallbackRejected issues) := by
    simp only [acceptedFallback, rejected]
  rw [compile_step, checkOfStep_optional, compiled]
  change (acceptedFallback check fallback path).map (Check.optional · check) = _
  rw [filling]
  rfl

end Explaining

/-- Unless a function inside the schema rejects without a word, every rejection lists at least one
issue, and none outside the place where the schema was compiled. The same value as the fallback of
an optional step then makes a defect that lists those issues, and wherever inside a schema a
fallback is rejected, the defect lists some. -/
theorem rejection_says_why {calls : Calls} {schema : Schema} (outspoken : schema.IsOutspoken calls)
    (path : Path) :
    (∀ check, compile calls schema path = .ok check →
      ∀ value issues, check value = .error issues → Issue.Explain path issues ∧
        compile calls (.step (.optional schema value)) path =
          .error ⟨path, .fallbackRejected issues⟩) ∧
    ∀ defect issues, compile calls schema path = .error defect →
      defect.fault = .fallbackRejected issues → Issue.Explain defect.path issues := by
  constructor
  · intro check compiled value issues rejected
    exact ⟨explain_of_rejected outspoken compiled rejected,
      compile_optional_of_rejected compiled rejected⟩
  · intro defect issues refused same
    exact isExplained_of_refused outspoken refused issues same

def findsShort : Calls := fun _ value =>
  match value with
  | .str _ => .outcome (.error [⟨[], "Too short", none⟩])
  | other => .outcome (.ok other)

theorem findsShort_outspoken (schema : Schema) : schema.IsOutspoken findsShort := by
  intro callable _ value
  cases value <;> simp [findsShort]

def labelled : Schema :=
  .step (.object [("label", .step (.oneOf (.list [.str "number", .function ⟨"measure", 0⟩])))])

def shortLabel : Value :=
  .dict [(.str "label", .str "a")]

theorem shortLabel_explained :
    ∃ check issues, compile findsShort labelled [.name "item"] = .ok check ∧
      check shortLabel = .error issues ∧ issues.map Issue.message = ["Not a number", "Too short"] ∧
      Issue.Explain [.name "item"] issues ∧
      ∃ defect, compile findsShort (.step (.optional labelled shortLabel)) [.name "item"] =
        .error defect ∧
        defect.fault = .fallbackRejected issues ∧ Issue.Explain defect.path issues := by
  have answers : (compile findsShort labelled [.name "item"]).map
      (fun check => (check shortLabel).isOk) = .ok false := by
    cbv
  obtain ⟨check, compiled, rejects⟩ := map_eq_ok.mp answers
  cases rejected : check shortLabel with
  | ok output => simp [rejected, Except.isOk, Except.toBool] at rejects
  | error issues =>
      have messages : (compile findsShort labelled [.name "item"]).map
          (fun check => (check shortLabel).issues.map Issue.message) =
            .ok ["Not a number", "Too short"] := by
        cbv
      rw [compiled, Except.map, rejected] at messages
      have explained :=
        (rejection_says_why (findsShort_outspoken labelled) [.name "item"]).1 check compiled
        shortLabel issues rejected
      have inside := (rejection_says_why
        (findsShort_outspoken (.step (.optional labelled shortLabel)))
        [.name "item"]).2 _ issues explained.2 rfl
      exact ⟨check, issues, compiled, rejected, Except.ok.inj messages, explained.1, _,
        explained.2, rfl, inside⟩

end SchemaCheck
