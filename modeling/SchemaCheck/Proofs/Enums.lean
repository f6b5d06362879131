import SchemaCheck.Proofs.Equality
import SchemaCheck.Proofs.Joining
import SchemaCheck.Proofs.WellFormed

/-!
Chains of enums. They are merged into one enum with all their options, so they accept together what
any of them accepts alone; in which order the options come, and how often, makes no difference to
that.
-/

namespace SchemaCheck

def chainOfEnums (enums : List Value) : List Schema :=
  enums.map fun options => .step (.enum options)

def optionsOf (enums : List Value) : List Value :=
  enums.flatMap fun options => options.items?.getD []

/-- What several enums list as one: a single one its options as they are, more of them theirs in one
list. -/
def listedOptions : List Value → Value
  | [options] => options
  | enums => .list (optionsOf enums)

section Options

variable {enums : List Value}

theorem literalOptions_of_optionList {options : Value} (listed : options.IsOptionList) :
    literalOptions options = .ok (options.items?.getD []) := by
  obtain ⟨items, same, literal⟩ := listed
  rw [literalOptions_eq_ok, same]
  exact ⟨rfl, literal⟩

theorem isLiteral_of_mem_optionsOf (listed : ∀ options ∈ enums, options.IsOptionList) :
    ∀ option ∈ optionsOf enums, option.isLiteral = true := by
  intro option member
  obtain ⟨options, inside, among⟩ := List.mem_flatMap.mp member
  exact (literalOptions_eq_ok.mp (literalOptions_of_optionList (listed options inside))).2 option
    among

theorem literalOptions_listedOptions (nonempty : enums ≠ [])
    (listed : ∀ options ∈ enums, options.IsOptionList) :
    literalOptions (listedOptions enums) = .ok (optionsOf enums) := by
  unfold listedOptions
  split
  · rename_i options
    simpa [optionsOf] using literalOptions_of_optionList (listed options List.mem_cons_self)
  · exact literalOptions_list (isLiteral_of_mem_optionsOf listed)

end Options

namespace Chain

variable {enums : List Value}

theorem merge_enums (nonempty : enums ≠ []) (listed : ∀ options ∈ enums, options.IsOptionList) :
    merge (chainOfEnums enums) = .ok [.step (.enum (listedOptions enums))] := by
  induction enums with
  | nil => exact absurd rfl nonempty
  | cons options rest ih =>
      obtain ⟨own, others⟩ := List.forall_mem_cons.mp listed
      cases rest with
      | nil => rfl
      | cons next rest =>
          have several : next :: rest ≠ [] := List.cons_ne_nil next rest
          refine merge_cons_iff.mpr ⟨⟨.enum, rfl⟩, _, ih several others, .joined ?_⟩
          exact .enums (literalOptions_of_optionList own)
            (literalOptions_listedOptions several others)

theorem arrange_enums (nonempty : enums ≠ []) (listed : ∀ options ∈ enums, options.IsOptionList) :
    arrange (chainOfEnums enums) = .ok [.step (.enum (listedOptions enums))] := by
  have kinds : ∀ step ∈ chainOfEnums enums, ∃ kind, step.kind = .ok kind := by
    intro step member
    obtain ⟨_, _, rfl⟩ := List.mem_map.mp member
    exact ⟨.enum, rfl⟩
  have follow : List.IsChain Schema.MayFollow (chainOfEnums enums) := by
    apply (List.isChain_map _).mpr
    exact (List.pairwise_of_forall fun _ _ => ⟨.enum, .enum, rfl, rfl, rfl⟩).isChain
  have merged := merge_enums nonempty listed
  obtain ⟨options, rest, rfl⟩ := List.exists_cons_of_ne_nil nonempty
  exact (arrange_eq_ok_iff_merge kinds).mpr ⟨rfl, follow, merged⟩

end Chain

section Compiled

variable {calls : Calls} {path : Path} {enums : List Value}

theorem steps_chainOfEnums (enums : List Value) :
    Schema.steps (.list (chainOfEnums enums)) = chainOfEnums enums := by
  rw [Schema.steps, chainOfEnums, List.flatMap_map]
  exact (List.map_eq_flatMap).symm

theorem compile_enums (nonempty : enums ≠ []) (listed : ∀ options ∈ enums, options.IsOptionList) :
    compile calls (.list (chainOfEnums enums)) path =
      .ok (Check.enum (listedOptions enums) (optionsOf enums) path) := by
  rw [compile_eq, steps_chainOfEnums,
    checkOfSteps_of_arranged calls path (Chain.arrange_enums nonempty listed)]
  simp only [checksOfSteps, checkOfStep, literalOptions_listedOptions nonempty listed]
  exact congrArg Except.ok (Check.chain_singleton _)

theorem compile_enum {options : Value} (listed : options.IsOptionList) :
    compile calls (.step (.enum options)) path =
      .ok (Check.enum options (options.items?.getD []) path) := by
  rw [compile_step, checkOfStep, literalOptions_of_optionList listed]

theorem listed_of_compiled {check : Check}
    (compiled : compile calls (.list (chainOfEnums enums)) path = .ok check) :
    enums ≠ [] ∧ ∀ options ∈ enums, options.IsOptionList := by
  obtain ⟨arranged, arranging, compile⟩ :=
    compiles_iff_arranged.mp ((Schema.compiles_anywhere path).mp ⟨check, compiled⟩)
  rw [steps_chainOfEnums] at arranging
  have nonempty : enums ≠ [] := by
    intro empty
    subst empty
    cases arranging
  refine ⟨nonempty, fun options member => ?_⟩
  have inside : .step (.enum options) ∈ chainOfEnums enums := List.mem_map_of_mem member
  obtain ⟨first, rest, shape⟩ := List.exists_cons_of_ne_nil (List.ne_nil_of_mem inside)
  rw [shape] at arranging inside
  have good := (arrange_compiles.mp ⟨arranged, arranging, compile⟩).2.1
  exact Schema.stepCompiles_enum.mp (good _ inside)

end Compiled

section Acceptance

variable {path : Path} {options others : List Value} {listed value : Value}

theorem accepts_iff_equal (literal : ∀ option ∈ options, option.isLiteral = true) :
    Check.enum listed options path value = .ok value ↔
      ∃ option ∈ options, value.EqualInKind option := by
  have equal : (∃ option ∈ options, value.equalsLiteral option = true) ↔
      ∃ option ∈ options, value.EqualInKind option :=
    exists_congr fun option => and_congr_right fun member =>
      Value.equalsLiteral_iff (literal option member)
  rw [Check.enum_eq_ok, equal, and_iff_left rfl]

/-- Each option is one of the others or equal to one of them. -/
def CoveredBy (others options : List Value) : Prop :=
  ∀ option ∈ options, ∃ other ∈ others, option = other ∨ option.EqualInKind other

theorem isLiteral_of_covered (covered : CoveredBy others options)
    (literal : ∀ other ∈ others, other.isLiteral = true) :
      ∀ option ∈ options, option.isLiteral = true := by
  intro option member
  obtain ⟨other, inside, rfl | equal⟩ := covered option member
  · exact literal option inside
  · exact Value.isLiteral_of_equals ((Value.equalsLiteral_iff (literal other inside)).mpr equal)

theorem equal_of_covered (covered : CoveredBy others options)
    (literal : ∀ other ∈ others, other.isLiteral = true)
    (accepted : ∃ option ∈ options, value.EqualInKind option) :
      ∃ other ∈ others, value.EqualInKind other := by
  obtain ⟨option, member, equal⟩ := accepted
  obtain ⟨other, inside, rfl | same⟩ := covered option member
  · exact ⟨option, inside, equal⟩
  · have own := isLiteral_of_covered covered literal option member
    rw [← Value.equalsLiteral_iff own] at equal
    rw [← Value.equalsLiteral_iff (literal other inside)] at same
    rw [Value.equalsLiteral_of_equal same] at equal
    exact ⟨other, inside, (Value.equalsLiteral_iff (literal other inside)).mp equal⟩

end Acceptance

/-- The same options, whatever their order, their number and the spelling of numbers. -/
structure SameOptions (options others : List Value) : Prop where
  covered : CoveredBy others options
  covering : CoveredBy options others

/-- Enums in a chain accept what one of them accepts alone, which is what equals one of their
options, and else list all their options; what they accept together depends on nothing but which
options there are. -/
theorem enums_accept_union {calls : Calls} {path : Path} {enums : List Value} {whole : Check}
    (compiled : compile calls (.list (chainOfEnums enums)) path = .ok whole) :
    ∃ own : Value → Check,
      (∀ options ∈ enums, compile calls (.step (.enum options)) path = .ok (own options)) ∧
      (∀ value,
        (whole value = .ok value ↔ ∃ options ∈ enums, ∃ output, own options value = .ok output) ∧
        (whole value = .ok value ↔ ∃ option ∈ optionsOf enums, value.EqualInKind option) ∧
        (whole value = .ok value ∨ ∃ listed : Value, listed.items? = some (optionsOf enums) ∧
          whole value = .error [⟨path, "Unexpected value", some (.expected listed)⟩])) ∧
      ∀ others : List Value, others ≠ [] → (∀ options ∈ others, options.items?.isSome = true) →
        SameOptions (optionsOf enums) (optionsOf others) →
          ∃ check, compile calls (.list (chainOfEnums others)) path = .ok check ∧
            ∀ value, check value = .ok value ↔ whole value = .ok value := by
  obtain ⟨nonempty, listed⟩ := listed_of_compiled compiled
  rw [compile_enums nonempty listed] at compiled
  cases compiled
  have literal := isLiteral_of_mem_optionsOf listed
  refine ⟨fun options => Check.enum options (options.items?.getD []) path, ?_, ?_, ?_⟩
  · exact fun options member => compile_enum (listed options member)
  · intro value
    refine ⟨?_, accepts_iff_equal literal, ?_⟩
    · simp only [Check.enum_eq_ok, optionsOf, List.mem_flatMap]
      constructor
      · intro accepted
        obtain ⟨⟨option, ⟨options, inside, member⟩, equal⟩, _⟩ := accepted
        exact ⟨options, inside, value, ⟨option, member, equal⟩, rfl⟩
      · intro accepted
        obtain ⟨options, inside, _, ⟨option, member, equal⟩, _⟩ := accepted
        exact ⟨⟨option, ⟨options, inside, member⟩, equal⟩, trivial⟩
    · by_cases passes : (optionsOf enums).any value.equalsLiteral = true
      · exact .inl (if_pos passes)
      · have items := (literalOptions_eq_ok.mp (literalOptions_listedOptions nonempty listed)).1
        exact .inr ⟨_, items, if_neg passes⟩
  · intro others several lists same
    have literalOthers := isLiteral_of_covered same.covering literal
    have listedOthers : ∀ options ∈ others, options.IsOptionList := by
      intro options member
      obtain ⟨items, shape⟩ := Option.isSome_iff_exists.mp (lists options member)
      refine ⟨items, shape, fun item inside => literalOthers item ?_⟩
      exact List.mem_flatMap.mpr ⟨options, member, by simpa [shape] using inside⟩
    refine ⟨_, compile_enums several listedOthers, fun value => ?_⟩
    rw [accepts_iff_equal literalOthers, accepts_iff_equal literal]
    exact ⟨equal_of_covered same.covering literal, equal_of_covered same.covered literalOthers⟩

def mixedOptions : List Value :=
  [.list [.str "a", .int 1], .tuple [.bool true, .str "a"]]

def mixedOptionsOnce : List Value :=
  [.tuple [.bool true, .int 1], .list [.str "a"]]

theorem mixedOptions_united :
    ∃ whole once, compile (fun _ value => .value value)
      (.list (chainOfEnums mixedOptions)) [] = .ok whole ∧
      compile (fun _ value => .value value) (.list (chainOfEnums mixedOptionsOnce)) [] = .ok once ∧
      whole (.bool true) = .ok (.bool true) ∧
      whole (.bool false) = .error [⟨[], "Unexpected value",
        some (.expected (.list [.str "a", .int 1, .bool true, .str "a"]))⟩] ∧
      ∀ value, once value = .ok value ↔ whole value = .ok value := by
  have answers : (compile (fun _ value => .value value) (.list (chainOfEnums mixedOptions)) []).map
      (fun whole => (whole (.bool true), whole (.bool false))) =
        .ok (.ok (.bool true), .error [⟨[], "Unexpected value",
          some (.expected (.list [.str "a", .int 1, .bool true, .str "a"]))⟩]) := by
    cbv
  obtain ⟨whole, compiled, same⟩ := map_eq_ok.mp answers
  obtain ⟨accepted, rejected⟩ := Prod.mk.inj same
  obtain ⟨own, alone, union, rearranged⟩ := enums_accept_union compiled
  have same : SameOptions (optionsOf mixedOptions) (optionsOf mixedOptionsOnce) := by
    constructor
    · intro option member
      refine ⟨option, ?_, .inl rfl⟩
      simp [optionsOf, mixedOptions, mixedOptionsOnce, Value.items?] at member ⊢
      tauto
    · intro option member
      refine ⟨option, ?_, .inl rfl⟩
      simp [optionsOf, mixedOptions, mixedOptionsOnce, Value.items?] at member ⊢
      tauto
  have lists : ∀ options ∈ mixedOptionsOnce, options.items?.isSome = true := by
    simp [mixedOptionsOnce, Value.items?]
  obtain ⟨once, compiledOnce, alike⟩ :=
    rearranged mixedOptionsOnce (List.cons_ne_nil _ _) lists same
  exact ⟨whole, once, compiled, compiledOnce, accepted, rejected, alike⟩

end SchemaCheck
