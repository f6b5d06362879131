import SchemaCheck.Proofs.Arrangement
import SchemaCheck.Proofs.Carrying

/-!
Checking an accepted value once more. Filling in, ordering by field and turning tuples into lists
are done once; what comes out of them is accepted as it is, as long as nothing after a predicate
makes values anew and no name comes up twice in an object.
-/

namespace SchemaCheck

namespace Check

/-- Whatever the check makes of a value, it accepts that and leaves it as it is. -/
def Settles (check : Check) : Prop :=
  ∀ value output, check value = .ok output → check output = .ok output

/-- The check returns what it accepts. -/
def Keeps (check : Check) : Prop :=
  check.Relates fun value output => output = value

theorem Keeps.settles {check : Check} (keeps : check.Keeps) : check.Settles := by
  intro value output accepted
  have same := keeps value output accepted
  subst same
  exact accepted

theorem Keeps.chain {checks : List Check} (keeps : ∀ check ∈ checks, check.Keeps) :
    (chain checks).Keeps := by
  intro value output accepted
  apply chain_related (R := fun value output => output = value) (fun _ => rfl) ?_ ?_ accepted
  · intro value between output first second
    exact second.trans first
  · intro check member value output accepted
    exact keeps check member value output accepted

theorem Settles.under {check : Check} (settles : check.Settles) (base : Path) :
    (check.under base).Settles := by
  intro value output accepted
  exact Outcome.under_eq_ok.mpr (settles value output (Outcome.under_eq_ok.mp accepted))

/-- A chain with one step that makes values anew settles if the steps before accept what it
makes. -/
theorem chain_settles (front : List Check) {back : List Check} {check : Check}
    (settles : check.Settles) (after : ∀ check ∈ back, check.Keeps)
    (passes : ∀ value output, check value = .ok output → chain front output = .ok output) :
    (chain (front ++ check :: back)).Settles := by
  intro value output accepted
  rw [chain_append] at accepted
  rcases bind_eq_ok.mp accepted with ⟨between, first, second⟩
  rcases bind_eq_ok.mp second with ⟨result, made, kept⟩
  have same : output = result := Keeps.chain after result output kept
  subst same
  calc chain (front ++ check :: back) output
      = chain front output >>= chain (check :: back) := chain_append ..
    _ = check output >>= chain back := by
        rw [passes between output made]
        rfl
    _ = chain back output := by
        rw [settles between output made]
        rfl
    _ = .ok output := kept

/-- A default was accepted once, so it is accepted again. -/
theorem optional_settles {default fallback : Value} {inner : Check} (settles : inner.Settles)
    (accepted : inner fallback = .ok default)
    (present : inner.Relates fun value output => value ≠ .null → output ≠ .null) :
    (optional default inner).Settles := by
  intro value output passed
  rcases optional_eq_ok.mp passed with ⟨_, rfl⟩ | ⟨given, passed⟩
  · by_cases null : output = .null
    · exact optional_eq_ok.mpr (.inl ⟨null, rfl⟩)
    · exact optional_eq_ok.mpr (.inr ⟨null, settles fallback output accepted⟩)
  · exact optional_eq_ok.mpr (.inr ⟨present value output passed given, settles value output passed⟩)

theorem zipWith_of_forall₂ {checks : List Check} {results : List Value}
    (each : List.Forall₂ (fun check result => check result = .ok result) checks results) :
    List.zipWith (fun check item => check item) checks results = results.map .ok := by
  induction each with
  | nil => rfl
  | cons first _ ih => rw [List.zipWith_cons_cons, List.map_cons, first, ih]

theorem indexed_settles {checks : List Check} {path : Path}
    (settles : ∀ check ∈ checks, check.Settles) :
    (indexed checks path).Settles := by
  intro value output accepted
  rcases indexed_eq_ok.mp accepted with ⟨items, results, _, length, answers, rfl⟩
  have made := (forall₂_of_accepted length answers).1
  refine indexed_eq_ok.mpr ⟨results, results, rfl, made.length_eq.symm, zipWith_of_forall₂ ?_, rfl⟩
  apply ((List.forall₂_and_left checks results).mpr ⟨settles, made⟩).imp
  intro check result found
  rcases found with ⟨settles, item, accepted⟩
  exact settles item result accepted

theorem complete_named {properties : List Property} {pairs : List (String × Value)}
    (same : names properties = pairs.map (·.1)) (distinct : (pairs.map (·.1)).Nodup) :
    missing properties (named pairs) = [] ∧ surplus properties (named pairs) = [] := by
  constructor
  · apply missing_eq_nil.mpr
    intro property member _
    have listed : property.name ∈ pairs.map (·.1) := same ▸ mem_names member
    rcases List.mem_map.mp listed with ⟨pair, kept, equal⟩
    rw [← equal, Value.property_named distinct kept]
    rfl
  · apply surplus_eq_nil.mpr
    intro entry member
    rcases List.mem_map.mp member with ⟨pair, kept, rfl⟩
    rw [same]
    exact Value.isAmong_iff.mpr ⟨pair.1, List.mem_map_of_mem kept, rfl⟩

theorem object_settles {properties : List Property} {path : Path}
    (distinct : (names properties).Nodup)
    (settles : ∀ property ∈ properties, property.check.Settles) :
      (object properties path).Settles := by
  intro value output accepted
  rcases object_eq_ok accepted with ⟨entries, pairs, rfl, _, _, outcomes, rfl⟩
  have filled := propertyOutcomes_eq_ok.mp outcomes
  have same : names properties = pairs.map (·.1) :=
    map_eq_map_iff.mpr (filled.imp fun _ _ found => found.1)
  rw [same] at distinct
  have rebuilt : rebuild pairs = .dict (named pairs) := by
    rw [rebuild, Entries.ofNamed, Entries.ofPairs_of_nodup (fun _ _ => beq_iff_eq) distinct]
    rfl
  have again : propertyOutcomes properties (named pairs) = pairs.map .ok := by
    apply propertyOutcomes_eq_ok.mpr
    rcases List.forall₂_iff_zip.mp filled with ⟨length, each⟩
    refine List.forall₂_iff_zip.mpr ⟨length, ?_⟩
    intro property pair member
    rcases List.of_mem_zip member with ⟨inside, kept⟩
    rcases each member with ⟨equal, accepted⟩
    refine ⟨equal, ?_⟩
    rw [equal, Value.property_named distinct kept]
    exact settles property inside _ pair.2 accepted
  rcases complete_named same distinct with ⟨present, declared⟩
  rw [rebuilt, object_of_complete path present declared, map_eq_ok]
  exact ⟨pairs, Outcome.collect_eq_ok.mpr again, rebuilt⟩

end Check

namespace Schema

/-- The schema is no call and no choice, as a chain nothing after a predicate makes a value anew,
and none of its objects, once merged, names a field twice. -/
structure Orderly (schema : Schema) : Prop where
  plain : ∀ kind ∈ [.function, .oneOf], schema.kind ≠ .ok kind
  turns : (schema.steps.map Schema.kind).Pairwise InTurn
  distinct : ∀ arranged, Chain.arrange schema.steps = .ok arranged →
    ∀ fields, .step (.object fields) ∈ arranged → (fields.map (·.1)).Nodup

def OrderlyThroughout (schema : Schema) : Prop :=
  ∀ inner, Within inner schema → inner.Orderly

namespace OrderlyThroughout

variable {schema : Schema}

theorem within (orderly : schema.OrderlyThroughout) {inner : Schema}
    (inside : Within inner schema) :
    inner.OrderlyThroughout :=
  fun deepest deeper => orderly deepest (deeper.trans inside)

theorem free (orderly : schema.OrderlyThroughout) : schema.FreeOf [.function, .oneOf] :=
  fun inner inside => (orderly inner inside).plain

theorem of_components (own : schema.Orderly)
    (components : ∀ component ∈ schema.components, component.OrderlyThroughout) :
    schema.OrderlyThroughout := by
  intro inner inside
  cases inside with
  | self => exact own
  | deeper member within => exact components _ member inner within

end OrderlyThroughout

end Schema

section Settling

variable {calls : Calls} {path : Path}

theorem basic_of_kind {step : Schema} {kind : BasicKind} {check : Check}
    (known : step.kind = .ok (.basic kind)) (compiled : checkOfStep calls step path = .ok check) :
    check = Check.basic kind path := by
  cases turnsInto_of_compiled compiled with
  | basic found =>
      rw [Schema.kind, found] at known
      cases known
      rfl
  | _ => cases known

theorem indexed_of_kind {step : Schema} {check : Check} (known : step.kind = .ok .indexed)
    (compiled : checkOfStep calls step path = .ok check) :
    ∃ checks, check = Check.indexed checks path := by
  cases turnsInto_of_compiled compiled with
  | basic found =>
      rw [Schema.kind, found] at known
      cases known
  | indexed listed inside => exact ⟨_, rfl⟩
  | _ => cases known

theorem keeps_of_steps {steps : List Schema} {checks : List Check}
    (matched : List.Forall₂
      (fun step check => checkOfStep calls step path = .ok check) steps checks)
    (keeps : ∀ step ∈ steps, step.Keeps) : ∀ check ∈ checks, check.Keeps := by
  intro check member value output accepted
  rcases exists_mem_of_forall₂ matched member with ⟨step, inside, compiled⟩
  exact checkOfStep_keeps (keeps step inside) compiled accepted

theorem chain_settles_of_tidy {steps : List Schema} {checks : List Check} (tidy : Chain.Tidy steps)
    (matched : List.Forall₂
      (fun step check => checkOfStep calls step path = .ok check) steps checks)
    (settles : ∀ check ∈ checks, check.Settles) : (Check.chain checks).Settles := by
  cases matched with
  | nil => exact (Check.Keeps.chain (List.forall_mem_nil _)).settles
  | @cons first check rest others head tail =>
      rcases tidy.rebuilt_once with keeps | ⟨array, indexed, back, rfl, isIndexed, keeps⟩
      · exact Check.chain_settles [] (settles check List.mem_cons_self)
          (keeps_of_steps tail keeps) fun _ _ _ => rfl
      · rcases List.forall₂_cons_left_iff.mp tail with ⟨second, later, middle, last, rfl⟩
        apply Check.chain_settles [check]
          (settles second (List.mem_cons_of_mem _ List.mem_cons_self)) (keeps_of_steps last keeps)
        -- What an indexed step makes is a list, so the test for an array accepts it.
        intro value output made
        rcases indexed_of_kind isIndexed middle with ⟨checks, rfl⟩
        rcases Check.indexed_eq_ok.mp made with ⟨_, results, _, _, _, rfl⟩
        rw [basic_of_kind array head, Check.chain_singleton]
        exact Check.basic_eq_ok.mpr ⟨rfl, rfl⟩

/-- Checks that call no function make nothing only of nothing. -/
theorem presence_carried :
    Carried [.function, .oneOf] fun value output => value ≠ .null → output ≠ .null where
  refl _ given := given
  trans first second given := second (first given)
  null _ _ given := absurd rfl given
  items _ _ _ := nofun
  entries _ _ _ _ := nofun

theorem settles_of_step {step : Schema} {check : Check}
    (plain : ∀ kind ∈ [.function, .oneOf], step.kind ≠ .ok kind)
    (distinct : ∀ fields, step = .step (.object fields) → (fields.map (·.1)).Nodup)
    (free : ∀ part ∈ step.parts, part.FreeOf [.function, .oneOf])
    (parts : ∀ part ∈ step.parts, ∀ check, compile calls part [] = .ok check → check.Settles)
    (compiled : checkOfStep calls step [] = .ok check) : check.Settles := by
  have kept : step.Keeps → check.Settles := by
    intro keeps
    apply Check.Keeps.settles
    intro value output accepted
    exact checkOfStep_keeps keeps compiled accepted
  have moved : ∀ part ∈ step.parts, ∀ path own, compile calls part path = .ok own →
      own.Settles := by
    intro part member path own known
    rcases eq_under_of_compiled known with ⟨root, compiledRoot, rfl⟩
    exact (parts part member root compiledRoot).under path
  cases turnsInto_of_compiled compiled with
  | basic found => exact kept (Schema.keeps_of_name found)
  | function => exact absurd rfl (plain .function List.mem_cons_self)
  | predicate => exact kept ⟨.predicate, rfl, rfl⟩
  | enum => exact kept ⟨.enum, rfl, rfl⟩
  | @optional inner _ _ own inside accepted =>
      apply Check.optional_settles (parts inner List.mem_cons_self own inside) accepted
      exact (presence_carried.related List.mem_cons_self).1 inner
        (free inner List.mem_cons_self) own inside
  | @object fields _ known =>
      apply Check.object_settles
      · rw [names_of_compiled known]
        exact distinct fields rfl
      · intro property member
        rcases part_of_property known member with ⟨part, inside, place, own⟩
        exact moved part inside place property.check own
  | indexed listed known =>
      rw [Schema.parts_indexed listed] at moved
      apply Check.indexed_settles
      intro check member
      rcases part_of_check known member with ⟨part, inside, place, own⟩
      exact moved part inside place check own
  | oneOf => exact absurd rfl (plain .oneOf (List.mem_cons_of_mem _ List.mem_cons_self))

theorem tidy_of_orderly {schema : Schema} (orderly : schema.OrderlyThroughout)
    {arranged : List Schema} {checks : List Check}
    (arranging : Chain.arrange schema.steps = .ok arranged)
    (matched : List.Forall₂
      (fun step check => checkOfStep calls step path = .ok check) arranged checks) :
    Chain.Tidy arranged := by
  refine Chain.tidy_of_arrange arranging ?_ (orderly schema .self).turns
  intro step member
  rcases exists_mem_of_forall₂ matched.flip member with ⟨check, _, compiled⟩
  rcases (turnsInto_of_compiled compiled).kind with ⟨kind, known⟩
  exact ⟨kind, known, (orderly.free.arranged arranging member).kind_not_mem known⟩

theorem settles_of_orderly {schema : Schema} (orderly : schema.OrderlyThroughout) {check : Check}
    (compiled : compile calls schema [] = .ok check) : check.Settles := by
  have settled := Schema.induction
    (P := fun schema => schema.OrderlyThroughout → ∀ check, compile calls schema [] = .ok check →
      check.Settles)
    (Q := fun step => (∀ kind ∈ [.function, .oneOf], step.kind ≠ .ok kind) →
      (∀ fields, step = .step (.object fields) → (fields.map (·.1)).Nodup) →
      (∀ part ∈ step.parts, part.OrderlyThroughout) →
        ∀ check, checkOfStep calls step [] = .ok check →
        check.Settles) ?_ ?_
  · exact settled.1 schema orderly check compiled
  · intro schema _ settled orderly check compiled
    rw [compile_eq] at compiled
    rcases checkOfSteps_eq_ok.mp compiled with ⟨arranged, checks, arranging, matched, rfl⟩
    apply chain_settles_of_tidy (tidy_of_orderly orderly arranging matched) matched
    intro check member
    rcases exists_mem_of_forall₂ matched member with ⟨step, inside, compiledStep⟩
    apply settled arranged arranging step inside
    · exact (orderly.free.arranged arranging inside) step .self
    · rintro fields rfl
      exact (orderly schema .self).distinct arranged arranging fields inside
    · intro part belongs
      exact orderly.within (.arranged arranging inside (Schema.mem_components_of_part belongs))
    · exact compiledStep
  · intro step settled plain distinct parts check compiled
    exact settles_of_step plain distinct (fun part member => (parts part member).free)
      (fun part member => settled part member (parts part member)) compiled

end Settling

/-- Whatever the check of a schema that is orderly throughout makes of a value, it accepts that and
leaves it as it is, down to the order of keys. -/
theorem output_revalidates {calls : Calls} {path : Path} {schema : Schema} {check : Check}
    (compiled : compile calls schema path = .ok check) (orderly : schema.OrderlyThroughout)
    {value output : Value} (accepted : check value = .ok output) : check output = .ok output := by
  rcases eq_under_of_compiled compiled with ⟨root, compiledRoot, rfl⟩
  exact (settles_of_orderly orderly compiledRoot).under path value output accepted

theorem Schema.orderly_of_alone {step : Schema}
    (plain : ∀ kind ∈ [.function, .oneOf], step.kind ≠ .ok kind)
    (alone : step.steps = [step]) (distinct : (step.objectFields.map (·.1)).Nodup) :
      step.Orderly := by
  refine ⟨plain, ?_, ?_⟩
  · rw [alone]
    exact List.pairwise_singleton _ _
  · intro arranged success fields member
    rw [alone] at success
    have same := (Chain.arrange_eq_ok.mp success).2.2
    rw [if_pos rfl] at same
    rw [same, List.mem_singleton] at member
    rw [← member] at distinct
    exact distinct

theorem Schema.orderly_text (name : String) : OrderlyThroughout (.str name) := by
  apply OrderlyThroughout.of_components ?_ (List.forall_mem_nil _)
  exact orderly_of_alone (FreeOf.of_text (by simp) name _ .self) rfl List.nodup_nil

theorem Schema.orderly_step {composite : Step} (plain : composite.kind ∉ [.function, .oneOf])
    (distinct : ((Schema.objectFields (.step composite)).map (·.1)).Nodup)
    (parts : ∀ part ∈ Schema.parts (.step composite), part.OrderlyThroughout) :
    OrderlyThroughout (.step composite) := by
  refine OrderlyThroughout.of_components (orderly_of_alone ?_ rfl distinct) parts
  intro kind banned same
  cases same
  exact plain banned

def coordinates : List Schema :=
  [.str "array", .step (.indexed (.list [.str "number", .str "number"])),
    .step (.predicate ⟨"near", 0⟩ "too far" none)]

def namedPlace : Schema :=
  .step (.object [("at", .list coordinates),
    ("label", .step (.optional (.str "string") (.str "none")))])

theorem coordinates_orderly : Schema.OrderlyThroughout (.list coordinates) := by
  apply Schema.OrderlyThroughout.of_components
  · refine ⟨?_, ?_, ?_⟩
    · intro kind _ same
      cases same
    · have kinds : (Schema.steps (.list coordinates)).map Schema.kind =
          [.ok (.basic .array), .ok .indexed, .ok .predicate] := by
        rfl
      rw [kinds]
      simp [Schema.InTurn]
    · have unmerged : Chain.arrange (Schema.steps (.list coordinates)) = .ok coordinates := by
        rfl
      intro arranged success fields member
      cases unmerged.symm.trans success
      simp [coordinates] at member
  · simp only [Schema.components, coordinates, List.forall_mem_cons]
    refine ⟨Schema.orderly_text "array", ?_, ?_, List.forall_mem_nil _⟩
    · refine Schema.orderly_step (by decide) (by decide) ?_
      simp only [Schema.parts, Value.items?, Option.getD_some, List.forall_mem_cons]
      exact ⟨Schema.orderly_text "number", Schema.orderly_text "number", List.forall_mem_nil _⟩
    · exact Schema.orderly_step (by decide) (by decide) (List.forall_mem_nil _)

theorem namedPlace_orderly : namedPlace.OrderlyThroughout := by
  refine Schema.orderly_step (by decide) (by decide) ?_
  simp only [Schema.parts, List.map_cons, List.map_nil, List.forall_mem_cons]
  refine ⟨coordinates_orderly, ?_, List.forall_mem_nil _⟩
  refine Schema.orderly_step (by decide) (by decide) ?_
  simp only [Schema.parts, List.forall_mem_cons]
  exact ⟨Schema.orderly_text "string", List.forall_mem_nil _⟩

theorem namedPlace_revalidates :
    ∃ check output, compile (fun _ _ => .value (.bool true)) namedPlace [] = .ok check ∧
      check (.dict [(.str "at", .tuple [.int 1, .int 2])]) = .ok output ∧
        check output = .ok output := by
  have answers : (compile (fun _ _ => .value (.bool true)) namedPlace []).map
      (fun check => check (.dict [(.str "at", .tuple [.int 1, .int 2])])) =
      .ok (.ok (.dict [(.str "at", .list [.int 1, .int 2]), (.str "label", .str "none")])) := by
    cbv
  rcases map_eq_ok.mp answers with ⟨check, compiled, accepted⟩
  exact ⟨check, _, compiled, accepted, output_revalidates compiled namedPlace_orderly accepted⟩

end SchemaCheck
