import SchemaCheck.Proofs.Parts
import SchemaCheck.Proofs.Runs

/-!
Laws of merging. The runs of a chain hold steps of one kind each, merging a run leaves steps of that
kind, and the kinds that merge may follow themselves, so whether neighbours clash can be told from
the chain as it stood before.
-/

namespace SchemaCheck

theorem literalOptions_eq_ok {options : Value} {items : List Value} :
    literalOptions options = .ok items ↔
      options.items? = some items ∧ ∀ item ∈ items, item.isLiteral = true := by
  unfold literalOptions
  cases listed : options.items? with
  | none => simp
  | some listedItems =>
      dsimp only
      split
      · rename_i clean
        have literal : ∀ item ∈ listedItems, item.isLiteral = true := by
          simpa [List.filter_eq_nil_iff] using clean
        constructor
        · intro success
          cases success
          exact ⟨rfl, literal⟩
        · intro found
          obtain ⟨same, _⟩ := found
          cases same
          rfl
      · rename_i dirty
        constructor
        · intro success
          cases success
        · intro found
          obtain ⟨same, literal⟩ := found
          cases same
          exact absurd (by simpa [List.filter_eq_nil_iff] using literal) dirty

namespace Schema

theorem eq_object_of_kind {schema : Schema} (kind : schema.kind = .ok .object) :
    ∃ fields, schema = .step (.object fields) := by
  unfold Schema.kind at kind
  split at kind
  · split at kind <;> simp at kind
  · rename_i step
    cases step with
    | object fields => exact ⟨fields, rfl⟩
    | _ => simp [Step.kind] at kind
  · simp at kind
  · simp at kind

theorem eq_enum_of_kind {schema : Schema} (kind : schema.kind = .ok .enum) :
    ∃ options, schema = .step (.enum options) := by
  unfold Schema.kind at kind
  split at kind
  · split at kind <;> simp at kind
  · rename_i step
    cases step with
    | enum options => exact ⟨options, rfl⟩
    | _ => simp [Step.kind] at kind
  · simp at kind
  · simp at kind

/-- A step of the one kind may come right after a step of the other. -/
def MayFollow (earlier later : Schema) : Prop :=
  ∃ before after, earlier.kind = .ok before ∧ later.kind = .ok after ∧
    before.admits after = true

theorem mayFollow_iff {earlier later : Schema} {before after : Kind}
    (first : earlier.kind = .ok before) (second : later.kind = .ok after) :
    MayFollow earlier later ↔ before.admits after = true := by
  constructor
  · intro found
    obtain ⟨_, _, known, known', admitted⟩ := found
    rw [first] at known
    rw [second] at known'
    cases known
    cases known'
    exact admitted
  · intro admitted
    exact ⟨before, after, first, second, admitted⟩

/-- Only the kinds of steps matter to their neighbours. -/
theorem isChain_replace {step other : Schema} (same : step.kind = other.kind)
    (front back : List Schema) :
    List.IsChain MayFollow (front ++ step :: back) ↔
      List.IsChain MayFollow (front ++ other :: back) := by
  let admits (before after : Except Fault Kind) : Prop :=
    ∃ earlier later, before = .ok earlier ∧ after = .ok later ∧ earlier.admits later = true
  have byKinds : ∀ steps : List Schema,
      List.IsChain MayFollow steps ↔ List.IsChain admits (steps.map Schema.kind) := by
    intro steps
    exact (List.isChain_map (R := admits) Schema.kind).symm
  rw [byKinds, byKinds, List.map_append, List.map_append, List.map_cons, List.map_cons, same]

/-- A run of a kind that may follow itself does to its neighbours what any one step of that kind
does. -/
theorem isChain_collapse {kind : Kind} (self : kind.admits kind = true) {one : Schema}
    (alike : one.kind = .ok kind) {run : List Schema} (nonempty : run ≠ [])
    (uniform : ∀ step ∈ run, step.kind = .ok kind) (front back : List Schema) :
    List.IsChain MayFollow (front ++ (run ++ back)) ↔
      List.IsChain MayFollow (front ++ one :: back) := by
  induction run generalizing front with
  | nil => exact absurd rfl nonempty
  | cons step rest ih =>
      have head := uniform step List.mem_cons_self
      have same : step.kind = one.kind := head.trans alike.symm
      cases rest with
      | nil => exact isChain_replace same front back
      | cons next others =>
          have tail := ih (List.cons_ne_nil _ _)
            (fun step member => uniform step (List.mem_cons_of_mem _ member)) (front ++ [step])
          have follows : MayFollow step one := (mayFollow_iff head alike).mpr self
          calc List.IsChain MayFollow (front ++ (step :: next :: others ++ back))
              ↔ List.IsChain MayFollow (front ++ [step] ++ (next :: others ++ back)) := by simp
            _ ↔ List.IsChain MayFollow (front ++ [step] ++ one :: back) := tail
            _ ↔ List.IsChain MayFollow (front ++ step :: one :: back) := by simp
            _ ↔ List.IsChain MayFollow (front ++ [step]) ∧
                  List.IsChain MayFollow (one :: back) := by
                rw [List.isChain_append_cons_cons]
                exact ⟨fun chain => ⟨chain.1, chain.2.2⟩,
                  fun chain => ⟨chain.1, follows, chain.2⟩⟩
            _ ↔ List.IsChain MayFollow (front ++ [one]) ∧
                  List.IsChain MayFollow (one :: back) := by
                rw [isChain_replace same front []]
            _ ↔ List.IsChain MayFollow (front ++ one :: back) := List.isChain_split.symm

end Schema

namespace Chain

theorem classify_eq_ok {steps : List Schema} {classified : List (Kind × Schema)} :
    classify steps = .ok classified ↔
      classified.map (·.2) = steps ∧ ∀ pair ∈ classified, pair.2.kind = .ok pair.1 := by
  induction steps generalizing classified with
  | nil =>
      constructor
      · intro success
        cases success
        exact ⟨rfl, List.forall_mem_nil _⟩
      · intro found
        obtain ⟨none, _⟩ := found
        rw [List.map_eq_nil_iff.mp none, classify]
  | cons step rest ih =>
      constructor
      · intro success
        obtain ⟨kind, later, known, others, rfl⟩ := classify_cons.mp success
        obtain ⟨rfl, kinds⟩ := ih.mp others
        exact ⟨rfl, List.forall_mem_cons.mpr ⟨known, kinds⟩⟩
      · intro found
        obtain ⟨same, kinds⟩ := found
        obtain ⟨⟨kind, own⟩, later, rfl, rfl, others⟩ := List.map_eq_cons_iff.mp same
        have known := kinds (kind, own) List.mem_cons_self
        have tail := ih.mpr ⟨others, fun pair member => kinds pair (List.mem_cons_of_mem _ member)⟩
        rw [classify, known, tail]
        rfl

/-- Steps that all have a kind are classified. -/
theorem exists_classify_iff {steps : List Schema} :
    (∃ classified, classify steps = .ok classified) ↔
      ∀ step ∈ steps, ∃ kind, step.kind = .ok kind := by
  constructor
  · intro found step member
    obtain ⟨classified, success⟩ := found
    obtain ⟨rfl, kinds⟩ := classify_eq_ok.mp success
    obtain ⟨pair, inside, rfl⟩ := List.mem_map.mp member
    exact ⟨pair.1, kinds pair inside⟩
  · intro kinds
    induction steps with
    | nil => exact ⟨[], rfl⟩
    | cons step rest ih =>
        obtain ⟨kind, known⟩ := kinds step List.mem_cons_self
        obtain ⟨later, others⟩ := ih fun step member => kinds step (List.mem_cons_of_mem _ member)
        exact ⟨(kind, step) :: later, by rw [classify, known, others]; rfl⟩

theorem clash_eq_none {kinds : List Kind} :
    clash? kinds = none ↔
      List.IsChain (fun earlier later => earlier.admits later = true) kinds := by
  induction kinds with
  | nil => simp [clash?]
  | cons earlier rest ih =>
      cases rest with
      | nil => simp [clash?]
      | cons later others =>
          rw [clash?, List.isChain_cons_cons]
          split
          · rename_i admitted
            rw [ih]
            exact ⟨fun chain => ⟨admitted, chain⟩, fun chain => chain.2⟩
          · rename_i refused
            constructor
            · intro unclashed
              cases unclashed
            · intro chain
              exact absurd chain.1 refused

theorem isChain_classified {steps : List Schema} {classified : List (Kind × Schema)}
    (success : classify steps = .ok classified) :
    List.IsChain (fun earlier later => earlier.admits later = true) (classified.map (·.1)) ↔
      List.IsChain Schema.MayFollow steps := by
  induction steps generalizing classified with
  | nil =>
      cases success
      simp
  | cons step rest ih =>
      obtain ⟨kind, later, known, others, rfl⟩ := classify_cons.mp success
      have tail := ih others
      cases rest with
      | nil =>
          cases others
          simp
      | cons next more =>
          obtain ⟨following, latest, nextKnown, _, rfl⟩ := classify_cons.mp others
          simp only [List.map_cons, List.isChain_cons_cons] at tail ⊢
          rw [tail, Schema.mayFollow_iff known nextKnown]

theorem checkNeighbours_eq_ok {steps : List Schema} :
    checkNeighbours steps = .ok () ↔
      (∀ step ∈ steps, ∃ kind, step.kind = .ok kind) ∧
        List.IsChain Schema.MayFollow steps := by
  rw [← exists_classify_iff, checkNeighbours, bind_eq_ok]
  constructor
  · intro found
    obtain ⟨classified, success, unclashed⟩ := found
    refine ⟨⟨classified, success⟩, (isChain_classified success).mp (clash_eq_none.mp ?_)⟩
    cases clash : clash? (classified.map (·.1)) with
    | none => rfl
    | some pair =>
        rw [clash] at unclashed
        cases unclashed
  · intro found
    obtain ⟨⟨classified, success⟩, chain⟩ := found
    have unclashed := clash_eq_none.mpr ((isChain_classified success).mpr chain)
    exact ⟨classified, success, by rw [unclashed]⟩

theorem allOptions_eq_ok {steps : List Schema} {options : List Value} :
    allOptions steps = .ok options ↔
      ∃ lists, List.Forall₂ (fun step own => literalOptions step.enumOptions = .ok own)
        steps lists ∧ options = lists.flatten :=
  appended_eq_ok (fun step => literalOptions step.enumOptions) allOptions rfl fun _ _ => rfl

theorem exists_allOptions_iff {steps : List Schema} :
    (∃ options, allOptions steps = .ok options) ↔
      ∀ step ∈ steps, ∃ own, literalOptions step.enumOptions = .ok own := by
  rw [← exists_forall₂_iff]
  simp only [allOptions_eq_ok]
  constructor
  · intro gathered
    obtain ⟨_, lists, matched, _⟩ := gathered
    exact ⟨lists, matched⟩
  · intro matched
    obtain ⟨lists, matched⟩ := matched
    exact ⟨lists.flatten, lists, matched, rfl⟩

theorem isLiteral_of_allOptions {steps : List Schema} {options : List Value}
    (success : allOptions steps = .ok options) :
    ∀ option ∈ options, option.isLiteral = true := by
  obtain ⟨lists, matched, rfl⟩ := allOptions_eq_ok.mp success
  have literal := matched.imp (S := fun (step : Schema) own =>
      literalOptions step.enumOptions = .ok own ∧ ∀ option ∈ own, option.isLiteral = true)
    fun _ _ own => ⟨own, (literalOptions_eq_ok.mp own).2⟩
  exact (forall₂_flatten_iff.mp literal).2

theorem mergeRuns_eq_ok {groups : List (List (Kind × Schema))} {merged : List Schema} :
    mergeRuns groups = .ok merged ↔
      ∃ lists, List.Forall₂ (fun run own => mergeRun run = .ok own) groups lists ∧
        merged = lists.flatten :=
  appended_eq_ok mergeRun mergeRuns rfl fun _ _ => rfl

/-- A run, not empty, of steps of one kind. -/
def Uniform (kind : Kind) (run : List (Kind × Schema)) : Prop :=
  run ≠ [] ∧ ∀ pair ∈ run, pair.1 = kind ∧ pair.2.kind = .ok kind

theorem uniform_of_mem_runs {classified : List (Kind × Schema)}
    (kinds : ∀ pair ∈ classified, pair.2.kind = .ok pair.1) {run : List (Kind × Schema)}
    (member : run ∈ runs sameKind classified) : ∃ kind, Uniform kind run := by
  have nonempty := ne_nil_of_mem_runs sameKind classified member
  have inside : ∀ pair ∈ run, pair ∈ classified := by
    intro pair present
    rw [← runs_flatten sameKind classified]
    exact List.mem_flatten.mpr ⟨run, member, present⟩
  obtain ⟨first, rest, rfl⟩ := List.exists_cons_of_ne_nil nonempty
  have related := (isChain_of_mem_runs sameKind classified member).imp
    (S := fun left right : Kind × Schema => left.1 = right.1)
    fun left right same => beq_iff_eq.mp same
  have equal : ∀ pair ∈ rest, first.1 = pair.1 := by
    have : IsTrans (Kind × Schema) fun left right => left.1 = right.1 :=
      ⟨fun _ _ _ before after => before.trans after⟩
    exact (List.pairwise_cons.mp (List.isChain_iff_pairwise.mp related)).1
  refine ⟨first.1, nonempty, ?_⟩
  intro pair present
  have known := kinds pair (inside pair present)
  rcases List.mem_cons.mp present with rfl | later
  · exact ⟨rfl, known⟩
  · have same := equal pair later
    exact ⟨same.symm, known.trans (congrArg Except.ok same.symm)⟩

/-- Merging a run leaves steps of its kind, and fewer of them only if that kind may follow
itself. -/
theorem mergeRun_uniform {kind : Kind} {run : List (Kind × Schema)} {own : List Schema}
    (uniform : Uniform kind run) (success : mergeRun run = .ok own) :
    own ≠ [] ∧ (∀ step ∈ own, step.kind = .ok kind) ∧
      (own = run.map (·.2) ∨ kind.admits kind = true) := by
  obtain ⟨nonempty, kinds⟩ := uniform
  unfold mergeRun at success
  dsimp only at success
  split at success
  · have head := (kinds _ List.mem_cons_self).1
    cases success
    subst head
    refine ⟨List.cons_ne_nil _ _, ?_, .inr rfl⟩
    intro step member
    rw [List.mem_singleton.mp member]
    rfl
  · have head := (kinds _ List.mem_cons_self).1
    obtain ⟨options, _, merged⟩ := bind_eq_ok.mp success
    cases merged
    subst head
    refine ⟨List.cons_ne_nil _ _, ?_, .inr rfl⟩
    intro step member
    rw [List.mem_singleton.mp member]
    rfl
  · cases success
    refine ⟨?_, ?_, .inl rfl⟩
    · intro empty
      exact nonempty (List.map_eq_nil_iff.mp empty)
    · intro step member
      obtain ⟨pair, inside, rfl⟩ := List.mem_map.mp member
      exact (kinds pair inside).2

theorem isChain_mergeRuns {groups : List (List (Kind × Schema))} {lists : List (List Schema)}
    (matched : List.Forall₂ (fun run own => mergeRun run = .ok own) groups lists)
    (uniform : ∀ run ∈ groups, ∃ kind, Uniform kind run) (front : List Schema) :
    List.IsChain Schema.MayFollow (front ++ lists.flatten) ↔
      List.IsChain Schema.MayFollow (front ++ groups.flatten.map (·.2)) := by
  induction matched generalizing front with
  | nil => exact Iff.rfl
  | @cons run own others lists success _ ih =>
      obtain ⟨kind, alike⟩ := uniform run List.mem_cons_self
      have tail := fun front =>
        ih (fun run member => uniform run (List.mem_cons_of_mem _ member)) front
      obtain ⟨nonempty, kinds, same | self⟩ := mergeRun_uniform alike success
      · have moved := tail (front ++ own)
        rw [List.append_assoc, List.append_assoc] at moved
        rw [List.flatten_cons, List.flatten_cons, List.map_append, ← same]
        exact moved
      · -- Both the run and what it became stand for one step of their kind.
        obtain ⟨one, more, rfl⟩ := List.exists_cons_of_ne_nil nonempty
        have alone := kinds one List.mem_cons_self
        have present : run.map (·.2) ≠ [] := fun empty =>
          alike.1 (List.map_eq_nil_iff.mp empty)
        have steps : ∀ step ∈ run.map (·.2), step.kind = .ok kind := by
          intro step member
          obtain ⟨pair, inside, rfl⟩ := List.mem_map.mp member
          exact (alike.2 pair inside).2
        have merged := Schema.isChain_collapse self alone nonempty kinds front lists.flatten
        have unmerged := Schema.isChain_collapse self alone present steps front
          (others.flatten.map (·.2))
        have later := tail (front ++ [one])
        rw [List.append_assoc, List.append_assoc] at later
        rw [List.flatten_cons, List.flatten_cons, List.map_append]
        exact merged.trans (later.trans unmerged.symm)

/-- What merging a chain comes to, run by run. -/
theorem merge_eq_ok {steps merged : List Schema} :
    merge steps = .ok merged ↔
      ∃ classified lists, classify steps = .ok classified ∧
        List.Forall₂ (fun run own => mergeRun run = .ok own) (runs sameKind classified) lists ∧
        merged = lists.flatten := by
  simp only [merge, bind_eq_ok, mergeRuns_eq_ok]
  constructor
  · intro found
    obtain ⟨classified, success, lists, matched, rfl⟩ := found
    exact ⟨classified, lists, success, matched, rfl⟩
  · intro found
    obtain ⟨classified, lists, success, matched, rfl⟩ := found
    exact ⟨classified, success, lists, matched, rfl⟩

theorem uniform_of_classify {steps : List Schema} {classified : List (Kind × Schema)}
    (success : classify steps = .ok classified) :
    ∀ run ∈ runs sameKind classified, ∃ kind, Uniform kind run :=
  fun _ member => uniform_of_mem_runs (classify_eq_ok.mp success).2 member

/-- Neighbours clash after merging if and only if they did before. -/
theorem isChain_merge {steps merged : List Schema} (success : merge steps = .ok merged) :
    List.IsChain Schema.MayFollow merged ↔ List.IsChain Schema.MayFollow steps := by
  obtain ⟨classified, lists, known, matched, rfl⟩ := merge_eq_ok.mp success
  have chains := isChain_mergeRuns matched (uniform_of_classify known) []
  rw [runs_flatten, (classify_eq_ok.mp known).1] at chains
  exact chains

theorem kind_of_mem_merge {steps merged : List Schema} (success : merge steps = .ok merged) :
    ∀ step ∈ merged, ∃ kind, step.kind = .ok kind := by
  obtain ⟨classified, lists, known, matched, rfl⟩ := merge_eq_ok.mp success
  have uniform := uniform_of_classify known
  generalize runs sameKind classified = groups at matched uniform
  clear known success
  induction matched with
  | nil => exact List.forall_mem_nil _
  | @cons run own others lists first _ ih =>
      obtain ⟨kind, alike⟩ := uniform run List.mem_cons_self
      intro step member
      rw [List.flatten_cons, List.mem_append] at member
      rcases member with now | later
      · exact ⟨kind, (mergeRun_uniform alike first).2.1 step now⟩
      · exact ih (fun run inside => uniform run (List.mem_cons_of_mem _ inside)) step later

theorem checkOpening_eq_ok {step : Schema} :
    checkOpening step = .ok () ↔ step.refinement? = none := by
  unfold checkOpening
  split
  · rename_i kind refined
    simp [refined]
  · rename_i plain
    simp [plain]

/-- A chain is arranged if it opens well, can be merged, and no neighbours in it clash; whether
they do is asked of the chain as it stands. -/
theorem arrange_eq_ok {first : Schema} {rest arranged : List Schema} :
    arrange (first :: rest) = .ok arranged ↔
      first.refinement? = none ∧ List.IsChain Schema.MayFollow (first :: rest) ∧
        if rest = [] then arranged = [first] else merge (first :: rest) = .ok arranged := by
  cases rest with
  | nil =>
      simp only [arrange, unit_bind_eq_ok, checkOpening_eq_ok, pure, Except.pure,
        Except.ok.injEq, if_true]
      constructor
      · intro found
        obtain ⟨plain, rfl⟩ := found
        exact ⟨plain, List.IsChain.singleton first, rfl⟩
      · intro found
        obtain ⟨plain, _, rfl⟩ := found
        exact ⟨plain, rfl⟩
  | cons second others =>
      have several : second :: others ≠ [] := List.cons_ne_nil _ _
      rw [arrange, unit_bind_eq_ok, checkOpening_eq_ok, bind_eq_ok, if_neg several]
      · constructor
        · intro found
          obtain ⟨plain, merged, success, following⟩ := found
          obtain ⟨passed, same⟩ := unit_bind_eq_ok.mp following
          cases same
          exact ⟨plain, (isChain_merge success).mp (checkNeighbours_eq_ok.mp passed).2, success⟩
        · intro found
          obtain ⟨plain, chain, success⟩ := found
          have passed := checkNeighbours_eq_ok.mpr
            ⟨kind_of_mem_merge success, (isChain_merge success).mpr chain⟩
          exact ⟨plain, arranged, success, unit_bind_eq_ok.mpr ⟨passed, rfl⟩⟩
      · intro same
        cases same

/-- What a merged step is made of: there was a step of its kind before, and what is inside it was
inside a step before, at the same place. -/
structure ComesFrom (steps : List Schema) (step : Schema) : Prop where
  kind : ∃ source ∈ steps, source.kind = step.kind
  located : ∀ part ∈ step.located, ∃ source ∈ steps, part ∈ source.located

theorem ComesFrom.components {steps : List Schema} {step : Schema} (comes : ComesFrom steps step) :
    ∀ part ∈ step.components, ∃ source ∈ steps, part ∈ source.components := by
  intro part member
  rw [← step.map_located] at member
  rcases List.mem_map.mp member with ⟨placed, inside, rfl⟩
  rcases comes.located placed inside with ⟨source, before, holds⟩
  exact ⟨source, before, by rw [← source.map_located]; exact List.mem_map_of_mem holds⟩

theorem comesFrom_of_mem {steps : List Schema} {step : Schema} (member : step ∈ steps) :
    ComesFrom steps step :=
  ⟨⟨step, member, rfl⟩, fun _ inside => ⟨step, member, inside⟩⟩

theorem comesFrom_of_mergeRun {kind : Kind} {run : List (Kind × Schema)} {own : List Schema}
    (uniform : Uniform kind run) (success : mergeRun run = .ok own) {step : Schema}
    (member : step ∈ own) : ComesFrom (run.map (·.2)) step := by
  have alike := (mergeRun_uniform uniform success).2.1 step member
  rcases List.exists_mem_of_ne_nil run uniform.1 with ⟨pair, present⟩
  have source : pair.2 ∈ run.map (·.2) := List.mem_map_of_mem present
  have known := (uniform.2 pair present).2
  refine ⟨⟨pair.2, source, known.trans alike.symm⟩, ?_⟩
  unfold mergeRun at success
  dsimp only at success
  split at success
  · have head := (uniform.2 _ List.mem_cons_self).1
    cases success
    subst head
    rw [List.mem_singleton.mp member]
    intro part inside
    rcases List.mem_map.mp inside with ⟨field, listed, rfl⟩
    rcases List.mem_flatMap.mp listed with ⟨object, before, field_of⟩
    rcases List.mem_map.mp before with ⟨pair, present, rfl⟩
    rcases Schema.eq_object_of_kind (uniform.2 pair present).2 with ⟨fields, same⟩
    rw [same, Schema.objectFields] at field_of
    refine ⟨pair.2, before, ?_⟩
    rw [same]
    exact List.mem_map_of_mem field_of
  · rcases bind_eq_ok.mp success with ⟨options, _, merged⟩
    cases merged
    rw [List.mem_singleton.mp member]
    intro part inside
    cases inside
  · cases success
    exact (comesFrom_of_mem member).located

theorem comesFrom_of_merge {steps merged : List Schema} (success : merge steps = .ok merged)
    {step : Schema} (member : step ∈ merged) : ComesFrom steps step := by
  rcases merge_eq_ok.mp success with ⟨classified, lists, known, matched, rfl⟩
  rcases List.mem_flatten.mp member with ⟨own, listed, inside⟩
  rcases exists_mem_of_forall₂ matched listed with ⟨run, present, merging⟩
  rcases uniform_of_classify known run present with ⟨kind, uniform⟩
  have within : ∀ source ∈ run.map (·.2), source ∈ steps := by
    intro source among
    rcases List.mem_map.mp among with ⟨pair, chosen, rfl⟩
    rw [← (classify_eq_ok.mp known).1, ← runs_flatten sameKind classified]
    exact List.mem_map_of_mem (List.mem_flatten.mpr ⟨run, present, chosen⟩)
  rcases comesFrom_of_mergeRun uniform merging inside with ⟨⟨source, among, alike⟩, parts⟩
  refine ⟨⟨source, within source among, alike⟩, ?_⟩
  intro part belongs
  rcases parts part belongs with ⟨owner, among, holds⟩
  exact ⟨owner, within owner among, holds⟩

theorem comesFrom_of_arrange {steps arranged : List Schema} (success : arrange steps = .ok arranged)
    {step : Schema} (member : step ∈ arranged) : ComesFrom steps step := by
  cases steps with
  | nil => cases success
  | cons first rest =>
      have merging := (arrange_eq_ok.mp success).2.2
      split at merging
      · rename_i alone
        subst alone merging
        exact comesFrom_of_mem member
      · exact comesFrom_of_merge merging member

end Chain

end SchemaCheck
