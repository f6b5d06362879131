import SchemaCheck.Proofs.Merging

/-!
What lies inside a schema, at any depth. Chains are taken as they are written, yet compiling brings
nothing into play that was not inside: kinds a schema is free of do not come up in its steps, its
merged steps or their parts.
-/

namespace SchemaCheck.Schema

inductive Within (inner : Schema) : Schema → Prop
  | self : Within inner inner
  | deeper {component outer : Schema} :
      component ∈ outer.components → Within inner component → Within inner outer

theorem mem_components_of_part {part outer : Schema} (member : part ∈ outer.parts) :
    part ∈ outer.components := by
  cases outer with
  | list schemas => cases member
  | _ => exact member

namespace Within

variable {inner outer : Schema}

theorem trans {middle : Schema} (first : Within inner middle) (second : Within middle outer) :
    Within inner outer := by
  induction second with
  | self => exact first
  | deeper member _ ih => exact .deeper member ih

theorem part {part : Schema} (member : part ∈ outer.parts) : Within part outer :=
  .deeper (mem_components_of_part member) .self

theorem step {step : Schema} (member : step ∈ outer.steps) : Within step outer := by
  unfold steps at member
  split at member
  · rcases List.mem_flatMap.mp member with ⟨head, listed, spliced⟩
    unfold steps.splice at spliced
    split at spliced
    · exact .deeper listed (.deeper spliced .self)
    · rw [List.mem_singleton.mp spliced]
      exact .deeper listed .self
  · rw [List.mem_singleton.mp member]
    exact .self

/-- Merging makes up a step, but nothing inside it. -/
theorem arranged {arranged : List Schema} (success : Chain.arrange outer.steps = .ok arranged)
    {step component : Schema} (member : step ∈ arranged) (inside : component ∈ step.components) :
    Within component outer := by
  rcases (Chain.comesFrom_of_arrange success member).components component inside with
    ⟨owner, before, holds⟩
  exact trans (.deeper holds .self) (Within.step before)

end Within

/-- Nothing inside the schema is of one of the kinds. -/
def FreeOf (kinds : List Kind) (schema : Schema) : Prop :=
  ∀ inner, Within inner schema → ∀ kind ∈ kinds, inner.kind ≠ .ok kind

namespace FreeOf

variable {kinds : List Kind} {schema : Schema}

theorem kind_not_mem (free : schema.FreeOf kinds) {kind : Kind} (known : schema.kind = .ok kind) :
    kind ∉ kinds := by
  intro banned
  exact free schema .self kind banned known

theorem within (free : schema.FreeOf kinds) {inner : Schema} (inside : Within inner schema) :
    inner.FreeOf kinds :=
  fun deepest deeper => free deepest (deeper.trans inside)

theorem component (free : schema.FreeOf kinds) {component : Schema}
    (member : component ∈ schema.components) : component.FreeOf kinds :=
  free.within (.deeper member .self)

theorem part (free : schema.FreeOf kinds) {part : Schema} (member : part ∈ schema.parts) :
    part.FreeOf kinds :=
  free.within (.part member)

theorem arranged (free : schema.FreeOf kinds) {arranged : List Schema}
    (success : Chain.arrange schema.steps = .ok arranged) {step : Schema}
    (member : step ∈ arranged) :
    step.FreeOf kinds := by
  intro inner within
  cases within with
  | self =>
      rcases (Chain.comesFrom_of_arrange success member).kind with ⟨source, before, alike⟩
      rw [← alike]
      exact free source (.step before)
  | deeper inside within => exact free inner (within.trans (.arranged success member inside))

theorem of_components (own : ∀ kind ∈ kinds, schema.kind ≠ .ok kind)
    (components : ∀ component ∈ schema.components, component.FreeOf kinds) :
      schema.FreeOf kinds := by
  intro inner within
  cases within with
  | self => exact own
  | deeper member within => exact components _ member inner within

theorem of_list {schemas : List Schema} (each : ∀ schema ∈ schemas, schema.FreeOf kinds) :
    FreeOf kinds (.list schemas) := by
  refine of_components ?_ each
  intro kind _ same
  cases same

theorem of_text (basic : ∀ kind, .basic kind ∉ kinds) (name : String) :
    FreeOf kinds (.str name) := by
  apply of_components ?_ (List.forall_mem_nil _)
  intro kind banned known
  rw [Schema.kind] at known
  split at known
  · cases known
    exact basic _ banned
  · cases known

theorem of_step {composite : Step} (own : composite.kind ∉ kinds)
    (parts : ∀ part ∈ Schema.parts (.step composite), part.FreeOf kinds) :
    FreeOf kinds (.step composite) := by
  refine of_components ?_ parts
  intro kind banned same
  cases same
  exact own banned

end FreeOf

end SchemaCheck.Schema
