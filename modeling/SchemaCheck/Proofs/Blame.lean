import SchemaCheck.Proofs.Sequencing
import SchemaCheck.Proofs.Placement
import SchemaCheck.Proofs.Steps

/-!
Which schema a defect is about. The place that a defect names leads to a schema inside the one that
was compiled, and that schema, compiled by itself, has the defect at its own root; merging does not
come between, since what a merged step holds was held by a step before, at the same place.
-/

namespace SchemaCheck

namespace Schema

/-- The schema stands at the path inside the outer one. -/
inductive At (inner : Schema) : Path → Schema → Prop
  | here : At inner [] inner
  | deeper {way path : Path} {component outer : Schema} :
      (way, component) ∈ outer.located → At inner path component → At inner (way ++ path) outer

namespace At

variable {inner outer : Schema}

theorem trans {middle : Schema} {path base : Path} (first : inner.At path middle)
    (second : middle.At base outer) : inner.At (base ++ path) outer := by
  induction second with
  | here => exact first
  | deeper member _ ih =>
      rw [List.append_assoc]
      exact .deeper member ih

theorem located {way : Path} (member : (way, inner) ∈ outer.located) : inner.At way outer := by
  have alone := At.deeper member .here
  rwa [List.append_nil] at alone

theorem step {step : Schema} (member : step ∈ outer.steps) : step.At [] outer := by
  unfold steps at member
  split at member
  · rename_i schemas
    rcases List.mem_flatMap.mp member with ⟨head, listed, spliced⟩
    have first : head.At [] (.list schemas) := .located (List.mem_map_of_mem listed)
    unfold steps.splice at spliced
    split at spliced
    · rename_i others
      have second : step.At [] (.list others) := .located (List.mem_map_of_mem spliced)
      exact second.trans first
    · rw [List.mem_singleton.mp spliced]
      exact first
  · rw [List.mem_singleton.mp member]
    exact .here

theorem arranged {arranged : List Schema} (success : Chain.arrange outer.steps = .ok arranged)
    {step component : Schema} (member : step ∈ arranged) {way : Path}
    (inside : (way, component) ∈ step.located) : component.At way outer := by
  rcases (Chain.comesFrom_of_arrange success member).located _ inside with ⟨source, before, holds⟩
  have found := (At.located holds).trans (At.step before)
  rwa [List.nil_append] at found

end At

end Schema

namespace Fault

theorem under_nil (fault : Fault) : fault.under [] = fault := by
  cases fault with
  | fallbackRejected issues =>
      have same : Issue.under [] = id := funext Issue.under_nil
      rw [under, same, List.map_id]
  | _ => rfl

theorem under_under (outer inner : Path) (fault : Fault) :
    (fault.under inner).under outer = fault.under (outer ++ inner) := by
  cases fault with
  | fallbackRejected issues =>
      have same : Issue.under outer ∘ Issue.under inner = Issue.under (outer ++ inner) :=
        funext (Issue.under_under outer inner)
      rw [under, under, under, List.map_map, same]
  | _ => rfl

end Fault

/-- The defect is that of a schema inside, which stands where the defect says and has it at its own
root. -/
def Defect.IsInside (calls : Calls) (defect : Defect) (outer : Schema) : Prop :=
  ∃ inner fault, Schema.At inner defect.path outer ∧ compile calls inner [] = .error ⟨[], fault⟩ ∧
    defect.fault = fault.under defect.path

theorem Defect.IsInside.under {calls : Calls} {defect : Defect} {middle outer : Schema} {way : Path}
    (inside : defect.IsInside calls middle) (found : middle.At way outer) :
    (defect.under way).IsInside calls outer := by
  rcases inside with ⟨inner, fault, stands, refused, same⟩
  refine ⟨inner, fault, stands.trans found, refused, ?_⟩
  rw [Defect.under, same, Fault.under_under]

theorem isInside_of_root {calls : Calls} {schema : Schema} {defect : Defect}
    (refused : compile calls schema [] = .error defect) (root : defect.path = []) :
    defect.IsInside calls schema := by
  refine ⟨schema, defect.fault, ?_, ?_, ?_⟩
  · rw [root]
    exact .here
  · rw [refused, ← root]
  · rw [root, Fault.under_nil]

theorem isInside_of_parts {calls : Calls} {step : Schema}
    (parts : ∀ part ∈ step.parts, ∀ defect, compile calls part [] = .error defect →
      defect.IsInside calls part)
    {defect : Defect} (refused : checkOfStep calls step [] = .error defect) :
    defect.path = [] ∨ ∃ part ∈ step.located, ∃ inner : Defect,
      inner.IsInside calls part.2 ∧ defect = inner.under part.1 := by
  cases refusedFor_of_refused refused with
  | itself => exact .inl rfl
  | fallback => exact .inl rfl
  | @part _ part _ located member own =>
      rw [List.nil_append, compile_from_root] at own
      cases alone : compile calls part.2 [] with
      | ok check =>
          rw [alone] at own
          cases own
      | error inner =>
          rw [alone] at own
          have inside := parts part.2 member inner alone
          exact .inr ⟨part, located, inner, inside, (Except.error.inj own).symm⟩

theorem defect_isInside {calls : Calls} {schema : Schema} {defect : Defect}
    (refused : compile calls schema [] = .error defect) : defect.IsInside calls schema := by
  have everywhere := Schema.induction
    (P := fun schema => ∀ defect, compile calls schema [] = .error defect →
      defect.IsInside calls schema)
    (Q := fun step => ∀ defect, checkOfStep calls step [] = .error defect →
      defect.path = [] ∨ ∃ part ∈ step.located, ∃ inner : Defect,
        inner.IsInside calls part.2 ∧ defect = inner.under part.1) ?_ ?_
  · exact everywhere.1 schema defect refused
  · intro schema _ arrangedSteps defect refused
    by_cases root : defect.path = []
    · exact isInside_of_root refused root
    · rcases refused_chain refused with ⟨fault, _, rfl⟩ | ⟨arranged, arranging, step, member, own⟩
      · exact absurd rfl root
      · rcases arrangedSteps arranged arranging step member defect own with
          here | ⟨part, located, inner, inside, rfl⟩
        · exact absurd here root
        · exact inside.under (.arranged arranging member located)
  · intro step parts defect refused
    exact isInside_of_parts parts refused

/-- The place that a defect names leads to a schema that has the defect by itself: compiled alone it
is refused at its own root, with the same message and the same detail as seen from there. -/
theorem defect_blames_schema_inside {calls : Calls} {schema : Schema} {defect : Defect}
    (refused : compile calls schema [] = .error defect) :
    ∃ inner fault, Schema.At inner defect.path schema ∧
      compile calls inner [] = .error ⟨[], fault⟩ ∧
        defect.fault.message = fault.message ∧
          defect.fault.detail = fault.detail.map (Detail.under defect.path) := by
  rcases defect_isInside refused with ⟨inner, fault, stands, alone, same⟩
  refine ⟨inner, fault, stands, alone, ?_, ?_⟩
  · rw [same, Fault.message_under]
  · rw [same, Fault.detail_under]

def emptyFallback : Schema :=
  .list [.step (.object [("name", .str "string")]),
    .step (.object [("at", .step (.indexed (.list [.str "number", .step (.oneOf (.list
      [.str "boolean",
        .step (.optional (.list [.str "string", .str "non-empty"]) (.str ""))]))])))])]

theorem emptyFallback_blamed :
    ∃ defect inner fault, compile (fun _ value => .value value) emptyFallback [] = .error defect ∧
      defect.path = [.name "at", .index 1, .name "Branch 1"] ∧
      Schema.At inner defect.path emptyFallback ∧
        compile (fun _ value => .value value) inner [] = .error ⟨[], fault⟩ ∧
          defect.fault.message = fault.message ∧
            defect.fault.detail = fault.detail.map (Detail.under defect.path) := by
  have answers : (compile (fun _ value => .value value) emptyFallback []).mapError Defect.path =
      .error [.name "at", .index 1, .name "Branch 1"] := by
    cbv
  cases refused : compile (fun _ value => .value value) emptyFallback [] with
  | ok check =>
      rw [refused] at answers
      cases answers
  | error defect =>
      rw [refused] at answers
      rcases defect_blames_schema_inside refused with ⟨inner, fault, stands, alone, message, detail⟩
      exact ⟨defect, inner, fault, rfl, Except.error.inj answers, stands, alone, message, detail⟩

end SchemaCheck
