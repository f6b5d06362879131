import SchemaCheck.Proofs.Missing
import SchemaCheck.Proofs.Rearranging

/-!
What issues are about. Where nothing is transformed, an issue that a check reports stands at a place
inside the value that was checked, once the branches that the way there names are left out. Later
steps of a chain see what earlier ones made of the value, and that has no other places.
-/

namespace SchemaCheck

namespace Path

/-- The second path is the first one without some of the segments that name branches. -/
inductive Unbranched : Path → Path → Prop
  | nil : Unbranched [] []
  | kept (segment : Segment) {path address : Path} :
      Unbranched path address → Unbranched (segment :: path) (segment :: address)
  | dropped (position : Nat) {path address : Path} :
      Unbranched path address → Unbranched (branchSegment position :: path) address

/-- But for branches that it names, the path leads to a place inside the value. -/
def Addresses (path : Path) (value : Value) : Prop :=
  ∃ address, Unbranched path address ∧ LeadsInto address value

namespace Addresses

theorem here (value : Value) : Addresses [] value :=
  ⟨[], .nil, .here value⟩

theorem property {name : String} {path : Path} {entries : List (Value × Value)} {held : Value}
    (found : Value.property name entries = some held) (inside : path.Addresses held) :
    Addresses (.name name :: path) (.dict entries) := by
  rcases inside with ⟨address, unbranched, leads⟩
  exact ⟨.name name :: address, .kept _ unbranched, .property found leads⟩

theorem item {position : Nat} {path : Path} {value held : Value} {items : List Value}
    (listed : value.items? = some items) (found : items[position]? = some held)
    (inside : path.Addresses held) : Addresses (indexSegment position :: path) value := by
  rcases inside with ⟨address, unbranched, leads⟩
  exact ⟨.index position :: address, .kept _ unbranched, .item listed found leads⟩

theorem branch (position : Nat) {path : Path} {value : Value} (inside : path.Addresses value) :
    Addresses (branchSegment position :: path) value := by
  rcases inside with ⟨address, unbranched, leads⟩
  exact ⟨address, .dropped position unbranched, leads⟩

theorem of_rearranged {path : Path} {value output : Value} (rearranged : value.Rearranged output)
    (inside : path.Addresses output) : path.Addresses value := by
  rcases inside with ⟨address, unbranched, leads⟩
  exact ⟨address, unbranched, leads.of_rearranged rearranged⟩

end Addresses

end Path

/-- Whatever the check reports is about a place inside the value it was given. -/
def Check.Addressed (check : Check) : Prop :=
  ∀ value, ∀ issue ∈ (check value).issues, issue.path.Addresses value

namespace Check

variable {calls : Calls}

theorem addresses_of_reject {complaint : Complaint} {value : Value} {issue : Issue}
    (member : issue ∈ (complaint.reject [] : Outcome Value).issues) :
      issue.path.Addresses value := by
  rw [List.mem_singleton.mp member]
  exact .here value

theorem test_addressed {passes : Value → Bool} {complaint : Complaint} :
    Addressed fun value => if passes value then .ok value else complaint.reject [] := by
  intro value issue member
  dsimp only at member
  split at member
  · cases member
  · exact addresses_of_reject member

theorem predicate_addressed {test : Callable} {message : String} {detail : Option Detail} :
    (predicate calls test message detail []).Addressed := by
  intro value issue member
  rw [predicate] at member
  split at member
  · exact addresses_of_reject member
  · cases member
  · exact addresses_of_reject member

/-- A chain reports about what its steps were given, which has the places of the value. -/
theorem chain_addressed {checks : List Check} (addressed : ∀ check ∈ checks, check.Addressed)
    (rearrange : ∀ check ∈ checks, check.Relates Value.Rearranged) : (chain checks).Addressed := by
  induction checks with
  | nil =>
      intro value issue member
      cases member
  | cons check rest ih =>
      intro value issue member
      have first := addressed check List.mem_cons_self value
      change issue ∈ (check value >>= chain rest).issues at member
      cases answer : check value with
      | error issues =>
          rw [answer] at member first
          exact first issue member
      | ok between =>
          rw [answer] at member
          have later := ih (fun check inside => addressed check (List.mem_cons_of_mem _ inside))
            (fun check inside => rearrange check (List.mem_cons_of_mem _ inside))
              between issue member
          exact later.of_rearranged (rearrange check List.mem_cons_self value between answer)

/-- What a part reports below its place is about a place inside what the part was given. -/
theorem addresses_below {part : Schema} {segment : Segment} {own : Check}
    (compiled : compile calls part (Path.extended [] segment) = .ok own)
    (addressed : ∀ check, compile calls part [] = .ok check → check.Addressed) {value : Value}
    {issue : Issue} (member : issue ∈ (own value).issues) :
    ∃ path : Path, issue.path = segment :: path ∧ path.Addresses value := by
  rcases eq_under_of_compiled compiled with ⟨check, compiling, rfl⟩
  rw [under, Outcome.issues_under] at member
  rcases List.mem_map.mp member with ⟨inner, inside, rfl⟩
  exact ⟨inner.path, rfl, addressed check compiling value inner inside⟩

theorem indexed_addressed {parts : List Schema} {checks : List Check}
    (compiled : checksOfParts calls indexSegment 0 parts [] = .ok checks)
    (addressed : ∀ part ∈ parts, ∀ check, compile calls part [] = .ok check → check.Addressed) :
    (indexed checks []).Addressed := by
  intro value issue member
  rw [indexed] at member
  split at member
  · exact addresses_of_reject member
  · rename_i items listed
    split at member
    · exact addresses_of_reject member
    · rw [Outcome.issues_map, Outcome.issues_collect] at member
      rcases List.mem_flatMap.mp member with ⟨outcome, among, inside⟩
      rcases List.mem_iff_getElem?.mp among with ⟨position, placed⟩
      rcases List.getElem?_zipWith_eq_some.mp placed with ⟨check, held, own, found, rfl⟩
      rcases exists_part_of_getElem compiled own with ⟨part, partAt, compiledPart⟩
      rcases addresses_below compiledPart (addressed part (List.mem_of_getElem? partAt)) inside with
        ⟨path, same, address⟩
      rw [same]
      exact .item listed found address

theorem oneOf_addressed {parts : List Schema} {checks : List Check}
    (compiled : checksOfParts calls branchSegment 0 parts [] = .ok checks)
    (addressed : ∀ part ∈ parts, ∀ check, compile calls part [] = .ok check → check.Addressed) :
    (oneOf checks).Addressed := by
  intro value issue member
  rcases Outcome.mem_issues_first member with ⟨outcome, among, inside⟩
  rcases List.mem_map.mp among with ⟨check, listed, rfl⟩
  rcases exists_mem_of_forall₂ (checksOfParts_eq_ok.mp compiled) listed with
    ⟨⟨part, position⟩, source, compiledPart⟩
  rcases addresses_below compiledPart
    (addressed part (List.fst_mem_of_mem_zipIdx source)) inside with
    ⟨path, same, address⟩
  rw [same]
  exact .branch position address

theorem object_addressed {fields : Fields} {properties : List Property}
    (compiled : propertiesOfFields calls fields [] = .ok properties)
    (required : ∀ field ∈ fields, field.2.mayBeAbsent = false)
    (addressed : ∀ field ∈ fields, ∀ check, compile calls field.2 [] = .ok check →
      check.Addressed) :
    (object properties []).Addressed := by
  intro value issue member
  cases value with
  | dict entries =>
      by_cases present : missing properties entries = []
      · by_cases declared : surplus properties entries = []
        · rw [object_of_complete [] present declared, Outcome.issues_map,
            Outcome.issues_collect] at member
          rcases List.mem_flatMap.mp member with ⟨_, outcome, inside⟩
          rcases List.mem_map.mp outcome with ⟨property, listed, rfl⟩
          rw [Outcome.issues_map] at inside
          rcases exists_mem_of_forall₂ (propertiesOfFields_eq_ok.mp compiled) listed with
            ⟨field, own, compiles⟩
          rcases addresses_below compiles.check (addressed field own) inside with
            ⟨path, same, address⟩
          have there := (missing_of_compiled compiled entries).mp present field own
            (required field own)
          rcases Option.isSome_iff_exists.mp there with ⟨held, found⟩
          rw [compiles.name, found] at address
          rw [same]
          exact .property found address
        · rw [object_of_surplus [] present declared] at member
          exact addresses_of_reject member
      · rw [object_of_missing [] present] at member
        exact addresses_of_reject member
  | _ => exact addresses_of_reject member

end Check

section Schemas

variable {calls : Calls}

theorem addressed_of_parts {step : Schema} (free : step.FreeOf [.function, .optional])
    (each : ∀ part ∈ step.parts, ∀ check, compile calls part [] = .ok check → check.Addressed)
    {check : Check} (compiled : checkOfStep calls step [] = .ok check) : check.Addressed := by
  cases turnsInto_of_compiled compiled with
  | basic => exact Check.test_addressed
  | function => exact absurd (by simp) (free.kind_not_mem rfl)
  | predicate => exact Check.predicate_addressed
  | optional => exact absurd (by simp [Step.kind]) (free.kind_not_mem rfl)
  | enum => exact Check.test_addressed
  | @object fields _ known =>
      have inside : ∀ field ∈ fields, field.2 ∈ Schema.parts (.step (.object fields)) :=
        fun field member => List.mem_map_of_mem member
      apply Check.object_addressed known
      · intro field member
        exact (free.part (inside field member)).required (by simp)
      · intro field member
        exact each field.2 (inside field member)
  | indexed listed known =>
      rw [Schema.parts_indexed listed] at each
      exact Check.indexed_addressed known each
  | oneOf listed known =>
      rw [Schema.parts_oneOf listed] at each
      exact Check.oneOf_addressed known each

theorem addressed_of_free {schema : Schema} (free : schema.FreeOf [.function, .optional])
    {check : Check} (compiled : compile calls schema [] = .ok check) : check.Addressed := by
  have everywhere := Schema.induction
    (P := fun schema => schema.FreeOf [.function, .optional] → ∀ check,
      compile calls schema [] = .ok check → check.Addressed)
    (Q := fun step => step.FreeOf [.function, .optional] → ∀ check,
      checkOfStep calls step [] = .ok check → check.Addressed) ?_ ?_
  · exact everywhere.1 schema free check compiled
  · intro schema _ arrangedSteps free check compiled
    rw [compile_eq] at compiled
    rcases checkOfSteps_eq_ok.mp compiled with ⟨arranged, checks, arranging, matched, rfl⟩
    apply Check.chain_addressed
    · intro own member
      rcases exists_mem_of_forall₂ matched member with ⟨step, inside, compiledStep⟩
      exact arrangedSteps arranged arranging step inside
        (free.arranged arranging inside) own compiledStep
    · intro own member
      rcases exists_mem_of_forall₂ matched member with ⟨step, inside, compiledStep⟩
      exact (Value.Rearranged.carried.related (by simp)).2 step (free.arranged arranging inside) own
        compiledStep
  · intro step parts free check compiled
    apply addressed_of_parts free ?_ compiled
    intro part member
    exact parts part member (free.part member)

end Schemas

/-- Where no function is called and nothing is filled in, a check returns what it was given but for
its arrangement, or else reports issues at places inside it. -/
theorem untransformed_faithful {calls : Calls} {schema : Schema} {check : Check}
    (free : schema.FreeOf [.function, .optional]) (compiled : compile calls schema [] = .ok check)
    (value : Value) :
    match check value with
    | .ok output => value.Rearranged output
    | .error issues => ∀ issue ∈ issues, issue.path.Addresses value := by
  have addressed := addressed_of_free free compiled value
  split
  · rename_i output accepted
    exact (Value.Rearranged.carried.related (by simp)).1 schema free check compiled value
      output accepted
  · rename_i issues rejected
    rw [rejected] at addressed
    exact addressed

def taggedPair : Schema :=
  .list [.step (.object [("pair", .step (.indexed (.list
      [.str "number", .step (.oneOf (.list [.str "string", .str "boolean"]))]))),
        ("tag", .str "string")]),
    .step (.predicate ⟨"fresh", 0⟩ "stale" none)]

theorem taggedPair_free : taggedPair.FreeOf [.function, .optional] := by
  have text : ∀ name, Schema.FreeOf [.function, .optional] (.str name) :=
    Schema.FreeOf.of_text fun kind => by simp
  have choice : Schema.FreeOf [.function, .optional]
      (.step (.oneOf (.list [.str "string", .str "boolean"]))) := by
    apply Schema.FreeOf.of_step (by decide)
    exact List.forall_mem_cons.mpr ⟨text _, List.forall_mem_singleton.mpr (text _)⟩
  have pair : Schema.FreeOf [.function, .optional] (.step (.indexed (.list
      [.str "number", .step (.oneOf (.list [.str "string", .str "boolean"]))]))) := by
    apply Schema.FreeOf.of_step (by decide)
    exact List.forall_mem_cons.mpr ⟨text _, List.forall_mem_singleton.mpr choice⟩
  apply Schema.FreeOf.of_list
  refine List.forall_mem_cons.mpr ⟨?_, List.forall_mem_singleton.mpr ?_⟩
  · apply Schema.FreeOf.of_step (by decide)
    exact List.forall_mem_cons.mpr ⟨pair, List.forall_mem_singleton.mpr (text _)⟩
  · exact Schema.FreeOf.of_step (by decide) (List.forall_mem_nil _)

def untidyPair (second : Value) : Value :=
  .dict [(.str "tag", .str "a"), (.str "pair", .tuple [.int 1, second])]

theorem taggedPair_faithful :
    ∃ check, compile (fun _ _ => .value (.bool true)) taggedPair [] = .ok check ∧
      (∃ output, check (untidyPair (.bool true)) = .ok output ∧
        (untidyPair (.bool true)).Rearranged output) ∧
      ∃ issue ∈ (check (untidyPair (.int 2))).issues,
        issue.path = [.name "pair", .index 1, .name "Branch 1"] ∧
          issue.path.Addresses (untidyPair (.int 2)) := by
  have compiles : (compile (fun _ _ => .value (.bool true)) taggedPair []).map (fun check =>
      ((check (untidyPair (.bool true))).isOk,
        (check (untidyPair (.int 2))).issues.map Issue.path)) =
      .ok (true, [[.name "pair", .index 1, .name "Branch 0"],
        [.name "pair", .index 1, .name "Branch 1"]]) := by
    cbv
  rcases map_eq_ok.mp compiles with ⟨check, compiled, answers⟩
  rcases Prod.mk.inj answers with ⟨accepts, paths⟩
  rcases exists_ok_of_isOk accepts with ⟨output, accepted⟩
  refine ⟨check, compiled, ⟨output, accepted, ?_⟩, ?_⟩
  · have faithful := untransformed_faithful taggedPair_free compiled (untidyPair (.bool true))
    rw [accepted] at faithful
    exact faithful
  · have faithful := untransformed_faithful taggedPair_free compiled (untidyPair (.int 2))
    have among : [.name "pair", .index 1, .name "Branch 1"] ∈
        (check (untidyPair (.int 2))).issues.map Issue.path := by
      rw [paths]
      exact List.mem_cons_of_mem _ List.mem_cons_self
    rcases List.mem_map.mp among with ⟨issue, member, stands⟩
    refine ⟨issue, member, stands, ?_⟩
    cases rejected : check (untidyPair (.int 2)) with
    | ok other =>
        rw [rejected] at member
        cases member
    | error issues =>
        rw [rejected] at faithful member
        exact faithful issue member

end SchemaCheck
