import SchemaCheck.Proofs.Acceptance
import SchemaCheck.Proofs.Decomposition
import SchemaCheck.Proofs.Missing

/-!
Fields and positions do not interfere. Two values of one outline that hold the same under a name, or
at a position, are answered the same as far as that place goes: with the same issues at it and below
it, and with the same value there if both are accepted. Whatever a field or a part reports stands
below its own place, whether its schema or a callable says so, and whether keys fit is decided by
the outline alone.
-/

namespace SchemaCheck

namespace Outcome

variable {α β : Type}

def issuesBelow (place : Path) (outcome : Outcome α) : List Issue :=
  outcome.issues.filter fun issue => place.isPrefixOf issue.path

theorem issuesBelow_map (place : Path) (outcome : Outcome α) (change : α → β) :
    issuesBelow place (outcome.map change) = outcome.issuesBelow place := by
  rw [issuesBelow, issues_map, issuesBelow]

theorem issuesBelow_collect (place : Path) (outcomes : List (Outcome α)) :
    (collect outcomes).issuesBelow place = outcomes.flatMap (issuesBelow place) := by
  rw [issuesBelow, issues_collect, List.filter_flatMap]
  rfl

/-- A complaint about the whole is not about a part. -/
theorem issuesBelow_reject (path : Path) (segment : Segment) (complaint : Complaint) :
    (complaint.reject path : Outcome α).issuesBelow (path.extended segment) = [] := by
  have beside : (path.extended segment).isPrefixOf path = false := by
    rw [Bool.eq_false_iff]
    intro inside
    have length := (List.isPrefixOf_iff_prefix.mp inside).length_le
    rw [Path.extended, List.length_append, List.length_singleton] at length
    omega
  simp [issuesBelow, issues, Complaint.reject, Complaint.issueAt, beside]

end Outcome

theorem issuesBelow_of_compiled {calls : Calls} {schema : Schema} {path : Path}
    {own other : Segment}
    {check : Check} (compiled : compile calls schema (path.extended own) = .ok check)
    (different : own ≠ other) (value : Value) :
    (check value).issuesBelow (path.extended other) = [] := by
  rcases eq_under_of_compiled compiled with ⟨root, _, rfl⟩
  apply List.filter_eq_nil_iff.mpr
  intro issue member inside
  rw [Check.under, Outcome.issues_under] at member
  rcases List.mem_map.mp member with ⟨inner, _, rfl⟩
  have shared := List.isPrefixOf_iff_prefix.mp inside
  rw [Issue.under, Path.extended, Path.extended, List.append_assoc, List.prefix_append_right_inj,
    List.singleton_append, List.cons_prefix_cons] at shared
  exact different shared.1.symm

namespace Value

/-- What a value holds directly at a segment: under a name of a dict, or at a position of a list or
tuple. -/
def part? : Value → Segment → Option Value
  | dict entries, .name name => property name entries
  | value, .index (.ofNat position) => value.items?.bind (·[position]?)
  | _, _ => none

/-- Every key on the left is one of the keys on the right: equal to it, or the same as a key. -/
def KeysWithin (lefts rights : List (Value × Value)) : Prop :=
  ∀ left ∈ lefts, ∃ right ∈ rights, left.1 = right.1 ∨ left.1.sameKey right.1 = true

inductive SameKeys : Value → Value → Prop
  | dict {lefts rights : List (Value × Value)} :
      KeysWithin lefts rights → KeysWithin rights lefts → SameKeys (.dict lefts) (.dict rights)

inductive SameLength : Value → Value → Prop
  | items {left right : Value} {lefts rights : List Value} :
      left.items? = some lefts → right.items? = some rights → lefts.length = rights.length →
      SameLength left right

theorem eq_str_of_sameKey {name : String} {key : Value}
    (same : (str name).sameKey key = true ∨ key.sameKey (str name) = true) : key = str name := by
  cases key with
  | str text =>
      rw [Check.sameKey_str, Check.sameKey_str, beq_iff_eq, beq_iff_eq] at same
      rcases same with rfl | rfl <;> rfl
  | _ => simp [sameKey, keyQuantity?, quantity?] at same

namespace KeysWithin

variable {lefts rights : List (Value × Value)}

theorem property (within : KeysWithin lefts rights) {name : String}
    (absent : Value.property name rights = none) : Value.property name lefts = none := by
  apply property_eq_none.mpr
  intro held member
  rcases within _ member with ⟨⟨key, other⟩, inside, same⟩
  have named : key = .str name := by
    rcases same with same | same
    · exact same.symm
    · exact eq_str_of_sameKey (.inl same)
  subst named
  exact property_eq_none.mp absent other inside

theorem declared (within : KeysWithin lefts rights) {names : List String}
    (declared : ∀ entry ∈ rights, entry.1.isAmong names = true) :
    ∀ entry ∈ lefts, entry.1.isAmong names = true := by
  intro entry member
  rcases within entry member with ⟨other, inside, same⟩
  rcases isAmong_iff.mp (declared other inside) with ⟨name, known, named⟩
  rw [named] at same
  have itself : entry.1 = .str name := same.elim id fun same => eq_str_of_sameKey (.inr same)
  exact isAmong_iff.mpr ⟨name, known, itself⟩

theorem complete (within : KeysWithin lefts rights) (back : KeysWithin rights lefts)
    {properties : List Check.Property} (present : Check.missing properties lefts = [])
    (declared : Check.surplus properties lefts = []) :
    Check.missing properties rights = [] ∧ Check.surplus properties rights = [] := by
  constructor
  · apply Check.missing_eq_nil.mpr
    intro property member required
    have held := Check.missing_eq_nil.mp present property member required
    rw [Option.isSome_iff_ne_none] at held ⊢
    exact fun absent => held (within.property absent)
  · exact Check.surplus_eq_nil.mpr (back.declared (Check.surplus_eq_nil.mp declared))

end KeysWithin

end Value

namespace Check

/-- Of two values that are alike and hold the same at a segment, the check reports the same below
it, and makes the same of what they hold there if it accepts both. -/
def Separates (check : Check) (path : Path) (segment : Segment) (alike : Value → Value → Prop) :
    Prop :=
  ∀ value other, alike value other → value.part? segment = other.part? segment →
    (check value).issuesBelow (path.extended segment) =
      (check other).issuesBelow (path.extended segment) ∧
      ∀ output result, check value = .ok output → check other = .ok result →
        output.part? segment = result.part? segment

section Object

variable {calls : Calls} {path : Path} {fields : List (String × Schema)}
    {properties : List Property}
  {name : String} {entries others : List (Value × Value)}

theorem issuesBelow_properties (compiled : propertiesOfFields calls fields path = .ok properties)
    (agree : Value.property name entries = Value.property name others) :
    (propertyOutcomes properties entries).flatMap
      (Outcome.issuesBelow (path.extended (.name name))) =
      (propertyOutcomes properties others).flatMap
        (Outcome.issuesBelow (path.extended (.name name))) := by
  rw [propertyOutcomes, propertyOutcomes, List.flatMap_map, List.flatMap_map]
  apply List.flatMap_congr
  intro property member
  rw [Outcome.issuesBelow_map, Outcome.issuesBelow_map]
  rcases exists_mem_of_forall₂ (propertiesOfFields_eq_ok.mp compiled) member with
    ⟨field, _, compiles⟩
  by_cases own : property.name = name
  · rw [own, agree]
  · have elsewhere : Segment.name field.1 ≠ .name name := by
      rw [← compiles.name]
      exact fun same => own (Segment.name.inj same)
    rw [issuesBelow_of_compiled compiles.check elsewhere,
      issuesBelow_of_compiled compiles.check elsewhere]

theorem issuesBelow_object_of_unfit
    (unfit : ¬(missing properties entries = [] ∧ surplus properties entries = []))
    (segment : Segment) :
    (object properties path (.dict entries)).issuesBelow (path.extended segment) = [] := by
  by_cases present : missing properties entries = []
  · rw [object_of_surplus path present fun declared => unfit ⟨present, declared⟩]
    exact Outcome.issuesBelow_reject path segment _
  · rw [object_of_missing path present]
    exact Outcome.issuesBelow_reject path segment _

theorem issuesBelow_object (compiled : propertiesOfFields calls fields path = .ok properties)
    (within : Value.KeysWithin entries others) (back : Value.KeysWithin others entries)
    (agree : Value.property name entries = Value.property name others) :
    (object properties path (.dict entries)).issuesBelow (path.extended (.name name)) =
      (object properties path (.dict others)).issuesBelow (path.extended (.name name)) := by
  by_cases fits : missing properties entries = [] ∧ surplus properties entries = []
  · rcases within.complete back fits.1 fits.2 with ⟨present, declared⟩
    rw [object_of_complete path fits.1 fits.2, object_of_complete path present declared,
      Outcome.issuesBelow_map, Outcome.issuesBelow_map, Outcome.issuesBelow_collect,
      Outcome.issuesBelow_collect, issuesBelow_properties compiled agree]
  · -- Keys that do not fit are reported for the whole, and they fit neither dict or both.
    have neither : ¬(missing properties others = [] ∧ surplus properties others = []) :=
      fun both => fits (back.complete within both.1 both.2)
    rw [issuesBelow_object_of_unfit fits, issuesBelow_object_of_unfit neither]

theorem part_of_object (compiled : propertiesOfFields calls fields path = .ok properties)
    {field : String × Schema} (member : field ∈ Entries.ofNamed fields) {value output : Value}
    (accepted : object properties path value = .ok output) :
    ∃ entries held, value = .dict entries ∧ Fills calls entries field (field.1, held) ∧
      output.part? (.name field.1) = some held := by
  rcases fills_of_accepted compiled accepted with ⟨entries, pairs, rfl, _, _, filled, rfl⟩
  rcases property_of_fills filled member with ⟨held, fills, found⟩
  exact ⟨entries, held, rfl, fills, found⟩

theorem object_separates (compiled : propertiesOfFields calls fields path = .ok properties)
    {field : String × Schema} (member : field ∈ Entries.ofNamed fields) :
    (object properties path).Separates path (.name field.1) Value.SameKeys := by
  intro value other alike agree
  cases alike with
  | @dict entries others within back =>
      refine ⟨issuesBelow_object compiled within back agree, ?_⟩
      intro output result first second
      have agree : Value.property field.1 entries = Value.property field.1 others := agree
      rcases part_of_object compiled member first with ⟨_, held, ⟨⟩, ⟨_, own, known, made⟩, found⟩
      rcases part_of_object compiled member second with
        ⟨_, kept, ⟨⟩, ⟨_, same, again, remade⟩, refound⟩
      -- The value under the name and what the field turns into are the same, so it makes the same
      -- of it.
      cases known.symm.trans again
      rw [agree, remade] at made
      cases made
      rw [found, refound]

end Object

section Indexed

variable {calls : Calls} {path : Path} {parts : List Schema} {checks : List Check} {position : Nat}

theorem issuesBelow_parts (compiled : checksOfParts calls indexSegment 0 parts path = .ok checks)
    {items others : List Value} (length : items.length = others.length)
    (agree : items[position]? = others[position]?) :
    (List.zipWith (fun check item => check item) checks items).flatMap
        (Outcome.issuesBelow (path.extended (indexSegment position))) =
      (List.zipWith (fun check item => check item) checks others).flatMap
        (Outcome.issuesBelow (path.extended (indexSegment position))) := by
  rw [List.flatMap_def, List.flatMap_def, List.map_zipWith, List.map_zipWith]
  congr 1
  apply List.ext_getElem?
  intro index
  rw [List.getElem?_zipWith, List.getElem?_zipWith]
  cases own : checks[index]? with
  | none => rfl
  | some check =>
      by_cases same : index = position
      · rw [same, agree]
      · rcases exists_part_of_getElem compiled own with ⟨part, _, compiledPart⟩
        have elsewhere : indexSegment index ≠ indexSegment position := by
          intro equal
          exact same (Int.ofNat_inj.mp (Segment.index.inj equal))
        have silent := issuesBelow_of_compiled compiledPart elsewhere
        by_cases inside : index < items.length
        · rw [List.getElem?_eq_getElem inside, List.getElem?_eq_getElem (length ▸ inside)]
          simp only [silent]
        · rw [List.getElem?_eq_none (Nat.not_lt.mp inside),
            List.getElem?_eq_none (length ▸ Nat.not_lt.mp inside)]

theorem part_of_items {value : Value} {items : List Value} (listed : value.items? = some items) :
    value.part? (indexSegment position) = items[position]? := by
  cases value with
  | list own =>
      cases listed
      rfl
  | tuple own =>
      cases listed
      rfl
  | _ => cases listed

theorem indexed_separates (compiled : checksOfParts calls indexSegment 0 parts path = .ok checks) :
    (indexed checks path).Separates path (indexSegment position) Value.SameLength := by
  intro value other alike agree
  cases alike with
  | @items items others listed listedToo length =>
      rw [part_of_items listed, part_of_items listedToo] at agree
      constructor
      · rw [indexed, indexed, listed, listedToo]
        dsimp only
        rw [← length]
        split
        · rfl
        · rw [Outcome.issuesBelow_map, Outcome.issuesBelow_map, Outcome.issuesBelow_collect,
            Outcome.issuesBelow_collect, issuesBelow_parts compiled length agree]
      · intro output result first second
        rcases indexed_eq_ok.mp first with ⟨_, made, same, _, accepted, rfl⟩
        cases same.symm.trans listed
        rcases indexed_eq_ok.mp second with ⟨_, remade, same, _, reaccepted, rfl⟩
        cases same.symm.trans listedToo
        have answers : (made.map (Except.ok : Value → Outcome Value))[position]? =
            (remade.map Except.ok)[position]? := by
          rw [← accepted, ← reaccepted, List.getElem?_zipWith, List.getElem?_zipWith, agree]
        rw [List.getElem?_map, List.getElem?_map] at answers
        exact Option.map_injective (fun _ _ => Except.ok.inj) answers

end Indexed

end Check

/-- Wherever they are compiled, an object keeps the fields that it declares apart, and an indexed
step its positions; what they accept holds something under every declared name, and at every
position that the value had. -/
theorem fields_and_positions_separate (calls : Calls) (path : Path) :
    (∀ fields check, compile calls (.step (.object fields)) path = .ok check →
      ∀ name ∈ fields.map (·.1), check.Separates path (.name name) Value.SameKeys ∧
        ∀ value output, check value = .ok output → (output.part? (.name name)).isSome = true) ∧
    ∀ entries check, compile calls (.step (.indexed entries)) path = .ok check →
      ∀ position, check.Separates path (indexSegment position) Value.SameLength ∧
        ∀ value output, check value = .ok output →
          (output.part? (indexSegment position)).isSome =
            (value.part? (indexSegment position)).isSome := by
  constructor
  · intro fields check compiled name declared
    rw [compile_object] at compiled
    rcases map_eq_ok.mp compiled with ⟨properties, known, rfl⟩
    rcases List.mem_map.mp ((Entries.mem_keys_ofPairs fun _ _ => beq_iff_eq).mpr declared) with
      ⟨field, member, rfl⟩
    refine ⟨Check.object_separates known member, ?_⟩
    intro value output accepted
    rcases Check.part_of_object known member accepted with ⟨_, held, _, _, found⟩
    rw [found, Option.isSome_some]
  · intro entries check compiled position
    rw [compile_step] at compiled
    cases turnsInto_of_compiled compiled with
    | indexed listed known =>
        refine ⟨Check.indexed_separates known, ?_⟩
        intro value output accepted
        rcases Check.indexed_eq_ok.mp accepted with ⟨items, results, held, sized, answers, rfl⟩
        have length := congrArg List.length answers
        rw [List.length_zipWith, List.length_map, sized, Nat.min_self] at length
        rw [Check.part_of_items held, Check.part_of_items rfl, Bool.eq_iff_iff]
        simp only [isSome_getElem?, sized, length]

def blamingRight : Calls := fun _ value =>
  match value with
  | .int (.negSucc _) => .outcome (.error [⟨[.name "right"], "Too heavy", none⟩])
  | other => .outcome (.ok other)

def weighedPair : Schema :=
  .step (.object [("left", .function ⟨"weigh", 0⟩), ("right", .str "number"),
    ("right", .str "string")])

def weighedList : Schema :=
  .step (.indexed (.list [.function ⟨"weigh", 0⟩, .str "string"]))

/-- What the callable says stays on the left: the right of a pair is judged by itself. -/
theorem weighed_separately :
    ∃ pair list, compile blamingRight weighedPair [.name "pair"] = .ok pair ∧
      compile blamingRight weighedList [] = .ok list ∧
      (pair (.dict [(.str "left", .int (-1)), (.str "right", .int 2)])).issuesBelow
          [.name "pair", .name "right"] =
        (pair (.dict [(.str "right", .int 2), (.str "left", .null)])).issuesBelow
          [.name "pair", .name "right"] ∧
      (list (.list [.int (-1), .int 2])).issuesBelow [.index 1] =
        (list (.tuple [.null, .int 2])).issuesBelow [.index 1] := by
  have pairCompiles : (compile blamingRight weighedPair [.name "pair"]).isOk = true := by
    cbv
  have listCompiles : (compile blamingRight weighedList []).isOk = true := by
    cbv
  rcases exists_ok_of_isOk pairCompiles with ⟨pair, compiledPair⟩
  rcases exists_ok_of_isOk listCompiles with ⟨list, compiledList⟩
  have apart := (fields_and_positions_separate blamingRight [.name "pair"]).1 _ pair compiledPair
    "right" (by decide)
  have beside := (fields_and_positions_separate blamingRight []).2 _ list compiledList 1
  have sameKeys : Value.SameKeys (.dict [(.str "left", .int (-1)), (.str "right", .int 2)])
      (.dict [(.str "right", .int 2), (.str "left", .null)]) :=
    .dict (by simp [Value.KeysWithin]) (by simp [Value.KeysWithin])
  have sameLength : Value.SameLength (.list [.int (-1), .int 2]) (.tuple [.null, .int 2]) :=
    .items rfl rfl rfl
  exact ⟨pair, list, compiledPair, compiledList, (apart.1 _ _ sameKeys rfl).1,
    (beside.1 _ _ sameLength rfl).1⟩

end SchemaCheck
