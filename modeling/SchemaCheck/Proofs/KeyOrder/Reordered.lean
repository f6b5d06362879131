import SchemaCheck.Check
import SchemaCheck.Proofs.Acceptance

/-!
Values up to the order of keys. What the built-in checks look at in a value, its type, its items and
what it holds under a name, is the same for two values that differ in the order of the entries of
dicts alone, up to that order further inside.
-/

namespace SchemaCheck

/-- No two entries are under the same key. -/
def KeysDistinct (entries : List (Value × Value)) : Prop :=
  entries.Pairwise fun left right => left.1.sameKey right.1 = false

mutual

/-- The values are the same, but that entries of dicts may stand in another order, at any depth. -/
inductive Value.Reordered : Value → Value → Prop
  | same (value : Value) : Value.Reordered value value
  | list {lefts rights : List Value} :
      List.Forall₂ Value.Reordered lefts rights → Value.Reordered (.list lefts) (.list rights)
  | tuple {lefts rights : List Value} :
      List.Forall₂ Value.Reordered lefts rights → Value.Reordered (.tuple lefts) (.tuple rights)
  | dict {lefts middle rights : List (Value × Value)} :
      KeysDistinct lefts → KeysDistinct rights → middle.Perm rights →
      lefts.map (·.1) = middle.map (·.1) →
      List.Forall₂ Value.Reordered (lefts.map (·.2)) (middle.map (·.2)) →
      Value.Reordered (.dict lefts) (.dict rights)
  | step {left right : Step} :
      Step.Reordered left right → Value.Reordered (.step left) (.step right)

inductive Step.Reordered : Step → Step → Prop
  | predicate (test : Callable) (message : String) {left right : Detail} :
      Detail.Reordered left right →
      Step.Reordered (.predicate test message (some left)) (.predicate test message (some right))
  | optional {left right fallback other : Value} :
      Value.Reordered left right → Value.Reordered fallback other →
      Step.Reordered (.optional left fallback) (.optional right other)
  | enum {left right : Value} :
      Value.Reordered left right → Step.Reordered (.enum left) (.enum right)
  | object {lefts rights : List (String × Value)} :
      lefts.map (·.1) = rights.map (·.1) →
      List.Forall₂ Value.Reordered (lefts.map (·.2)) (rights.map (·.2)) →
      Step.Reordered (.object lefts) (.object rights)
  | indexed {left right : Value} :
      Value.Reordered left right → Step.Reordered (.indexed left) (.indexed right)
  | oneOf {left right : Value} :
      Value.Reordered left right → Step.Reordered (.oneOf left) (.oneOf right)

inductive Detail.Reordered : Detail → Detail → Prop
  | found {left right : Value} :
      Value.Reordered left right → Detail.Reordered (.found left) (.found right)
  | expected {left right : Value} :
      Value.Reordered left right → Detail.Reordered (.expected left) (.expected right)
  | unexpected {left right : Value} :
      Value.Reordered left right → Detail.Reordered (.unexpected left) (.unexpected right)
  | errors {lefts rights : List Issue} :
      List.Forall₂ Issue.Reordered lefts rights → Detail.Reordered (.errors lefts) (.errors rights)

inductive Issue.Reordered : Issue → Issue → Prop
  | same (issue : Issue) : Issue.Reordered issue issue
  | detail (path : Path) (message : String) {left right : Detail} :
      Detail.Reordered left right →
      Issue.Reordered ⟨path, message, some left⟩ ⟨path, message, some right⟩

end

namespace Value

variable {name : String} {entries : List (Value × Value)}

theorem property_of_mem (distinct : KeysDistinct entries) {held : Value}
    (member : (.str name, held) ∈ entries) : property name entries = some held := by
  induction entries with
  | nil => cases member
  | cons entry rest ih =>
      rcases List.pairwise_cons.mp distinct with ⟨apart, others⟩
      rcases entry with ⟨key, value⟩
      rcases List.mem_cons.mp member with now | later
      · cases now
        rw [property, if_pos rfl]
      · have different := apart _ later
        cases key with
        | str text =>
            rw [Check.sameKey_str, beq_eq_false_iff_ne] at different
            rw [property, if_neg different]
            exact ih others later
        | _ => exact ih others later

theorem property_perm {others : List (Value × Value)} (perm : others.Perm entries)
    (distinct : KeysDistinct entries) (name : String) :
      property name others = property name entries := by
  cases found : property name others with
  | none =>
      symm
      apply property_eq_none.mpr
      intro held member
      exact property_eq_none.mp found held (perm.mem_iff.mpr member)
  | some held => exact (property_of_mem distinct (perm.mem_iff.mp (mem_of_property found))).symm

namespace Reordered

variable {left right : Value}

theorem refl_all (items : List Value) : List.Forall₂ Reordered items items :=
  List.forall₂_same.mpr fun item _ => .same item

theorem isNull_eq (reordered : left.Reordered right) : left.isNull = right.isNull := by
  cases reordered <;> rfl

theorem items (reordered : left.Reordered right) :
    Option.Rel (List.Forall₂ Reordered) left.items? right.items? := by
  cases reordered with
  | same =>
      cases left.items? with
      | none => exact .none
      | some items => exact .some (refl_all items)
  | list each => exact .some each
  | tuple each => exact .some each
  | dict => exact .none
  | step => exact .none

theorem accepts_eq (reordered : left.Reordered right) (kind : BasicKind) :
    kind.accepts left = kind.accepts right := by
  cases reordered with
  | same => rfl
  | list each => cases each <;> cases kind <;> rfl
  | tuple each => cases each <;> cases kind <;> rfl
  | dict => cases kind <;> rfl
  | step => cases kind <;> rfl

theorem equalsLiteral_eq (reordered : left.Reordered right) (option : Value) :
    left.equalsLiteral option = right.equalsLiteral option := by
  cases reordered with
  | same => rfl
  | _ => cases option <;> rfl

theorem keys_perm {lefts rights : List (Value × Value)}
    (reordered : Reordered (.dict lefts) (.dict rights)) :
    (lefts.map (·.1)).Perm (rights.map (·.1)) := by
  cases reordered with
  | same => exact .refl _
  | dict _ _ perm keys =>
      rw [keys]
      exact perm.map _

/-- Entries under the same keys in the same places hold reordered values under a name, or none. -/
theorem property_of_keys {lefts rights : List (Value × Value)}
    (keys : lefts.map (·.1) = rights.map (·.1))
    (each : List.Forall₂ Reordered (lefts.map (·.2)) (rights.map (·.2))) (name : String) :
    Option.Rel Reordered (Value.property name lefts) (Value.property name rights) := by
  induction lefts generalizing rights with
  | nil =>
      cases List.map_eq_nil_iff.mp keys.symm
      exact .none
  | cons entry rest ih =>
      rcases List.map_eq_cons_iff.mp keys.symm with ⟨other, others, rfl, same, later⟩
      rcases List.forall₂_cons.mp each with ⟨first, following⟩
      rcases entry with ⟨key, value⟩
      rcases other with ⟨key', value'⟩
      cases same
      have tail := ih later.symm following
      cases key with
      | str text =>
          rw [Value.property, Value.property]
          split
          · exact .some first
          · exact tail
      | _ => exact tail

theorem property {lefts rights : List (Value × Value)}
    (reordered : Reordered (.dict lefts) (.dict rights)) (name : String) :
    Option.Rel Reordered (Value.property name lefts) (Value.property name rights) := by
  cases reordered with
  | same => exact property_of_keys rfl (refl_all _) name
  | dict _ distinct perm keys each =>
      rw [← property_perm perm distinct]
      exact property_of_keys keys each name

end Reordered

end Value

end SchemaCheck
