import SchemaCheck.Model.Basic
import SchemaCheck.Proofs.Carrying
import SchemaCheck.Proofs.Equality

/-!
What values a shape is a type of. The null of an optional shape stands for input alone: what was
validated fits firmly, which is to say that it holds null only where anything may be. So a value may
later be taken apart, put in order and filled up where it holds null, and still fit.
-/

namespace SchemaCheck

namespace Shape

/-- The value is of the type. A truth value is no number, and a dict may hold more than a model
says. -/
inductive Conforms : Shape → Value → Prop
  | any (value : Value) : Conforms .any value
  | null : Conforms .null .null
  | boolean (b : Bool) : Conforms .boolean (.bool b)
  | int (n : Int) : Conforms .number (.int n)
  | float (x : Float) : Conforms .number (.float x)
  | integer {value : Value} {n : Int} : value.EqualInKind (.int n) → Conforms .integer value
  | string (text : String) : Conforms .string (.str text)
  | list {item : Shape} {value : Value} {items : List Value} :
      value.IsArrayOf items → (∀ held ∈ items, Conforms item held) → Conforms (.list item) value
  | tuple {shapes : List Shape} {value : Value} {items : List Value} :
      value.IsArrayOf items → shapes.length = items.length →
      (∀ pair ∈ shapes.zip items, Conforms pair.1 pair.2) → Conforms (.tuple shapes) value
  | literal {serial : Nat} {options : List Value} {value option : Value} :
      option ∈ options → value.EqualInKind option → Conforms (.literal serial options) value
  | union {members : List Shape} {member : Shape} {value : Value} :
      member ∈ members → Conforms member value → Conforms (.union members) value
  | model {model : Model} {entries : List (Value × Value)} (held : Field → Value) :
      (∀ field ∈ model.fields, (.str field.name, held field) ∈ entries) →
      (∀ field ∈ model.fields, Conforms field.shape (held field)) →
      Conforms (.model model) (.dict entries)

/-- The value is of the type even if null is of no type but that of anything. -/
inductive Firm : Shape → Value → Prop
  | any (value : Value) : Firm .any value
  | boolean (b : Bool) : Firm .boolean (.bool b)
  | number {value : Value} {quantity : Quantity} :
      value.quantity? = some quantity → Firm .number value
  | integer {value : Value} {quantity : Quantity} :
      value.quantity? = some quantity → quantity.isWhole = true → Firm .integer value
  | string (text : String) : Firm .string (.str text)
  | list {item : Shape} {value : Value} {items : List Value} :
      value.items? = some items → (∀ held ∈ items, Firm item held) → Firm (.list item) value
  | tuple {shapes : List Shape} {value : Value} {items : List Value} :
      value.items? = some items → shapes.length = items.length →
      (∀ pair ∈ shapes.zip items, Firm pair.1 pair.2) → Firm (.tuple shapes) value
  | literal {serial : Nat} {options : List Value} {value option : Value} :
      option ∈ options → value.equalsLiteral option = true → Firm (.literal serial options) value
  | union {members : List Shape} {member : Shape} {value : Value} :
      member ∈ members → Firm member value → Firm (.union members) value
  | model {model : Model} {entries : List (Value × Value)} :
      (∀ field ∈ model.fields, ∃ held, Value.property field.name entries = some held) →
      (∀ field ∈ model.fields, ∀ held, Value.property field.name entries = some held →
        Firm field.shape held) →
      Firm (.model model) (.dict entries)

theorem Firm.conforms {shape : Shape} {value : Value} (firm : shape.Firm value) :
    shape.Conforms value := by
  induction firm with
  | any value => exact .any value
  | boolean b => exact .boolean b
  | @number value quantity known =>
      cases value with
      | int n => exact .int n
      | float x => exact .float x
      | _ => cases known
  | integer known whole =>
      rcases Value.exists_equalInKind_int known whole with ⟨n, equal⟩
      exact .integer equal
  | string text => exact .string text
  | list listed _ ih => exact .list (Value.items?_eq_some_iff.mp listed) ih
  | tuple listed length _ ih => exact .tuple (Value.items?_eq_some_iff.mp listed) length ih
  | literal member equal => exact .literal member (Value.equalInKind_of_equals equal)
  | union member _ ih => exact .union member ih
  | @model model entries present _ ih =>
      have held : ∀ field ∈ model.fields, Value.property field.name entries =
          some ((Value.property field.name entries).getD .null) := by
        intro field member
        rcases present field member with ⟨value, found⟩
        rw [found]
        rfl
      refine .model (fun field => (Value.property field.name entries).getD .null) ?_ ?_
      · exact fun field member => Value.mem_of_property (held field member)
      · exact fun field member => ih field member _ (held field member)

theorem firm_tuple_iff {shapes : List Shape} {value : Value} :
    (tuple shapes).Firm value ↔
      ∃ items, value.items? = some items ∧ List.Forall₂ Firm shapes items := by
  simp only [List.forall₂_iff_zip]
  constructor
  · intro firm
    cases firm with
    | tuple listed length held => exact ⟨_, listed, length, fun member => held _ member⟩
  · intro found
    rcases found with ⟨items, listed, length, held⟩
    exact .tuple listed length fun _ member => held member

theorem firm_union_iff {members : List Shape} {value : Value} :
    (union members).Firm value ↔ ∃ member ∈ members, member.Firm value := by
  constructor
  · intro firm
    cases firm with
    | union member own => exact ⟨_, member, own⟩
  · intro found
    rcases found with ⟨member, inside, own⟩
    exact .union inside own

theorem firm_literal_iff {serial : Nat} {options : List Value} {value : Value} :
    (literal serial options).Firm value ↔
      ∃ option ∈ options, value.equalsLiteral option = true := by
  constructor
  · intro firm
    cases firm with
    | literal member equal => exact ⟨_, member, equal⟩
  · intro found
    rcases found with ⟨option, member, equal⟩
    exact .literal member equal

end Shape

namespace Value

theorem isLiteral_of_quantity {value : Value} {quantity : Quantity}
    (known : value.quantity? = some quantity) : value.isLiteral = true := by
  cases value with
  | int n => rfl
  | float x => rfl
  | _ => cases known

theorem isLiteral_of_items {value : Value} {items : List Value}
    (listed : value.items? = some items) : value.isLiteral ≠ true := by
  cases value with
  | list items => simp [isLiteral]
  | tuple items => simp [isLiteral]
  | _ => cases listed

end Value

/-- Whatever type the one value fits firmly, so does the other. -/
def Preserves (value output : Value) : Prop :=
  ∀ shape : Shape, shape.Firm value → shape.Firm output

namespace Preserves

theorem refl (value : Value) : Preserves value value :=
  fun _ firm => firm

theorem trans {value between output : Value} (first : Preserves value between)
    (second : Preserves between output) : Preserves value output :=
  fun shape firm => second shape (first shape firm)

/-- A union is fitted through its members, so types that are none decide. -/
theorem of_members {value output : Value}
    (plain : ∀ shape : Shape, (∀ members, shape ≠ .union members) → shape.Firm value →
      shape.Firm output) : Preserves value output := by
  intro shape firm
  induction firm with
  | union member _ ih => exact .union member (ih plain)
  | any value => exact .any output
  | boolean b => exact plain .boolean (by simp) (.boolean b)
  | number known => exact plain .number (by simp) (.number known)
  | integer known whole => exact plain .integer (by simp) (.integer known whole)
  | string text => exact plain .string (by simp) (.string text)
  | list listed held => exact plain _ (by simp) (.list listed held)
  | tuple listed length held => exact plain _ (by simp) (.tuple listed length held)
  | literal member equal => exact plain _ (by simp) (.literal member equal)
  | model present held => exact plain _ (by simp) (.model present held)

theorem null (output : Value) : Preserves .null output := by
  apply of_members
  intro shape plain firm
  cases firm with
  | any => exact .any output
  | number known => cases known
  | integer known => cases known
  | list listed => cases listed
  | tuple listed => cases listed
  | literal member equal => cases Value.isLiteral_of_equals equal
  | union => exact absurd rfl (plain _)

theorem items {value : Value} {items results : List Value} (listed : value.items? = some items)
    (each : List.Forall₂ Preserves items results) : Preserves value (.list results) := by
  apply of_members
  intro shape plain firm
  cases firm with
  | any => exact .any _
  | boolean b => cases listed
  | number known =>
      exact absurd (Value.isLiteral_of_quantity known) (Value.isLiteral_of_items listed)
  | integer known =>
      exact absurd (Value.isLiteral_of_quantity known) (Value.isLiteral_of_items listed)
  | string text => cases listed
  | literal member equal =>
      exact absurd (Value.isLiteral_of_equals equal) (Value.isLiteral_of_items listed)
  | union => exact absurd rfl (plain _)
  | model => cases listed
  | list own held =>
      cases own.symm.trans listed
      apply Shape.Firm.list rfl
      intro result member
      rcases exists_mem_of_forall₂ each member with ⟨item, inside, preserved⟩
      exact preserved _ (held item inside)
  | tuple own length held =>
      rcases Shape.firm_tuple_iff.mp (.tuple own length held) with ⟨_, same, firm⟩
      cases same.symm.trans listed
      apply Shape.firm_tuple_iff.mpr
      exact ⟨results, rfl, forall₂_trans (fun firm preserved => preserved _ firm) firm each⟩

theorem entries {entries results : List (Value × Value)}
    (each : ∀ name held, Value.property name entries = some held →
      ∃ output, Value.property name results = some output ∧ Preserves held output) :
    Preserves (.dict entries) (.dict results) := by
  apply of_members
  intro shape plain firm
  cases firm with
  | any => exact .any _
  | number known => cases known
  | integer known => cases known
  | list listed => cases listed
  | tuple listed => cases listed
  | literal member equal => cases Value.isLiteral_of_equals equal
  | union => exact absurd rfl (plain _)
  | model present held =>
      apply Shape.Firm.model
      · intro field member
        rcases present field member with ⟨value, found⟩
        rcases each field.name value found with ⟨output, filled, _⟩
        exact ⟨output, filled⟩
      · intro field member output filled
        rcases present field member with ⟨value, found⟩
        rcases each field.name value found with ⟨other, same, preserved⟩
        cases filled.symm.trans same
        exact preserved _ (held field member value found)

theorem carried : Carried [.function] Preserves where
  refl := refl
  trans := trans
  null _ := null
  items := items
  entries := by
    intro dict pairs distinct declared filled
    apply entries
    intro name held found
    have among := declared _ (Value.mem_of_property found)
    rcases Value.isAmong_iff.mp among with ⟨_, listed, ⟨⟩⟩
    rcases List.mem_map.mp listed with ⟨⟨_, output⟩, member, rfl⟩
    refine ⟨output, Value.property_named distinct member, ?_⟩
    have related := filled _ member
    simp only [FilledBy, found] at related
    exact related

end Preserves

end SchemaCheck
