import SchemaCheck.Proofs.Decomposition.Object
import SchemaCheck.Proofs.Printing
import SchemaCheck.Proofs.Printing.Delimited

/-!
Printed values are unambiguous. Values of whole numbers, texts, truth values, lists and dicts with
texts as keys are told apart by their printed form, whatever their texts hold: the first character
tells what kind of value is printed, and each kind ends by itself.
-/

namespace SchemaCheck.Value

open Text
open Check (named)

/-- Values without floats or tuples, whose dicts have texts for keys. -/
inductive IsPlain : Value → Prop
  | null : IsPlain .null
  | bool (b : Bool) : IsPlain (.bool b)
  | int (n : Int) : IsPlain (.int n)
  | str (text : String) : IsPlain (.str text)
  | list {items : List Value} : (∀ item ∈ items, IsPlain item) → IsPlain (.list items)
  | dict {entries : List (String × Value)} :
      (∀ entry ∈ entries, IsPlain entry.2) → IsPlain (.dict (named entries))

theorem isJson_of_isPlain {value : Value} (plain : value.IsPlain) : value.IsJson := by
  induction plain with
  | null => exact .null
  | bool b => exact .bool b
  | int n => exact .int n
  | str text => exact .str text
  | list _ ih => exact .list ih
  | dict _ ih =>
      refine .dict (List.forall_mem_map.mpr fun entry _ => .str entry.1) ?_
      exact List.forall_mem_map.mpr ih

/-- What a printed value shows itself to be by its first character. -/
inductive Opening
  | null
  | truth
  | number
  | text
  | list
  | dict
deriving DecidableEq

def opening : Value → Opening
  | null => .null
  | bool _ => .truth
  | int _ => .number
  | str _ => .text
  | list _ => .list
  | _ => .dict

def opening? (c : Char) : Option Opening :=
  if isNumeral c then some .number
  else match c with
  | 'n' => some .null
  | 't' => some .truth
  | 'f' => some .truth
  | '"' => some .text
  | '[' => some .list
  | '\x7b' => some .dict
  | _ => none

/-- The characters of the printed form. -/
def spelled (value : Value) : List Char :=
  value.full.toList

def spelledEntry (entry : String × Value) : List Char :=
  (jsonString entry.1).toList ++ ([':', ' '] ++ entry.2.spelled)

section Spelled

theorem spelled_str (text : String) : (str text).spelled = (jsonString text).toList := rfl

theorem spelled_list (items : List Value) :
    (list items).spelled = bracketed '[' ']' spelled items := by
  rw [spelled, full, fullItems_eq_map, String.toList_append, String.toList_append,
    String.toList_intercalate, List.map_map]
  rfl

theorem spelled_dict {entries : List (String × Value)}
    (plain : ∀ entry ∈ entries, IsPlain entry.2) :
    (dict (named entries)).spelled = bracketed '\x7b' '\x7d' spelledEntry entries := by
  have texts : (named entries).map (fun entry => (entryText entry).toList) =
      entries.map spelledEntry := by
    rw [named, List.map_map]
    refine List.map_congr_left fun entry _ => ?_
    change (jsonString entry.1 ++ ": " ++ entry.2.full).toList = _
    rw [String.toList_append, String.toList_append, List.append_assoc]
    rfl
  rw [spelled, full_dict (isJson_of_isPlain (.dict plain)), String.toList_append,
    String.toList_append, String.toList_intercalate, List.map_map]
  exact congrArg (fun texts => '\x7b' :: ([',', ' '].intercalate texts ++ ['\x7d'])) texts

/-- The first character shows what is printed. -/
theorem exists_spelled_eq_cons {value : Value} (plain : value.IsPlain) :
    ∃ c rest, value.spelled = c :: rest ∧ opening? c = some value.opening := by
  cases plain with
  | null => exact ⟨_, _, rfl, by decide⟩
  | bool b => cases b <;> exact ⟨_, _, rfl, by decide⟩
  | int n =>
      cases text : n.repr.toList with
      | nil => exact absurd text (repr_ne_nil n)
      | cons c rest =>
          exact ⟨c, rest, text, if_pos (isNumeral_of_mem_repr (text ▸ List.mem_cons_self))⟩
  | str text => exact ⟨_, _, (spelled_str text).trans (toList_jsonString text), rfl⟩
  | list _ => exact ⟨_, _, spelled_list _, rfl⟩
  | dict plain => exact ⟨_, _, spelled_dict plain, rfl⟩

end Spelled

theorem opening_eq_of_spelled {left right : Value} {rest tail : List Char}
    (known : left.IsPlain) (plain : right.IsPlain)
    (same : left.spelled ++ rest = right.spelled ++ tail) :
    left.opening = right.opening := by
  obtain ⟨c, after, text, shown⟩ := exists_spelled_eq_cons known
  obtain ⟨d, later, other, expected⟩ := exists_spelled_eq_cons plain
  rw [text, other] at same
  obtain ⟨rfl, _⟩ := List.cons.inj same
  exact Option.some.inj (shown.symm.trans expected)

theorem spelled_not_closing {value : Value} {bracket : Char} {rest tail : List Char}
    (plain : value.IsPlain)
    (closing : opening? bracket = none) : value.spelled ++ rest ≠ bracket :: tail := by
  obtain ⟨c, after, text, shown⟩ := exists_spelled_eq_cons plain
  rw [text]
  rintro ⟨⟩
  cases closing.symm.trans shown

section Told

/-- Values of one kind can be told from all others once they can be told from each other. -/
theorem told_of_kind {β : Type} (make : β → Value) {spell : β → List Char} {Among : β → Prop}
    {content : β} (told : Told Closed spell Among content) (known : Among content)
    (plain : ∀ other, Among other → (make other).IsPlain)
    (text : ∀ other, Among other → (make other).spelled = spell other)
    (only : ∀ value, value.IsPlain → value.opening = (make content).opening →
      ∃ other, Among other ∧ make other = value) :
    Told Closed spelled IsPlain (make content) := by
  intro value rest tail present before after same
  have alike := opening_eq_of_spelled (plain content known) present same
  obtain ⟨other, among, rfl⟩ := only value present alike.symm
  rw [text content known, text other among] at same
  obtain ⟨rfl, rfl⟩ := told other rest tail among before after same
  exact ⟨rfl, rfl⟩

theorem told_null : Told Closed spelled IsPlain null := by
  have told : Told Closed (fun _ : Unit => "null".toList) (fun _ => True) () :=
    fun _ _ _ _ _ _ same => ⟨rfl, List.append_cancel_left same⟩
  refine told_of_kind (fun _ => null) told trivial (fun _ _ => .null) (fun _ _ => rfl) ?_
  rintro _ ⟨⟩ ⟨⟩
  exact ⟨(), trivial, rfl⟩

theorem told_bool (b : Bool) : Told Closed spelled IsPlain (bool b) := by
  have told : Told Closed (fun c => (bool c).spelled) (fun _ => True) b := by
    intro c rest tail _ _ _ same
    cases b <;> cases c <;> simp_all [spelled, full]
  refine told_of_kind bool told trivial (fun c _ => .bool c) (fun _ _ => rfl) ?_
  rintro _ ⟨⟩ ⟨⟩
  exact ⟨_, trivial, rfl⟩

theorem told_int (n : Int) : Told Closed spelled IsPlain (int n) := by
  refine told_of_kind int (int_told n) trivial (fun m _ => .int m) (fun _ _ => rfl) ?_
  rintro _ ⟨⟩ ⟨⟩
  exact ⟨_, trivial, rfl⟩

theorem told_str (text : String) : Told Closed spelled IsPlain (str text) := by
  refine told_of_kind str (jsonString_told Closed text) trivial (fun other _ => .str other)
    (fun _ _ => rfl) ?_
  rintro _ ⟨⟩ ⟨⟩
  exact ⟨_, trivial, rfl⟩

theorem told_list {items : List Value} (plain : ∀ item ∈ items, IsPlain item)
    (told : ∀ item ∈ items, Told Closed spelled IsPlain item) :
      Told Closed spelled IsPlain (list items) := by
  have delimited := bracketed_told '[' ']' (by decide) (by decide) told plain
    fun item _ _ plain => spelled_not_closing plain rfl
  refine told_of_kind list delimited plain (fun _ among => .list among)
    (fun others _ => spelled_list others) ?_
  intro value present alike
  cases present with
  | list among => exact ⟨_, among, rfl⟩
  | _ => cases alike

theorem told_entry {entry : String × Value} (told : Told Closed spelled IsPlain entry.2) :
    Told Closed spelledEntry (fun entry => entry.2.IsPlain) entry := by
  obtain ⟨name, value⟩ := entry
  rintro ⟨other, found⟩ rest tail present before after same
  simp only [spelledEntry, List.append_assoc] at same
  obtain ⟨rfl, values⟩ :=
    jsonString_told (fun _ => True) name other _ _ trivial trivial trivial same
  obtain ⟨rfl, rfl⟩ := told _ _ _ present before after (List.append_cancel_left values)
  exact ⟨rfl, rfl⟩

theorem told_dict {entries : List (String × Value)} (plain : ∀ entry ∈ entries, IsPlain entry.2)
    (told : ∀ entry ∈ entries, Told Closed spelled IsPlain entry.2) :
    Told Closed spelled IsPlain (dict (named entries)) := by
  have delimited := bracketed_told '\x7b' '\x7d' (by decide) (by decide)
    (fun entry member => told_entry (told entry member)) plain
    fun entry _ _ _ => by simp [spelledEntry, toList_jsonString]
  refine told_of_kind (fun others => dict (named others)) delimited plain
    (fun _ among => .dict among)
    (fun _ among => spelled_dict among) ?_
  intro value present alike
  cases present with
  | dict among => exact ⟨_, among, rfl⟩
  | _ => cases alike

/-- A plain value, and with it the end of its printed form, can be told from any text that its
printed form opens and no number goes on with. -/
theorem told_of_isPlain {value : Value} (plain : value.IsPlain) :
    Told Closed spelled IsPlain value := by
  induction plain with
  | null => exact told_null
  | bool b => exact told_bool b
  | int n => exact told_int n
  | str text => exact told_str text
  | list plain ih => exact told_list plain ih
  | dict plain ih => exact told_dict plain ih

end Told

/-- Two plain values with the same printed form are the same value, with their entries in the same
order. -/
theorem printed_unambiguous {left right : Value} (known : left.IsPlain) (plain : right.IsPlain) :
    left.printed none = right.printed none ↔ left = right := by
  constructor
  · intro same
    have spelled : left.spelled ++ [] = right.spelled ++ [] := by
      rw [List.append_nil, List.append_nil]
      exact congrArg String.toList same
    exact (told_of_isPlain known right [] [] plain (by simp [Closed]) (by simp [Closed]) spelled).1
  · rintro rfl
    rfl

def quotedComma : Value :=
  .dict (named [("a", .list [.str "b\", \"c"])])

def twoTexts : Value :=
  .dict (named [("a", .list [.str "b", .str "c"])])

theorem quotedComma_not_twoTexts :
    quotedComma.IsPlain ∧ twoTexts.IsPlain ∧ quotedComma.printed none ≠ twoTexts.printed none := by
  have first : quotedComma.IsPlain := .dict (by simpa using .list (by simpa using .str _))
  have second : twoTexts.IsPlain := .dict (by simpa using .list (by simpa using ⟨.str _, .str _⟩))
  refine ⟨first, second, fun same => ?_⟩
  have identical := (printed_unambiguous first second).mp same
  simp [quotedComma, twoTexts, named] at identical

end SchemaCheck.Value
