import SchemaCheck.Proofs.Parts
import SchemaCheck.Value.Printed

/-!
Printing and JSON. Lists are printed item by item and dicts are handed whole to the JSON writer,
which has its own way through lists. Without a limit the two agree on everything that JSON has a
text for, so it makes no difference to the text of a list whether it stands alone, in other lists or
somewhere inside a dict.
-/

namespace SchemaCheck.Value

/-- Keys that JSON has a text for. -/
inductive IsJsonKey : Value → Prop
  | null : IsJsonKey .null
  | bool (b : Bool) : IsJsonKey (.bool b)
  | int (n : Int) : IsJsonKey (.int n)
  | float (x : Float) : IsJsonKey (.float x)
  | str (text : String) : IsJsonKey (.str text)

/-- Values that JSON has a text for. -/
inductive IsJson : Value → Prop
  | null : IsJson .null
  | bool (b : Bool) : IsJson (.bool b)
  | int (n : Int) : IsJson (.int n)
  | float (x : Float) : IsJson (.float x)
  | str (text : String) : IsJson (.str text)
  | list {items : List Value} : (∀ item ∈ items, IsJson item) → IsJson (.list items)
  | tuple {items : List Value} : (∀ item ∈ items, IsJson item) → IsJson (.tuple items)
  | dict {entries : List (Value × Value)} :
      (∀ entry ∈ entries, IsJsonKey entry.1) → (∀ entry ∈ entries, IsJson entry.2) →
      IsJson (.dict entries)

theorem exists_jsonKey_iff {key : Value} : (∃ name, key.jsonKey? = some name) ↔ key.IsJsonKey := by
  constructor
  · intro found
    obtain ⟨name, written⟩ := found
    cases key with
    | null => exact .null
    | bool b => exact .bool b
    | int n => exact .int n
    | float x => exact .float x
    | str text => exact .str text
    | _ => cases written
  · intro expressible
    cases expressible with
    | bool b => cases b <;> exact ⟨_, rfl⟩
    | _ => exact ⟨_, rfl⟩

section Walks

theorem fullItems_eq_map (items : List Value) : fullItems items = items.map full := by
  induction items with
  | nil => rfl
  | cons head tail ih => rw [fullItems, ih, List.map_cons]

theorem jsonItems_of_json {items : List Value}
    (written : ∀ item ∈ items, item.json? = some item.full) :
    jsonItems? items = some (items.map full) := by
  induction items with
  | nil => rfl
  | cons head tail ih =>
      obtain ⟨own, others⟩ := List.forall_mem_cons.mp written
      simp only [jsonItems?, own, ih others, List.map_cons]

/-- The text of a key, empty for keys that JSON has no text for. -/
def keyText (key : Value) : String :=
  key.jsonKey?.getD ""

/-- The text of an entry, its key and its value next to each other. -/
def entryText (entry : Value × Value) : String :=
  entry.1.keyText ++ ": " ++ entry.2.full

theorem jsonEntries_of_json {entries : List (Value × Value)}
    (keys : ∀ entry ∈ entries, entry.1.IsJsonKey)
    (written : ∀ entry ∈ entries, entry.2.json? = some entry.2.full) :
    jsonEntries? entries = some (entries.map entryText) := by
  induction entries with
  | nil => rfl
  | cons head tail ih =>
      obtain ⟨key, value⟩ := head
      obtain ⟨named, otherKeys⟩ := List.forall_mem_cons.mp keys
      obtain ⟨own, others⟩ := List.forall_mem_cons.mp written
      obtain ⟨name, found⟩ := exists_jsonKey_iff.mpr named
      simp only [jsonEntries?, found, own, ih otherKeys others, List.map_cons, entryText, keyText,
        Option.getD_some]

end Walks

theorem json_of_isJson {value : Value} (expressible : value.IsJson) :
    value.json? = some value.full := by
  induction expressible with
  | bool b => cases b <;> rfl
  | list _ ih => rw [json?, jsonItems_of_json ih, full, fullItems_eq_map, Option.map_some]
  | tuple _ ih => rw [json?, jsonItems_of_json ih, full, fullItems_eq_map, Option.map_some]
  | dict keys _ ih =>
      rw [full, json?, jsonEntries_of_json keys ih, Option.map_some, Option.getD_some]
  | _ => rfl

theorem full_dict {entries : List (Value × Value)} (expressible : IsJson (.dict entries)) :
    full (.dict entries) = "\x7b" ++ String.intercalate ", " (entries.map entryText) ++ "\x7d" := by
  cases expressible with
  | dict keys values =>
      have written := fun entry member => json_of_isJson (values entry member)
      rw [full, json?, jsonEntries_of_json keys written, Option.map_some, Option.getD_some]

mutual

theorem isJson_of_json : (value : Value) → {text : String} → value.json? = some text → value.IsJson
  | .null, _, _ => .null
  | .bool b, _, _ => .bool b
  | .int n, _, _ => .int n
  | .float x, _, _ => .float x
  | .str text, _, _ => .str text
  | .list items, _, written => by
      rw [json?, Option.map_eq_some_iff] at written
      obtain ⟨texts, found, _⟩ := written
      exact .list (isJson_of_jsonItems items found)
  | .tuple items, _, written => by
      rw [json?, Option.map_eq_some_iff] at written
      obtain ⟨texts, found, _⟩ := written
      exact .tuple (isJson_of_jsonItems items found)
  | .dict entries, _, written => by
      rw [json?, Option.map_eq_some_iff] at written
      obtain ⟨texts, found, _⟩ := written
      obtain ⟨keys, values⟩ := isJson_of_jsonEntries entries found
      exact .dict keys values

theorem isJson_of_jsonItems : (items : List Value) → {texts : List String} →
    jsonItems? items = some texts → ∀ item ∈ items, item.IsJson
  | [], _, _ => List.forall_mem_nil _
  | head :: tail, _, written => by
      rw [jsonItems?] at written
      split at written
      · rename_i own others
        exact List.forall_mem_cons.mpr ⟨isJson_of_json head own, isJson_of_jsonItems tail others⟩
      · cases written

theorem isJson_of_jsonEntries : (entries : List (Value × Value)) → {texts : List String} →
    jsonEntries? entries = some texts →
      (∀ entry ∈ entries, entry.1.IsJsonKey) ∧ ∀ entry ∈ entries, entry.2.IsJson
  | [], _, _ => ⟨List.forall_mem_nil _, List.forall_mem_nil _⟩
  | (key, value) :: tail, _, written => by
      rw [jsonEntries?] at written
      split at written
      · rename_i name own others
        obtain ⟨keys, values⟩ := isJson_of_jsonEntries tail others
        exact ⟨List.forall_mem_cons.mpr ⟨exists_jsonKey_iff.mp ⟨_, name⟩, keys⟩,
          List.forall_mem_cons.mpr ⟨isJson_of_json value own, values⟩⟩
      · cases written

end

/-- JSON has a text for exactly the values above, and it is their printed form; and a value reads
the same inside lists, tuples and dicts as it does alone. -/
theorem printing_agrees_with_json :
    (∀ (value : Value) (text : String),
      value.json? = some text ↔ value.IsJson ∧ value.printed none = text) ∧
    (∀ items : List Value,
      (list items).printed none = "[" ++ String.intercalate ", " (items.map (printed none)) ++ "]" ∧
      (tuple items).printed none =
        "[" ++ String.intercalate ", " (items.map (printed none)) ++ "]") ∧
    ∀ entries : List (Value × Value), IsJson (.dict entries) →
      (dict entries).printed none =
        "\x7b" ++ String.intercalate ", "
          (entries.map fun entry => entry.1.keyText ++ ": " ++ entry.2.printed none) ++ "\x7d" := by
  refine ⟨fun value text => ⟨fun written => ?_, ?_⟩, fun items => ?_, fun entries => full_dict⟩
  · have expressible := isJson_of_json value written
    have agreed := json_of_isJson expressible
    exact ⟨expressible, Option.some.inj (agreed.symm.trans written)⟩
  · rintro ⟨expressible, rfl⟩
    exact json_of_isJson expressible
  · constructor <;> rw [printed_none, full, fullItems_eq_map] <;> rfl

def tangled : List (Value × Value) :=
  [(.int 1, .tuple [.str "a\"", .list []]), (.bool true, .list [.dict [(.null, .int (-2))]])]

theorem tangled_agrees :
    IsJson (.dict tangled) ∧
      (dict tangled).printed none =
        "\x7b\"1\": [\"a\\\"\", []], \"true\": [\x7b\"null\": -2\x7d]\x7d" ∧
      (dict tangled).printed none =
        "\x7b" ++ String.intercalate ", "
          (tangled.map fun entry => entry.1.keyText ++ ": " ++ entry.2.printed none) ++ "\x7d" := by
  have written : (dict tangled).json? =
      some "\x7b\"1\": [\"a\\\"\", []], \"true\": [\x7b\"null\": -2\x7d]\x7d" := by decide
  obtain ⟨expressible, text⟩ := (printing_agrees_with_json.1 _ _).mp written
  exact ⟨expressible, text, printing_agrees_with_json.2.2 tangled expressible⟩

end SchemaCheck.Value
