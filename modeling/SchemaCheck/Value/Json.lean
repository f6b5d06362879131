import SchemaCheck.Value.Basic
import SchemaCheck.Number.Spelling
import SchemaCheck.Text.Escaped

/-!
The JSON text of a value, where there is one. Tuples are written as lists, and keys that are
numbers, truth values or nothing are written as texts.
-/

namespace SchemaCheck.Value

def jsonScalar? : Value → Option String
  | null => some "null"
  | bool true => some "true"
  | bool false => some "false"
  | int n => some (toString n)
  | float x => some (FloatSpelling.json.text x)
  | _ => none

def jsonKey? : Value → Option String
  | str text => some (Text.jsonString text)
  | key => key.jsonScalar?.map Text.jsonString

mutual

def json? : Value → Option String
  | str text => some (Text.jsonString text)
  | list items => (jsonItems? items).map fun texts => "[" ++ String.intercalate ", " texts ++ "]"
  | tuple items => (jsonItems? items).map fun texts => "[" ++ String.intercalate ", " texts ++ "]"
  | dict entries =>
      (jsonEntries? entries).map fun texts => "\x7b" ++ String.intercalate ", " texts ++ "\x7d"
  | value => value.jsonScalar?

def jsonItems? : List Value → Option (List String)
  | [] => some []
  | head :: tail =>
      match head.json?, jsonItems? tail with
      | some text, some texts => some (text :: texts)
      | _, _ => none

def jsonEntries? : List (Value × Value) → Option (List String)
  | [] => some []
  | (key, value) :: tail =>
      match key.jsonKey?, value.json?, jsonEntries? tail with
      | some name, some text, some texts => some ((name ++ ": " ++ text) :: texts)
      | _, _, _ => none

end

end SchemaCheck.Value
