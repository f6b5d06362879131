import SchemaCheck.Value.Inspected
import SchemaCheck.Value.Json
import SchemaCheck.Text.Cut

/-!
The form of values in messages. Lists are printed item by item and the rest as JSON where JSON can
say it; whatever it cannot say is inspected behind the name of its type. A limit cuts each printed
value.
-/

namespace SchemaCheck.Value

def labelled (typeName inspected : String) : String :=
  "<" ++ typeName ++ "> " ++ inspected

mutual

/-- The printed form without a limit. -/
def full : Value → String
  | list items => "[" ++ String.intercalate ", " (fullItems items) ++ "]"
  | tuple items => "[" ++ String.intercalate ", " (fullItems items) ++ "]"
  | str text => Text.jsonString text
  | null => "null"
  | bool true => "true"
  | bool false => "false"
  | int n => toString n
  | float x => FloatSpelling.json.text x
  | function callable => callable.printed
  | dict entries => ((dict entries).json?).getD (labelled "dict" (dict entries).inspected)
  | foreign typeName form => labelled typeName form
  | step composite => labelled composite.typeName composite.inspected

def fullItems : List Value → List String
  | [] => []
  | head :: tail => full head :: fullItems tail

end

def printed (limit : Option Nat) (value : Value) : String :=
  Text.cut limit value.full

/-- The items of a list or tuple next to each other, each within the limit; anything else alone. -/
def printedRun (limit : Option Nat) (values : Value) : String :=
  match values.items? with
  | some items => String.intercalate ", " (items.map (printed limit))
  | none => values.printed limit

/-- A value between the marks of code. -/
def code (value : Value) : String :=
  "`" ++ value.plain ++ "`"

@[simp] theorem printed_none (value : Value) : value.printed none = value.full := rfl

end SchemaCheck.Value
