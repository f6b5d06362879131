import SchemaCheck.Value.Basic
import SchemaCheck.Number.Spelling
import SchemaCheck.Text.Escaped

/-!
The inspected form of a value: what it is built from, spelled so that texts, numbers and steps
can be told apart.
-/

namespace SchemaCheck

def Callable.printed (callable : Callable) : String :=
  "<function " ++ callable.label ++ ">"

def Segment.inspected : Segment → String
  | .name text => Text.inspected text
  | .index n => toString n

def inBrackets (items : List String) : String :=
  "[" ++ String.intercalate ", " items ++ "]"

/-- A single item is followed by a comma. -/
def inParentheses : List String → String
  | [only] => "(" ++ only ++ ",)"
  | items => "(" ++ String.intercalate ", " items ++ ")"

/-- A construction with named parts. -/
def construction (name : String) (parts : List (String × String)) : String :=
  name ++ "(" ++ String.intercalate ", "
    (parts.map fun (label, part) => label ++ "=" ++ part) ++ ")"

mutual

def Value.inspected : Value → String
  | .null => "None"
  | .bool true => "True"
  | .bool false => "False"
  | .int n => toString n
  | .float x => FloatSpelling.plain.text x
  | .str text => Text.inspected text
  | .list items => inBrackets (Value.inspectedAll items)
  | .tuple items => inParentheses (Value.inspectedAll items)
  | .dict entries => "\x7b" ++ String.intercalate ", " (Value.inspectedEntries entries) ++ "\x7d"
  | .foreign _ inspected => inspected
  | .function callable => callable.printed
  | .step step => step.inspected

def Value.inspectedAll : List Value → List String
  | [] => []
  | head :: tail => head.inspected :: Value.inspectedAll tail

def Value.inspectedEntries : List (Value × Value) → List String
  | [] => []
  | (key, value) :: tail =>
      (key.inspected ++ ": " ++ value.inspected) :: Value.inspectedEntries tail

def Step.inspected : Step → String
  | .predicate test message detail =>
      construction "PredicateStep"
        [("fn", test.printed), ("err", Text.inspected message),
          ("details", Detail.inspectedOption detail)]
  | .optional inner fallback =>
      construction "OptionalStep" [("inner", inner.inspected), ("fallback", fallback.inspected)]
  | .enum options => construction "EnumStep" [("options", options.inspected)]
  | .object fields =>
      construction "ObjectStep" [("fields", inParentheses (Step.inspectedFields fields))]
  | .indexed entries => construction "IndexedStep" [("entries", entries.inspected)]
  | .oneOf branches => construction "OneOfStep" [("branches", branches.inspected)]

def Step.inspectedFields : List (String × Value) → List String
  | [] => []
  | (name, schema) :: tail =>
      inParentheses [Text.inspected name, schema.inspected] :: Step.inspectedFields tail

def Detail.inspected : Detail → String
  | .found value => construction "Found" [("value", value.inspected)]
  | .expected values => construction "Expected" [("values", values.inspected)]
  | .unexpected values => construction "Unexpected" [("values", values.inspected)]
  | .caught exception => construction "Caught" [("error", exception.inspected)]
  | .errors issues => inBrackets (Issue.inspectedAll issues)

def Detail.inspectedOption : Option Detail → String
  | none => "None"
  | some detail => detail.inspected

def Issue.inspectedAll : List Issue → List String
  | [] => []
  | ⟨path, message, detail⟩ :: tail =>
      construction "ValidationError"
        [("path", inParentheses (path.map Segment.inspected)),
          ("message", Text.inspected message),
          ("details", Detail.inspectedOption detail)] :: Issue.inspectedAll tail

end

/-- The name that a value's type goes by in messages. -/
def Step.typeName : Step → String
  | .predicate .. => "PredicateStep"
  | .optional .. => "OptionalStep"
  | .enum _ => "EnumStep"
  | .object _ => "ObjectStep"
  | .indexed _ => "IndexedStep"
  | .oneOf _ => "OneOfStep"

/-- A text stands for itself; anything else is inspected. -/
def Value.plain : Value → String
  | .str text => text
  | value => value.inspected

end SchemaCheck
