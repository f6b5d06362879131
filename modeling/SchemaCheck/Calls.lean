import SchemaCheck.Outcome

/-!
What happens when a callable is called: it returns a value, or an outcome, or it raises. The
meaning of all callables is a parameter, and calling has no other effect.
-/

namespace SchemaCheck

inductive Reply
  | value (value : Value)
  | outcome (outcome : Outcome Value)
  | raised (exception : Raised)

abbrev Calls := Callable → Value → Reply

abbrev Check := Value → Outcome Value

end SchemaCheck
