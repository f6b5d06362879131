/-!
Cutting a text to a length.
-/

namespace SchemaCheck.Text

/-- At most `limit` characters, with three dots for what was cut off. -/
def cut (limit : Option Nat) (text : String) : String :=
  match limit with
  | none => text
  | some length =>
      if text.length ≤ length then text else String.ofList (text.toList.take length) ++ "..."

@[simp] theorem cut_none (text : String) : cut none text = text := rfl

theorem cut_of_length_le {length : Nat} {text : String} (short : text.length ≤ length) :
    cut (some length) text = text := by
  simp only [cut, short, ite_true]

end SchemaCheck.Text
