/-!
Where a value stands inside a nested one: the names and indices on the way to it, outermost first.
-/

namespace SchemaCheck

inductive Segment
  | name (text : String)
  | index (n : Int)
deriving DecidableEq, Repr

abbrev Path := List Segment

def Segment.text : Segment → String
  | name text => text
  | index n => toString n

namespace Path

def extended (path : Path) (segment : Segment) : Path :=
  path ++ [segment]

/-- The opening of a message about this place; nothing for the root. -/
def printed : Path → String
  | [] => ""
  | segment :: rest => "At `" ++ segment.text ++ "`: " ++ printed rest

theorem printed_append (left right : Path) :
    printed (left ++ right) = printed left ++ printed right := by
  induction left with
  | nil => exact (String.empty_append).symm
  | cons segment rest ih => simp only [List.cons_append, printed, ih, String.append_assoc]

/-- The ways to write a path down: nothing for the root, names with dots between them, a single
index, or the segments themselves. -/
inductive Shorthand
  | root
  | dotted (text : String)
  | index (n : Int)
  | segments (path : Path)
deriving DecidableEq, Repr

/-- The parts of a text between its dots, of which there is one more than there are dots. -/
def betweenDots : List Char → List (List Char)
  | [] => [[]]
  | c :: rest =>
      match betweenDots rest with
      | [] => [[c]]
      | part :: parts => if c = '.' then [] :: part :: parts else (c :: part) :: parts

theorem betweenDots_length (text : List Char) :
    (betweenDots text).length = text.count '.' + 1 := by
  induction text with
  | nil => rfl
  | cons c rest ih =>
      cases parts : betweenDots rest with
      | nil => simp [parts] at ih
      | cons part parts =>
          by_cases dot : c = '.'
          · simp_all [betweenDots]
          · simp_all [betweenDots]

def Shorthand.path : Shorthand → Path
  | root => []
  | dotted text => (betweenDots text.toList).map fun part => .name (String.ofList part)
  | index n => [.index n]
  | segments path => path

end Path

end SchemaCheck
