import SchemaCheck.Model.Basic

/-!
The shapes made lately. While a model is described, a literal or a union that is asked for again,
with parts that are the same as before, is the one that was made before, spelled as it was then.
Only those asked for last are kept, and every model takes up some of the room itself.
-/

namespace SchemaCheck

/-- What a shape is asked for by. -/
inductive Wanted
  | literal (options : List Value)
  | union (parts : List Shape)
  | orNull (shape : Shape)
  | ofModels (position : Nat)

def sameOptions : List Value → List Value → Bool
  | [], [] => true
  | left :: lefts, right :: rights => left.equalsTyped right && sameOptions lefts rights
  | _, _ => false

def Wanted.same : Wanted → Wanted → Bool
  | literal left, literal right => sameOptions left right
  | union left, union right => Shape.sameAll left right
  | orNull left, orNull right => left.same right
  | ofModels left, ofModels right => left == right
  | _, _ => false

/-- Each shape beside what it was asked for by, the latest first. -/
abbrev Kept := List (Wanted × Shape)

namespace Kept

def capacity : Nat := 128

/-- The shape kept under a key, which becomes the latest. -/
def reuse (key : Wanted) (kept : Kept) : Option (Shape × Kept) :=
  match kept.find? fun entry => entry.1.same key with
  | some entry => some (entry.2, entry :: kept.eraseP fun entry => entry.1.same key)
  | none => none

def add (key : Wanted) (shape : Shape) (kept : Kept) : Kept :=
  ((key, shape) :: kept).take capacity

/-- The shape kept under a key, or else a new one, which is kept from then on. -/
def ask (key : Wanted) (new : Shape) (kept : Kept) : Shape × Kept :=
  match kept.reuse key with
  | some found => found
  | none => (new, kept.add key new)

/-- What the maker of a model asks for, so many of them, always the same. -/
def askForModel (count : Nat) (kept : Kept) : Kept :=
  (List.range count).foldl (fun kept position => (kept.ask (.ofModels position) .any).2) kept

end Kept

/-- The literals and the unions kept, and how many serial numbers were given out. -/
structure Shared where
  literals : Kept
  unions : Kept
  serials : Nat

namespace Shared

def start : Shared := ⟨[], [], 0⟩

def literal (options : List Value) (shared : Shared) : Shape × Shared :=
  let (shape, literals) :=
    shared.literals.ask (.literal options) (.literalOf shared.serials options)
  (shape, ⟨literals, shared.unions, shared.serials + 1⟩)

def union (parts : List Shape) (shared : Shared) : Shape × Shared :=
  let (shape, unions) := shared.unions.ask (.union parts) (.unionOf parts)
  (shape, { shared with unions := unions })

/-- The union with null, which is kept under the shape as well as under both its parts. -/
def orNull (shape : Shape) (shared : Shared) : Shape × Shared :=
  match shared.unions.reuse (.orNull shape) with
  | some (made, unions) => (made, { shared with unions := unions })
  | none =>
      let (made, after) := shared.union [shape, .null]
      (made, { after with unions := after.unions.add (.orNull shape) made })

def model (maker : Maker) (name : String) (fields : List Field) (shared : Shared) :
    Model × Shared :=
  (⟨shared.serials, name, fields⟩,
    ⟨shared.literals.askForModel maker.literals, shared.unions.askForModel maker.unions,
      shared.serials + 1⟩)

end Shared

end SchemaCheck
