import Mathlib.Data.List.Induction
import Mathlib.Data.List.Infix
import SchemaCheck.Session

/-!
The discipline of printing limits. A run opens contexts and leaves the innermost one, in whatever
way, so that what has been left is nested and what is still open is a stack; every context puts back
what it found, and so the limit in force is that of the innermost open one. Issues are worded under
the limit at the time they are rendered, defects and failures under the limit at the time they were
built.
-/

namespace SchemaCheck

namespace Event

/-- The limit of the context that an event opens, if it opens one: no limit, or one not below
zero. -/
def opens? : Event → Option (Option Nat)
  | enter none => some none
  | enter (some limit) => if 0 ≤ limit then some (some limit.toNat) else none
  | _ => none

def leaves : Event → Bool
  | leave => true
  | leaveByException => true
  | _ => false

def isOpening (event : Event) : Bool :=
  event.opens?.isSome

theorem opens_of_leaves {event : Event} (leaving : event.leaves = true) : event.opens? = none := by
  cases event <;> simp_all [leaves, opens?]

theorem leaves_of_opens {event : Event} {limit : Option Nat} (opening : event.opens? = some limit) :
    event.leaves = false := by
  cases event <;> simp_all [leaves, opens?]

end Event

/-- Runs that have left every context that they opened. -/
inductive Closed : List Event → Prop
  | nil : Closed []
  | quiet {event : Event} : event.opens? = none → event.leaves = false → Closed [event]
  | append {front back : List Event} : Closed front → Closed back → Closed (front ++ back)
  | context {opening exit : Event} {inside : List Event} {limit : Option Nat} :
      opening.opens? = some limit → Closed inside → exit.leaves = true →
      Closed (opening :: (inside ++ [exit]))

section Nesting

variable {events : List Event} {limits : List (Option Nat)}

theorem Closed.count (closed : Closed events) :
    events.countP Event.isOpening = events.countP Event.leaves := by
  induction closed with
  | nil => rfl
  | quiet silent stays => simp [Event.isOpening, silent, stays]
  | append _ _ front back => rw [List.countP_append, List.countP_append, front, back]
  | context opens _ leaves ih =>
      simp [Event.isOpening, opens, leaves, Event.leaves_of_opens opens,
        Event.opens_of_leaves leaves, ih]

end Nesting

namespace Session

variable {calls : Option Nat → Calls} {session : Session}

section Steps

variable {event : Event}

end Steps

variable (calls)

end Session

/-- What can be collected: an issue, what is wrong with a schema, or a failure that lists issues. -/
inductive Finding
  | issue (issue : Issue)
  | defect (defect : Defect)
  | failure (issues : List Issue)

/-- The text of what was built under one limit, as it is rendered under another. -/
def Finding.text (built rendered : Option Nat) : Finding → String
  | issue found => found.report rendered
  | defect found => found.report built
  | failure issues => failureReport built issues

namespace Session

variable {calls : Option Nat → Calls}

def texts (session : Session) (limit : Option Nat) : List String :=
  session.collected.map (Collected.report limit)

end Session

end SchemaCheck
