import SchemaCheck.Compile

/-!
A run of work under printing limits. A context sets the limit on how long a printed value may be,
and puts back the one before when it is left; contexts are opened and left one inside the other.
Issues that were collected are worded whenever they are rendered; defects and failures keep the
words they were built with.
-/

namespace SchemaCheck

/-- A context asked for a limit below zero. -/
structure NegativeLimit where
  limit : Int

def NegativeLimit.message (refusal : NegativeLimit) : String :=
  "max_length must be non-negative, got " ++ toString refusal.limit

/-- The limit that a context sets, which may be none. -/
def requestedLimit : Option Int → Except NegativeLimit (Option Nat)
  | none => .ok none
  | some limit => if limit < 0 then .error ⟨limit⟩ else .ok (some limit.toNat)

inductive Collected
  | issue (issue : Issue)
  | worded (text : String)

def Collected.report (limit : Option Nat) : Collected → String
  | issue found => found.report limit
  | worded text => text

/-- The limit in force, the limits that the open contexts put back, innermost first, and what was
collected, oldest first. -/
structure Session where
  limit : Option Nat
  limits : List (Option Nat)
  collected : List Collected

inductive Event
  | enter (limit : Option Int)
  | leave
  | leaveByException
  | print (value : Value)
  | check (schema : Schema) (value : Value)
  | compile (schema : Schema)
  | unwrap (schema : Schema) (value : Value)
  | render

inductive Answer
  | limit (limit : Option Nat)
  | text (text : String)
  | texts (texts : List String)
  | refused (refusal : NegativeLimit)
  | malformed (defect : Defect)

namespace Session

def start : Session := ⟨none, [], []⟩

/-- The innermost open context puts back the limit it found. -/
def leaveContext (session : Session) : Session :=
  match session.limits with
  | [] => session
  | before :: outer => { session with limit := before, limits := outer }

def collect (session : Session) (more : List Collected) : Session :=
  { session with collected := session.collected ++ more }

def currentLimit (session : Session) : Session × Answer :=
  (session, .limit session.limit)

def enter (session : Session) (requested : Option Int) : Session × Answer :=
  match requestedLimit requested with
  | .ok limit =>
      currentLimit { session with limit := limit, limits := session.limit :: session.limits }
  | .error refusal => (session, .refused refusal)

def check (calls : Calls) (session : Session) (schema : Schema) (value : Value) :
    Session × Answer :=
  match SchemaCheck.compile calls schema [] with
  | .error defect => (session, .malformed defect)
  | .ok check => currentLimit (session.collect ((check value).issues.map .issue))

def compile (calls : Calls) (session : Session) (schema : Schema) : Session × Answer :=
  match SchemaCheck.compile calls schema [] with
  | .error defect => currentLimit (session.collect [.worded (defect.report session.limit)])
  | .ok _ => currentLimit session

def unwrap (calls : Calls) (session : Session) (schema : Schema) (value : Value) :
    Session × Answer :=
  match SchemaCheck.compile calls schema [] with
  | .error defect => (session, .malformed defect)
  | .ok check =>
      match check value with
      | .error issues =>
          currentLimit (session.collect [.worded (failureReport session.limit issues)])
      | .ok _ => currentLimit session

/-- What one event does. What a callable says may itself depend on the limit in force. -/
def step (calls : Option Nat → Calls) (session : Session) : Event → Session × Answer
  | .enter requested => session.enter requested
  | .leave => currentLimit session.leaveContext
  | .leaveByException => currentLimit session.leaveContext
  | .print value => (session, .text (value.printed session.limit))
  | .check schema value => check (calls session.limit) session schema value
  | .compile schema => compile (calls session.limit) session schema
  | .unwrap schema value => unwrap (calls session.limit) session schema value
  | .render => (session, .texts (session.collected.map (Collected.report session.limit)))

/-- The session that a run of events leads to. -/
def after (calls : Option Nat → Calls) (session : Session) (events : List Event) : Session :=
  events.foldl (fun session event => (session.step calls event).1) session

end Session

end SchemaCheck
