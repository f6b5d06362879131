import SchemaCheck.Fault
import SchemaCheck.Runs
import SchemaCheck.Value.Literal

/-!
Chains of steps before they are compiled: what kind each step is of, how nested chains are spliced
in, how neighbouring objects and neighbouring enums become one step, and which neighbours clash.
-/

namespace SchemaCheck

def Step.kind : Step → Kind
  | predicate .. => .predicate
  | optional .. => .optional
  | enum _ => .enum
  | object _ => .object
  | indexed _ => .indexed
  | oneOf _ => .oneOf

namespace Schema

/-- The kind of a step, if it is one. -/
def kind : Schema → Except Fault Kind
  | .str name =>
      match BasicKind.ofName? name with
      | some kind => .ok (.basic kind)
      | none => .error (.unknownBasic name)
  | .step step => .ok step.kind
  | .function _ => .ok .function
  | schema => .error (.unclassified schema)

def refinement? : Schema → Option BasicKind
  | .str name => (BasicKind.ofName? name).filter (·.narrows)
  | _ => none

/-- Whether the outermost step is an optional one. -/
def mayBeAbsent : Schema → Bool
  | .list (first :: _) => mayBeAbsent first
  | .step (.optional ..) => true
  | _ => false

/-- The steps of a chain with the chains inside it spliced in, one level deep; any other schema
is a chain of one step. -/
def steps : Schema → List Schema
  | .list schemas => schemas.flatMap splice
  | schema => [schema]
where
  splice : Schema → List Schema
    | .list schemas => schemas
    | schema => [schema]

def objectFields : Schema → List (String × Schema)
  | .step (.object fields) => fields
  | _ => []

def enumOptions : Schema → Value
  | .step (.enum options) => options
  | _ => .null

end Schema

/-- The options of an enum, which are a list or tuple of literals. -/
def literalOptions (options : Value) : Except Fault (List Value) :=
  match options.items? with
  | none => .error (.optionsNotList options)
  | some items =>
      let others := items.filter fun item => !item.isLiteral
      if others.isEmpty then .ok items else .error (.optionsNotLiteral others)

namespace Chain

def classify : List Schema → Except Fault (List (Kind × Schema))
  | [] => .ok []
  | step :: rest => do
      let kind ← step.kind
      let classified ← classify rest
      return (kind, step) :: classified

def allOptions : List Schema → Except Fault (List Value)
  | [] => .ok []
  | step :: rest => do
      let options ← literalOptions step.enumOptions
      let more ← allOptions rest
      return options ++ more

/-- A run of several objects becomes one object with all their fields, and a run of several enums
one enum with all their options; repetitions are kept. -/
def mergeRun (run : List (Kind × Schema)) : Except Fault (List Schema) :=
  let steps := run.map (·.2)
  match run with
  | (.object, _) :: _ :: _ => .ok [.step (.object (steps.flatMap Schema.objectFields))]
  | (.enum, _) :: _ :: _ => do
      let options ← allOptions steps
      return [.step (.enum (.list options))]
  | _ => .ok steps

def mergeRuns : List (List (Kind × Schema)) → Except Fault (List Schema)
  | [] => .ok []
  | run :: rest => do
      let steps ← mergeRun run
      let merged ← mergeRuns rest
      return steps ++ merged

def sameKind (left right : Kind × Schema) : Bool :=
  left.1 == right.1

def merge (steps : List Schema) : Except Fault (List Schema) := do
  let classified ← classify steps
  mergeRuns (runs sameKind classified)

/-- The first two neighbours of which the later may not follow the earlier. -/
def clash? : List Kind → Option (Kind × Kind)
  | earlier :: later :: rest =>
      if earlier.admits later then clash? (later :: rest) else some (earlier, later)
  | _ => none

def checkNeighbours (steps : List Schema) : Except Fault Unit := do
  let classified ← classify steps
  match clash? (classified.map (·.1)) with
  | some (earlier, later) => .error (.cannotFollow earlier later)
  | none => .ok ()

def checkOpening (step : Schema) : Except Fault Unit :=
  match step.refinement? with
  | some kind => .error (.opensWithRefinement kind)
  | none => .ok ()

/-- The steps to compile, one after the other. A single step is left as it is. -/
def arrange (steps : List Schema) : Except Fault (List Schema) :=
  match steps with
  | [] => .error .emptyChain
  | [step] => do
      checkOpening step
      return [step]
  | first :: _ => do
      checkOpening first
      let merged ← merge steps
      checkNeighbours merged
      return merged

end Chain

end SchemaCheck
