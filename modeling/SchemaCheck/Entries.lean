/-!
Association lists that remember the order in which their keys first came.
-/

namespace SchemaCheck.Entries

variable {κ ν : Type}

/-- A key keeps its first position and takes the latest value. -/
def put (same : κ → κ → Bool) (key : κ) (value : ν) : List (κ × ν) → List (κ × ν)
  | [] => [(key, value)]
  | (present, old) :: rest =>
      if same present key then (present, value) :: rest
      else (present, old) :: put same key value rest

def ofPairs (same : κ → κ → Bool) (pairs : List (κ × ν)) : List (κ × ν) :=
  pairs.foldl (fun entries pair => put same pair.1 pair.2 entries) []

/-- Entries under names. -/
def ofNamed (pairs : List (String × ν)) : List (String × ν) :=
  ofPairs (fun left right => left == right) pairs

end SchemaCheck.Entries
