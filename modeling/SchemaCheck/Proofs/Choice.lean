import SchemaCheck.Proofs.Decomposition
import SchemaCheck.Proofs.WellFormed

/-!
Ordered choice. A choice answers what the first of its branches that accepts answers, and else lists
what all branches found, in order. So a choice among the branches of another may be replaced by its
own branches: that changes nothing but the positions by which issues name the branches.
-/

namespace SchemaCheck

namespace Outcome

variable {α : Type} {front back : List (Outcome α)}

theorem first_append_congr (same : first front = first back) (earlier : List (Outcome α)) :
    first (earlier ++ front) = first (earlier ++ back) := by
  induction earlier with
  | nil => exact same
  | cons outcome rest ih =>
      cases outcome with
      | ok value => rfl
      | error issues =>
          rw [List.cons_append, List.cons_append, first_cons_of_error, first_cons_of_error, ih]

theorem first_cons_first (inner later : List (Outcome α)) :
    first (first inner :: later) = first (inner ++ later) := by
  induction inner with
  | nil =>
      rw [first, first_cons_of_error]
      cases h : first later <;> simp [h]
  | cons outcome rest ih =>
      cases outcome with
      | ok value => rfl
      | error issues =>
          rw [List.cons_append, first_cons_of_error, first_cons_of_error, ← ih]
          cases first rest with
          | ok value => rfl
          | error more =>
              rw [first_cons_of_error, first_cons_of_error]
              cases first later with
              | ok value => rfl
              | error last => simp

/-- A choice that is one of the outcomes gives way to its own outcomes. -/
theorem first_spliced (front inner back : List (Outcome α)) :
    first (front ++ first inner :: back) = first (front ++ (inner ++ back)) :=
  first_append_congr (first_cons_first inner back) front

theorem related_under {issues : Issue → Issue → Prop} {path other : Path}
    (moved : ∀ issue : Issue, issues (issue.under path) (issue.under other)) (outcome : Outcome α) :
    Related issues (· = ·) (outcome.under path) (outcome.under other) := by
  cases outcome with
  | ok value => exact .ok rfl
  | error found =>
      apply Related.error
      rw [List.forall₂_map_left_iff, List.forall₂_map_right_iff]
      exact List.forall₂_same.mpr fun issue _ => moved issue

end Outcome

namespace Check

def installed (place : Nat → Path) (roots : List Check) : List Check :=
  roots.mapIdx fun position root => root.under (place position)

theorem installed_append (place : Nat → Path) (front back : List Check) :
    installed place (front ++ back) =
      installed place front ++ installed (fun position => place (position + front.length)) back :=
  List.mapIdx_append

theorem installed_cons (place : Nat → Path) (root : Check) (rest : List Check) :
    installed place (root :: rest) =
      root.under (place 0) :: installed (fun position => place (position + 1)) rest :=
  List.mapIdx_cons

theorem map_under_installed (base : Path) (place : Nat → Path) (roots : List Check) :
    (installed place roots).map (under base) =
      installed (fun position => base ++ place position) roots := by
  induction roots generalizing place with
  | nil => rfl
  | cons root rest ih =>
      rw [installed_cons, installed_cons, List.map_cons, ih]
      congr 1
      funext value
      exact Outcome.under_under base (place 0) (root value)

theorem installed_related {issues : Issue → Issue → Prop} {place other : Nat → Path}
    (roots : List Check)
    (moved : ∀ position < roots.length, ∀ issue : Issue,
      issues (issue.under (place position)) (issue.under (other position))) (value : Value) :
    List.Forall₂ (Outcome.Related issues (· = ·)) ((installed place roots).map (· value))
      ((installed other roots).map (· value)) := by
  induction roots generalizing place other with
  | nil => exact .nil
  | cons root rest ih =>
      rw [installed_cons, installed_cons]
      refine .cons (Outcome.related_under (moved 0 (Nat.zero_lt_succ _)) (root value)) (ih ?_)
      intro position bound
      exact moved (position + 1) (Nat.succ_lt_succ bound)

end Check

/-- Two places that differ at most in the branch they open with, as places inside a choice do when
one of its branches, itself a choice of `width` branches, gives way to those. -/
inductive Path.Rerouted (path : Path) (position width : Nat) : Path → Path → Prop
  | before {index : Nat} (rest : Path) : index < position →
      Rerouted path position width (path.extended (branchSegment index) ++ rest)
        (path.extended (branchSegment index) ++ rest)
  | inside {index : Nat} (rest : Path) : index < width →
      Rerouted path position width
        ((path.extended (branchSegment position)).extended (branchSegment index) ++ rest)
        (path.extended (branchSegment (position + index)) ++ rest)
  | after (index : Nat) (rest : Path) :
      Rerouted path position width (path.extended (branchSegment (position + 1 + index)) ++ rest)
        (path.extended (branchSegment (position + width + index)) ++ rest)

/-- The same words and the same detail, at places that differ at most in the branch. -/
structure Issue.Rerouted (path : Path) (position width : Nat) (issue other : Issue) : Prop where
  message : issue.message = other.message
  detail : issue.detail = other.detail
  place : Path.Rerouted path position width issue.path other.path

namespace Check

theorem oneOf_eq_ok_iff {branches : List Check} {value output : Value} :
    oneOf branches value = .ok output ↔ ∃ front branch back, branches = front ++ branch :: back ∧
      (∀ earlier ∈ front, (earlier value).Rejects) ∧ branch value = .ok output := by
  rw [oneOf, Outcome.first_eq_ok_iff]
  constructor
  · intro found
    obtain ⟨_, _, shape, rejected⟩ := found
    obtain ⟨front, rest, rfl, rfl, cut⟩ := List.map_eq_append_iff.mp shape
    obtain ⟨branch, back, rfl, accepts, _⟩ := List.map_eq_cons_iff.mp cut
    exact ⟨front, branch, back, rfl, List.forall_mem_map.mp rejected, accepts⟩
  · intro found
    obtain ⟨front, branch, back, rfl, rejected, accepts⟩ := found
    refine ⟨front.map (· value), back.map (· value), ?_, List.forall_mem_map.mpr rejected⟩
    rw [List.map_append, List.map_cons, accepts]

theorem oneOf_eq_error_iff {branches : List Check} {value : Value} {issues : List Issue} :
    oneOf branches value = .error issues ↔
      (∀ branch ∈ branches, (branch value).Rejects) ∧
        issues = branches.flatMap fun branch => (branch value).issues := by
  rw [oneOf, Outcome.first_eq_error_iff, List.forall_mem_map, List.flatMap_map]

def choice (path : Path) (roots : List Check) : Check :=
  oneOf (installed (fun index => path.extended (branchSegment index)) roots)

theorem choice_under (base path : Path) (roots : List Check) :
    (choice path roots).under base = choice (base ++ path) roots := by
  rw [choice, choice, ← oneOf_under, map_under_installed]
  simp only [Path.extended, List.append_assoc]

theorem choice_spliced (path : Path) (front inner back : List Check) (value : Value) :
    Outcome.Related (Issue.Rerouted path front.length inner.length) (· = ·)
      (choice path (front ++ choice [] inner :: back) value)
        (choice path (front ++ (inner ++ back)) value) := by
  -- With the inner choice moved to its place first, splicing is a law of outcomes.
  have nested : (choice [] inner).under (path.extended (branchSegment (0 + front.length))) =
      choice (path.extended (branchSegment front.length)) inner := by
    rw [choice_under, List.append_nil, Nat.zero_add]
  simp only [choice, oneOf, installed_append, installed_cons, List.map_append,
    List.map_cons] at nested ⊢
  rw [nested, oneOf, Outcome.first_spliced]
  apply Outcome.Related.first
  refine List.rel_append (installed_related front ?_ value)
    (List.rel_append (installed_related inner ?_ value) (installed_related back ?_ value))
  · exact fun index bound issue => ⟨rfl, rfl, .before issue.path bound⟩
  · intro index bound issue
    rw [Nat.add_comm index]
    exact ⟨rfl, rfl, .inside issue.path bound⟩
  · intro index _ issue
    have earlier : index + 1 + front.length = front.length + 1 + index := by omega
    have later : index + inner.length + front.length = front.length + inner.length + index := by
      omega
    rw [earlier, later]
    exact ⟨rfl, rfl, .after index issue.path⟩

end Check

section Compiled

variable {calls : Calls} {path : Path}

theorem checksOfParts_of_roots {parts : List Schema} {roots : List Check}
    (matched : List.Forall₂ (fun part root => compile calls part [] = .ok root) parts roots)
    (segment : Nat → Segment) (position : Nat) (path : Path) :
    checksOfParts calls segment position parts path =
      .ok (Check.installed (fun index => path.extended (segment (index + position))) roots) := by
  induction matched generalizing position with
  | nil => rw [checksOfParts]; rfl
  | cons own _ ih =>
      have shifted : ∀ index, index + (position + 1) = index + 1 + position := by omega
      rw [checksOfParts, compile_from_root, own, ih, Check.installed_cons, Nat.zero_add]
      simp only [shifted]
      rfl

theorem compile_oneOf {branches : Value} {parts : List Schema} {roots : List Check}
    (listed : branches.items? = some parts) (nonempty : parts ≠ [])
    (matched : List.Forall₂ (fun part root => compile calls part [] = .ok root) parts roots) :
    compile calls (.step (.oneOf branches)) path = .ok (Check.choice path roots) := by
  obtain ⟨first, rest, rfl⟩ := List.exists_cons_of_ne_nil nonempty
  rw [compile_step, checkOfStep_oneOf calls path listed, checksOfParts_of_roots matched]
  rfl

theorem compile_oneOf_iff {branches : Value} {whole : Check} :
    compile calls (.step (.oneOf branches)) path = .ok whole ↔
      ∃ parts roots, branches.items? = some parts ∧ parts ≠ [] ∧
        List.Forall₂ (fun part root => compile calls part [] = .ok root) parts roots ∧
        whole = Check.choice path roots := by
  constructor
  · intro compiled
    obtain ⟨root, own, _⟩ := eq_under_of_compiled compiled
    rw [compile_step] at own
    obtain ⟨parts, listed, nonempty, compile⟩ := Schema.stepCompiles_oneOf.mp ⟨root, own⟩
    obtain ⟨roots, matched⟩ := exists_forall₂_iff.mpr compile
    rw [compile_oneOf listed nonempty matched] at compiled
    exact ⟨parts, roots, listed, nonempty, matched, (Except.ok.inj compiled).symm⟩
  · intro found
    obtain ⟨parts, roots, listed, nonempty, matched, rfl⟩ := found
    exact compile_oneOf listed nonempty matched

theorem compile_spliced {branches inner : Value} {front back : List Schema} {whole : Check}
    (compiled : compile calls (.step (.oneOf branches)) path = .ok whole)
    (nested : branches.items? = some (front ++ .step (.oneOf inner) :: back)) :
    ∃ members frontRoots innerRoots backRoots, inner.items? = some members ∧
      frontRoots.length = front.length ∧ innerRoots.length = members.length ∧
      whole = Check.choice path (frontRoots ++ Check.choice [] innerRoots :: backRoots) ∧
      ∀ spliced : Value, spliced.items? = some (front ++ (members ++ back)) →
        compile calls (.step (.oneOf spliced)) path =
          .ok (Check.choice path (frontRoots ++ (innerRoots ++ backRoots))) := by
  obtain ⟨parts, roots, listed, _, matched, _⟩ := compile_oneOf_iff.mp compiled
  rw [nested] at listed
  cases listed
  have compile := exists_forall₂_iff.mp ⟨roots, matched⟩
  rw [List.forall_mem_append, List.forall_mem_cons] at compile
  obtain ⟨compileFront, ⟨own, compileOwn⟩, compileBack⟩ := compile
  obtain ⟨frontRoots, matchedFront⟩ := exists_forall₂_iff.mpr compileFront
  obtain ⟨backRoots, matchedBack⟩ := exists_forall₂_iff.mpr compileBack
  obtain ⟨members, innerRoots, listedInner, several, matchedInner, rfl⟩ :=
    compile_oneOf_iff.mp compileOwn
  refine ⟨members, frontRoots, innerRoots, backRoots, listedInner, matchedFront.length_eq.symm,
    matchedInner.length_eq.symm, ?_, fun spliced shape => compile_oneOf shape ?_ ?_⟩
  · have all := List.rel_append matchedFront (.cons compileOwn matchedBack)
    rw [compile_oneOf nested
      (List.append_ne_nil_of_right_ne_nil _ (List.cons_ne_nil _ _)) all] at compiled
    exact (Except.ok.inj compiled).symm
  · exact List.append_ne_nil_of_right_ne_nil _ (List.append_ne_nil_of_left_ne_nil several _)
  · exact List.rel_append matchedFront (List.rel_append matchedInner matchedBack)

end Compiled

/-- A choice answers what the first branch that accepts answers, and if none does lists what all
found, in their order. If one of its branches is a choice itself, that branch may give way to its
own branches: what is accepted, and as what, stays, and so do the issues but for the branches they
name. -/
theorem choice_ordered_associative {calls : Calls} {path : Path} {branches : Value} {whole : Check}
    (compiled : compile calls (.step (.oneOf branches)) path = .ok whole) :
    (∃ parts checks, branches.items? = some parts ∧
      List.Forall₂ (fun part check =>
        compile calls part.1 (path.extended (branchSegment part.2)) = .ok check)
          parts.zipIdx checks ∧
      ∀ value,
        (∀ output, whole value = .ok output ↔ ∃ front check back, checks = front ++ check :: back ∧
          (∀ earlier ∈ front, (earlier value).Rejects) ∧ check value = .ok output) ∧
        ∀ issues, whole value = .error issues ↔
          (∀ check ∈ checks, (check value).Rejects) ∧
            issues = checks.flatMap fun check => (check value).issues) ∧
    ∀ front inner back, branches.items? = some (front ++ .step (.oneOf inner) :: back) →
      ∃ members : List Schema, inner.items? = some members ∧
        ∀ spliced : Value, spliced.items? = some (front ++ (members ++ back)) →
          ∃ other, compile calls (.step (.oneOf spliced)) path = .ok other ∧
            ∀ value, Outcome.Related (Issue.Rerouted path front.length members.length) (· = ·)
              (whole value) (other value) := by
  constructor
  · obtain ⟨parts, roots, listed, _, matched, rfl⟩ := compile_oneOf_iff.mp compiled
    have installed := checksOfParts_of_roots matched branchSegment 0 path
    exact ⟨parts, _, listed, checksOfParts_eq_ok.mp installed,
      fun value => ⟨fun _ => Check.oneOf_eq_ok_iff, fun _ => Check.oneOf_eq_error_iff⟩⟩
  · intro front inner back nested
    obtain ⟨members, frontRoots, innerRoots, backRoots, listed, sameFront, sameInner,
      rfl, compiles⟩ :=
      compile_spliced compiled nested
    refine ⟨members, listed, fun spliced shape => ⟨_, compiles spliced shape, fun value => ?_⟩⟩
    rw [← sameFront, ← sameInner]
    exact Check.choice_spliced path frontRoots innerRoots backRoots value

def nestedChoice : Schema :=
  .step (.oneOf (.list
    [.str "string", .step (.oneOf (.tuple [.str "number", .str "boolean"])), .str "array"]))

theorem nestedChoice_flattened :
    ∃ whole flat,
      compile (fun _ value => .value value) nestedChoice [] = .ok whole ∧
      compile (fun _ value => .value value)
        (.step (.oneOf (.list [.str "string", .str "number", .str "boolean", .str "array"]))) [] =
          .ok flat ∧
      whole (.bool true) = .ok (.bool true) ∧
      whole .null = .error [⟨[.name "Branch 0"], "Not a string", none⟩,
        ⟨[.name "Branch 1", .name "Branch 0"], "Not a number", none⟩,
        ⟨[.name "Branch 1", .name "Branch 1"], "Not a boolean", none⟩,
        ⟨[.name "Branch 2"], "Not an array", none⟩] ∧
      ∀ value, Outcome.Related (Issue.Rerouted [] 1 2) (· = ·) (whole value) (flat value) := by
  have answers : (compile (fun _ value => .value value) nestedChoice []).map
      (fun whole => (whole (.bool true), whole .null)) =
        .ok (.ok (.bool true), .error [⟨[.name "Branch 0"], "Not a string", none⟩,
          ⟨[.name "Branch 1", .name "Branch 0"], "Not a number", none⟩,
          ⟨[.name "Branch 1", .name "Branch 1"], "Not a boolean", none⟩,
          ⟨[.name "Branch 2"], "Not an array", none⟩]) := by
    cbv
  obtain ⟨whole, compiled, same⟩ := map_eq_ok.mp answers
  obtain ⟨accepted, rejected⟩ := Prod.mk.inj same
  obtain ⟨_, splices⟩ := choice_ordered_associative compiled
  obtain ⟨members, listed, spliced⟩ := splices [.str "string"] _ [.str "array"] rfl
  cases listed
  obtain ⟨flat, compiledFlat, alike⟩ :=
    spliced (.list [.str "string", .str "number", .str "boolean", .str "array"]) rfl
  exact ⟨whole, flat, compiled, compiledFlat, accepted, rejected, alike⟩

end SchemaCheck
