import SchemaCheck.Proofs.Parts

/-!
Laws of outcomes. Seeing an outcome from further out commutes with everything that combines
outcomes. The first acceptance is found wherever there is one, and collecting accepts exactly when
every outcome does; else both list all issues.
-/

namespace SchemaCheck.Outcome

variable {α β : Type}

theorem map_under (base : Path) (outcome : Outcome α) (change : α → β) :
    (outcome.under base).map change = Outcome.under base (outcome.map change) := by
  cases outcome <;> rfl

theorem bind_under (base : Path) (outcome : Outcome α) (next : α → Outcome β) :
    (outcome.under base >>= fun value => (next value).under base) =
      Outcome.under base (outcome >>= next) := by
  cases outcome <;> rfl

theorem issues_map (outcome : Outcome α) (change : α → β) :
    issues (outcome.map change) = outcome.issues := by
  cases outcome <;> rfl

theorem issues_under (base : Path) (outcome : Outcome α) :
    (outcome.under base).issues = outcome.issues.map (Issue.under base) := by
  cases outcome <;> rfl

theorem collect_under (base : Path) (outcomes : List (Outcome α)) :
    collect (outcomes.map (under base)) = (collect outcomes).under base := by
  induction outcomes with
  | nil => rfl
  | cons outcome rest ih =>
      cases outcome with
      | ok value =>
          rw [List.map_cons, under_ok, collect, collect, ih]
          cases collect rest <;> rfl
      | error issues =>
          rw [List.map_cons, under_error, collect, collect, ih]
          cases collect rest with
          | ok values => rfl
          | error more => simp only [under_error, List.map_append]

theorem first_under (base : Path) (outcomes : List (Outcome α)) :
    first (outcomes.map (under base)) = (first outcomes).under base := by
  induction outcomes with
  | nil => rfl
  | cons outcome rest ih =>
      cases outcome with
      | ok value => rfl
      | error issues =>
          rw [List.map_cons, under_error, first, first, ih]
          cases first rest with
          | ok value => rfl
          | error more => simp only [under_error, List.map_append]

section Choosing

variable {outcomes : List (Outcome α)}

def Rejects (outcome : Outcome α) : Prop :=
  ∃ issues, outcome = .error issues

theorem first_cons_of_error (issues : List Issue) (outcomes : List (Outcome α)) :
    first (.error issues :: outcomes) =
      match first outcomes with
      | .ok value => .ok value
      | .error more => .error (issues ++ more) := rfl

theorem first_eq_ok_iff {value : α} :
    first outcomes = .ok value ↔
      ∃ front back, outcomes = front ++ .ok value :: back ∧ ∀ outcome ∈ front, outcome.Rejects := by
  induction outcomes with
  | nil => simp [first]
  | cons outcome rest ih =>
      cases outcome with
      | ok own =>
          constructor
          · intro accepted
            cases accepted
            exact ⟨[], rest, rfl, List.forall_mem_nil _⟩
          · intro found
            obtain ⟨front, back, shape, rejected⟩ := found
            obtain ⟨_, same⟩ | ⟨later, rfl, _⟩ := List.cons_eq_append_iff.mp shape
            · cases same
              rfl
            · obtain ⟨_, impossible⟩ := rejected _ List.mem_cons_self
              cases impossible
      | error issues =>
          have later : first (.error issues :: rest) = .ok value ↔ first rest = .ok value := by
            rw [first_cons_of_error]
            cases first rest <;> simp
          rw [later, ih]
          constructor
          · intro found
            obtain ⟨front, back, rfl, rejected⟩ := found
            exact ⟨.error issues :: front, back, rfl,
              List.forall_mem_cons.mpr ⟨⟨issues, rfl⟩, rejected⟩⟩
          · intro found
            obtain ⟨front, back, shape, rejected⟩ := found
            obtain ⟨_, impossible⟩ | ⟨others, rfl, rfl⟩ := List.cons_eq_append_iff.mp shape
            · cases impossible
            · exact ⟨others, back, rfl, (List.forall_mem_cons.mp rejected).2⟩

theorem first_eq_error_iff {issues : List Issue} :
    first outcomes = .error issues ↔
      (∀ outcome ∈ outcomes, outcome.Rejects) ∧ issues = outcomes.flatMap Outcome.issues := by
  induction outcomes generalizing issues with
  | nil => simp [first, eq_comm]
  | cons outcome rest ih =>
      cases outcome with
      | ok own => simp [first, Rejects]
      | error found =>
          rw [first_cons_of_error, List.forall_mem_cons, List.flatMap_cons]
          cases later : first rest with
          | ok value =>
              constructor
              · intro impossible
                cases impossible
              · intro rejected
                have all := ih.mpr ⟨rejected.1.2, rfl⟩
                rw [later] at all
                cases all
          | error more =>
              obtain ⟨all, rfl⟩ := ih.mp later
              constructor
              · intro same
                cases same
                exact ⟨⟨⟨found, rfl⟩, all⟩, rfl⟩
              · intro rejected
                rw [rejected.2]
                rfl

theorem mem_of_first_eq_ok {value : α} (accepted : first outcomes = .ok value) :
    .ok value ∈ outcomes := by
  obtain ⟨front, back, rfl, _⟩ := first_eq_ok_iff.mp accepted
  exact List.mem_append_right front List.mem_cons_self

theorem mem_issues_first {issue : Issue} (member : issue ∈ (first outcomes).issues) :
    ∃ outcome ∈ outcomes, issue ∈ outcome.issues := by
  cases chosen : first outcomes with
  | ok value =>
      rw [chosen] at member
      cases member
  | error issues =>
      obtain ⟨_, rfl⟩ := first_eq_error_iff.mp chosen
      rw [chosen] at member
      exact List.mem_flatMap.mp member

end Choosing

theorem under_eq_ok {base : Path} {outcome : Outcome α} {value : α} :
    outcome.under base = .ok value ↔ outcome = .ok value := by
  cases outcome <;> simp

/-- Both accept, with related values, or both reject, with issues that are related one by one. -/
inductive Related {α β : Type} (issues : Issue → Issue → Prop) (values : α → β → Prop) :
    Outcome α → Outcome β → Prop
  | ok {left : α} {right : β} : values left right → Related issues values (.ok left) (.ok right)
  | error {lefts rights : List Issue} :
      List.Forall₂ issues lefts rights → Related issues values (.error lefts) (.error rights)

theorem Related.first {α β : Type} {issues : Issue → Issue → Prop} {values : α → β → Prop}
    {lefts : List (Outcome α)} {rights : List (Outcome β)}
    (each : List.Forall₂ (Related issues values) lefts rights) :
    Related issues values (Outcome.first lefts) (Outcome.first rights) := by
  induction each with
  | nil => exact .error .nil
  | @cons _ _ lefts rights head _ ih =>
      generalize found : Outcome.first lefts = left, others : Outcome.first rights = right at ih
      cases head with
      | ok same => exact .ok same
      | error own =>
          rw [Outcome.first, Outcome.first, found, others]
          cases ih with
          | ok later => exact .ok later
          | error more => exact .error (List.rel_append own more)

section Collecting

theorem collect_eq_ok {outcomes : List (Outcome α)} {values : List α} :
    collect outcomes = .ok values ↔ outcomes = values.map .ok := by
  induction outcomes generalizing values with
  | nil =>
      rw [collect, Except.ok.injEq, eq_comm, @eq_comm _ [], List.map_eq_nil_iff]
  | cons outcome rest ih =>
      rw [@eq_comm _ (outcome :: rest), List.map_eq_cons_iff]
      simp only [@eq_comm _ (List.map _ _) rest, ← ih]
      cases outcome with
      | error issues =>
          rw [collect]
          cases collect rest <;> simp
      | ok value =>
          rw [collect]
          cases collect rest with
          | error issues => simp
          | ok others =>
              simp only [Except.ok.injEq]
              constructor
              · intro same
                exact ⟨value, others, same.symm, rfl, rfl⟩
              · intro split
                obtain ⟨_, _, rfl, rfl, rfl⟩ := split
                rfl

theorem exists_collect_iff {outcomes : List (Outcome α)} :
    (∃ values, collect outcomes = .ok values) ↔
      ∀ outcome ∈ outcomes, ∃ value, outcome = .ok value := by
  simp only [collect_eq_ok]
  constructor
  · intro accepted outcome member
    obtain ⟨values, rfl⟩ := accepted
    obtain ⟨value, _, rfl⟩ := List.mem_map.mp member
    exact ⟨value, rfl⟩
  · intro each
    induction outcomes with
    | nil => exact ⟨[], rfl⟩
    | cons outcome rest ih =>
        obtain ⟨value, rfl⟩ := each outcome List.mem_cons_self
        obtain ⟨values, rfl⟩ := ih fun later member => each later (List.mem_cons_of_mem _ member)
        exact ⟨value :: values, rfl⟩

/-- Nothing that any outcome has to say is lost. -/
theorem issues_collect (outcomes : List (Outcome α)) :
    (collect outcomes).issues = outcomes.flatMap issues := by
  induction outcomes with
  | nil => rfl
  | cons outcome rest ih =>
      rw [List.flatMap_cons, ← ih]
      cases outcome with
      | ok value =>
          rw [collect]
          cases collect rest <;> rfl
      | error found =>
          rw [collect]
          cases collect rest with
          | ok values => exact (List.append_nil found).symm
          | error more => rfl

theorem collect_of_rejected {outcomes : List (Outcome α)} {found : List Issue}
    (rejected : .error found ∈ outcomes) :
    collect outcomes = .error (outcomes.flatMap issues) := by
  rw [← issues_collect]
  cases collected : collect outcomes with
  | error more => rfl
  | ok values =>
      rw [collect_eq_ok.mp collected] at rejected
      obtain ⟨value, _, same⟩ := List.mem_map.mp rejected
      cases same

/-- One rejection is enough, and one without issues is a rejection too. -/
theorem collect_eq_error_iff {outcomes : List (Outcome α)} {found : List Issue} :
    collect outcomes = .error found ↔
      (∃ outcome ∈ outcomes, outcome.Rejects) ∧ found = outcomes.flatMap issues := by
  constructor
  · intro rejected
    have listed := issues_collect outcomes
    rw [rejected] at listed
    refine ⟨?_, listed⟩
    by_contra none
    have each : ∀ outcome ∈ outcomes, ∃ value, outcome = .ok value := by
      intro outcome member
      cases outcome with
      | ok value => exact ⟨value, rfl⟩
      | error own => exact absurd ⟨.error own, member, own, rfl⟩ none
    obtain ⟨values, accepted⟩ := exists_collect_iff.mpr each
    simp [accepted] at rejected
  · intro stated
    obtain ⟨⟨_, member, own, rfl⟩, rfl⟩ := stated
    exact collect_of_rejected member

theorem collect_map (change : α → β) (outcomes : List (Outcome α)) :
    collect (outcomes.map fun outcome => outcome.map change) =
      (collect outcomes).map (List.map change) := by
  induction outcomes with
  | nil => rfl
  | cons outcome rest ih =>
      cases outcome with
      | ok value =>
          rw [List.map_cons, Except.map, collect, collect, ih]
          cases collect rest <;> rfl
      | error found =>
          rw [List.map_cons, Except.map, collect, collect, ih]
          cases collect rest <;> rfl

theorem collect_append (front back : List (Outcome α)) :
    collect (front ++ back) =
      (collect [collect front, collect back]).map List.flatten := by
  induction front with
  | nil =>
      cases collected : collect back <;> simp [collect, collected, Except.map]
  | cons outcome rest ih =>
      rw [List.cons_append]
      cases outcome <;>
        · rw [collect, collect, ih]
          cases collect rest <;> cases collect back <;> simp [collect, Except.map]

/-- Outcomes may be collected in groups first. -/
theorem collect_flatten (groups : List (List (Outcome α))) :
    collect groups.flatten = (collect (groups.map collect)).map List.flatten := by
  induction groups with
  | nil => rfl
  | cons group rest ih =>
      rw [List.flatten_cons, collect_append, ih, List.map_cons]
      cases collect group <;> cases collected : collect (rest.map collect) <;>
        simp [collect, collected, Except.map]

end Collecting

end SchemaCheck.Outcome
