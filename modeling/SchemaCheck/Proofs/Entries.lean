import Mathlib.Data.List.Forall2
import Mathlib.Data.List.Induction
import Mathlib.Data.List.Nodup
import SchemaCheck.Entries

/-!
Laws of entries under keys. Taking over other entries one by one gives the same whether those were
put together before or come as they are, and of the pairs under one key the last remains.
-/

namespace SchemaCheck.Entries

variable {κ ν : Type} (same : κ → κ → Bool)

/-- The entries on the left after taking over those on the right, in order. -/
def updated (left right : List (κ × ν)) : List (κ × ν) :=
  right.foldl (fun entries pair => put same pair.1 pair.2 entries) left

theorem ofPairs_eq_updated (pairs : List (κ × ν)) : ofPairs same pairs = updated same [] pairs :=
  rfl

theorem updated_cons (left rest : List (κ × ν)) (pair : κ × ν) :
    updated same left (pair :: rest) = updated same (put same pair.1 pair.2 left) rest := rfl

theorem updated_append (left front back : List (κ × ν)) :
    updated same left (front ++ back) = updated same (updated same left front) back :=
  List.foldl_append

section Renamed

variable {μ : Type} {other : μ → μ → Bool} {rename : κ → μ}
  (agree : ∀ left right, other (rename left) (rename right) = same left right)

include agree

theorem put_renamed (key : κ) (value : ν) (entries : List (κ × ν)) :
    put other (rename key) value (entries.map (Prod.map rename id)) =
      (put same key value entries).map (Prod.map rename id) := by
  induction entries with
  | nil => rfl
  | cons entry rest ih =>
      obtain ⟨present, old⟩ := entry
      simp only [List.map_cons, Prod.map_apply, id_eq, put, agree]
      split
      · rfl
      · simp only [ih, List.map_cons, Prod.map_apply, id_eq]

theorem updated_renamed (left right : List (κ × ν)) :
    updated other (left.map (Prod.map rename id)) (right.map (Prod.map rename id)) =
      (updated same left right).map (Prod.map rename id) := by
  induction right generalizing left with
  | nil => rfl
  | cons pair rest ih =>
      rw [List.map_cons, updated_cons, updated_cons, ← ih, ← put_renamed same agree]
      rfl

end Renamed

section Lawful

variable {same} (lawful : ∀ left right, same left right = true ↔ left = right)

include lawful

theorem mem_keys_put {key other : κ} {value : ν} {entries : List (κ × ν)} :
    other ∈ (put same key value entries).map (·.1) ↔
      other = key ∨ other ∈ entries.map (·.1) := by
  induction entries with
  | nil => simp [put]
  | cons entry rest ih =>
      obtain ⟨present, old⟩ := entry
      rw [put]
      split
      · rename_i found
        have equal := (lawful present key).mp found
        simp [equal]
      · rw [List.map_cons, List.mem_cons, ih, List.map_cons, List.mem_cons]
        exact or_left_comm

theorem nodup_put {key : κ} {value : ν} {entries : List (κ × ν)}
    (distinct : (entries.map (·.1)).Nodup) : ((put same key value entries).map (·.1)).Nodup := by
  induction entries with
  | nil => simp [put]
  | cons entry rest ih =>
      obtain ⟨present, old⟩ := entry
      obtain ⟨absent, others⟩ := List.nodup_cons.mp distinct
      rw [put]
      split
      · exact distinct
      · rename_i different
        apply List.nodup_cons.mpr
        refine ⟨?_, ih others⟩
        intro member
        rcases (mem_keys_put lawful).mp member with equal | later
        · exact different ((lawful present key).mpr equal)
        · exact absent later

theorem nodup_updated {left : List (κ × ν)} (distinct : (left.map (·.1)).Nodup)
    (right : List (κ × ν)) : ((updated same left right).map (·.1)).Nodup := by
  induction right generalizing left with
  | nil => exact distinct
  | cons pair rest ih => exact ih (nodup_put lawful distinct)

theorem nodup_ofPairs (pairs : List (κ × ν)) : ((ofPairs same pairs).map (·.1)).Nodup := by
  have empty : (([] : List (κ × ν)).map (·.1)).Nodup := List.nodup_nil
  exact nodup_updated lawful empty pairs

theorem mem_put {key : κ} {value : ν} {entries : List (κ × ν)} {entry : κ × ν}
    (distinct : (entries.map (·.1)).Nodup) (member : entry ∈ put same key value entries) :
    entry = (key, value) ∨ entry.1 ≠ key ∧ entry ∈ entries := by
  induction entries with
  | nil => exact .inl (List.mem_singleton.mp member)
  | cons head rest ih =>
      obtain ⟨present, old⟩ := head
      obtain ⟨absent, others⟩ := List.nodup_cons.mp distinct
      rw [put] at member
      split at member
      · rename_i found
        have equal := (lawful present key).mp found
        subst equal
        rcases List.mem_cons.mp member with now | later
        · exact .inl now
        · refine .inr ⟨?_, List.mem_cons_of_mem _ later⟩
          intro clash
          have inside : entry.1 ∈ rest.map (·.1) := List.mem_map_of_mem later
          rw [clash] at inside
          exact absent inside
      · rename_i different
        rcases List.mem_cons.mp member with now | later
        · subst now
          refine .inr ⟨?_, List.mem_cons_self⟩
          intro clash
          exact different ((lawful present key).mpr clash)
        · rcases ih others later with new | kept
          · exact .inl new
          · exact .inr ⟨kept.1, List.mem_cons_of_mem _ kept.2⟩

/-- Of the pairs under one key the last remains. -/
theorem getLast_of_mem_ofPairs {pairs : List (κ × ν)} {entry : κ × ν}
    (member : entry ∈ ofPairs same pairs) :
    (pairs.filter fun pair => same pair.1 entry.1).getLast? = some entry := by
  induction pairs using List.reverseRecOn with
  | nil => cases member
  | append_singleton front pair ih =>
      rw [ofPairs_eq_updated, updated_append, ← ofPairs_eq_updated] at member
      rw [List.filter_append, List.filter_singleton]
      rcases mem_put lawful (nodup_ofPairs lawful front) member with new | kept
      · subst new
        have itself : same pair.1 pair.1 = true := (lawful pair.1 pair.1).mpr rfl
        rw [itself]
        exact List.getLast?_concat
      · have other : same pair.1 entry.1 = false := by
          rw [← Bool.not_eq_true]
          intro equal
          exact kept.1 ((lawful pair.1 entry.1).mp equal).symm
        rw [other]
        simpa using ih kept.2

theorem mem_of_mem_ofPairs {pairs : List (κ × ν)} {entry : κ × ν}
    (member : entry ∈ ofPairs same pairs) : entry ∈ pairs :=
  List.mem_of_mem_filter (List.mem_of_mem_getLast? (getLast_of_mem_ofPairs lawful member))

theorem mem_keys_ofPairs {pairs : List (κ × ν)} {key : κ} :
    key ∈ (ofPairs same pairs).map (·.1) ↔ key ∈ pairs.map (·.1) := by
  induction pairs using List.reverseRecOn with
  | nil => exact Iff.rfl
  | append_singleton front pair ih =>
      rw [ofPairs_eq_updated, updated_append, ← ofPairs_eq_updated, List.map_append,
        List.mem_append, ← ih]
      exact (mem_keys_put lawful).trans (or_comm.trans (or_congr_right List.mem_singleton.symm))

theorem put_of_absent {key : κ} {value : ν} {entries : List (κ × ν)}
    (absent : key ∉ entries.map (·.1)) :
      put same key value entries = entries ++ [(key, value)] := by
  induction entries with
  | nil => rfl
  | cons entry rest ih =>
      obtain ⟨present, old⟩ := entry
      obtain ⟨different, others⟩ := not_or.mp (List.mem_cons.not.mp absent)
      have notFound : same present key ≠ true :=
        fun found => different ((lawful present key).mp found).symm
      rw [put, if_neg notFound, ih others, List.cons_append]

theorem keys_put_of_present {key : κ} {value : ν} {entries : List (κ × ν)}
    (present : key ∈ entries.map (·.1)) :
      (put same key value entries).map (·.1) = entries.map (·.1) := by
  induction entries with
  | nil => cases present
  | cons entry rest ih =>
      obtain ⟨held, old⟩ := entry
      rw [put]
      split
      · rfl
      · rename_i different
        rcases List.mem_cons.mp present with equal | later
        · exact absurd ((lawful held key).mpr equal.symm) different
        · rw [List.map_cons, List.map_cons, ih later]

/-- The keys stand in the order in which they first come. -/
theorem keys_ofPairs [BEq κ] [LawfulBEq κ] (pairs : List (κ × ν)) :
    (ofPairs same pairs).map (·.1) = (pairs.map (·.1)).eraseDups := by
  induction pairs using List.reverseRecOn with
  | nil => rfl
  | append_singleton front pair ih =>
      rw [ofPairs_eq_updated, updated_append, ← ofPairs_eq_updated, List.map_append,
        List.eraseDups_append, ← ih]
      change (put same pair.1 pair.2 (ofPairs same front)).map (·.1) = _
      by_cases present : pair.1 ∈ front.map (·.1)
      · rw [keys_put_of_present lawful ((mem_keys_ofPairs lawful).mpr present)]
        simp [List.removeAll, List.mem_map.mp present]
      · rw [put_of_absent lawful ((mem_keys_ofPairs lawful).not.mpr present), List.map_append]
        have kept : [pair.1].removeAll (front.map (·.1)) = [pair.1] := by
          simpa [List.removeAll] using present
        simp only [List.map_cons, List.map_nil, kept]
        rfl

/-- Pairs under distinct keys are put together as they come. -/
theorem ofPairs_of_nodup {pairs : List (κ × ν)} (distinct : (pairs.map (·.1)).Nodup) :
    ofPairs same pairs = pairs := by
  induction pairs using List.reverseRecOn with
  | nil => rfl
  | append_singleton front pair ih =>
      rw [List.map_append, List.nodup_append] at distinct
      obtain ⟨frontDistinct, _, apart⟩ := distinct
      have absent : pair.1 ∉ front.map (·.1) :=
        fun member => apart _ member _ (List.mem_singleton.mpr rfl) rfl
      rw [ofPairs_eq_updated, updated_append, ← ofPairs_eq_updated, ih frontDistinct]
      exact put_of_absent lawful absent

theorem put_put (key : κ) (old value : ν) (entries : List (κ × ν)) :
    put same key value (put same key old entries) = put same key value entries := by
  have itself : same key key = true := (lawful key key).mpr rfl
  induction entries with
  | nil => simp [put, itself]
  | cons entry rest ih =>
      obtain ⟨present, held⟩ := entry
      by_cases found : same present key = true
      · simp [put, found]
      · simp [put, found, ih]

/-- What is put under a key that is present already may wait for another key. -/
theorem put_comm {key other : κ} (different : key ≠ other) (value later : ν)
    {entries : List (κ × ν)} (present : key ∈ entries.map (·.1)) :
    put same other later (put same key value entries) =
      put same key value (put same other later entries) := by
  induction entries with
  | nil => cases present
  | cons entry rest ih =>
      obtain ⟨held, old⟩ := entry
      by_cases isKey : held = key
      · have notOther : same held other ≠ true := by
          intro found
          exact different (isKey.symm.trans ((lawful held other).mp found))
        have found : same held key = true := (lawful held key).mpr isKey
        simp [put, found, notOther]
      · have notKey : same held key ≠ true := fun found => isKey ((lawful held key).mp found)
        have inside : key ∈ rest.map (·.1) := by
          rcases List.mem_cons.mp present with equal | member
          · exact absurd equal.symm isKey
          · exact member
        by_cases found : same held other = true
        · simp [put, notKey, found]
        · simp [put, notKey, found, ih inside]

theorem updated_put_left {key : κ} {value : ν} {left right : List (κ × ν)}
    (present : key ∈ left.map (·.1)) (absent : key ∉ right.map (·.1)) :
    updated same (put same key value left) right =
      put same key value (updated same left right) := by
  induction right generalizing left with
  | nil => rfl
  | cons pair rest ih =>
      obtain ⟨other, later⟩ := pair
      have different : key ≠ other := fun equal => absent (equal ▸ List.mem_cons_self)
      have outside : key ∉ rest.map (·.1) := fun member => absent (List.mem_cons_of_mem _ member)
      have kept : key ∈ (put same other later left).map (·.1) :=
        (mem_keys_put lawful).mpr (.inr present)
      rw [updated_cons, updated_cons, put_comm lawful different value later present]
      exact ih kept outside

theorem updated_put_right {key : κ} {value : ν} {left right : List (κ × ν)}
    (distinct : (right.map (·.1)).Nodup) :
    updated same left (put same key value right) =
      put same key value (updated same left right) := by
  induction right generalizing left with
  | nil => rfl
  | cons pair rest ih =>
      obtain ⟨present, old⟩ := pair
      obtain ⟨absent, others⟩ := List.nodup_cons.mp distinct
      rw [put]
      split
      · rename_i found
        have equal := (lawful present key).mp found
        subst equal
        have kept : present ∈ (put same present old left).map (·.1) :=
          (mem_keys_put lawful).mpr (.inl rfl)
        rw [updated_cons, updated_cons, ← updated_put_left lawful kept absent, put_put lawful]
      · rw [updated_cons, updated_cons]
        exact ih others

/-- Putting pairs together before they are taken over changes nothing. -/
theorem updated_ofPairs (left pairs : List (κ × ν)) :
    updated same left (ofPairs same pairs) = updated same left pairs := by
  induction pairs using List.reverseRecOn with
  | nil => rfl
  | append_singleton front pair ih =>
      have distinct := nodup_ofPairs lawful front
      calc updated same left (ofPairs same (front ++ [pair]))
          = updated same left (put same pair.1 pair.2 (ofPairs same front)) := by
            rw [ofPairs_eq_updated, updated_append]
            rfl
        _ = put same pair.1 pair.2 (updated same left (ofPairs same front)) :=
            updated_put_right lawful distinct
        _ = put same pair.1 pair.2 (updated same left front) := by rw [ih]
        _ = updated same left (front ++ [pair]) := by
            rw [updated_append]
            rfl

end Lawful

section Related

variable {μ : Type} {same : κ → κ → Bool} {R : κ × ν → κ × μ → Prop}

theorem put_forall₂ (lawful : ∀ left right, same left right = true ↔ left = right)
    (keys : ∀ left right, R left right → left.1 = right.1) {key : κ} {value : ν} {other : μ}
    (related : R (key, value) (key, other)) {lefts : List (κ × ν)} {rights : List (κ × μ)}
    (matched : List.Forall₂ R lefts rights) :
    List.Forall₂ R (put same key value lefts) (put same key other rights) := by
  induction matched with
  | nil => exact .cons related .nil
  | @cons left right lefts rights first rest ih =>
      rcases left with ⟨present, old⟩
      rcases right with ⟨present', held⟩
      have equal : present = present' := keys _ _ first
      subst equal
      rw [put, put]
      split
      · rename_i found
        have equal := (lawful present key).mp found
        subst equal
        exact .cons related rest
      · exact .cons first ih

/-- Pairs that are related one by one, key by key, are so after they are put together. -/
theorem ofPairs_forall₂ (lawful : ∀ left right, same left right = true ↔ left = right)
    (keys : ∀ left right, R left right → left.1 = right.1) {lefts : List (κ × ν)}
    {rights : List (κ × μ)} (matched : List.Forall₂ R lefts rights) :
    List.Forall₂ R (ofPairs same lefts) (ofPairs same rights) := by
  have from_any : ∀ (start : List (κ × ν)) (other : List (κ × μ)), List.Forall₂ R start other →
      List.Forall₂ R (updated same start lefts) (updated same other rights) := by
    induction matched with
    | nil => exact fun _ _ together => together
    | @cons left right lefts rights first rest ih =>
        intro start other together
        rcases left with ⟨key, value⟩
        rcases right with ⟨key', held⟩
        have equal : key = key' := keys _ _ first
        subst equal
        exact ih _ _ (put_forall₂ lawful keys first together)
  exact from_any [] [] .nil

end Related

end SchemaCheck.Entries
