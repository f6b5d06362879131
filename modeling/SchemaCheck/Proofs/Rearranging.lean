import SchemaCheck.Proofs.Carrying

/-!
What is left of a value by checks without transforms. Tuples become lists and the entries of dicts
change places, at any depth, and that is all; so a place inside what a value became is a place
inside the value.
-/

namespace SchemaCheck

/-- The second value is the first one, but that tuples may have become lists and that the entries of
a dict may have changed places. A dict that was put in order anew has the names it had, each once,
and holds under each what became of what it held there. -/
inductive Value.Rearranged : Value → Value → Prop
  | same (value : Value) : Rearranged value value
  | items {value : Value} {items results : List Value} :
      value.items? = some items → items.length = results.length →
      (∀ pair ∈ items.zip results, Rearranged pair.1 pair.2) → Rearranged value (.list results)
  | entries {entries : List (Value × Value)} {pairs : List (String × Value)} :
      (pairs.map (·.1)).Nodup →
      (∀ entry ∈ entries, entry.1.isAmong (pairs.map (·.1)) = true) →
      (∀ pair ∈ pairs, ∃ held, Value.property pair.1 entries = some held) →
      (∀ pair ∈ pairs, ∀ held, Value.property pair.1 entries = some held → Rearranged held pair.2) →
      Rearranged (.dict entries) (.dict (Check.named pairs))

/-- The path leads through names of dicts and positions in lists or tuples to a place inside the
value. -/
inductive Path.LeadsInto : Path → Value → Prop
  | here (value : Value) : LeadsInto [] value
  | property {name : String} {path : Path} {entries : List (Value × Value)} {held : Value} :
      Value.property name entries = some held → LeadsInto path held →
      LeadsInto (.name name :: path) (.dict entries)
  | item {position : Nat} {path : Path} {value held : Value} {items : List Value} :
      value.items? = some items → items[position]? = some held → LeadsInto path held →
      LeadsInto (.index position :: path) value

namespace Value

theorem mem_of_property_named {name : String} {pairs : List (String × Value)} {held : Value}
    (found : Value.property name (Check.named pairs) = some held) : (name, held) ∈ pairs := by
  rcases List.mem_map.mp (mem_of_property found) with ⟨⟨_, _⟩, member, ⟨⟩⟩
  exact member

namespace Rearranged

theorem of_items {value : Value} {items results : List Value} (listed : value.items? = some items)
    (each : List.Forall₂ Rearranged items results) : Rearranged value (.list results) := by
  rcases List.forall₂_iff_zip.mp each with ⟨length, related⟩
  exact .items listed length fun _ member => related member

theorem trans {value between output : Value} (first : Rearranged value between)
    (second : Rearranged between output) : Rearranged value output := by
  induction first generalizing output with
  | same => exact second
  | items listed length each ih =>
      cases second with
      | same => exact .items listed length each
      | items own further later =>
          cases own
          have before : List.Forall₂ (fun item result => ∀ output, Rearranged result output →
              Rearranged item output) _ _ :=
            List.forall₂_iff_zip.mpr ⟨length, fun member _ => ih _ member⟩
          have after : List.Forall₂ Rearranged _ _ :=
            List.forall₂_iff_zip.mpr ⟨further, fun member => later _ member⟩
          exact of_items listed
            (forall₂_trans (fun move rearranged => move _ rearranged) before after)
  | @entries entries pairs distinct declared present each ih =>
      generalize shape : Value.dict (Check.named pairs) = between at second
      cases second with
      | same =>
          subst shape
          exact .entries distinct declared present each
      | items own =>
          subst shape
          cases own
      | @entries _ others othersDistinct othersDeclared othersPresent later =>
          cases shape
          have known : ∀ pair ∈ others, ∃ between, Value.property pair.1 (Check.named pairs) =
            some between ∧
              (pair.1, between) ∈ pairs := by
            intro pair member
            rcases othersPresent pair member with ⟨between, found⟩
            exact ⟨between, found, mem_of_property_named found⟩
          refine .entries othersDistinct ?_ ?_ ?_
          · intro entry member
            rcases isAmong_iff.mp (declared entry member) with ⟨name, listed, same⟩
            rcases List.mem_map.mp listed with ⟨pair, inside, rfl⟩
            rw [same]
            exact othersDeclared (.str pair.1, pair.2) (List.mem_map_of_mem inside)
          · intro pair member
            rcases known pair member with ⟨between, _, inside⟩
            exact present (pair.1, between) inside
          · intro pair member held found
            rcases known pair member with ⟨between, foundBetween, inside⟩
            exact ih (pair.1, between) inside held found (later pair member between foundBetween)

/-- Checks that call no function and fill nothing in leave a value as it is, up to its
arrangement. -/
theorem carried : Carried [.function, .optional] Rearranged where
  refl := .same
  trans := trans
  null impossible := absurd (by simp) impossible
  items := of_items
  entries := by
    intro entries pairs distinct declared filled
    have held : ∀ pair ∈ pairs, ∃ held, Value.property pair.1 entries = some held ∧
        Rearranged held pair.2 := by
      intro pair member
      have own := filled pair member
      unfold FilledBy at own
      cases found : Value.property pair.1 entries with
      | none =>
          rw [found] at own
          exact absurd (by simp) own
      | some held =>
          rw [found] at own
          exact ⟨held, rfl, own⟩
    refine .entries distinct declared ?_ ?_
    · intro pair member
      rcases held pair member with ⟨value, found, _⟩
      exact ⟨value, found⟩
    · intro pair member value found
      rcases held pair member with ⟨other, same, related⟩
      cases found.symm.trans same
      exact related

end Rearranged

end Value

theorem Path.LeadsInto.of_rearranged {path : Path} {value output : Value}
    (rearranged : value.Rearranged output) (leads : path.LeadsInto output) :
      path.LeadsInto value := by
  induction leads generalizing value with
  | here => exact .here value
  | property found _ ih =>
      cases rearranged with
      | same => exact .property found (ih (.same _))
      | entries distinct declared present each =>
          have member := Value.mem_of_property_named found
          rcases present _ member with ⟨held, before⟩
          exact .property before (ih (each _ member held before))
  | item listed found _ ih =>
      cases rearranged with
      | same => exact .item listed found (ih (.same _))
      | items own length each =>
          cases listed
          have matched : List.Forall₂ Value.Rearranged _ _ :=
            List.forall₂_iff_zip.mpr ⟨length, fun member => each _ member⟩
          rcases exists_getElem_of_forall₂ matched found with ⟨before, placed, related⟩
          exact .item own placed (ih related)
      | entries => cases listed

end SchemaCheck
