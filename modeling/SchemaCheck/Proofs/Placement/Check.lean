import SchemaCheck.Proofs.Outcome

/-!
Checks seen from further out. Every built-in check that is told a longer place, or is built from
parts that were, rejects with the same issues below the new beginning of that place.
-/

namespace SchemaCheck

/-- The same check, installed further in. -/
def Check.under (base : Path) (check : Check) : Check :=
  fun value => (check value).under base

def Check.Property.under (base : Path) (property : Check.Property) : Check.Property :=
  { property with check := property.check.under base }

namespace Check

variable (base path : Path)

theorem basic_under (kind : BasicKind) :
    basic kind (base ++ path) = (basic kind path).under base := by
  funext value
  simp only [basic, under]
  split
  · rfl
  · exact (Complaint.reject_under base path _).symm

theorem predicate_under (calls : Calls) (test : Callable) (message : String)
    (detail : Option Detail) :
    predicate calls test message detail (base ++ path) =
      (predicate calls test message detail path).under base := by
  funext value
  simp only [predicate, under]
  split
  · exact (Complaint.reject_under base path _).symm
  · rfl
  · exact (Complaint.reject_under base path _).symm

theorem function_under (calls : Calls) (callable : Callable) :
    function calls callable (base ++ path) = (function calls callable path).under base := by
  funext value
  simp only [function, under]
  split
  · exact (Complaint.reject_under base path _).symm
  · exact (Complaint.reject_under base path _).symm
  · exact (Outcome.under_under base path _).symm

theorem optional_under (default : Value) (inner : Check) :
    optional default (inner.under base) = (optional default inner).under base := by
  funext value
  simp only [optional, under]
  split <;> rfl

theorem enum_under (listed : Value) (options : List Value) :
    enum listed options (base ++ path) = (enum listed options path).under base := by
  funext value
  simp only [enum, under]
  split
  · rfl
  · exact (Complaint.reject_under base path _).symm

theorem missing_under (properties : List Property) (entries : List (Value × Value)) :
    missing (properties.map (Property.under base)) entries = missing properties entries := by
  simp only [missing, List.filter_map, List.map_map]
  rfl

theorem isDeclared_under (properties : List Property) (key : Value) :
    isDeclared (properties.map (Property.under base)) key = isDeclared properties key := by
  cases key with
  | str text =>
      simp only [isDeclared, List.any_map]
      rfl
  | _ => rfl

theorem surplus_under (properties : List Property) (entries : List (Value × Value)) :
    surplus (properties.map (Property.under base)) entries = surplus properties entries := by
  simp only [surplus, isDeclared_under]

theorem propertyOutcomes_under (properties : List Property) (entries : List (Value × Value)) :
    propertyOutcomes (properties.map (Property.under base)) entries =
      (propertyOutcomes properties entries).map (Outcome.under base) := by
  simp only [propertyOutcomes, List.map_map]
  refine List.map_congr_left fun property _ => ?_
  exact Outcome.map_under base _ _

theorem object_under (properties : List Property) :
    object (properties.map (Property.under base)) (base ++ path) =
      (object properties path).under base := by
  funext value
  cases value with
  | dict entries =>
      simp only [object, under, missing_under, surplus_under, propertyOutcomes_under,
        Outcome.collect_under, Outcome.map_under]
      split
      · rfl
      · split <;> rfl
  | _ => rfl

theorem indexed_under (checks : List Check) :
    indexed (checks.map (Check.under base)) (base ++ path) =
      (indexed checks path).under base := by
  funext value
  simp only [indexed, under, List.length_map]
  split
  · rfl
  · rename_i items _
    split
    · rfl
    · have moved : List.zipWith (fun check item => check item)
          (checks.map (Check.under base)) items =
          (List.zipWith (fun check item => check item) checks items).map
            (Outcome.under base) := by
        rw [List.zipWith_map_left, List.map_zipWith]
        rfl
      rw [moved, Outcome.collect_under, Outcome.map_under]

theorem oneOf_under (branches : List Check) :
    oneOf (branches.map (Check.under base)) = (oneOf branches).under base := by
  funext value
  simp only [oneOf, under]
  rw [← Outcome.first_under, List.map_map, List.map_map]
  rfl

theorem chain_under (checks : List Check) :
    chain (checks.map (Check.under base)) = (chain checks).under base := by
  induction checks with
  | nil => rfl
  | cons check rest ih =>
      funext value
      rw [List.map_cons, chain, ih]
      exact Outcome.bind_under base (check value) (chain rest)

end Check

end SchemaCheck
