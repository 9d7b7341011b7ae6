import Mathlib

/-!
# Lists of pairs

In a list of pairs whose first parts are distinct, looking a first part up finds the pair that is
listed.
-/

namespace UnoBindgen

theorem lookup_cons_eq_ite
    {Key Value : Type}
    [DecidableEq Key]
    [BEq Key]
    [LawfulBEq Key]
    (first : Key)
    (value : Value)
    (rest : List (Key × Value))
    (key : Key) :
    ((first, value) :: rest).lookup key =
      if key = first then some value else rest.lookup key := by
  rw [List.lookup_cons]
  by_cases same : key = first
  · simp [same]
  · have differs : (key == first) = false := by simpa using same
    rw [differs, if_neg same]

theorem lookup_eq_some_iff_mem
    {Key Value : Type}
    [BEq Key]
    [LawfulBEq Key]
    {pairs : List (Key × Value)}
    (nodup : (pairs.map Prod.fst).Nodup)
    (key : Key)
    (value : Value) :
    pairs.lookup key = some value ↔ (key, value) ∈ pairs := by
  induction pairs with
  | nil => simp
  | cons entry rest induction =>
      obtain ⟨first, existing⟩ := entry
      rw [List.map_cons, List.nodup_cons] at nodup
      by_cases same : key = first
      · subst same
        have notLater : (key, value) ∉ rest := by
          intro later
          exact nodup.1 (List.mem_map.2 ⟨_, later, rfl⟩)
        simp [notLater, eq_comm]
      · have differs : (key == first) = false := by simpa using same
        rw [List.lookup_cons, differs, List.mem_cons]
        simp only [Prod.mk.injEq, same, false_and, false_or]
        exact induction nodup.2

theorem lookup_eq_none_iff_not_mem
    {Key Value : Type}
    [BEq Key]
    [LawfulBEq Key]
    (pairs : List (Key × Value))
    (key : Key) :
    pairs.lookup key = none ↔ key ∉ pairs.map Prod.fst := by
  rw [List.lookup_eq_none_iff, List.mem_map]
  constructor
  · rintro missing ⟨entry, member, rfl⟩
    exact absurd (missing entry member) (by simp)
  · intro missing entry member
    simpa using fun same => missing ⟨entry, member, same.symm⟩

theorem map_fst_map_snd
    {Key Value Result : Type}
    (view : Value → Result)
    (pairs : List (Key × Value)) :
    (pairs.map fun pair => (pair.1, view pair.2)).map Prod.fst = pairs.map Prod.fst := by
  rw [List.map_map]
  rfl

theorem lookup_map_snd
    {Key Value Result : Type}
    [BEq Key]
    (view : Value → Result)
    (pairs : List (Key × Value))
    (key : Key) :
    (pairs.map fun pair => (pair.1, view pair.2)).lookup key = (pairs.lookup key).map view := by
  induction pairs with
  | nil => rfl
  | cons pair rest induction =>
      rw [List.map_cons, List.lookup_cons, List.lookup_cons, induction]
      cases key == pair.1 <;> rfl

theorem mem_of_lookup
    {Key Value : Type}
    [BEq Key]
    [LawfulBEq Key]
    {pairs : List (Key × Value)}
    {key : Key}
    {value : Value}
    (found : pairs.lookup key = some value) :
    (key, value) ∈ pairs := by
  obtain ⟨before, after, rfl, -⟩ := List.lookup_eq_some_iff.1 found
  simp

end UnoBindgen
