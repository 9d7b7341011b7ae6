import UnoBindgen.Registry

/-!
# What a registry accepts

Entities are registered exactly when every two of them are apart: their full names, their symbol
stems and their header guards are all different.
-/

namespace UnoBindgen

/-- Two entities whose full names, symbol stems and header guards all differ. -/
structure Entity.Apart (left right : Entity) : Prop where
  fullNames : left.fullName ≠ right.fullName
  stems : left.path.flattened ≠ right.path.flattened
  guards : left.path.headerGuard ≠ right.path.headerGuard

theorem Entity.Apart.symm
    {left right : Entity}
    (apart : left.Apart right) :
    right.Apart left where
  fullNames := apart.fullNames.symm
  stems := apart.stems.symm
  guards := apart.guards.symm

instance : Std.Symm Entity.Apart where
  symm _ _ := Entity.Apart.symm

namespace Registry

theorem clash?_eq_none_iff
    (earlier : List Entity)
    (entity : Entity) :
    clash? earlier entity = none ↔ ∀ other ∈ earlier, other.Apart entity := by
  rw [clash?]
  constructor
  · intro accepted other member
    split at accepted
    · exact absurd accepted (by simp)
    · rename_i names
      split at accepted
      · exact absurd accepted (by simp)
      · rename_i stems
        split at accepted
        · exact absurd accepted (by simp)
        · rename_i guards
          simp only [List.any_eq_true, beq_iff_eq, not_exists, not_and] at names
          exact
            { fullNames := names other member
              stems := by simpa using List.find?_eq_none.1 stems other member
              guards := by simpa using List.find?_eq_none.1 guards other member }
  · intro apart
    have names :
        ¬ (earlier.any fun other => other.fullName == entity.fullName) = true := by
      simp only [List.any_eq_true, beq_iff_eq, not_exists, not_and]
      exact fun other member => (apart other member).fullNames
    have stems :
        (earlier.find? fun other => other.path.flattened == entity.path.flattened) = none := by
      rw [List.find?_eq_none]
      exact fun other member => by simpa using (apart other member).stems
    have guards :
        (earlier.find? fun other => other.path.headerGuard == entity.path.headerGuard) =
          none := by
      rw [List.find?_eq_none]
      exact fun other member => by simpa using (apart other member).guards
    simp only [names, stems, guards]
    rfl

/-- There is no clash exactly when the entities are apart from each other and from the earlier
ones. -/
theorem firstClash?_eq_none_iff
    (earlier entities : List Entity) :
    firstClash? earlier entities = none ↔
      (∀ entity ∈ entities, ∀ other ∈ earlier, other.Apart entity) ∧
        entities.Pairwise Entity.Apart := by
  induction entities generalizing earlier with
  | nil => simp [firstClash?]
  | cons entity rest induction =>
      rw [firstClash?, List.forall_mem_cons, List.pairwise_cons]
      split
      · rename_i fault clashing
        constructor
        · intro accepted
          exact absurd accepted (by simp)
        · rintro ⟨⟨apart, -⟩, -⟩
          rw [(clash?_eq_none_iff earlier entity).2 apart] at clashing
          exact absurd clashing (by simp)
      · rename_i clean
        have apart := (clash?_eq_none_iff earlier entity).1 clean
        rw [induction]
        constructor
        · rintro ⟨others, pairwise⟩
          refine ⟨⟨apart, fun later member other otherMember => ?_⟩, fun later member => ?_,
            pairwise⟩
          · exact others later member other (List.mem_append_left [entity] otherMember)
          · exact others later member entity
              (List.mem_append_right earlier (List.mem_singleton_self entity))
        · rintro ⟨⟨-, others⟩, fromEntity, pairwise⟩
          refine ⟨fun later member other otherMember => ?_, pairwise⟩
          rcases List.mem_append.1 otherMember with inEarlier | isEntity
          · exact others later member other inEarlier
          · rw [List.mem_singleton.1 isEntity]
            exact fromEntity later member

/-- A list of entities is registered, as it is, exactly when its entities are pairwise apart. -/
theorem ofEntities_eq_ok_iff
    (entities : List Entity)
    (registry : Registry) :
    ofEntities entities = .ok registry ↔
      entities.Pairwise Entity.Apart ∧ registry = ⟨entities⟩ := by
  have apart := firstClash?_eq_none_iff [] entities
  simp only [List.not_mem_nil, false_implies, implies_true, true_and] at apart
  rw [ofEntities, ← apart]
  cases firstClash? [] entities with
  | none =>
      constructor
      · intro accepted
        exact ⟨rfl, (Except.ok.inj accepted).symm⟩
      · rintro ⟨-, rfl⟩
        rfl
  | some fault =>
      constructor
      · intro accepted
        exact absurd accepted (by simp)
      · rintro ⟨clashing, -⟩
        exact absurd clashing (by simp)

end Registry

end UnoBindgen
