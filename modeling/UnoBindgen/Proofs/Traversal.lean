import Mathlib

/-!
# Traversals that succeed

A row of steps of which each may fail succeeds exactly when all of them do, and then its results
are related to what it started from one by one.  Otherwise it fails with the first failure.
-/

namespace UnoBindgen

theorem bind_eq_ok_iff
    {Source Target Failure : Type}
    (first : Except Failure Source)
    (next : Source → Except Failure Target)
    (target : Target) :
    (first >>= next) = .ok target ↔ ∃ source, first = .ok source ∧ next source = .ok target := by
  cases first with
  | error failure => simp [bind, Except.bind]
  | ok source => simp [bind, Except.bind]

theorem bind_eq_error_iff
    {Source Target Failure : Type}
    (first : Except Failure Source)
    (next : Source → Except Failure Target)
    (failure : Failure) :
    (first >>= next) = .error failure ↔
      first = .error failure ∨ ∃ source, first = .ok source ∧ next source = .error failure := by
  cases first with
  | error other => simp [bind, Except.bind]
  | ok source => simp [bind, Except.bind]

theorem eq_ok_of_toOption
    {Result Failure : Type}
    {outcome : Except Failure Result}
    {result : Result}
    (given : outcome.toOption = some result) :
    outcome = .ok result := by
  cases outcome with
  | error failure => exact absurd given (by simp [Except.toOption])
  | ok found => exact congrArg Except.ok (Option.some.inj given)

/-- A traversal succeeds exactly when every step does. -/
theorem mapM_eq_ok_iff
    {Source Target Failure : Type}
    (step : Source → Except Failure Target)
    (sources : List Source)
    (targets : List Target) :
    sources.mapM step = .ok targets ↔
      List.Forall₂ (fun source target => step source = .ok target) sources targets := by
  induction sources generalizing targets with
  | nil =>
      rw [List.mapM_nil, List.forall₂_nil_left_iff]
      exact ⟨fun done => (Except.ok.inj done).symm, fun empty => congrArg Except.ok empty.symm⟩
  | cons source rest induction =>
      simp only [List.mapM_cons, bind_eq_ok_iff, induction, List.forall₂_cons_left_iff]
      constructor
      · rintro ⟨target, stepped, others, related, done⟩
        exact ⟨target, others, stepped, related, (Except.ok.inj done).symm⟩
      · rintro ⟨target, others, stepped, related, rfl⟩
        exact ⟨target, stepped, others, related, rfl⟩

/-- A traversal fails with the failure of the first step that fails. -/
theorem mapM_eq_error_iff
    {Source Target Failure : Type}
    (step : Source → Except Failure Target)
    (sources : List Source)
    (failure : Failure) :
    sources.mapM step = .error failure ↔
      ∃ before source after,
        sources = before ++ source :: after ∧
          (∀ other ∈ before, ∃ target, step other = .ok target) ∧
          step source = .error failure := by
  induction sources with
  | nil =>
      rw [List.mapM_nil]
      exact iff_of_false (by simp [pure, Except.pure]) (by simp)
  | cons first rest induction =>
      simp only [List.mapM_cons, bind_eq_error_iff, induction]
      constructor
      · rintro (failed | ⟨target, stepped, ⟨before, source, after, rfl, earlier, failed⟩ |
          ⟨others, -, returned⟩⟩)
        · exact ⟨[], first, rest, rfl, by simp, failed⟩
        · refine ⟨first :: before, source, after, rfl, ?_, failed⟩
          exact List.forall_mem_cons.2 ⟨⟨target, stepped⟩, earlier⟩
        · exact absurd returned (by simp [pure, Except.pure])
      · rintro ⟨before, source, after, split, earlier, failed⟩
        cases before with
        | nil =>
            obtain ⟨rfl, rfl⟩ := List.cons.inj split
            exact Or.inl failed
        | cons other others =>
            obtain ⟨rfl, rfl⟩ := List.cons.inj split
            rw [List.forall_mem_cons] at earlier
            obtain ⟨⟨target, stepped⟩, earlier⟩ := earlier
            exact Or.inr ⟨target, stepped, Or.inl ⟨others, source, after, rfl, earlier, failed⟩⟩

/-- When every element is related to something, the whole list is. -/
theorem exists_forall₂_of_forall
    {Source Target : Type}
    {relation : Source → Target → Prop}
    {sources : List Source}
    (related : ∀ source ∈ sources, ∃ target, relation source target) :
    ∃ targets, List.Forall₂ relation sources targets := by
  induction sources with
  | nil => exact ⟨[], List.Forall₂.nil⟩
  | cons source rest induction =>
      rw [List.forall_mem_cons] at related
      obtain ⟨target, first⟩ := related.1
      obtain ⟨others, later⟩ := induction related.2
      exact ⟨target :: others, List.Forall₂.cons first later⟩

theorem exists_of_mem_right
    {Source Target : Type}
    {relation : Source → Target → Prop}
    {sources : List Source}
    {targets : List Target}
    (related : List.Forall₂ relation sources targets)
    {target : Target}
    (member : target ∈ targets) :
    ∃ source ∈ sources, relation source target := by
  induction related with
  | nil => exact absurd member List.not_mem_nil
  | @cons source first rest others head tail induction =>
      rcases List.mem_cons.1 member with rfl | inOthers
      · exact ⟨source, List.mem_cons_self, head⟩
      · obtain ⟨other, otherMember, otherRelated⟩ := induction inOthers
        exact ⟨other, List.mem_cons_of_mem source otherMember, otherRelated⟩

/-- A list is related to its image when every element is related to its own image and nothing
else. -/
theorem forall₂_iff_map_eq
    {Source Target : Type}
    {relation : Source → Target → Prop}
    {view : Source → Target}
    (related_iff : ∀ source target, relation source target ↔ view source = target)
    (sources : List Source)
    (targets : List Target) :
    List.Forall₂ relation sources targets ↔ sources.map view = targets := by
  have same : relation = fun source target => view source = target := by
    ext source target
    exact related_iff source target
  rw [same, ← List.forall₂_eq_eq_eq, List.forall₂_map_left_iff]

/-- Related lists pass related tests together. -/
theorem forall_mem_iff_of_forall₂
    {Source Target : Type}
    {relation : Source → Target → Prop}
    {sources : List Source}
    {targets : List Target}
    (related : List.Forall₂ relation sources targets)
    {sourceTest : Source → Prop}
    {targetTest : Target → Prop}
    (sameTest :
      ∀ source ∈ sources, ∀ target, relation source target →
        (targetTest target ↔ sourceTest source)) :
    (∀ target ∈ targets, targetTest target) ↔ ∀ source ∈ sources, sourceTest source := by
  induction related with
  | nil => simp
  | cons head tail induction =>
      rw [List.forall_mem_cons] at sameTest
      rw [List.forall_mem_cons, List.forall_mem_cons, sameTest.1 _ head, induction sameTest.2]

/-- Related lists have the same views when related elements have. -/
theorem map_eq_map_of_forall₂
    {Source Target Result : Type}
    {relation : Source → Target → Prop}
    {sources : List Source}
    {targets : List Target}
    (related : List.Forall₂ relation sources targets)
    {sourceView : Source → Result}
    {targetView : Target → Result}
    (sameView :
      ∀ target ∈ targets, ∀ source, relation source target →
        targetView target = sourceView source) :
    targets.map targetView = sources.map sourceView := by
  induction related with
  | nil => rfl
  | cons head tail induction =>
      rw [List.forall_mem_cons] at sameView
      rw [List.map_cons, List.map_cons, sameView.1 _ head, induction sameView.2]

/-- Related lists that pass related tests are traversed to related results. -/
theorem mapM_filter_eq_ok
    {Source Target Result Failure : Type}
    {relation : Source → Target → Prop}
    {sources : List Source}
    {targets : List Target}
    (related : List.Forall₂ relation sources targets)
    {sourceTest : Source → Bool}
    {targetTest : Target → Bool}
    (sameTest :
      ∀ source target, relation source target → targetTest target = sourceTest source)
    {step : Source → Except Failure Result}
    {view : Target → Result}
    (steps :
      ∀ source target, relation source target → targetTest target = true →
        step source = .ok (view target)) :
    (sources.filter sourceTest).mapM step = .ok ((targets.filter targetTest).map view) := by
  rw [mapM_eq_ok_iff]
  induction related with
  | nil => exact List.Forall₂.nil
  | @cons source target rest others head tail induction =>
      have same := sameTest source target head
      by_cases passes : targetTest target = true
      · rw [List.filter_cons_of_pos passes, List.filter_cons_of_pos (same ▸ passes)]
        exact List.Forall₂.cons (steps source target head passes) induction
      · rw [List.filter_cons_of_neg passes, List.filter_cons_of_neg (same ▸ passes)]
        exact induction

end UnoBindgen
