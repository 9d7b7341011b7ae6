import Mathlib
import UnoBindgen.Proofs.Generation.Progress
import UnoBindgen.Proofs.OutputTree.Room

/-!
# Runs as rows of changes

A run in which nothing fails makes the changes of its entities, one after the other and in their
order.  Where a row of changes fails, it is for no reason that makes an entity count as skipped; so
a run without failed entities has made all of its changes.
-/

namespace UnoBindgen.Generation

open FileStore
open OutputTree
open OutputTree.State

/-! ## What rows of changes keep -/

theorem refusal_of_apply
    {state next : State}
    {change : Change}
    (applied : state.apply change = .ok next) :
    next.store.refusal = state.store.refusal := by
  cases change with
  | directory relative =>
      obtain ⟨store, made, rfl⟩ := (apply_directory_eq_ok_iff _ _ _).1 applied
      obtain ⟨-, -, rfl⟩ := (makeDirectories_eq_ok_iff _ _ _).1 made
      exact refusal_withDirectories _ _
  | file relative content =>
      rcases (apply_file_eq_ok_iff _ _ _ _).1 applied with
        ⟨-, -, rfl⟩ | ⟨-, -, store, written, rfl⟩
      · rfl
      · obtain ⟨-, -, -, rfl⟩ := (write_eq_ok_iff _ _ _ _).1 written
        exact refusal_withContent _ _ _

theorem carries_of_apply
    {state : State}
    (free : ∀ action place, state.store.refusal action place = none)
    {change : Change}
    {fault : Fault}
    (failed : state.apply change = .error fault)
    (condition : Condition) :
    fault.carries condition = false := by
  obtain ⟨left, attempted⟩ := (settled_eq_error_iff _ _).1 failed
  cases change with
  | directory relative =>
      rw [attempt] at attempted
      split at attempted
      · rename_i reason refused
        rw [← Option.some.inj (Prod.mk.inj attempted).2]
        exact carries_of_makeDirectories free refused condition
      · exact absurd attempted (by simp)
  | file relative content =>
      rcases exists_reason_of_writeFile attempted with
        ⟨-, reason, refused, rfl⟩ | ⟨-, reason, refused, rfl⟩
      · exact carries_of_read free refused condition
      · exact carries_of_write free refused condition

/-- A row of changes fails for no reason that callers branch on. -/
theorem carries_of_applyAll
    {state : State}
    (free : ∀ action place, state.store.refusal action place = none)
    {changes : List Change}
    {fault : Fault}
    (failed : state.applyAll changes = .error fault)
    (condition : Condition) :
    fault.carries condition = false := by
  induction changes generalizing state with
  | nil => exact absurd failed (by simp [applyAll])
  | cons change rest induction =>
      rw [applyAll] at failed
      cases applied : state.apply change with
      | error reason =>
          rw [applied] at failed
          rw [← Except.error.inj failed]
          exact carries_of_apply free applied condition
      | ok next =>
          rw [applied] at failed
          exact induction (by rwa [refusal_of_apply applied]) failed

theorem refusal_of_applyAll
    {state last : State}
    {changes : List Change}
    (applied : state.applyAll changes = .ok last) :
    last.store.refusal = state.store.refusal := by
  induction changes generalizing state with
  | nil =>
      rw [applyAll, Except.ok.injEq] at applied
      rw [applied]
  | cons change rest induction =>
      rw [applyAll] at applied
      cases stepped : state.apply change with
      | error fault => simp [stepped] at applied
      | ok next =>
          rw [stepped] at applied
          exact (induction applied).trans (refusal_of_apply stepped)

/-- An entity is generated by its changes, and else the first fault is reported. -/
theorem generateEntity_of_applyAll
    (context : Emission.Context)
    (entity : Entity)
    (state : State) :
    match state.applyAll (changes context entity) with
    | .ok last => generateEntity context entity state = (last, expectedReport context entity)
    | .error fault => (generateEntity context entity state).2.fault? = some fault := by
  cases composed : Emission.compose context entity with
  | error fault =>
      rw [changes_of_error composed, applyAll]
      simp only [generateEntity, expectedReport, composed]
  | ok texts =>
      have outcome :=
        write_of_applyAll state (Names.ofEntity context.options entity)
          (isEmpty_of_compose composed)
      rw [changes_of_ok composed]
      cases applied :
          state.applyAll (placements (Names.ofEntity context.options entity) texts) with
      | ok last =>
          rw [applied] at outcome
          simp only [generateEntity, expectedReport, composed, outcome]
      | error fault =>
          rw [applied] at outcome
          simp only [generateEntity, composed]
          rw [outcome]

theorem generateAll_of_applyAll
    (context : Emission.Context)
    {entities : List Entity}
    {state last : State}
    (applied : state.applyAll (entities.flatMap (changes context)) = .ok last) :
    generateAll context entities state = (last, entities.map (expectedReport context)) := by
  induction entities generalizing state with
  | nil =>
      rw [List.flatMap_nil, applyAll, Except.ok.injEq] at applied
      rw [applied]
      rfl
  | cons entity rest induction =>
      rw [List.flatMap_cons, applyAll_append] at applied
      obtain ⟨middle, first, later⟩ := applied
      have generated := generateEntity_of_applyAll context entity state
      rw [first] at generated
      simp only [generateAll, generated, induction later, List.map_cons]

/-- When no entity fails, all changes were made. -/
theorem applyAll_of_generateAll
    (context : Emission.Context)
    {entities : List Entity}
    {state : State}
    (free : ∀ action place, state.store.refusal action place = none)
    (nothingFailed :
      ∀ report ∈ (generateAll context entities state).2, report.hasFailed = false) :
    state.applyAll (entities.flatMap (changes context)) =
      .ok (generateAll context entities state).1 := by
  induction entities generalizing state with
  | nil => rfl
  | cons entity rest induction =>
      have generated := generateEntity_of_applyAll context entity state
      cases applied : state.applyAll (changes context entity) with
      | error fault =>
          rw [applied] at generated
          have failed : (generateEntity context entity state).2.hasFailed = true := by
            simp [EntityReport.hasFailed, EntityReport.isSkipped, generated,
              carries_of_applyAll free applied]
          have notFailed :=
            nothingFailed (generateEntity context entity state).2 (by simp [generateAll])
          rw [failed] at notFailed
          exact absurd notFailed (by simp)
      | ok next =>
          rw [applied] at generated
          rw [List.flatMap_cons, applyAll_append]
          refine ⟨next, applied, ?_⟩
          have nextFree : ∀ action place, next.store.refusal action place = none := by
            rwa [refusal_of_applyAll applied]
          have later := induction nextFree fun report member =>
            nothingFailed report (by simp [generateAll, generated, member])
          simp only [generateAll, generated, later]

/-- The files of the expected reports are the files of the changes. -/
theorem flatMap_files_expectedReport
    (context : Emission.Context)
    (entities : List Entity) :
    (entities.map (expectedReport context)).flatMap EntityReport.files =
      filesOf (entities.flatMap (changes context)) := by
  induction entities with
  | nil => rfl
  | cons entity rest induction =>
      have first : (expectedReport context entity).files = filesOf (changes context entity) := by
        cases composed : Emission.compose context entity with
        | error fault =>
            rw [changes_of_error composed]
            simp only [expectedReport, composed]
            rfl
        | ok texts =>
            rw [changes_of_ok composed]
            simp only [expectedReport, composed]
            rfl
      rw [List.map_cons, List.flatMap_cons, List.flatMap_cons, induction, first, filesOf,
        filesOf, filesOf, List.filterMap_append]

theorem run_of_applyAll
    {generation : Generation}
    (uncancelled : generation.cancelAfter = none)
    {base last : State}
    (applied : base.applyAll generation.allChanges = .ok last) :
    (generation.run base).state = last ∧
      (generation.run base).report.entries =
        generation.registry.entities.map (expectedReport generation.context) := by
  have started : generation.started = generation.registry.entities := by
    rw [Generation.started, uncancelled]
  simp only [run, started, generateAll_of_applyAll generation.context applied, Registry.size,
    Nat.sub_self, List.replicate_zero, List.append_nil, and_self]

theorem applyAll_of_run
    {generation : Generation}
    (uncancelled : generation.cancelAfter = none)
    {base : State}
    (free : ∀ action place, base.store.refusal action place = none)
    (nothingFailed : (generation.run base).report.failed = []) :
    base.applyAll generation.allChanges = .ok (generation.run base).state := by
  have started : generation.started = generation.registry.entities := by
    rw [Generation.started, uncancelled]
  have state :
      (generation.run base).state =
        (generateAll generation.context generation.registry.entities base).1 := by
    simp only [run, started]
  rw [state]
  apply applyAll_of_generateAll generation.context free
  intro report member
  have listed : report ∈ (generation.run base).report.entries := by
    simp only [run, started]
    exact List.mem_append_left _ member
  by_contra failed
  have : report ∈ (generation.run base).report.failed :=
    List.mem_filter.2 ⟨listed, by simpa using failed⟩
  rw [nothingFailed] at this
  exact absurd this (by simp)

end UnoBindgen.Generation
