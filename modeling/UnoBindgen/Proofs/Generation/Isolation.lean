import Mathlib
import UnoBindgen.Proofs.Generation.Interleaving

/-!
# Entities are isolated from each other

What becomes of an entity depends on the entity, the naming and the state at the start.  The other
entities matter in one point only: a singleton asks for the kind of its base.  So two complete runs
that share an entity agree on its entry and on its files, whatever happens to the other entities.

A report sorts its entries into those that succeeded, were skipped and failed, and its fault is that
of the first failed entry.
-/

namespace UnoBindgen

/-! ## Summaries of reports -/

namespace Report

/-- The entries of a report are sorted into three lists that keep their order, and the fault of the
report is that of the first failed entry. -/
structure IsSummary (report : Report) : Prop where
  partition : (report.succeeded ++ report.skipped ++ report.failed).Perm report.entries
  succeededInOrder : report.succeeded.Sublist report.entries
  skippedInOrder : report.skipped.Sublist report.entries
  failedInOrder : report.failed.Sublist report.entries
  faultless : report.fault? = none ↔ report.failed = []
  firstFault :
    ∀ first rest, report.failed = first :: rest →
      ∃ primary fault, first.fault? = some primary ∧ report.fault? = some fault ∧
        fault.message = primary.message ∧
        ∀ test, fault.anyCause test = primary.anyCause test

theorem partition_perm (report : Report) :
    (report.succeeded ++ report.skipped ++ report.failed).Perm report.entries := by
  obtain ⟨runId, entries⟩ := report
  simp only [succeeded, skipped, failed]
  induction entries with
  | nil => exact List.Perm.refl []
  | cons entry rest induction =>
      have cases_entry :
          (entry.hasSucceeded = true ∧ entry.isSkipped = false ∧ entry.hasFailed = false) ∨
          (entry.hasSucceeded = false ∧ entry.isSkipped = true ∧ entry.hasFailed = false) ∨
          (entry.hasSucceeded = false ∧ entry.isSkipped = false ∧ entry.hasFailed = true) := by
        simp only [EntityReport.hasSucceeded, EntityReport.hasFailed, EntityReport.isSkipped]
        cases entry.fault? with
        | none => simp
        | some fault => cases fault.carries .notImplemented <;> simp
      rcases cases_entry with ⟨one, two, three⟩ | ⟨one, two, three⟩ | ⟨one, two, three⟩
      · simp only [List.filter_cons, one, two, three, if_true, Bool.false_eq_true, if_false]
        exact induction.cons entry
      · simp only [List.filter_cons, one, two, three, if_true, Bool.false_eq_true, if_false,
          List.append_assoc, List.cons_append]
        rw [List.append_assoc] at induction
        exact List.perm_middle.trans (induction.cons entry)
      · simp only [List.filter_cons, one, two, three, if_true, Bool.false_eq_true, if_false]
        exact List.perm_middle.trans (induction.cons entry)

/-- Combining faults keeps the first one in front. -/
theorem foldl_combine_spec
    (entries : List EntityReport)
    (first : Fault) :
    ∃ fault,
      entries.foldl (fun combined entry => Fault.combine combined entry.fault?) (some first) =
        some fault ∧
      fault.message = first.message ∧ ∀ test, fault.anyCause test = first.anyCause test := by
  induction entries generalizing first with
  | nil => exact ⟨first, rfl, rfl, fun _ => rfl⟩
  | cons entry rest induction =>
      rw [List.foldl_cons]
      cases entry.fault? with
      | none => exact induction first
      | some secondary =>
          obtain ⟨fault, combined, message, causes⟩ := induction (.alongside first secondary)
          exact ⟨fault, combined, message, causes⟩

theorem isSummary (report : Report) :
    report.IsSummary := by
  have first_fault (first : EntityReport) (rest : List EntityReport)
      (failed : report.failed = first :: rest) :
      ∃ primary fault, first.fault? = some primary ∧ report.fault? = some fault ∧
        fault.message = primary.message ∧
        ∀ test, fault.anyCause test = primary.anyCause test := by
    have member : first ∈ report.failed := by simp [failed]
    have hasFailed := (List.mem_filter.1 member).2
    rw [EntityReport.hasFailed, Bool.and_eq_true] at hasFailed
    obtain ⟨primary, found⟩ := Option.isSome_iff_exists.1 hasFailed.1
    obtain ⟨fault, combined, message, causes⟩ := foldl_combine_spec rest primary
    refine ⟨primary, fault, found, ?_, message, causes⟩
    rw [Report.fault?, failed, List.foldl_cons, found]
    exact combined
  exact
    { partition := partition_perm report
      succeededInOrder := List.filter_sublist
      skippedInOrder := List.filter_sublist
      failedInOrder := List.filter_sublist
      faultless := by
        constructor
        · intro faultless
          cases failed : report.failed with
          | nil => rfl
          | cons first rest =>
              obtain ⟨-, fault, -, found, -⟩ := first_fault first rest failed
              rw [faultless] at found
              exact absurd found (by simp)
        · intro nothingFailed
          rw [Report.fault?, nothingFailed]
          rfl
      firstFault := first_fault }

end Report

/-! ## What a composition depends on -/

theorem Emission.compose_congr
    {left right : Emission.Context}
    (sameOptions : left.options = right.options)
    {entity : Entity}
    (sameBase :
      entity.tag = .known .interfaceSingleton →
        ∀ name, entity.base? = some name →
          (left.registry.find? name).map Entity.tag = (right.registry.find? name).map Entity.tag) :
    Emission.compose left entity = Emission.compose right entity := by
  cases checked : entity.check with
  | error fault => simp only [compose, checked, bind, Except.bind]
  | ok done =>
      have sameRaw : composeRaw left entity = composeRaw right entity := by
        obtain ⟨-, kind, tag, -⟩ :=
          (Entity.fault?_eq_none_iff entity).1 ((Entity.check_eq_ok_iff entity).1 checked)
        simp only [composeRaw, tag]
        cases kind with
        | interface => simp only [composeInterface, sameOptions]
        | exception => simp only [composeException, sameOptions]
        | serviceSingleton => rfl
        | interfaceSingleton =>
            obtain ⟨base, named, qualified⟩ := Entity.exists_base checked tag
            simp only [composeSingleton_of_base _ named qualified, sameBase tag base named,
              textsOverBase, sameOptions]
      simp only [compose, sameRaw]

namespace Generation

open OutputTree
open OutputTree.State

/-- What is at the place of an artifact after a run. -/
def expectedNode
    (context : Emission.Context)
    (base : State)
    (entity : Entity)
    (artifact : Artifact) :
    Option FileNode :=
  let place := base.placeOf ((Names.ofEntity context.options entity).artifactPath artifact)
  match Emission.compose context entity with
  | .error _ => base.store.node? place
  | .ok texts => some ⟨texts.get artifact, FileStore.standing (base.store.node? place)⟩

/-- A run leaves at the files of an entity what the entity gives on its own. -/
theorem Snapshot.IsOutcome.node?_artifactPath
    {generation : Generation}
    {base : State}
    (ready : generation.Ready base)
    {snapshot : Snapshot}
    (outcome : snapshot.IsOutcome generation base)
    {entity : Entity}
    (member : entity ∈ generation.registry.entities)
    (artifact : Artifact) :
    snapshot.state.store.node?
        (base.placeOf ((Names.ofEntity generation.options entity).artifactPath artifact)) =
      expectedNode generation.context base entity artifact := by
  cases composed : Emission.compose generation.context entity with
  | ok texts =>
      simp only [expectedNode, composed]
      exact outcome.shows.files _ _ (placement_mem_allChanges member composed artifact)
  | error fault =>
      simp only [expectedNode, composed]
      apply outcome.shows.node?_of_outside
      intro change changed
      obtain ⟨other, otherMember, ofOther⟩ := List.mem_flatMap.1 changed
      by_cases same : entity = other
      · subst same
        rw [changes_of_error composed] at ofOther
        exact absurd ofOther (by simp)
      · have separate : entity.Apart other :=
          ready.apart.forall member otherMember same
        exact not_prefix_of_mem_changes ready.wellFormed base (ready.checked entity member)
          (ready.checked other otherMember) separate artifact ofOther

/-- A generation under given settings of consistent entities that are accepted together, before a
state in which writes succeed. -/
structure Accepted (generation : Generation) (settings : Settings) (base : State) : Prop where
  options : generation.options = settings.naming
  validEntities : ∀ entity ∈ generation.registry.entities, entity.check = .ok ()
  registered : Registry.ofEntities generation.registry.entities = .ok generation.registry
  canWrite : generation.CanWrite base

/--
Two complete runs that share an entity at a position, and the kind of its base if it is a singleton,
agree on its entry and on its three files, whatever the other entities are and whatever becomes of
them.  Every report is a summary of its entries.
-/
theorem entity_isolated
    (settings : Settings)
    (base : State)
    (left right : Generation)
    (validSettings : settings.check = .ok ())
    (situated : base.store.IsSituated)
    (leftAccepted : left.Accepted settings base)
    (rightAccepted : right.Accepted settings base)
    (position : Nat)
    (entity : Entity)
    (leftAt : left.registry.entities[position]? = some entity)
    (rightAt : right.registry.entities[position]? = some entity)
    (sameBase :
      entity.tag = .known .interfaceSingleton →
        ∀ name, entity.base? = some name →
          (left.registry.find? name).map Entity.tag = (right.registry.find? name).map Entity.tag)
    (leftSchedule rightSchedule : Schedule)
    (leftComplete : (leftSchedule.follow left base).isComplete = true)
    (rightComplete : (rightSchedule.follow right base).isComplete = true) :
    (∃ entry,
      (leftSchedule.follow left base).entries[position]? = some entry ∧
        (rightSchedule.follow right base).entries[position]? = some entry) ∧
    (∀ artifact,
      (leftSchedule.follow left base).state.store.node?
          (base.placeOf ((Names.ofEntity settings.naming entity).artifactPath artifact)) =
        (rightSchedule.follow right base).state.store.node?
          (base.placeOf ((Names.ofEntity settings.naming entity).artifactPath artifact))) ∧
    Report.IsSummary ⟨left.runId, (leftSchedule.follow left base).entries⟩ := by
  have leftReady : left.Ready base :=
    Ready.of_accepted validSettings leftAccepted.validEntities leftAccepted.registered
      leftAccepted.options situated leftAccepted.canWrite
  have rightReady : right.Ready base :=
    Ready.of_accepted validSettings rightAccepted.validEntities rightAccepted.registered
      rightAccepted.options situated rightAccepted.canWrite
  have leftOutcome := (Schedule.sound_follow leftReady leftSchedule).isOutcome leftComplete
  have rightOutcome := (Schedule.sound_follow rightReady rightSchedule).isOutcome rightComplete
  have sameOptions : left.context.options = right.context.options :=
    leftAccepted.options.trans rightAccepted.options.symm
  have sameTexts : Emission.compose left.context entity = Emission.compose right.context entity :=
    Emission.compose_congr sameOptions sameBase
  refine ⟨⟨expectedReport left.context entity, ?_, ?_⟩, ?_, Report.isSummary _⟩
  · rw [leftOutcome.entries, List.getElem?_map, leftAt]
    rfl
  · have sameReport : expectedReport left.context entity = expectedReport right.context entity := by
      simp only [expectedReport, sameTexts, sameOptions]
    rw [rightOutcome.entries, List.getElem?_map, rightAt, sameReport]
    rfl
  · intro artifact
    have onLeft :=
      leftOutcome.node?_artifactPath leftReady (List.mem_of_getElem? leftAt) artifact
    have onRight :=
      rightOutcome.node?_artifactPath rightReady (List.mem_of_getElem? rightAt) artifact
    rw [leftAccepted.options] at onLeft
    rw [rightAccepted.options] at onRight
    rw [onLeft, onRight]
    simp only [expectedNode, sameTexts, sameOptions]

/-! ## A singleton among different entities -/

/-- The singleton with another interface under the name of its base, which has a method of an
unknown type. -/
def brokenWidgets : Generation :=
  ⟨Settings.default.naming,
    ⟨[ ⟨"theWidget", ⟨["a"]⟩, .known .interfaceSingleton, none, none, some "a.Widget"⟩,
      ⟨"Widget", ⟨["a"]⟩, .known .interface, some [⟨"get", ⟨"no type"⟩, []⟩], none, none⟩ ]⟩,
    1, [], none⟩

theorem accepted_widgetGeneration :
    widgetGeneration.Accepted Settings.default outdatedWidget :=
  ⟨rfl, check_of_mem_widgetEntities, rfl, canWrite_widgetGeneration⟩

theorem accepted_brokenWidgets :
    brokenWidgets.Accepted Settings.default outdatedWidget := by
  have checked : ∀ entity ∈ brokenWidgets.registry.entities, entity.check = .ok () := by
    intro entity member
    simp only [brokenWidgets, List.mem_cons, List.not_mem_nil, or_false] at member
    rcases member with rfl | rfl <;> rfl
  exact
    ⟨rfl, checked, rfl,
      canWrite_of_memory ((Settings.check_eq_ok_iff Settings.default).1 rfl).2.1 checked rfl
        fun _ _ => rfl⟩

/-- The entry of the singleton is the same whether or not its base can be generated. -/
theorem theWidget_isolated :
    ∃ entry,
      (Schedule.follow (List.replicate 6 [0, 1, 2]).flatten widgetGeneration
        outdatedWidget).entries[0]? = some entry ∧
      (Schedule.follow (Schedule.oneByOne 2) brokenWidgets outdatedWidget).entries[0]? =
        some entry := by
  have sameBase :
      ∀ name, some "a.Widget".toList = some name →
        (widgetGeneration.registry.find? name).map Entity.tag =
          (brokenWidgets.registry.find? name).map Entity.tag := by
    intro name named
    rw [← Option.some.inj named]
    rfl
  exact (entity_isolated Settings.default outdatedWidget widgetGeneration brokenWidgets rfl
    (fun onDisk => Manner.noConfusion onDisk) accepted_widgetGeneration accepted_brokenWidgets
    0 _ rfl rfl (fun _ => sameBase) _ _
    (Schedule.isComplete_follow _ _ _ (by decide))
    (Schedule.isComplete_follow _ _ _ (by decide))).1

end Generation

end UnoBindgen
