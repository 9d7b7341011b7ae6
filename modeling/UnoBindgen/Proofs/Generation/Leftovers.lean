import Mathlib
import UnoBindgen.Proofs.Emission.ForeignInterface
import UnoBindgen.Proofs.Generation.Freshness

/-!
# Leftovers of an earlier generation

When an entity is taken out of the schemas, its files stay behind until someone deletes them.  A
comparison with a fresh generation of the remaining entities finds such a leftover when it knows
the file by its extension.  But it reads the extension of a file from the last dot on, while files
are named with everything that was configured, which may have more than one dot.

The main theorem states exactly which leftovers are found: those of an artifact whose extension,
read from its last dot on, is one of the configured extensions.
-/

namespace UnoBindgen

/-! ## Telling files by their extensions -/

/-- The files of an artifact are known by their extension: what is read of it is configured. -/
def NamingOptions.Recognizes (options : NamingOptions) (artifact : Artifact) : Prop :=
  ∃ other, Text.SlashPath.extension (options.extension artifact) = options.extension other

/-- An artifact is recognized when its extension has no dot but the first. -/
theorem NamingOptions.recognizes_of_single_dot
    {options : NamingOptions}
    {artifact : Artifact}
    {rest : Text}
    (shape : options.extension artifact = '.' :: rest)
    (noSlash : '/' ∉ rest)
    (noDot : '.' ∉ rest) :
    options.Recognizes artifact := by
  refine ⟨artifact, ?_⟩
  rw [shape, Text.SlashPath.extension_of_single_dot noSlash noDot]

namespace Comparison

theorem looksGenerated_iff
    (options : NamingOptions)
    (file : Text) :
    looksGenerated options file = true ↔
      ∃ artifact, Text.SlashPath.extension file = options.extension artifact := by
  simp only [looksGenerated, Bool.or_eq_true, beq_iff_eq]
  constructor
  · rintro ((header | source) | binding)
    · exact ⟨.declaration, header⟩
    · exact ⟨.implementation, source⟩
    · exact ⟨.binding, binding⟩
  · rintro ⟨artifact, same⟩
    cases artifact with
    | declaration => exact .inl (.inl same)
    | implementation => exact .inl (.inr same)
    | binding => exact .inr same

/-- A generated file has the extension that is read of its artifact's extension alone. -/
theorem extension_artifactPath
    {options : NamingOptions}
    (wellFormed : options.WellFormed)
    {entity : Entity}
    (checked : entity.check = .ok ())
    (artifact : Artifact) :
    Text.SlashPath.extension ((Names.ofEntity options entity).artifactPath artifact) =
      Text.SlashPath.extension (options.extension artifact) := by
  obtain ⟨rest, shape, -, noSlash⟩ :=
    Settings.exists_of_isExtension (wellFormed.extension artifact)
  obtain ⟨before, ending⟩ :
      ∃ before,
        (Names.ofEntity options entity).artifactPath artifact =
          before ++ options.extension artifact := by
    rw [Names.artifactPath_eq_join wellFormed checked, Names.targetSegments, Text.join_concat]
    split
    · exact ⟨entity.name, rfl⟩
    · exact ⟨_, (List.append_assoc _ _ _).symm⟩
  rw [ending, shape, Text.SlashPath.extension_append_dot before noSlash]
  exact (Text.SlashPath.extension_append_dot [] noSlash).symm

theorem looksGenerated_artifactPath_iff
    {options : NamingOptions}
    (wellFormed : options.WellFormed)
    {entity : Entity}
    (checked : entity.check = .ok ())
    (artifact : Artifact) :
    looksGenerated options ((Names.ofEntity options entity).artifactPath artifact) = true ↔
      options.Recognizes artifact := by
  rw [looksGenerated_iff, extension_artifactPath wellFormed checked]
  rfl

end Comparison

namespace Generation

open FileStore
open OutputTree
open OutputTree.State

/-! ## Generations without failures -/

/-- A generation in which every entity succeeds: accepted settings, and consistent entities that
are accepted together and can all be composed. -/
structure IsFlawless (settings : Settings) (generation : Generation) : Prop where
  valid : settings.check = .ok ()
  naming : generation.options = settings.naming
  accepted : Registry.ofEntities generation.registry.entities = .ok generation.registry
  checked : ∀ entity ∈ generation.registry.entities, entity.check = .ok ()
  composed :
    ∀ entity ∈ generation.registry.entities,
      ∃ texts, Emission.compose generation.context entity = .ok texts
  uncancelled : generation.cancelAfter = none

namespace IsFlawless

variable
  {settings : Settings}
  {generation : Generation}
  (flawless : generation.IsFlawless settings)

include flawless

theorem wellFormed : settings.naming.WellFormed :=
  ((Settings.check_eq_ok_iff settings).1 flawless.valid).2.1

theorem isCoherent : generation.IsCoherent where
  wellFormed := by
    rw [context, flawless.naming]
    exact flawless.wellFormed
  checked := flawless.checked
  apart := ((Registry.ofEntities_eq_ok_iff _ _).1 flawless.accepted).1

/-- All targets are generated, and nothing else. -/
theorem mem_filesOf_iff (file : Text) :
    file ∈ filesOf generation.allChanges ↔
      file ∈ Names.targets settings.naming generation.registry.entities := by
  rw [State.mem_filesOf_iff, Names.mem_targets_iff]
  constructor
  · rintro ⟨content, changed⟩
    obtain ⟨entity, member, ofEntity⟩ := List.mem_flatMap.1 changed
    obtain ⟨artifact, located⟩ :=
      exists_artifact_of_mem_changes ofEntity (Change.isFile_file file content)
    rw [Change.relative_file, context, flawless.naming] at located
    exact ⟨entity, member, artifact, located.symm⟩
  · rintro ⟨entity, member, artifact, rfl⟩
    obtain ⟨texts, composed⟩ := flawless.composed entity member
    have placed := placement_mem_allChanges member composed artifact
    rw [context, flawless.naming] at placed
    exact ⟨_, placed⟩

/-- There is room for a flawless generation where there is room for its targets. -/
theorem isRoomy
    {store : FileStore}
    {root : Text}
    (tree : store.IsTree)
    (situated : store.IsSituated)
    (free : ∀ action place, store.refusal action place = none)
    (room :
      State.HasRoom ⟨store, .start root⟩
        (Names.targets settings.naming generation.registry.entities)) :
    generation.IsRoomy ⟨store, .start root⟩ where
  coherent := flawless.isCoherent
  tree := tree
  situated := situated
  free := free
  room :=
    { directories := fun file generated =>
        room.directories file ((flawless.mem_filesOf_iff file).1 generated)
      files := fun file generated =>
        room.files file ((flawless.mem_filesOf_iff file).1 generated) }

end IsFlawless

/-! ## One generation after another -/

/-- The store that a generation leaves. -/
def storeAfter (generation : Generation) (store : FileStore) (root : Text) : FileStore :=
  (generation.run ⟨store, .start root⟩).state.store

/-- A flawless generation is made below one root, and then another one below a root without files,
under the same settings and in a tree with room for both. -/
structure GeneratedInTurn
    (settings : Settings)
    (earlier later : Generation)
    (store : FileStore)
    (existing fresh : Text) :
    Prop where
  earlierFlawless : earlier.IsFlawless settings
  laterFlawless : later.IsFlawless settings
  tree : store.IsTree
  situated : store.IsSituated
  free : ∀ action place, store.refusal action place = none
  room :
    State.HasRoom ⟨store, .start existing⟩
      (Names.targets settings.naming earlier.registry.entities)
  /-- The second root has no files. -/
  unused : (earlier.storeAfter store existing).filesBelow fresh = []
  freshRoom :
    State.HasRoom ⟨earlier.storeAfter store existing, .start fresh⟩
      (Names.targets settings.naming later.registry.entities)
  /-- In the end both roots, as they are spelled, lead to their places. -/
  finds : (later.storeAfter (earlier.storeAfter store existing) fresh).Finds existing
  freshFinds : (later.storeAfter (earlier.storeAfter store existing) fresh).Finds fresh

namespace GeneratedInTurn

variable
  {settings : Settings}
  {earlier later : Generation}
  {store : FileStore}
  {existing fresh : Text}
  (generated : GeneratedInTurn settings earlier later store existing fresh)

include generated

/-- Both generations are made, and what the second leaves holds the targets of each below its
root. -/
theorem targets_listed :
    let last := later.storeAfter (earlier.storeAfter store existing) fresh
    last.IsTree ∧
      (∀ action place, last.refusal action place = none) ∧
      (∀ file ∈ Names.targets settings.naming earlier.registry.entities,
        file ∈ last.filesBelow existing) ∧
      ∀ file, file ∈ last.filesBelow fresh ↔
        file ∈ Names.targets settings.naming later.registry.entities := by
  have roomy :=
    generated.earlierFlawless.isRoomy generated.tree generated.situated generated.free
      generated.room
  obtain ⟨middle, applied⟩ := roomy.exists_applyAll
  have left : earlier.storeAfter store existing = middle.store :=
    congrArg State.store (run_of_applyAll generated.earlierFlawless.uncancelled applied).1
  have freshRoom := generated.freshRoom
  have empty := generated.unused
  rw [left] at freshRoom empty ⊢
  have freshRoomy :=
    generated.laterFlawless.isRoomy (roomy.isTree applied) (roomy.isSituated applied)
      (roomy.refusal_eq_none applied) freshRoom
  obtain ⟨last, freshApplied⟩ := freshRoomy.exists_applyAll
  have leftLater : later.storeAfter middle.store fresh = last.store :=
    congrArg State.store (run_of_applyAll generated.laterFlawless.uncancelled freshApplied).1
  rw [leftLater]
  refine ⟨freshRoomy.isTree freshApplied, freshRoomy.refusal_eq_none freshApplied, ?_, ?_⟩
  · intro file target
    have made := (generated.earlierFlawless.mem_filesOf_iff file).2 target
    have listed := (roomy.mem_filesBelow_iff applied file).2 (.inr made)
    have noFile := roomy.not_hasFile_root_later applied made
    rw [← (roomy.shows applied).place] at noFile
    -- The fresh root may even be inside the existing one: generated files stay files.
    exact freshRoomy.mem_filesBelow_of_mem freshApplied noFile listed
  · intro file
    rw [← generated.laterFlawless.mem_filesOf_iff]
    exact freshRoomy.mem_filesBelow_of_empty freshApplied empty file

end GeneratedInTurn

/--
A comparison with a fresh generation can be made, and it lists a leftover of an earlier generation
exactly when it recognizes the artifact by its extension.  So a tree with a leftover that is
recognized is not up to date.
-/
theorem mem_stale_iff_recognizes
    (settings : Settings)
    (earlier later : Generation)
    (store : FileStore)
    (existing fresh : Text)
    (generated : GeneratedInTurn settings earlier later store existing fresh) :
    ∃ comparison,
      Comparison.ofTrees (later.storeAfter (earlier.storeAfter store existing) fresh)
          fresh existing settings.naming = .ok comparison ∧
        ∀ entity ∈ earlier.registry.entities, ∀ artifact,
          (Names.ofEntity settings.naming entity).artifactPath artifact ∉
              Names.targets settings.naming later.registry.entities →
            ((Names.ofEntity settings.naming entity).artifactPath artifact ∈ comparison.stale ↔
                settings.naming.Recognizes artifact) ∧
              (settings.naming.Recognizes artifact → comparison.isUpToDate = false) := by
  obtain ⟨tree, free, inExisting, inFresh⟩ := generated.targets_listed
  have lists := tree.listsPlainly
  have listable := Comparison.isListable_of_finds free generated.finds
  have freshListable := Comparison.isListable_of_finds free generated.freshFinds
  obtain ⟨comparison, compared⟩ :=
    Comparison.exists_ofTrees lists (fun _ => free _ _) (fun _ => free _ _) freshListable listable
      settings.naming
  obtain ⟨files, ofExisting, -, found⟩ := Comparison.exists_filesOf lists listable
  obtain ⟨freshFiles, ofFresh, -, foundFresh⟩ := Comparison.exists_filesOf lists freshListable
  refine ⟨comparison, compared, fun entity member artifact leftover => ?_⟩
  have stale :
      (Names.ofEntity settings.naming entity).artifactPath artifact ∈ comparison.stale ↔
        settings.naming.Recognizes artifact := by
    rw [Comparison.mem_stale_iff ofFresh ofExisting compared, found, foundFresh,
      lists.findsBelow_iff generated.finds, lists.findsBelow_iff generated.freshFinds, inFresh,
      Comparison.looksGenerated_artifactPath_iff generated.earlierFlawless.wellFormed
        (generated.earlierFlawless.checked entity member)]
    have listed :=
      inExisting _ ((Names.mem_targets_iff _ _ _).2 ⟨entity, member, artifact, rfl⟩)
    simp [listed, leftover]
  exact ⟨stale, fun recognized =>
    Comparison.isUpToDate_eq_false_of_stale (stale.2 recognized)⟩

/-! ## A widget that was taken out -/

/-- The generation of bare interfaces under these settings. -/
def bareGeneration (settings : Settings) (names : List Text) : Generation :=
  ⟨settings.naming, ⟨names.map Entity.bareInterface⟩, 0, [], none⟩

/-- A store in memory with nothing in it. -/
def emptyStore : FileStore := ⟨.memory, [], [], fun _ _ => none, fun _ => none⟩

/-- Settings whose extensions have two dots each. -/
def dottedSettings : Settings :=
  { Settings.default with
    naming :=
      { NamingOptions.default with
        headerExtension := ".gen.hpp"
        sourceExtension := ".gen.cpp"
        bindingExtension := ".gen.hs" } }

theorem isFlawless_bareGeneration
    {settings : Settings}
    (valid : settings.check = .ok ())
    {names : List Text}
    (consistent : ∀ name ∈ names, (Entity.bareInterface name).fault? = none)
    (apart : Registry.firstClash? [] (names.map Entity.bareInterface) = none) :
    (bareGeneration settings names).IsFlawless settings := by
  have checked : ∀ entity ∈ names.map Entity.bareInterface, entity.check = .ok () := by
    intro entity member
    obtain ⟨name, named, rfl⟩ := List.mem_map.1 member
    exact (Entity.check_eq_ok_iff _).2 (consistent name named)
  refine
    { valid := valid
      naming := rfl
      accepted := ?_
      checked := checked
      composed := ?_
      uncancelled := rfl }
  · simp only [bareGeneration, Registry.ofEntities, apart]
  · intro entity member
    obtain ⟨name, named, rfl⟩ := List.mem_map.1 member
    exact Emission.exists_compose_of_plans (checked _ member) rfl rfl

/-- Two interfaces are generated in an empty store, and then only one of them at another place. -/
def TakenOut (settings : Settings) : Prop :=
  GeneratedInTurn settings
    (bareGeneration settings ["Widget", "Gadget"]) (bareGeneration settings ["Gadget"])
    emptyStore "/gen" "/fresh"

/-- What is compared after a widget was taken out. -/
def storeWithoutWidget (settings : Settings) : FileStore :=
  (bareGeneration settings ["Gadget"]).storeAfter
    ((bareGeneration settings ["Widget", "Gadget"]).storeAfter emptyStore "/gen") "/fresh"

theorem takenOut_default : TakenOut .default where
  earlierFlawless := isFlawless_bareGeneration rfl (by decide) (by decide)
  laterFlawless := isFlawless_bareGeneration rfl (by decide) (by decide)
  tree := by decide
  situated := by decide
  free := fun _ _ => rfl
  room := ⟨by decide +kernel, by decide +kernel⟩
  unused := by decide +kernel
  freshRoom := ⟨by decide +kernel, by decide +kernel⟩
  finds := by decide +kernel
  freshFinds := by decide +kernel

theorem takenOut_dotted : TakenOut dottedSettings where
  earlierFlawless := isFlawless_bareGeneration rfl (by decide) (by decide)
  laterFlawless := isFlawless_bareGeneration rfl (by decide) (by decide)
  tree := by decide
  situated := by decide
  free := fun _ _ => rfl
  room := ⟨by decide +kernel, by decide +kernel⟩
  unused := by decide +kernel
  freshRoom := ⟨by decide +kernel, by decide +kernel⟩
  finds := by decide +kernel
  freshFinds := by decide +kernel

/-- Under the default settings the header of the widget is found. -/
theorem widget_leftover_found :
    TakenOut .default ∧
      ∃ comparison,
        Comparison.ofTrees (storeWithoutWidget .default) "/fresh" "/gen" .default =
            .ok comparison ∧
          "A/Widget.hpp".toList ∈ comparison.stale ∧
          comparison.isUpToDate = false := by
  obtain ⟨comparison, compared, leftovers⟩ :=
    mem_stale_iff_recognizes .default _ _ _ _ _ takenOut_default
  have recognized : NamingOptions.default.Recognizes .declaration :=
    NamingOptions.recognizes_of_single_dot rfl (by decide) (by decide)
  obtain ⟨stale, outOfDate⟩ :=
    leftovers (.bareInterface "Widget") List.mem_cons_self .declaration (by decide +kernel)
  exact ⟨takenOut_default, comparison, compared, stale.2 recognized, outOfDate recognized⟩

/-- With two dots in every extension no file of the widget is found, and the tree passes for up to
date. -/
theorem widget_leftover_overlooked :
    TakenOut dottedSettings ∧
      "A/Widget.gen.hpp".toList ∈
        Names.targets dottedSettings.naming [.bareInterface "Widget", .bareInterface "Gadget"] ∧
      "A/Widget.gen.hpp".toList ∉ Names.targets dottedSettings.naming [.bareInterface "Gadget"] ∧
      ∃ comparison,
        Comparison.ofTrees (storeWithoutWidget dottedSettings) "/fresh" "/gen"
            dottedSettings.naming = .ok comparison ∧
          "A/Widget.gen.hpp".toList ∉ comparison.stale ∧
          comparison.isUpToDate = true := by
  have evaluated :
      (Comparison.ofTrees (storeWithoutWidget dottedSettings) "/fresh" "/gen"
        dottedSettings.naming).toOption = some ⟨[], [], []⟩ := by
    decide +kernel
  refine ⟨takenOut_dotted, by decide +kernel, by decide +kernel, ⟨[], [], []⟩, ?_, by simp, rfl⟩
  cases compared :
      Comparison.ofTrees (storeWithoutWidget dottedSettings) "/fresh" "/gen"
        dottedSettings.naming with
  | error fault =>
      rw [compared] at evaluated
      exact absurd evaluated (by simp [Except.toOption])
  | ok comparison =>
      rw [compared] at evaluated
      exact congrArg Except.ok (Option.some.inj evaluated)

end Generation

end UnoBindgen
