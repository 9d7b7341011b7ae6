import Mathlib
import UnoBindgen.Generation
import UnoBindgen.Proofs.Emission.Delivery
import UnoBindgen.Proofs.Naming.Targets
import UnoBindgen.Proofs.OutputTree.Placing

/-!
# Entities do not get in each other's way

The files of accepted entities lie at places of their own below the root: no file is at, or on the
way to, a file or directory of another entity.  So the changes that generate them are apart from
each other.
-/

namespace UnoBindgen.Generation

open OutputTree
open OutputTree.State

/-- The changes that generate an entity.  There are none when it is not composed. -/
def changes (context : Emission.Context) (entity : Entity) : List Change :=
  match Emission.compose context entity with
  | .error _ => []
  | .ok texts => placements (Names.ofEntity context.options entity) texts

theorem changes_of_error
    {context : Emission.Context}
    {entity : Entity}
    {fault : Fault}
    (refused : Emission.compose context entity = .error fault) :
    changes context entity = [] := by
  rw [changes, refused]

theorem changes_of_ok
    {context : Emission.Context}
    {entity : Entity}
    {texts : Texts}
    (composed : Emission.compose context entity = .ok texts) :
    changes context entity = placements (Names.ofEntity context.options entity) texts := by
  rw [changes, composed]

theorem exists_artifact_of_mem_changes
    {context : Emission.Context}
    {entity : Entity}
    {change : Change}
    (member : change ∈ changes context entity)
    (isFile : change.IsFile) :
    ∃ artifact,
      change.relative = (Names.ofEntity context.options entity).artifactPath artifact := by
  cases composed : Emission.compose context entity with
  | error fault =>
      rw [changes_of_error composed] at member
      exact absurd member (by simp)
  | ok texts =>
      rw [changes_of_ok composed] at member
      rcases List.mem_cons.1 member with rfl | placed
      · exact (Change.not_isFile_directory _ isFile).elim
      · obtain ⟨artifact, -, rfl⟩ := List.mem_map.1 placed
        exact ⟨artifact, rfl⟩

/-- A composed entity has something to place. -/
theorem isEmpty_of_compose
    {context : Emission.Context}
    {entity : Entity}
    {texts : Texts}
    (composed : Emission.compose context entity = .ok texts) :
    texts.isEmpty = false := by
  obtain ⟨body, -, -, shape⟩ := Emission.isTidy_of_compose composed .declaration
  have nonempty : texts.declaration ≠ [] := by
    change texts.get .declaration ≠ []
    simp [shape]
  simp [Texts.isEmpty, nonempty]

/-! ## Places of files and directories -/

section Places

variable
  {options : NamingOptions}
  (wellFormed : options.WellFormed)
  (base : State)

include wellFormed

theorem placeOf_directory
    {entity : Entity}
    (checked : entity.check = .ok ()) :
    base.placeOf (Names.ofEntity options entity).directory =
      base.store.place base.tree.root ++ entity.module.capitalizedSegments :=
  FileStore.place_join base.store base.tree.root fun _ member =>
    Names.isPlain_of_mem_targetSegments wellFormed checked .declaration
      (List.mem_append_left _ member)

theorem placeOf_artifactPath
    {entity : Entity}
    (checked : entity.check = .ok ())
    (artifact : Artifact) :
    base.placeOf ((Names.ofEntity options entity).artifactPath artifact) =
      base.store.place base.tree.root ++ Names.targetSegments options entity artifact := by
  rw [Names.artifactPath_eq_join wellFormed checked]
  exact FileStore.place_join base.store base.tree.root fun _ member =>
    Names.isPlain_of_mem_targetSegments wellFormed checked artifact member

theorem placeOf_artifactPath_ne_nil
    {entity : Entity}
    (checked : entity.check = .ok ())
    (artifact : Artifact) :
    base.placeOf ((Names.ofEntity options entity).artifactPath artifact) ≠ [] := by
  rw [placeOf_artifactPath wellFormed base checked]
  simp [Names.targetSegments]

variable
  {left right : Entity}
  (leftChecked : left.check = .ok ())
  (rightChecked : right.check = .ok ())

include leftChecked rightChecked

/-- No file is a directory of an entity, or on the way to one. -/
theorem not_prefix_directory (artifact : Artifact) :
    ¬ base.placeOf ((Names.ofEntity options left).artifactPath artifact) <+:
        base.placeOf (Names.ofEntity options right).directory := by
  rw [placeOf_artifactPath wellFormed base leftChecked,
    placeOf_directory wellFormed base rightChecked, List.prefix_append_right_inj]
  intro above
  apply Names.file_not_mem_capitalizedSegments wellFormed rightChecked left.name artifact
  exact above.subset (by simp [Names.targetSegments])

/-- Only a file itself is at its place, or below it. -/
theorem guard_eq_of_above
    {leftArtifact rightArtifact : Artifact}
    (above :
      base.placeOf ((Names.ofEntity options left).artifactPath leftArtifact) <+:
        base.placeOf ((Names.ofEntity options right).artifactPath rightArtifact)) :
    left.path.headerGuard = right.path.headerGuard ∧ leftArtifact = rightArtifact := by
  rw [placeOf_artifactPath wellFormed base leftChecked,
    placeOf_artifactPath wellFormed base rightChecked, List.prefix_append_right_inj] at above
  have sameSegments :
      Names.targetSegments options left leftArtifact =
        Names.targetSegments options right rightArtifact := by
    rcases List.prefix_concat_iff.1 above with same | inDirectory
    · exact same
    · exact (Names.file_not_mem_capitalizedSegments wellFormed rightChecked left.name leftArtifact
        (inDirectory.subset (by simp [Names.targetSegments]))).elim
  have samePath :
      (Names.ofEntity options left).artifactPath leftArtifact =
        (Names.ofEntity options right).artifactPath rightArtifact := by
    rw [Names.artifactPath_eq_join wellFormed leftChecked,
      Names.artifactPath_eq_join wellFormed rightChecked, sameSegments]
  obtain rfl :=
    Names.artifact_eq_of_artifactPath_eq wellFormed leftChecked rightChecked samePath
  exact
    ⟨Names.headerGuard_eq_of_foldAscii_artifactPath_eq wellFormed leftChecked rightChecked
      leftArtifact (congrArg Text.foldAscii samePath), rfl⟩

/-- A file is neither at nor on the way to what another entity changes. -/
theorem not_prefix_of_mem_placements
    (apart : left.Apart right)
    (artifact : Artifact)
    {texts : Texts}
    {change : Change}
    (member : change ∈ placements (Names.ofEntity options right) texts) :
    ¬ base.placeOf ((Names.ofEntity options left).artifactPath artifact) <+:
        base.placeOf change.relative := by
  rcases List.mem_cons.1 member with rfl | placed
  · exact not_prefix_directory wellFormed base leftChecked rightChecked artifact
  · obtain ⟨other, -, rfl⟩ := List.mem_map.1 placed
    intro above
    exact apart.guards (guard_eq_of_above wellFormed base leftChecked rightChecked above).1

end Places

/-! ## Apart changes -/

section Apart

variable
  {context : Emission.Context}
  (wellFormed : context.options.WellFormed)
  (base : State)

include wellFormed

theorem not_prefix_of_mem_changes
    {left right : Entity}
    (leftChecked : left.check = .ok ())
    (rightChecked : right.check = .ok ())
    (apart : left.Apart right)
    (artifact : Artifact)
    {change : Change}
    (member : change ∈ changes context right) :
    ¬ base.placeOf ((Names.ofEntity context.options left).artifactPath artifact) <+:
        base.placeOf change.relative := by
  cases composed : Emission.compose context right with
  | error fault =>
      rw [changes_of_error composed] at member
      exact absurd member (by simp)
  | ok texts =>
      rw [changes_of_ok composed] at member
      exact not_prefix_of_mem_placements wellFormed base leftChecked rightChecked apart artifact
        member

theorem pairwise_changes_of_entity
    {entity : Entity}
    (checked : entity.check = .ok ()) :
    (changes context entity).Pairwise base.Apart := by
  cases composed : Emission.compose context entity with
  | error fault =>
      rw [changes_of_error composed]
      exact List.Pairwise.nil
  | ok texts =>
      rw [changes_of_ok composed, placements, List.pairwise_cons]
      constructor
      · intro change placed
        obtain ⟨artifact, -, rfl⟩ := List.mem_map.1 placed
        exact
          { forward := fun isFile => (Change.not_isFile_directory _ isFile).elim
            backward := fun _ =>
              not_prefix_directory wellFormed base checked checked artifact }
      · have distinct : Artifact.all.Nodup := by decide
        rw [List.pairwise_map]
        refine distinct.imp fun {first second} differs => ?_
        exact
          { forward := fun _ above =>
              differs (guard_eq_of_above wellFormed base checked checked above).2
            backward := fun _ above =>
              differs (guard_eq_of_above wellFormed base checked checked above).2.symm }

/-- The changes of accepted entities are all apart. -/
theorem pairwise_changes
    {entities : List Entity}
    (checked : ∀ entity ∈ entities, entity.check = .ok ())
    (apart : entities.Pairwise Entity.Apart) :
    (entities.flatMap (changes context)).Pairwise base.Apart := by
  rw [List.pairwise_flatMap]
  constructor
  · intro entity member
    exact pairwise_changes_of_entity wellFormed base (checked entity member)
  · refine apart.imp_of_mem fun {left right} leftMember rightMember separate => ?_
    intro first firstMember second secondMember
    constructor
    · intro isFile
      obtain ⟨artifact, located⟩ := exists_artifact_of_mem_changes firstMember isFile
      rw [located]
      exact not_prefix_of_mem_changes wellFormed base (checked left leftMember)
        (checked right rightMember) separate artifact secondMember
    · intro isFile
      obtain ⟨artifact, located⟩ := exists_artifact_of_mem_changes secondMember isFile
      rw [located]
      exact not_prefix_of_mem_changes wellFormed base (checked right rightMember)
        (checked left leftMember) separate.symm artifact firstMember

theorem placeOf_ne_nil_of_mem_changes
    {entity : Entity}
    (checked : entity.check = .ok ())
    {change : Change}
    (member : change ∈ changes context entity)
    (isFile : change.IsFile) :
    base.placeOf change.relative ≠ [] := by
  obtain ⟨artifact, located⟩ := exists_artifact_of_mem_changes member isFile
  rw [located]
  exact placeOf_artifactPath_ne_nil wellFormed base checked artifact

end Apart

end UnoBindgen.Generation
