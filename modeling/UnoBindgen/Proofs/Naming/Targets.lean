import Mathlib
import UnoBindgen.Naming
import UnoBindgen.Proofs.Entity.Consistency
import UnoBindgen.Proofs.ModulePath
import UnoBindgen.Proofs.Registry.Acceptance
import UnoBindgen.Proofs.Settings.Acceptance
import UnoBindgen.Proofs.Text.Casing
import UnoBindgen.Proofs.Text.SlashPath

/-!
# Derived targets do not collide

The registry compares flat stems and upper-case guards, while files lie in capitalized directories
and have configurable extensions.  The bridge between the two is letter case: the segments of a
target determine, up to letter case, the segments of the entity's path, and these determine the
upper-case guard.  The first dot of a file name ends the entity's name, because identifiers have
no dot and extensions start with one.

The main theorem states that settings and entities which are accepted never derive two targets
that could overwrite or hide one another.
-/

namespace UnoBindgen

/-! ## Views of module paths -/

namespace ModulePath

theorem isFollowing_of_mem_flattened
    {path : ModulePath}
    (identifiers : path.HasIdentifiers)
    {character : Char}
    (member : character ∈ path.flattened) :
    Identifier.isFollowing character = true := by
  rcases Text.mem_join member with inSeparator | ⟨segment, segmentMember, inSegment⟩
  · have underscore : character = '_' := by simpa using inSeparator
    rw [underscore]
    decide
  · exact isFollowing_of_mem_isIdentifier (identifiers segment segmentMember) inSegment

/-- Paths that differ in letter case only have the same guard. -/
theorem headerGuard_eq_of_foldAscii_eq
    {left right : ModulePath}
    (leftIdentifiers : left.HasIdentifiers)
    (rightIdentifiers : right.HasIdentifiers)
    (same : left.segments.map Text.foldAscii = right.segments.map Text.foldAscii) :
    left.headerGuard = right.headerGuard := by
  apply Text.toUpper_eq_of_foldAscii_eq
  · exact fun character member => isFollowing_of_mem_flattened leftIdentifiers member
  · exact fun character member => isFollowing_of_mem_flattened rightIdentifiers member
  · have folded (path : ModulePath) :
        Text.foldAscii path.flattened =
          Text.join (Text.foldAscii "_") (path.segments.map Text.foldAscii) :=
      Text.map_join Char.toLower "_" path.segments
    rw [folded left, folded right, same]

theorem isIdentifier_of_mem_capitalizedSegments
    {path : ModulePath}
    (identifiers : path.HasIdentifiers)
    {segment : Text}
    (member : segment ∈ path.capitalizedSegments) :
    isIdentifier segment = true := by
  obtain ⟨original, originalMember, rfl⟩ := List.mem_map.1 member
  exact Text.isIdentifier_capitalize (identifiers original originalMember)

theorem map_foldAscii_capitalizedSegments
    {path : ModulePath}
    (identifiers : path.HasIdentifiers) :
    path.capitalizedSegments.map Text.foldAscii = path.segments.map Text.foldAscii := by
  rw [capitalizedSegments, List.map_map]
  exact List.map_congr_left fun segment member =>
    Text.foldAscii_capitalize (identifiers segment member)

end ModulePath

namespace Entity

theorem hasIdentifiers_path
    {entity : Entity}
    (checked : entity.check = .ok ()) :
    entity.path.HasIdentifiers :=
  fun _ member => isIdentifier_of_mem_path checked member

theorem hasIdentifiers_module
    {entity : Entity}
    (checked : entity.check = .ok ()) :
    entity.module.HasIdentifiers :=
  fun _ member => isIdentifier_of_mem_path checked (List.mem_append_left [entity.name] member)

theorem isIdentifier_name
    {entity : Entity}
    (checked : entity.check = .ok ()) :
    isIdentifier entity.name = true :=
  isIdentifier_of_mem_path checked
    (List.mem_append_right entity.module.segments (List.mem_singleton_self entity.name))

end Entity

/-! ## The segments of a target -/

/-- An extension is a dot and more, without a slash. -/
theorem Settings.exists_of_isExtension
    {extension : Text}
    (shaped : Settings.isExtension extension = true) :
    ∃ rest : Text, extension = '.' :: rest ∧ rest ≠ [] ∧ '/' ∉ rest := by
  unfold Settings.isExtension at shaped
  split at shaped
  · rename_i rest
    simp only [Bool.and_eq_true, Bool.not_eq_true', List.isEmpty_eq_false_iff,
      List.all_eq_true, bne_iff_ne] at shaped
    exact ⟨rest, rfl, shaped.1, fun member => (shaped.2 '/' member).1 rfl⟩
  · exact (Bool.false_ne_true shaped).elim

namespace Names

/-- The name of an artifact's file: the entity's name and the extension. -/
theorem files_get
    (options : NamingOptions)
    (entity : Entity)
    (artifact : Artifact) :
    (ofEntity options entity).files.get artifact = entity.name ++ options.extension artifact := by
  cases artifact <;> rfl

/-- The directories on the way to an artifact, and its file. -/
def targetSegments
    (options : NamingOptions)
    (entity : Entity)
    (artifact : Artifact) :
    List Text :=
  entity.module.capitalizedSegments ++ [entity.name ++ options.extension artifact]

theorem targetSegments_ne_nil
    (options : NamingOptions)
    (entity : Entity)
    (artifact : Artifact) :
    targetSegments options entity artifact ≠ [] := by
  simp [targetSegments]

variable
  {options : NamingOptions}
  (wellFormed : options.WellFormed)

include wellFormed

theorem isPlain_file
    {name : Text}
    (identifier : isIdentifier name = true)
    (artifact : Artifact) :
    Text.SlashPath.IsPlain (name ++ options.extension artifact) := by
  obtain ⟨rest, shape, restNonempty, noSlash⟩ :=
    Settings.exists_of_isExtension (wellFormed.extension artifact)
  obtain ⟨first, others, rfl⟩ :=
    List.exists_cons_of_ne_nil (ne_nil_of_isIdentifier identifier)
  have notDot : first ≠ '.' := by
    rintro rfl
    exact not_mem_of_isIdentifier identifier (by decide) List.mem_cons_self
  rw [shape]
  refine ⟨by simp, ?_, ?_, ?_⟩
  · intro same
    exact notDot (List.cons.inj same).1
  · intro same
    exact notDot (List.cons.inj same).1
  · intro slash
    rcases List.mem_append.1 slash with inName | inExtension
    · exact not_mem_of_isIdentifier identifier (by decide) inName
    · rcases List.mem_cons.1 inExtension with isDot | inRest
      · exact absurd isDot (by decide)
      · exact noSlash inRest

theorem isPlain_of_mem_targetSegments
    {entity : Entity}
    (checked : entity.check = .ok ())
    (artifact : Artifact)
    {segment : Text}
    (member : segment ∈ targetSegments options entity artifact) :
    Text.SlashPath.IsPlain segment := by
  rcases List.mem_append.1 member with inDirectory | isFile
  · have identifier :=
      ModulePath.isIdentifier_of_mem_capitalizedSegments
        (Entity.hasIdentifiers_module checked) inDirectory
    exact
      { nonempty := ne_nil_of_isIdentifier identifier
        notSame := by
          rintro rfl
          exact absurd identifier (by decide)
        notUpwards := by
          rintro rfl
          exact absurd identifier (by decide)
        noSlash := not_mem_of_isIdentifier identifier (by decide) }
  · rw [List.mem_singleton.1 isFile]
    exact isPlain_file wellFormed (Entity.isIdentifier_name checked) artifact

/-- The path of a target is the join of its segments; cleaning it changes nothing. -/
theorem artifactPath_eq_join
    {entity : Entity}
    (checked : entity.check = .ok ())
    (artifact : Artifact) :
    (ofEntity options entity).artifactPath artifact =
      Text.join ['/'] (targetSegments options entity artifact) := by
  rw [artifactPath, filePath, files_get]
  exact Text.SlashPath.join_directory
    (fun segment member =>
      isPlain_of_mem_targetSegments wellFormed checked artifact
        (List.mem_append_left _ member))
    (isPlain_file wellFormed (Entity.isIdentifier_name checked) artifact)

theorem splitAt_artifactPath
    {entity : Entity}
    (checked : entity.check = .ok ())
    (artifact : Artifact) :
    ((ofEntity options entity).artifactPath artifact).splitAt '/' =
      targetSegments options entity artifact := by
  rw [artifactPath_eq_join wellFormed checked]
  exact Text.splitAt_join (targetSegments_ne_nil options entity artifact)
    fun segment member => (isPlain_of_mem_targetSegments wellFormed checked artifact member).noSlash

/-! ## Targets determine guards -/

/-- The name of an entity and the extension behind it can be told apart. -/
theorem file_injective
    {left right : Text}
    (leftIdentifier : isIdentifier left = true)
    (rightIdentifier : isIdentifier right = true)
    {leftArtifact rightArtifact : Artifact}
    (same : left ++ options.extension leftArtifact = right ++ options.extension rightArtifact) :
    left = right ∧ leftArtifact = rightArtifact := by
  obtain ⟨leftRest, leftShape, -, -⟩ :=
    Settings.exists_of_isExtension (wellFormed.extension leftArtifact)
  obtain ⟨rightRest, rightShape, -, -⟩ :=
    Settings.exists_of_isExtension (wellFormed.extension rightArtifact)
  have leftCut :
      Text.cutAt? '.' (left ++ '.' :: leftRest) = some (left, leftRest) :=
    Text.cutAt?_append (not_mem_of_isIdentifier leftIdentifier (by decide)) leftRest
  have rightCut :
      Text.cutAt? '.' (right ++ '.' :: rightRest) = some (right, rightRest) :=
    Text.cutAt?_append (not_mem_of_isIdentifier rightIdentifier (by decide)) rightRest
  rw [leftShape, rightShape] at same
  rw [same, rightCut] at leftCut
  obtain ⟨sameName, sameRest⟩ := Prod.mk.inj (Option.some.inj leftCut)
  refine ⟨sameName.symm, wellFormed.extensionsDistinct ?_⟩
  rw [leftShape, rightShape, sameRest]

/-- Entities whose targets of one kind agree up to letter case have the same guard. -/
theorem headerGuard_eq_of_foldAscii_artifactPath_eq
    {left right : Entity}
    (leftChecked : left.check = .ok ())
    (rightChecked : right.check = .ok ())
    (artifact : Artifact)
    (same :
      Text.foldAscii ((ofEntity options left).artifactPath artifact) =
        Text.foldAscii ((ofEntity options right).artifactPath artifact)) :
    left.path.headerGuard = right.path.headerGuard := by
  have folded (entity : Entity) (checked : entity.check = .ok ()) :
      (Text.foldAscii ((ofEntity options entity).artifactPath artifact)).splitAt '/' =
        (targetSegments options entity artifact).map Text.foldAscii := by
    have slashes :
        ∀ segment ∈ (targetSegments options entity artifact).map Text.foldAscii,
          '/' ∉ segment := by
      intro segment member
      obtain ⟨original, originalMember, rfl⟩ := List.mem_map.1 member
      have plain := isPlain_of_mem_targetSegments wellFormed checked artifact originalMember
      exact Text.slash_not_mem_foldAscii plain.noSlash
    rw [artifactPath_eq_join wellFormed checked, Text.foldAscii, Text.map_join]
    exact Text.splitAt_join (by simp [targetSegments]) slashes
  have sameSegments := (folded left leftChecked).symm.trans
    ((congrArg (Text.splitAt '/') same).trans (folded right rightChecked))
  simp only [targetSegments, List.map_append, List.map_cons, List.map_nil] at sameSegments
  obtain ⟨sameDirectory, sameFile⟩ := List.append_inj' sameSegments rfl
  have sameName : Text.foldAscii left.name = Text.foldAscii right.name := by
    have files := List.singleton_inj.1 sameFile
    simp only [Text.foldAscii, List.map_append] at files
    exact List.append_cancel_right files
  apply ModulePath.headerGuard_eq_of_foldAscii_eq
    (Entity.hasIdentifiers_path leftChecked) (Entity.hasIdentifiers_path rightChecked)
  rw [ModulePath.map_foldAscii_capitalizedSegments (Entity.hasIdentifiers_module leftChecked),
    ModulePath.map_foldAscii_capitalizedSegments (Entity.hasIdentifiers_module rightChecked)]
    at sameDirectory
  simp only [Entity.path, ModulePath.child, List.map_append, List.map_cons, List.map_nil,
    sameDirectory, sameName]

/-- Equal targets are of one kind. -/
theorem artifact_eq_of_artifactPath_eq
    {left right : Entity}
    (leftChecked : left.check = .ok ())
    (rightChecked : right.check = .ok ())
    {leftArtifact rightArtifact : Artifact}
    (same :
      (ofEntity options left).artifactPath leftArtifact =
        (ofEntity options right).artifactPath rightArtifact) :
    leftArtifact = rightArtifact := by
  have sameSegments := (splitAt_artifactPath wellFormed leftChecked leftArtifact).symm.trans
    ((congrArg (Text.splitAt '/') same).trans
      (splitAt_artifactPath wellFormed rightChecked rightArtifact))
  have sameFile := List.singleton_inj.1 (List.append_inj' sameSegments rfl).2
  exact (file_injective wellFormed (Entity.isIdentifier_name leftChecked)
    (Entity.isIdentifier_name rightChecked) sameFile).2

/-- No file of an entity is a directory: file names have a dot, and directories do not. -/
theorem file_not_mem_capitalizedSegments
    {entity : Entity}
    (checked : entity.check = .ok ())
    (name : Text)
    (artifact : Artifact) :
    name ++ options.extension artifact ∉ entity.module.capitalizedSegments := by
  intro member
  obtain ⟨rest, shape, -, -⟩ := Settings.exists_of_isExtension (wellFormed.extension artifact)
  have identifier :=
    ModulePath.isIdentifier_of_mem_capitalizedSegments
      (Entity.hasIdentifiers_module checked) member
  rw [shape] at identifier
  exact not_mem_of_isIdentifier identifier (by decide : Identifier.isFollowing '.' = false)
    (by simp)

/-- No target is a directory on the way to another. -/
theorem not_prefix_artifactPath
    {left right : Entity}
    (leftChecked : left.check = .ok ())
    (rightChecked : right.check = .ok ())
    (leftArtifact rightArtifact : Artifact) :
    ¬ (ofEntity options left).artifactPath leftArtifact ++ ['/'] <+:
        (ofEntity options right).artifactPath rightArtifact := by
  rintro ⟨rest, extended⟩
  have sameSegments :
      targetSegments options left leftArtifact ++ Text.splitAt '/' rest =
        targetSegments options right rightArtifact := by
    rw [← splitAt_artifactPath wellFormed leftChecked,
      ← splitAt_artifactPath wellFormed rightChecked, ← Text.splitAt_append, ← extended]
    simp
  have fileInDirectory :
      left.name ++ options.extension leftArtifact ∈ right.module.capitalizedSegments := by
    have withoutFile := congrArg List.dropLast sameSegments
    rw [List.dropLast_append_of_ne_nil (Text.splitAt_ne_nil '/' rest), targetSegments,
      targetSegments, List.dropLast_concat] at withoutFile
    rw [← withoutFile]
    simp
  exact file_not_mem_capitalizedSegments wellFormed rightChecked left.name leftArtifact
    fileInDirectory

omit wellFormed

/-! ## Stems and modules -/

/-- The exported symbols of an entity start with the common prefix and its flat stem. -/
theorem symbolStem_ofEntity
    (options : NamingOptions)
    (entity : Entity) :
    (ofEntity options entity).symbolStem = options.symbolPrefix ++ entity.path.flattened := by
  have flat :
      entity.path.flattened =
        if entity.module.isRoot then entity.name
        else entity.module.flattened ++ "_" ++ entity.name :=
    Text.join_concat "_" entity.name entity.module.segments
  rw [flat]
  simp only [ofEntity, derive]
  by_cases root : entity.module.isRoot = true
  · rw [if_pos root, if_pos root]
  · rw [if_neg root, if_neg root]
    simp only [List.append_assoc]

/-- Entities with the same foreign module have the same guard. -/
theorem headerGuard_eq_of_foreignModule_eq
    {left right : Entity}
    (leftChecked : left.check = .ok ())
    (rightChecked : right.check = .ok ())
    (same :
      (ofEntity options left).foreignModule = (ofEntity options right).foreignModule) :
    left.path.headerGuard = right.path.headerGuard := by
  have dots (entity : Entity) (checked : entity.check = .ok ()) :
      ∀ segment ∈ entity.path.capitalizedSegments, '.' ∉ segment := by
    intro segment member
    exact not_mem_of_isIdentifier
      (ModulePath.isIdentifier_of_mem_capitalizedSegments
        (Entity.hasIdentifiers_path checked) member) (by decide)
  have nonempty (entity : Entity) : entity.path.capitalizedSegments ≠ [] := by
    simp [ModulePath.capitalizedSegments, Entity.path, ModulePath.child]
  have sameSegments : left.path.capitalizedSegments = right.path.capitalizedSegments :=
    Text.join_injective (nonempty left) (nonempty right) (dots left leftChecked)
      (dots right rightChecked) same
  apply ModulePath.headerGuard_eq_of_foldAscii_eq
    (Entity.hasIdentifiers_path leftChecked) (Entity.hasIdentifiers_path rightChecked)
  rw [← ModulePath.map_foldAscii_capitalizedSegments (Entity.hasIdentifiers_path leftChecked),
    ← ModulePath.map_foldAscii_capitalizedSegments (Entity.hasIdentifiers_path rightChecked),
    sameSegments]

/-! ## Collisions -/

/-- The paths of all artifacts of all entities, relative to the output root. -/
def targets (options : NamingOptions) (entities : List Entity) : List Text :=
  entities.flatMap fun entity => Artifact.all.map (ofEntity options entity).artifactPath

/-- No two entities, and no two artifacts of an entity, derive names that could be confused. -/
structure CollisionFree (options : NamingOptions) (entities : List Entity) : Prop where
  /-- All targets have different paths. -/
  pathsDistinct : (targets options entities).Nodup
  /-- No target is a directory on the way to another. -/
  noneInside :
    ∀ path ∈ targets options entities, ∀ other ∈ targets options entities,
      ¬ path ++ ['/'] <+: other
  /-- No target leaves its place by an empty, `.` or `..` segment. -/
  belowRoot :
    ∀ path ∈ targets options entities, ∀ segment ∈ path.splitAt '/',
      segment ≠ [] ∧ segment ≠ ['.'] ∧ segment ≠ ['.', '.']
  /-- Targets of one kind are different even where letter case is ignored. -/
  casesDistinct :
    ∀ artifact,
      (entities.map fun entity =>
        Text.foldAscii ((ofEntity options entity).artifactPath artifact)).Nodup
  guardsDistinct :
    (entities.map fun entity => (ofEntity options entity).headerGuard).Nodup
  stemsDistinct :
    (entities.map fun entity => (ofEntity options entity).symbolStem).Nodup
  modulesDistinct :
    (entities.map fun entity => (ofEntity options entity).foreignModule).Nodup

theorem mem_targets_iff
    (options : NamingOptions)
    (entities : List Entity)
    (path : Text) :
    path ∈ targets options entities ↔
      ∃ entity ∈ entities, ∃ artifact, (ofEntity options entity).artifactPath artifact = path := by
  have all (artifact : Artifact) : artifact ∈ Artifact.all := by
    cases artifact <;> decide
  simp only [targets, List.mem_flatMap, List.mem_map]
  constructor
  · rintro ⟨entity, member, artifact, -, same⟩
    exact ⟨entity, member, artifact, same⟩
  · rintro ⟨entity, member, artifact, same⟩
    exact ⟨entity, member, artifact, all artifact, same⟩

/-- A view that tells entities apart which are apart repeats nothing. -/
theorem nodup_map_of_apart
    {entities : List Entity}
    (apart : entities.Pairwise Entity.Apart)
    (view : Entity → Text)
    (separates :
      ∀ left ∈ entities, ∀ right ∈ entities, left.Apart right → view left ≠ view right) :
    (entities.map view).Nodup := by
  rw [List.Nodup, List.pairwise_map]
  exact apart.imp_of_mem fun leftMember rightMember leftApart =>
    separates _ leftMember _ rightMember leftApart

theorem nodup_targets
    (wellFormed : options.WellFormed)
    {entities : List Entity}
    (checked : ∀ entity ∈ entities, entity.check = .ok ())
    (apart : entities.Pairwise Entity.Apart) :
    (targets options entities).Nodup := by
  rw [targets, List.nodup_flatMap]
  constructor
  · intro entity member
    have all : Artifact.all.Nodup := by decide
    exact all.map fun _ _ same =>
      artifact_eq_of_artifactPath_eq wellFormed (checked entity member) (checked entity member)
        same
  · refine apart.imp_of_mem ?_
    intro left right leftMember rightMember leftApart path inLeft inRight
    obtain ⟨leftArtifact, -, rfl⟩ := List.mem_map.1 inLeft
    obtain ⟨rightArtifact, -, same⟩ := List.mem_map.1 inRight
    have sameArtifact :=
      artifact_eq_of_artifactPath_eq wellFormed (checked right rightMember)
        (checked left leftMember) same
    subst sameArtifact
    exact leftApart.guards
      (headerGuard_eq_of_foldAscii_artifactPath_eq wellFormed (checked left leftMember)
        (checked right rightMember) rightArtifact (congrArg Text.foldAscii same.symm))

/--
Accepted settings and accepted entities never derive colliding targets, guards, stems or modules.
-/
theorem collisionFree_of_accepted
    (settings : Settings)
    (entities : List Entity)
    (registry : Registry)
    (validSettings : settings.check = .ok ())
    (validEntities : ∀ entity ∈ entities, entity.check = .ok ())
    (accepted : Registry.ofEntities entities = .ok registry) :
    CollisionFree settings.naming entities := by
  have wellFormed := ((Settings.check_eq_ok_iff settings).1 validSettings).2.1
  have apart := ((Registry.ofEntities_eq_ok_iff entities registry).1 accepted).1
  refine
    { pathsDistinct := nodup_targets wellFormed validEntities apart
      noneInside := ?_
      belowRoot := ?_
      casesDistinct := ?_
      guardsDistinct := ?_
      stemsDistinct := ?_
      modulesDistinct := ?_ }
  · intro path member other otherMember
    obtain ⟨left, leftMember, leftArtifact, rfl⟩ := (mem_targets_iff _ _ _).1 member
    obtain ⟨right, rightMember, rightArtifact, rfl⟩ := (mem_targets_iff _ _ _).1 otherMember
    exact not_prefix_artifactPath wellFormed (validEntities left leftMember)
      (validEntities right rightMember) leftArtifact rightArtifact
  · intro path member segment segmentMember
    obtain ⟨entity, entityMember, artifact, rfl⟩ := (mem_targets_iff _ _ _).1 member
    rw [splitAt_artifactPath wellFormed (validEntities entity entityMember)] at segmentMember
    have plain :=
      isPlain_of_mem_targetSegments wellFormed (validEntities entity entityMember) artifact
        segmentMember
    exact ⟨plain.nonempty, plain.notSame, plain.notUpwards⟩
  · intro artifact
    apply nodup_map_of_apart apart
    intro left leftMember right rightMember leftApart same
    exact leftApart.guards
      (headerGuard_eq_of_foldAscii_artifactPath_eq wellFormed (validEntities left leftMember)
        (validEntities right rightMember) artifact same)
  · apply nodup_map_of_apart apart
    intro left leftMember right rightMember leftApart same
    exact leftApart.guards (List.append_cancel_left (List.append_cancel_right same))
  · apply nodup_map_of_apart apart
    intro left leftMember right rightMember leftApart same
    rw [symbolStem_ofEntity, symbolStem_ofEntity] at same
    exact leftApart.stems (List.append_cancel_left same)
  · apply nodup_map_of_apart apart
    intro left leftMember right rightMember leftApart same
    exact leftApart.guards
      (headerGuard_eq_of_foreignModule_eq (validEntities left leftMember)
        (validEntities right rightMember) same)

/-- Two interfaces and a singleton in nested modules, under the default settings. -/
theorem collisionFree_nested_widgets :
    CollisionFree Settings.default.naming
      [ ⟨"Widget", ⟨["a"]⟩, .known .interface, some [], none, none⟩,
        ⟨"Widget", ⟨["a", "b"]⟩, .known .interface, some [], none, none⟩,
        ⟨"theWidget", ⟨[]⟩, .known .interfaceSingleton, none, none, some "a.Widget"⟩ ] := by
  apply collisionFree_of_accepted Settings.default _ _ rfl
  · intro entity member
    simp only [List.mem_cons, List.not_mem_nil, or_false] at member
    rcases member with rfl | rfl | rfl <;> rfl
  · rfl

end Names

end UnoBindgen
