import UnoBindgen.Proofs.Entity.Exactness
import UnoBindgen.Proofs.Schema.Loading

/-!
# Records and the entities they spell

A record spells an entity when its texts are those of the entity: its name, the dotted name of its
module, the name of its kind, and the methods, members or base that belong to the kind, one by one
and in order.  The type `void` of a method without a result may be left out.

The main theorem states that a record is turned into an entity exactly when it spells it, and the
entity is consistent and has no part that belongs to another kind.  A schema has the entities of its
records, and what is loaded has the schemas of its files, all in their order; the first record, file
or entity that is refused decides what is reported, and nothing else is returned.
-/

namespace UnoBindgen

/-! ## Spellings -/

theorem Kind.parse_eq_ok_iff
    (text : Text)
    (kind : Kind) :
    parse text = .ok kind ↔ kind.name = text := by
  constructor
  · intro parsed
    rw [parse] at parsed
    split at parsed
    · rename_i other found
      obtain rfl := Except.ok.inj parsed
      simpa using List.find?_some found
    · exact absurd parsed (by simp)
  · rintro rfl
    cases kind <;> rfl

/-- Whether a description has the part that belongs to its kind and no other part. -/
@[mk_iff hasOnlyOwnPart_iff]
structure Entity.HasOnlyOwnPart (entity : Entity) : Prop where
  methods : entity.methods?.isSome = true ↔ entity.tag = .known .interface
  members : entity.members?.isSome = true ↔ entity.tag = .known .exception
  base :
    entity.base?.isSome = true ↔
      entity.tag = .known .interfaceSingleton ∨ entity.tag = .known .serviceSingleton

/-- Whether no method returns a type without a name. -/
def Entity.NamesReturns (entity : Entity) : Prop :=
  ∀ methods, entity.methods? = some methods → ∀ method ∈ methods, method.returns.text ≠ []

namespace Schema

/-- Whether a written parameter or member spells one. -/
structure FieldRecord.Spells (record : FieldRecord) (field : Field) : Prop where
  name : record.name = field.name
  type : record.type = field.type.text

/-- Whether a written method spells a method.  The type that it returns is written, or it is left
out for `void`. -/
structure MethodRecord.Spells (record : MethodRecord) (method : Method) : Prop where
  name : record.name = method.name
  returns :
    record.returns ≠ [] ∧ record.returns = method.returns.text ∨
      record.returns = [] ∧ method.returns = .void
  parameters : List.Forall₂ FieldRecord.Spells record.parameters method.parameters

/-- Whether a record spells an entity.  What the record says about parts that the entity does not
have is passed over. -/
structure EntityRecord.Spells (record : EntityRecord) (entity : Entity) : Prop where
  name : record.name = entity.name
  module : record.module = entity.module.name
  kind : record.kind = entity.tag.name
  methods :
    ∀ methods, entity.methods? = some methods →
      List.Forall₂ MethodRecord.Spells record.methods methods
  members :
    ∀ members, entity.members? = some members →
      List.Forall₂ FieldRecord.Spells record.members members
  base : ∀ base, entity.base? = some base → record.base = base

/-- A parameter or a member as it is written. -/
def FieldRecord.ofField (field : Field) : FieldRecord where
  name := field.name
  type := field.type.text

/-- A method as it is written, with or without the type `void`. -/
def MethodRecord.ofMethod (leavesOut : Method → Bool) (method : Method) : MethodRecord where
  name := method.name
  returns := if method.returns = .void ∧ leavesOut method = true then [] else method.returns.text
  parameters := method.parameters.map .ofField

/-- An entity as it is written, with the choice of the methods that leave the type `void` out. -/
def EntityRecord.ofEntity (leavesOut : Method → Bool) (entity : Entity) : EntityRecord where
  name := entity.name
  module := entity.module.name
  kind := entity.tag.name
  methods := (entity.methods?.getD []).map (.ofMethod leavesOut)
  members := (entity.members?.getD []).map .ofField
  base := entity.base?.getD []

theorem FieldRecord.spells_ofField (field : Field) :
    (FieldRecord.ofField field).Spells field :=
  ⟨rfl, rfl⟩

theorem MethodRecord.spells_ofMethod
    (leavesOut : Method → Bool)
    {method : Method}
    (named : method.returns.text ≠ []) :
    (MethodRecord.ofMethod leavesOut method).Spells method where
  name := rfl
  returns := by
    by_cases left : method.returns = .void ∧ leavesOut method = true
    · exact Or.inr ⟨if_pos left, left.1⟩
    · have written : (ofMethod leavesOut method).returns = method.returns.text := if_neg left
      exact Or.inl ⟨by rwa [written], written⟩
  parameters := by
    refine List.forall₂_map_left_iff.2 (List.forall₂_same.2 fun field _ => ?_)
    exact FieldRecord.spells_ofField field

/-- What is written for an entity spells it. -/
theorem EntityRecord.spells_ofEntity
    (leavesOut : Method → Bool)
    {entity : Entity}
    (named : entity.NamesReturns) :
    (EntityRecord.ofEntity leavesOut entity).Spells entity where
  name := rfl
  module := rfl
  kind := rfl
  methods := by
    intro methods given
    rw [ofEntity, given, Option.getD_some]
    refine List.forall₂_map_left_iff.2 (List.forall₂_same.2 fun method member => ?_)
    exact MethodRecord.spells_ofMethod leavesOut (named methods given method member)
  members := by
    intro members given
    rw [ofEntity, given, Option.getD_some]
    refine List.forall₂_map_left_iff.2 (List.forall₂_same.2 fun field _ => ?_)
    exact FieldRecord.spells_ofField field
  base := by
    intro base given
    rw [ofEntity, given, Option.getD_some]

/-! ## Turning records into entities -/

/-- The parameter or member that a record describes. -/
def FieldRecord.described (record : FieldRecord) : Field :=
  ⟨record.name, ⟨record.type⟩⟩

/-- The method that a record describes. -/
def MethodRecord.described (record : MethodRecord) : Method where
  name := record.name
  returns := if record.returns = [] then .void else ⟨record.returns⟩
  parameters := record.parameters.map FieldRecord.described

theorem FieldRecord.spells_iff
    (record : FieldRecord)
    (field : Field) :
    record.Spells field ↔ record.described = field := by
  constructor
  · rintro ⟨name, type⟩
    rw [described, name, type]
  · rintro rfl
    exact ⟨rfl, rfl⟩

theorem MethodRecord.spells_iff
    (record : MethodRecord)
    (method : Method) :
    record.Spells method ↔ record.described = method := by
  constructor
  · rintro ⟨name, returns, parameters⟩
    rw [forall₂_iff_map_eq FieldRecord.spells_iff] at parameters
    rw [described, name, parameters]
    rcases returns with ⟨written, same⟩ | ⟨leftOut, isVoid⟩
    · rw [if_neg written, same]
    · rw [if_pos leftOut, ← isVoid]
  · rintro rfl
    refine ⟨rfl, ?_, (forall₂_iff_map_eq FieldRecord.spells_iff _ _).2 rfl⟩
    by_cases leftOut : record.returns = []
    · exact Or.inr ⟨leftOut, if_pos leftOut⟩
    · refine Or.inl ⟨leftOut, ?_⟩
      rw [described, if_neg leftOut]

theorem describedEntity_eq
    (record : EntityRecord)
    (module : ModulePath)
    (kind : Kind) :
    describedEntity record module kind =
      { name := record.name
        module := module
        tag := .known kind
        methods? :=
          if kind = .interface then some (record.methods.map MethodRecord.described) else none
        members? :=
          if kind = .exception then some (record.members.map FieldRecord.described) else none
        base? :=
          if kind = .interfaceSingleton ∨ kind = .serviceSingleton then some record.base
          else none } := rfl

/-- A part that is there on a condition is a given one exactly when that is there on the condition,
with the same content. -/
theorem optional_eq_iff
    {Part : Type}
    {condition : Prop}
    [Decidable condition]
    (part : Part)
    (given : Option Part) :
    (if condition then some part else none) = given ↔
      (given.isSome = true ↔ condition) ∧ ∀ other, given = some other → part = other := by
  by_cases holds : condition <;> cases given <;> simp [holds]

/-- A record describes an entity of a kind exactly when the entity has the part of that kind alone,
and the record spells what it has. -/
theorem describedEntity_eq_iff
    (record : EntityRecord)
    (entity : Entity)
    (kind : Kind) :
    describedEntity record entity.module kind = entity ↔
      entity.tag = .known kind ∧ entity.HasOnlyOwnPart ∧
        record.name = entity.name ∧
        (∀ methods, entity.methods? = some methods →
          List.Forall₂ MethodRecord.Spells record.methods methods) ∧
        (∀ members, entity.members? = some members →
          List.Forall₂ FieldRecord.Spells record.members members) ∧
        ∀ base, entity.base? = some base → record.base = base := by
  simp only [forall₂_iff_map_eq MethodRecord.spells_iff, forall₂_iff_map_eq FieldRecord.spells_iff]
  have ownPart (tag : entity.tag = .known kind) :
      entity.HasOnlyOwnPart ↔
        (entity.methods?.isSome = true ↔ kind = .interface) ∧
          (entity.members?.isSome = true ↔ kind = .exception) ∧
          (entity.base?.isSome = true ↔ kind = .interfaceSingleton ∨ kind = .serviceSingleton) := by
    simp only [Entity.hasOnlyOwnPart_iff, tag, KindTag.known.injEq]
  have whole :
      describedEntity record entity.module kind = entity ↔
        record.name = entity.name ∧ .known kind = entity.tag ∧
          (describedEntity record entity.module kind).methods? = entity.methods? ∧
          (describedEntity record entity.module kind).members? = entity.members? ∧
          (describedEntity record entity.module kind).base? = entity.base? := by
    obtain ⟨name, module, tag, methods?, members?, base?⟩ := entity
    simp only [describedEntity_eq, Entity.mk.injEq, true_and]
  rw [whole, @eq_comm KindTag (.known kind)]
  simp only [describedEntity_eq, optional_eq_iff]
  constructor
  · rintro ⟨name, tag, ⟨hasMethods, methods⟩, ⟨hasMembers, members⟩, hasBase, base⟩
    exact ⟨tag, (ownPart tag).2 ⟨hasMethods, hasMembers, hasBase⟩, name, methods, members, base⟩
  · rintro ⟨tag, only, name, methods, members, base⟩
    obtain ⟨hasMethods, hasMembers, hasBase⟩ := (ownPart tag).1 only
    exact ⟨name, tag, ⟨hasMethods, methods⟩, ⟨hasMembers, members⟩, hasBase, base⟩

theorem exists_of_entityOfRecord_iff
    (record : EntityRecord)
    (entity : Entity) :
    entityOfRecord record = .ok entity ↔
      ∃ module kind,
        ModulePath.parse record.module = .ok module ∧ Kind.parse record.kind = .ok kind ∧
          describedEntity record module kind = entity ∧ entity.check = .ok () := by
  rw [entityOfRecord, bind_eq_ok_iff]
  cases kindRead : Kind.parse record.kind with
  | error fault =>
      exact iff_of_false (by simp [bind, Except.bind]) (by simp)
  | ok kind =>
      simp only [Except.ok.injEq, exists_eq_left', exists_and_left]
      refine exists_congr fun module => and_congr_right fun _ => ?_
      simp only [bind_eq_ok_iff, Except.ok.injEq, exists_eq_left']
      constructor
      · rintro ⟨⟨⟩, checked, returned⟩
        obtain rfl := Except.ok.inj returned
        exact ⟨rfl, checked⟩
      · rintro ⟨rfl, checked⟩
        exact ⟨(), checked, rfl⟩

/-- A record is turned into an entity exactly when it spells it, and the entity is consistent and
has no part that belongs to another kind. -/
theorem entityOfRecord_eq_ok_iff
    (record : EntityRecord)
    (entity : Entity) :
    entityOfRecord record = .ok entity ↔
      entity.check = .ok () ∧ entity.HasOnlyOwnPart ∧ record.Spells entity := by
  rw [exists_of_entityOfRecord_iff]
  constructor
  · rintro ⟨module, kind, moduleRead, kindRead, described, checked⟩
    obtain rfl : module = entity.module := by rw [← described, describedEntity_eq]
    obtain ⟨tag, only, name, methods, members, base⟩ :=
      (describedEntity_eq_iff record entity kind).1 described
    refine ⟨checked, only, name, ?_, ?_, methods, members, base⟩
    · exact ((ModulePath.parse_eq_ok_iff _ _).1 moduleRead).2.symm
    · rw [tag]
      exact ((Kind.parse_eq_ok_iff _ _).1 kindRead).symm
  · rintro ⟨checked, only, spells⟩
    obtain ⟨identifiers, kind, tag, -⟩ :=
      (Entity.fault?_eq_none_iff entity).1 ((Entity.check_eq_ok_iff entity).1 checked)
    have ofModule : entity.module.HasIdentifiers := fun segment member =>
      identifiers segment (List.mem_append_left [entity.name] member)
    refine ⟨entity.module, kind, ?_, ?_, ?_, checked⟩
    · exact (ModulePath.parse_eq_ok_iff _ _).2 ⟨ofModule, spells.module.symm⟩
    · rw [Kind.parse_eq_ok_iff, spells.kind, tag]
      rfl
    · exact (describedEntity_eq_iff record entity kind).2
        ⟨tag, only, spells.name, spells.methods, spells.members, spells.base⟩

/-! ## Schemas and files -/

theorem ofRecord_eq_ok_iff
    (source : Text)
    (record : FileRecord)
    (schema : Schema) :
    ofRecord source record = .ok schema ↔
      schema.source = source ∧ versionOfText record.version = .ok schema.version ∧
        List.Forall₂ (fun written entity => entityOfRecord written = .ok entity)
          record.entities schema.entities := by
  simp only [ofRecord, bind_eq_ok_iff, mapM_eq_ok_iff]
  constructor
  · rintro ⟨version, supported, entities, described, returned⟩
    obtain rfl := Except.ok.inj returned
    exact ⟨rfl, supported, described⟩
  · rintro ⟨rfl, supported, described⟩
    exact ⟨schema.version, supported, schema.entities, described, rfl⟩

/-- What is reported of a file is what is wrong with its version, or with the first of its entities
that is refused. -/
theorem ofRecord_eq_error_iff
    (source : Text)
    (record : FileRecord)
    (fault : Fault) :
    ofRecord source record = .error fault ↔
      versionOfText record.version = .error fault ∨
        (∃ version, versionOfText record.version = .ok version) ∧
          ∃ before refused after,
            record.entities = before ++ refused :: after ∧
              (∀ written ∈ before, ∃ entity, entityOfRecord written = .ok entity) ∧
              entityOfRecord refused = .error fault := by
  simp only [ofRecord, bind_eq_error_iff, mapM_eq_error_iff]
  refine or_congr_right ⟨?_, ?_⟩
  · rintro ⟨version, supported, refused | ⟨entities, -, returned⟩⟩
    · exact ⟨⟨version, supported⟩, refused⟩
    · exact absurd returned (by simp [pure, Except.pure])
  · rintro ⟨⟨version, supported⟩, refused⟩
    exact ⟨version, supported, Or.inl refused⟩

/-- Whether the content of a file decodes to a record, in the format that the name of the file
tells. -/
def Decodes (source content : Text) (record : FileRecord) : Prop :=
  let format := (Text.SlashPath.extension source).map Char.toLower
  (format = ".yaml".toList ∨ format = ".yml".toList) ∧ readYaml content = .ok record ∨
    format = ".toml".toList ∧ ∃ unknown, readToml content = .ok (record, unknown)

theorem ofDecoded_eq_ok_iff
    (source : Text)
    (record : FileRecord)
    (schema : Schema) :
    ofDecoded source record = .ok schema ↔ ofRecord source record = .ok schema := by
  rw [ofDecoded]
  split <;> simp_all

theorem read_eq_ok_iff
    (source content : Text)
    (schema : Schema) :
    (read source content).1 = .ok schema ↔
      ∃ record, Decodes source content record ∧ ofRecord source record = .ok schema := by
  have yamlIsNoToml : ∀ format : Text,
      format = ".yaml".toList ∨ format = ".yml".toList → format ≠ ".toml".toList := by
    rintro format (rfl | rfl) <;> decide
  simp only [read, Decodes]
  split
  · rename_i yaml
    simp only [yaml, true_and, yamlIsNoToml _ yaml, false_and, or_false]
    cases readYaml content with
    | error reason => simp
    | ok record => simp [ofDecoded_eq_ok_iff]
  · rename_i notYaml
    simp only [notYaml, false_and, false_or]
    split
    · rename_i toml
      simp only [toml, true_and]
      cases readToml content with
      | error reason => simp
      | ok decoded =>
          obtain ⟨record, unknown⟩ := decoded
          simp [ofDecoded_eq_ok_iff]
    · rename_i notToml
      refine iff_of_false (by simp) ?_
      rintro ⟨record, ⟨toml, -⟩, -⟩
      exact notToml toml

theorem loadAll_eq_error_iff
    (store : FileStore)
    (paths : List Text)
    (fault : Fault) :
    loadAll store paths = .error fault ↔
      (∃ before refused after,
        paths = before ++ refused :: after ∧
          (∀ path ∈ before, ∃ schema, load store path = .ok schema) ∧
          load store refused = .error fault) ∨
      ∃ schemas,
        List.Forall₂ (fun path schema => load store path = .ok schema) paths schemas ∧
          Registry.ofEntities (schemas.flatMap entities) = .error fault := by
  simp only [loadAll, bind_eq_error_iff, mapM_eq_error_iff, mapM_eq_ok_iff]
  refine or_congr_right (exists_congr fun schemas => and_congr_right fun _ => ?_)
  exact or_iff_left (by simp [pure, Except.pure])

/-! ## The main statement -/

/--
A consistent entity with its own part alone is read back from what is written for it, whether the
return type `void` is written or left out, and a record is turned into an entity exactly when it
spells such an entity, with all its lists in their order.  A schema has the entities of its records
in their order, and loaded files have their schemas and one registry of all their entities in their
order; otherwise the first version, record, file or clash that is refused is reported, and there is
no schema and no registry.
-/
theorem decoded_faithfully_and_in_order :
    (∀ (entity : Entity) (leavesOut : Method → Bool),
      entity.check = .ok () → entity.HasOnlyOwnPart → entity.NamesReturns →
        entityOfRecord (.ofEntity leavesOut entity) = .ok entity) ∧
    (∀ (record : EntityRecord) (entity : Entity),
      entityOfRecord record = .ok entity ↔
        entity.check = .ok () ∧ entity.HasOnlyOwnPart ∧ record.Spells entity) ∧
    (∀ (source : Text) (record : FileRecord),
      (∀ schema, ofRecord source record = .ok schema ↔
        schema.source = source ∧ versionOfText record.version = .ok schema.version ∧
          List.Forall₂ (fun written entity => entityOfRecord written = .ok entity)
            record.entities schema.entities) ∧
      ∀ fault, ofRecord source record = .error fault ↔
        versionOfText record.version = .error fault ∨
          (∃ version, versionOfText record.version = .ok version) ∧
            ∃ before refused after,
              record.entities = before ++ refused :: after ∧
                (∀ written ∈ before, ∃ entity, entityOfRecord written = .ok entity) ∧
                entityOfRecord refused = .error fault) ∧
    ∀ (store : FileStore) (paths : List Text),
      (∀ loaded, loadAll store paths = .ok loaded ↔
        List.Forall₂
          (fun path schema => ∃ content record,
            store.read path = .ok content ∧ Decodes path content record ∧
              ofRecord path record = .ok schema)
          paths loaded.schemas ∧
        loaded.registry.entities = loaded.schemas.flatMap entities ∧
        Registry.ofEntities (loaded.schemas.flatMap entities) = .ok loaded.registry) ∧
      ∀ fault, loadAll store paths = .error fault ↔
        (∃ before refused after,
          paths = before ++ refused :: after ∧
            (∀ path ∈ before, ∃ schema, load store path = .ok schema) ∧
            load store refused = .error fault) ∨
        ∃ schemas,
          List.Forall₂ (fun path schema => load store path = .ok schema) paths schemas ∧
            Registry.ofEntities (schemas.flatMap entities) = .error fault := by
  refine ⟨?_, entityOfRecord_eq_ok_iff, fun source record => ⟨?_, ?_⟩,
    fun store paths => ⟨fun loaded => ?_, ?_⟩⟩
  · intro entity leavesOut checked only named
    exact (entityOfRecord_eq_ok_iff _ entity).2
      ⟨checked, only, EntityRecord.spells_ofEntity leavesOut named⟩
  · exact ofRecord_eq_ok_iff source record
  · exact ofRecord_eq_error_iff source record
  · have ofFile :
        (fun path schema => load store path = .ok schema) =
          fun path schema => ∃ content record,
            store.read path = .ok content ∧ Decodes path content record ∧
              ofRecord path record = .ok schema := by
      ext path schema
      simp only [load_eq_ok_iff, read_eq_ok_iff, exists_and_left]
    rw [loadAll_eq_ok_iff, ofFile, Registry.ofEntities_eq_ok_iff]
    constructor
    · rintro ⟨read, apart, registered⟩
      exact ⟨read, by rw [registered], apart, registered⟩
    · rintro ⟨read, -, apart, registered⟩
      exact ⟨read, apart, registered⟩
  · exact loadAll_eq_error_iff store paths

/-- An interface with a method that returns nothing and one that returns a text. -/
def sizableWidget : Entity where
  name := "Widget"
  module := ⟨["a", "b"]⟩
  tag := .known .interface
  methods? :=
    some
      [ ⟨"resize", .void, [⟨"width", ⟨"long"⟩⟩, ⟨"height", ⟨"long"⟩⟩]⟩,
        ⟨"getLabel", ⟨"string"⟩, []⟩ ]
  members? := none
  base? := none

/-- A schema of the interface and of a singleton over it, and a schema with an unknown kind. -/
def mixedStore : FileStore :=
  ⟨.memory, [],
    [ (["widget.yaml".toList],
        .file ("version: \"1.0\"\nentities:\n- name: Widget\n  module: a.b\n  kind: interface\n" ++
          "- name: theWidget\n  kind: service-singleton\n  base: a.b.Widget\n")),
      (["gadget.toml".toList],
        .file "version = \"1.0\"\n[[entities]]\nname = \"Gadget\"\nkind = \"struct\"\n") ],
    fun _ _ => none, fun _ => none⟩

/-- The interface is read back with its type `void` left out, and files are refused together with
the one that cannot be turned into entities. -/
theorem decoded_faithfully_sizableWidget :
    sizableWidget.check = .ok () ∧ sizableWidget.HasOnlyOwnPart ∧ sizableWidget.NamesReturns ∧
      (EntityRecord.ofEntity (fun _ => true) sizableWidget).methods.map MethodRecord.returns =
        [[], "string"] ∧
      entityOfRecord (.ofEntity (fun _ => true) sizableWidget) = .ok sizableWidget ∧
      ∃ fault, load mixedStore "/gadget.toml" = .error fault ∧
        loadAll mixedStore ["/widget.yaml", "/gadget.toml"] = .error fault := by
  obtain ⟨faithful, -, -, loading⟩ := decoded_faithfully_and_in_order
  have checked : sizableWidget.check = .ok () := by decide
  have only : sizableWidget.HasOnlyOwnPart := ⟨by decide, by decide, by decide⟩
  have named : sizableWidget.NamesReturns := by
    rintro methods ⟨⟩
    decide
  have accepted : (load mixedStore "/widget.yaml").toOption.isSome = true := by decide +kernel
  have refused : (load mixedStore "/gadget.toml").toOption.isSome = false := by decide +kernel
  refine ⟨checked, only, named, rfl, faithful _ _ checked only named, ?_⟩
  cases failed : load mixedStore "/gadget.toml" with
  | ok schema =>
      rw [failed] at refused
      exact absurd refused (by simp [Except.toOption])
  | error fault =>
      obtain ⟨schema, loaded⟩ := Option.isSome_iff_exists.1 accepted
      refine ⟨fault, rfl, ((loading _ _).2 fault).2 (Or.inl ?_)⟩
      refine ⟨["/widget.yaml".toList], "/gadget.toml", [], rfl, ?_, failed⟩
      exact List.forall_mem_singleton.2 ⟨schema, eq_ok_of_toOption loaded⟩

end Schema

end UnoBindgen
