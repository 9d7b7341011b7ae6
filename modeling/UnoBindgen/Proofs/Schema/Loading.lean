import Mathlib
import UnoBindgen.Generation
import UnoBindgen.Proofs.Entity.Consistency
import UnoBindgen.Proofs.Plan
import UnoBindgen.Proofs.Registry.Acceptance

/-!
# Loading schemas

What is loaded from schema files is a registry of consistent entities that are apart from each
other, so a generation never meets others.  Loading looks at the contents of the schema files and at
nothing else of the store.
-/

namespace UnoBindgen.Schema

/-! ## Only consistent entities are read -/

theorem check_of_entityOfRecord
    {record : EntityRecord}
    {entity : Entity}
    (described : entityOfRecord record = .ok entity) :
    entity.check = .ok () := by
  rw [entityOfRecord] at described
  obtain ⟨module, -, described⟩ := (bind_eq_ok_iff _ _ _).1 described
  cases parsed : Kind.parse record.kind with
  | error fault =>
      rw [parsed] at described
      exact absurd described (by simp [bind, Except.bind])
  | ok kind =>
      rw [parsed] at described
      obtain ⟨_, -, described⟩ := (bind_eq_ok_iff _ _ _).1 described
      obtain ⟨⟨⟩, checked, returned⟩ := (bind_eq_ok_iff _ _ _).1 described
      rw [← Except.ok.inj returned]
      exact checked

theorem check_of_ofRecord
    {source : Text}
    {record : FileRecord}
    {schema : Schema}
    (described : ofRecord source record = .ok schema)
    {entity : Entity}
    (member : entity ∈ schema.entities) :
    entity.check = .ok () := by
  rw [ofRecord] at described
  obtain ⟨version, -, described⟩ := (bind_eq_ok_iff _ _ _).1 described
  obtain ⟨entities, traversed, returned⟩ := (bind_eq_ok_iff _ _ _).1 described
  rw [← Except.ok.inj returned] at member
  obtain ⟨written, -, ofWritten⟩ :=
    exists_of_mem_right ((mapM_eq_ok_iff _ _ _).1 traversed) member
  exact check_of_entityOfRecord ofWritten

theorem exists_ofRecord_of_read
    {source content : Text}
    {schema : Schema}
    (accepted : (read source content).1 = .ok schema) :
    ∃ record, ofRecord source record = .ok schema := by
  have ofDecoded {record : FileRecord} (decoded : ofDecoded source record = .ok schema) :
      ∃ record, ofRecord source record = .ok schema := by
    rw [Schema.ofDecoded] at decoded
    split at decoded
    · exact ⟨record, by rwa [← decoded]⟩
    · exact absurd decoded (by simp)
  simp only [read] at accepted
  split at accepted
  · split at accepted
    · exact absurd accepted (by simp)
    · exact ofDecoded accepted
  · split at accepted
    · split at accepted
      · exact absurd accepted (by simp)
      · exact ofDecoded accepted
    · exact absurd accepted (by simp)

theorem load_eq_ok_iff
    (store : FileStore)
    (path : Text)
    (schema : Schema) :
    load store path = .ok schema ↔
      ∃ content, store.read path = .ok content ∧ (read path content).1 = .ok schema := by
  rw [load]
  cases store.read path with
  | error fault => simp
  | ok content => simp

/-! ## Loading files together -/

theorem loadAll_eq_ok_iff
    (store : FileStore)
    (paths : List Text)
    (loaded : Loaded) :
    loadAll store paths = .ok loaded ↔
      List.Forall₂ (fun path schema => load store path = .ok schema) paths loaded.schemas ∧
        (loaded.schemas.flatMap entities).Pairwise Entity.Apart ∧
        loaded.registry = ⟨loaded.schemas.flatMap entities⟩ := by
  simp only [loadAll, bind_eq_ok_iff, mapM_eq_ok_iff, Registry.ofEntities_eq_ok_iff]
  constructor
  · rintro ⟨schemas, read, registry, ⟨apart, rfl⟩, returned⟩
    rw [← Except.ok.inj returned]
    exact ⟨read, apart, rfl⟩
  · rintro ⟨read, apart, registered⟩
    refine ⟨loaded.schemas, read, loaded.registry, ⟨apart, registered⟩, rfl⟩

theorem check_of_loadAll
    {store : FileStore}
    {paths : List Text}
    {loaded : Loaded}
    (accepted : loadAll store paths = .ok loaded)
    {entity : Entity}
    (member : entity ∈ loaded.registry.entities) :
    entity.check = .ok () := by
  obtain ⟨read, -, registered⟩ := (loadAll_eq_ok_iff _ _ _).1 accepted
  rw [registered] at member
  obtain ⟨schema, schemaMember, inSchema⟩ := List.mem_flatMap.1 member
  obtain ⟨path, -, ofPath⟩ := exists_of_mem_right read schemaMember
  obtain ⟨content, -, described⟩ := (load_eq_ok_iff _ _ _).1 ofPath
  obtain ⟨record, ofRecord⟩ := exists_ofRecord_of_read described
  exact check_of_ofRecord ofRecord inSchema

theorem pairwise_apart_of_loadAll
    {store : FileStore}
    {paths : List Text}
    {loaded : Loaded}
    (accepted : loadAll store paths = .ok loaded) :
    loaded.registry.entities.Pairwise Entity.Apart := by
  obtain ⟨-, apart, registered⟩ := (loadAll_eq_ok_iff _ _ _).1 accepted
  rw [registered]
  exact apart

/-- The same is loaded as long as the schema files have their contents. -/
theorem loadAll_of_sameContents
    {store other : FileStore}
    {paths : List Text}
    {loaded : Loaded}
    (accepted : loadAll store paths = .ok loaded)
    (same :
      ∀ path ∈ paths, ∀ content, store.read path = .ok content → other.read path = .ok content) :
    loadAll other paths = .ok loaded := by
  rw [loadAll_eq_ok_iff] at accepted ⊢
  obtain ⟨read, registered⟩ := accepted
  refine ⟨?_, registered⟩
  apply List.forall₂_iff_zip.2
  refine ⟨read.length_eq, fun {path schema} pair => ?_⟩
  obtain ⟨content, found, described⟩ :=
    (load_eq_ok_iff _ _ _).1 ((List.forall₂_iff_zip.1 read).2 pair)
  exact (load_eq_ok_iff _ _ _).2
    ⟨content, same path (List.of_mem_zip pair).1 content found, described⟩

end UnoBindgen.Schema
