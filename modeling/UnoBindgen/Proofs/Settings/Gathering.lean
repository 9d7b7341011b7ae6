import Mathlib
import UnoBindgen.Settings.Layers

/-!
# The files that settings are gathered from

The layers are the documents of the files that can be read and have a meaning, one brought over
the other, the strongest last.  The file of the project is the nearest one upwards from the working
directory.
-/

namespace UnoBindgen.Settings

open FileStore

/-! ## The nearest file -/

/-- The file of settings in a directory. -/
def fileIn (directory : Place) : Text :=
  Text.SlashPath.ofSegments true (directory ++ [fileName])

/-- Whether a file of settings is the nearest one: it is in the working directory or in a directory
above, and the directories between have none. -/
def IsNearest (store : FileStore) (path : Text) : Prop :=
  ∃ above below, store.workingDirectory = above ++ below ∧ path = fileIn above ∧
    (store.stat path).toOption.isSome = true ∧
    ∀ between, between <+: below → between ≠ [] →
      (store.stat (fileIn (above ++ between))).toOption.isSome = false

theorem upwards_concat (place : Place) (name : Text) :
    upwards (place ++ [name]) = (place ++ [name]) :: upwards place := by
  rw [upwards, List.length_append, List.length_singleton, List.range_succ, List.reverse_append,
    List.reverse_singleton, List.singleton_append, List.map_cons]
  congr 1
  · exact List.take_of_length_le (by simp)
  · apply List.map_congr_left
    intro count member
    have short : count ≤ place.length := by
      rw [List.mem_reverse, List.mem_range] at member
      omega
    exact List.take_append_of_le_length short

theorem find?_upwards_eq_some_iff
    (accepts : Text → Bool)
    (place : Place)
    (path : Text) :
    ((upwards place).map fileIn).find? accepts = some path ↔
      ∃ above below, place = above ++ below ∧ path = fileIn above ∧ accepts path = true ∧
        ∀ between, between <+: below → between ≠ [] →
          accepts (fileIn (above ++ between)) = false := by
  induction place using List.reverseRecOn with
  | nil =>
      have root : upwards [] = [[]] := rfl
      rw [root, List.map_singleton, List.find?_singleton]
      constructor
      · intro found
        split at found
        · rename_i accepted
          obtain rfl := Option.some.inj found
          refine ⟨[], [], rfl, rfl, accepted, ?_⟩
          intro between start more
          exact (more (List.prefix_nil.1 start)).elim
        · exact absurd found (by simp)
      · rintro ⟨above, below, split, rfl, accepted, -⟩
        obtain ⟨rfl, rfl⟩ := List.append_eq_nil_iff.1 split.symm
        rw [if_pos accepted]
  | append_singleton place name induction =>
      rw [upwards_concat, List.map_cons]
      cases here : accepts (fileIn (place ++ [name])) with
      | true =>
          rw [List.find?_cons_of_pos here]
          constructor
          · intro found
            obtain rfl := Option.some.inj found
            refine ⟨place ++ [name], [], (List.append_nil _).symm, rfl, here, ?_⟩
            intro between start more
            exact (more (List.prefix_nil.1 start)).elim
          · rintro ⟨above, below, split, rfl, -, nearer⟩
            by_cases more : below = []
            · rw [split, more, List.append_nil]
            · have refused := nearer below (List.prefix_refl below) more
              rw [← split, here] at refused
              exact absurd refused (by simp)
      | false =>
          rw [List.find?_cons_of_neg (by simp [here]), induction]
          constructor
          · rintro ⟨above, below, split, same, accepted, nearer⟩
            refine ⟨above, below ++ [name], by rw [split, List.append_assoc], same, accepted, ?_⟩
            intro between start more
            rcases List.prefix_concat_iff.1 start with whole | shorter
            · rw [whole, ← List.append_assoc, ← split]
              exact here
            · exact nearer between shorter more
          · rintro ⟨above, below, split, same, accepted, nearer⟩
            rcases List.eq_nil_or_concat' below with rfl | ⟨shorter, last, rfl⟩
            · rw [List.append_nil] at split
              rw [same, ← split, here] at accepted
              exact absurd accepted (by simp)
            · rw [← List.append_assoc] at split
              obtain ⟨before, -⟩ := List.append_inj' split rfl
              refine ⟨above, shorter, before, same, accepted, ?_⟩
              intro between start more
              exact nearer between (start.trans (List.prefix_append shorter [last])) more

/-- The file of the project is the nearest one, and there is none only if no directory has one. -/
theorem projectFile?_eq_some_iff
    (store : FileStore)
    (path : Text) :
    projectFile? store = some path ↔ IsNearest store path :=
  find?_upwards_eq_some_iff (fun path => (store.stat path).toOption.isSome) store.workingDirectory
    path

/-! ## The documents -/

/-- The document that a file holds, if it can be read and has a meaning. -/
def held? (store : FileStore) (path : Text) : Option Toml.Table :=
  match store.read path with
  | .error _ => none
  | .ok content => (Toml.parse .established content).toOption

/-- The file of settings of the system. -/
def systemFile : Text := "/etc/hsuno/hsuno.toml"

/-- The file of settings of the user. -/
def userFile (surroundings : Surroundings) : Text :=
  Text.SlashPath.join [surroundings.home, ".hsuno", fileName]

/-- What the strongest file yields: the project's file comes first, then the user's, then the
system's.  A file without a document yields nothing. -/
def strongest?
    {Answer : Type}
    (surroundings : Surroundings)
    (pick : Origin → Toml.Table → Option Answer) : Option Answer :=
  let answer (origin : Origin) := (held? surroundings.store origin.path).bind (pick origin)
  ((projectFile? surroundings.store).bind fun path => answer ⟨.project, path⟩).or
    ((answer ⟨.user, userFile surroundings⟩).or (answer ⟨.system, systemFile⟩))

/-- The documents that the surroundings hold with their origins, the weakest first. -/
def heldDocuments (surroundings : Surroundings) : List (Origin × Toml.Table) :=
  (candidates surroundings).filterMap fun origin =>
    (held? surroundings.store origin.path).map fun document => (origin, document)

theorem mem_heldDocuments_iff
    (surroundings : Surroundings)
    (origin : Origin)
    (document : Toml.Table) :
    (origin, document) ∈ heldDocuments surroundings ↔
      origin ∈ candidates surroundings ∧ held? surroundings.store origin.path = some document := by
  rw [heldDocuments, List.mem_filterMap]
  constructor
  · rintro ⟨other, member, same⟩
    obtain ⟨held, found, equal⟩ := Option.map_eq_some_iff.1 same
    obtain ⟨rfl, rfl⟩ := Prod.mk.inj equal
    exact ⟨member, found⟩
  · rintro ⟨member, found⟩
    exact ⟨origin, member, by rw [found]; rfl⟩

theorem candidates_eq (surroundings : Surroundings) :
    candidates surroundings =
      [⟨.system, systemFile⟩, ⟨.user, userFile surroundings⟩] ++
        ((projectFile? surroundings.store).map (Origin.mk .project)).toList := by
  rw [candidates]
  cases projectFile? surroundings.store <;> rfl

theorem strongest?_eq_findSome?
    {Answer : Type}
    (surroundings : Surroundings)
    (pick : Origin → Toml.Table → Option Answer) :
    strongest? surroundings pick =
      (heldDocuments surroundings).reverse.findSome? fun held => pick held.1 held.2 := by
  have yielded (origin : Origin) :
      ((held? surroundings.store origin.path).map fun document => (origin, document)).bind
        (fun held => pick held.1 held.2) =
      (held? surroundings.store origin.path).bind (pick origin) := by
    cases held? surroundings.store origin.path <;> rfl
  have first
      (answer : Origin → Option Answer)
      (origin : Origin)
      (rest : List Origin) :
      (origin :: rest).findSome? answer = (answer origin).or (rest.findSome? answer) := by
    rw [List.findSome?_cons]
    cases answer origin <;> rfl
  rw [heldDocuments, ← List.filterMap_reverse, ← List.head?_filterMap, List.filterMap_filterMap,
    List.head?_filterMap]
  simp only [yielded]
  rw [strongest?, candidates_eq]
  cases projectFile? surroundings.store <;>
    simp only [Option.map_none, Option.map_some, Option.toList_none, Option.toList_some,
      List.append_nil, List.cons_append, List.nil_append, List.reverse_cons, List.reverse_nil,
      first, List.findSome?_nil, Option.or_none, Option.bind_none, Option.none_or,
      Option.bind_some]

/-- The layers are made by adding one document after the other. -/
theorem gather_eq_foldl (surroundings : Surroundings) :
    Layers.gather surroundings =
      (heldDocuments surroundings).foldl (fun layers held => layers.add held.2 held.1)
        ⟨Settings.default.document, [], []⟩ := by
  rw [Layers.gather, heldDocuments, List.foldl_filterMap]
  congr 1
  funext layers origin
  rw [held?]
  cases surroundings.store.read origin.path with
  | error fault => rfl
  | ok content =>
      dsimp only
      cases Toml.parse .established content <;> rfl

/-- What holds of the defaults alone, and is kept when a document is added, holds of the layers and
the documents, the strongest first. -/
theorem gather_induction
    {surroundings : Surroundings}
    (holds : Layers → List (Origin × Toml.Table) → Prop)
    (start : holds ⟨Settings.default.document, [], []⟩ [])
    (add : ∀ layers documents, ∀ held ∈ heldDocuments surroundings,
      holds layers documents → holds (layers.add held.2 held.1) (held :: documents)) :
    holds (Layers.gather surroundings) (heldDocuments surroundings).reverse := by
  have run
      (remaining : List (Origin × Toml.Table))
      (within : ∀ held ∈ remaining, held ∈ heldDocuments surroundings)
      (layers : Layers)
      (documents : List (Origin × Toml.Table))
      (held : holds layers documents) :
      holds (remaining.foldl (fun layers held => layers.add held.2 held.1) layers)
        (remaining.reverse ++ documents) := by
    induction remaining generalizing layers documents with
    | nil => exact held
    | cons first rest induction =>
        rw [List.forall_mem_cons] at within
        rw [List.foldl_cons, List.reverse_cons, List.append_assoc]
        exact induction within.2 _ _ (add layers documents first within.1 held)
  rw [gather_eq_foldl]
  simpa using run (heldDocuments surroundings) (fun _ member => member) _ [] start

@[simp]
theorem defaults_gather (surroundings : Surroundings) :
    (Layers.gather surroundings).defaults = Settings.default.document :=
  gather_induction (fun layers _ => layers.defaults = Settings.default.document) rfl
    fun _ _ _ _ kept => kept

/-- With nothing remembered, what is loaded are the settings of the gathered layers. -/
theorem load_empty_eq_ok_iff
    (surroundings : Surroundings)
    (settings : Settings) :
    (Memory.empty.load surroundings).1 = .ok settings ↔
      (Layers.gather surroundings).settings surroundings.environment = .ok settings := by
  rw [Memory.load]
  dsimp only [Memory.empty, Memory.gathered, Option.getD_none]
  cases (Layers.gather surroundings).settings surroundings.environment <;> simp

end UnoBindgen.Settings
