import Mathlib
import UnoBindgen.Proofs.FileStore.Nodes
import UnoBindgen.Proofs.FileStore.Places

/-!
# When a store lets something happen

Each operation of a store succeeds under a condition on its nodes and refusals, and does one thing
when it succeeds.  The lemmas here say both at once, so that nothing else has to look into the
operations.
-/

namespace UnoBindgen.FileStore

open Text.SlashPath

/-! ## The way down to a place -/

/-- All names on the way down from one place to another lead through directories. -/
def IsOpenWay (store : FileStore) (above way : Place) : Prop :=
  ∀ part, part ≠ [] → part <+: way → part ≠ way → store.HasDirectory (above ++ part)

theorem isOpenWay_nil (store : FileStore) (above : Place) :
    store.IsOpenWay above [] :=
  fun _ nonempty shorter _ => (nonempty (List.prefix_nil.1 shorter)).elim

theorem isOpenWay_singleton
    (store : FileStore)
    (above : Place)
    (name : Text) :
    store.IsOpenWay above [name] := by
  intro part nonempty shorter differs
  rcases List.prefix_concat_iff.1 (show part <+: [] ++ [name] from shorter) with same | empty
  · exact (differs same).elim
  · exact (nonempty (List.prefix_nil.1 empty)).elim

theorem isOpenWay_cons_iff
    (store : FileStore)
    (above : Place)
    (name : Text)
    {rest : Place}
    (nonempty : rest ≠ []) :
    store.IsOpenWay above (name :: rest) ↔
      store.HasDirectory (above ++ [name]) ∧ store.IsOpenWay (above ++ [name]) rest := by
  constructor
  · intro clear
    constructor
    · exact clear [name] (by simp) (by simp) (by simpa using Ne.symm nonempty)
    · intro part partNonempty shorter differs
      have below := clear (name :: part) (by simp)
        (List.cons_prefix_cons.2 ⟨rfl, shorter⟩) (by simpa using differs)
      simpa using below
  · rintro ⟨directory, clear⟩ part partNonempty shorter differs
    obtain ⟨first, others, rfl⟩ := List.exists_cons_of_ne_nil partNonempty
    obtain ⟨rfl, othersShorter⟩ := List.cons_prefix_cons.1 shorter
    cases others with
    | nil => exact directory
    | cons next behind =>
        have below := clear (next :: behind) (by simp) othersShorter (by simpa using differs)
        simpa using below

theorem isReachable_eq_true_iff
    (store : FileStore)
    (above way : Place) :
    store.isReachable above way = true ↔ store.IsOpenWay above way := by
  fun_induction isReachable store above way with
  | case1 above => simp [isOpenWay_nil]
  | case2 above name => simp [isOpenWay_singleton]
  | case3 above name rest multiple node found induction =>
      have there : store.HasDirectory (above ++ [name]) ↔ node.isDirectory = true := by
        constructor
        · rintro ⟨other, otherFound, directory⟩
          rw [found] at otherFound
          rwa [← Option.some.inj otherFound] at directory
        · intro directory
          exact ⟨node, found, directory⟩
      rw [Bool.and_eq_true, induction, isOpenWay_cons_iff _ _ _ multiple, there]
  | case4 above name rest multiple missing =>
      rw [isOpenWay_cons_iff _ _ _ multiple]
      simp [not_hasDirectory_of_vacant missing]

/-! ## Paths that can be followed -/

/-- A path can be followed: on disk it is not empty, and every place that is passed on the way is a
directory. -/
def Reaches (store : FileStore) (path : Text) : Prop :=
  store.manner = .disk →
    path ≠ [] ∧
      ∀ part, part <+: path.splitAt '/' → part ≠ path.splitAt '/' →
        store.HasDirectory (store.passed path part)

theorem obstacle?_eq_none_iff
    (store : FileStore)
    (path : Text)
    (done rest : List Text) :
    store.obstacle? (store.passed path done) rest = none ↔
      ∀ part, part <+: rest → part ≠ rest → store.HasDirectory (store.passed path (done ++ part)) := by
  induction rest generalizing done with
  | nil =>
      simp only [obstacle?, List.prefix_nil, true_iff]
      intro part empty differs
      exact absurd empty differs
  | cons segment rest induction =>
      have split :
          (∀ part, part <+: segment :: rest → part ≠ segment :: rest →
            store.HasDirectory (store.passed path (done ++ part))) ↔
          store.HasDirectory (store.passed path done) ∧
            ∀ part, part <+: rest → part ≠ rest →
              store.HasDirectory (store.passed path (done ++ [segment] ++ part)) := by
        constructor
        · intro clear
          refine ⟨?_, fun part shorter differs => ?_⟩
          · have here := clear [] List.nil_prefix (by simp)
            rwa [List.append_nil] at here
          · have below := clear (segment :: part) (List.cons_prefix_cons.2 ⟨rfl, shorter⟩)
              (by simpa using differs)
            rwa [List.append_assoc]
        · rintro ⟨here, below⟩ part shorter differs
          cases part with
          | nil => rwa [List.append_nil]
          | cons first part =>
              obtain ⟨rfl, inside⟩ := List.cons_prefix_cons.1 shorter
              have further := below part inside (by simpa using differs)
              rwa [List.append_assoc] at further
      rw [split, ← induction, ← follow_passed, obstacle?]
      cases found : store.node? (store.passed path done) with
      | none => simp [not_hasDirectory_of_vacant found]
      | some node =>
          have there : store.HasDirectory (store.passed path done) ↔ node.isDirectory = true := by
            simp [HasDirectory, found]
          rw [there]
          cases directory : node.isDirectory <;> simp [directory]

theorem hindrance?_eq_none_iff
    (store : FileStore)
    (path : Text) :
    store.hindrance? path = none ↔ store.Reaches path := by
  have way := store.obstacle?_eq_none_iff path [] (path.splitAt '/')
  simp only [List.nil_append] at way
  rw [hindrance?, Reaches]
  cases store.manner with
  | memory => simp
  | disk =>
      rw [← way, ← origin_eq_passed]
      cases path with
      | nil => simp
      | cons first rest => simp

instance (store : FileStore) (path : Text) : Decidable (store.Reaches path) :=
  decidable_of_iff (store.hindrance? path = none) (store.hindrance?_eq_none_iff path)

/-- On disk, the way along a path leads through a file: what is passed before it are directories, and
the path goes on behind it. -/
def MeetsFile (store : FileStore) (path : Text) : Prop :=
  store.manner = .disk ∧ path ≠ [] ∧
    ∃ part, part <+: path.splitAt '/' ∧ part ≠ path.splitAt '/' ∧
      store.HasFile (store.passed path part) ∧
        ∀ earlier, earlier <+: part → earlier ≠ part →
          store.HasDirectory (store.passed path earlier)

theorem obstacle?_eq_noDirectory_iff
    (store : FileStore)
    (path : Text)
    (done rest : List Text) :
    store.obstacle? (store.passed path done) rest = some .noDirectory ↔
      ∃ part, part <+: rest ∧ part ≠ rest ∧
        store.HasFile (store.passed path (done ++ part)) ∧
          ∀ earlier, earlier <+: part → earlier ≠ part →
            store.HasDirectory (store.passed path (done ++ earlier)) := by
  induction rest generalizing done with
  | nil =>
      constructor
      · exact nofun
      · rintro ⟨part, shorter, differs, -⟩
        exact (differs (List.prefix_nil.1 shorter)).elim
  | cons segment rest induction =>
      have further := induction (done ++ [segment])
      rw [obstacle?, follow_passed]
      cases found : store.node? (store.passed path done) with
      | none =>
          constructor
          · exact nofun
          · rintro ⟨part, -, -, isFile, clear⟩
            cases part with
            | nil =>
                obtain ⟨node, present, -⟩ := isFile
                rw [List.append_nil, found] at present
                exact absurd present (by simp)
            | cons first part =>
                have here := clear [] List.nil_prefix (by simp)
                rw [List.append_nil] at here
                exact (not_hasDirectory_of_vacant found here).elim
      | some node =>
          cases standing : node.isDirectory with
          | false =>
              refine ⟨fun _ => ⟨[], List.nil_prefix, by simp, ?_, fun earlier shorter differs =>
                (differs (List.prefix_nil.1 shorter)).elim⟩, fun _ => by simp [standing]⟩
              rw [List.append_nil]
              exact ⟨node, found, standing⟩
          | true =>
              simp only [standing, if_true]
              rw [further]
              constructor
              · rintro ⟨part, shorter, differs, isFile, clear⟩
                refine ⟨segment :: part, List.cons_prefix_cons.2 ⟨rfl, shorter⟩,
                  by simpa using differs, by simpa using isFile, fun earlier inside proper => ?_⟩
                cases earlier with
                | nil =>
                    rw [List.append_nil]
                    exact ⟨node, found, standing⟩
                | cons first earlier =>
                    obtain ⟨rfl, within⟩ := List.cons_prefix_cons.1 inside
                    simpa using clear earlier within (by simpa using proper)
              · rintro ⟨part, shorter, differs, isFile, clear⟩
                cases part with
                | nil =>
                    rw [List.append_nil] at isFile
                    exact (isFile.not_hasDirectory ⟨node, found, standing⟩).elim
                | cons first part =>
                    obtain ⟨rfl, inside⟩ := List.cons_prefix_cons.1 shorter
                    refine ⟨part, inside, by simpa using differs, by simpa using isFile,
                      fun earlier within proper => ?_⟩
                    simpa using clear (first :: earlier) (List.cons_prefix_cons.2 ⟨rfl, within⟩)
                      (by simpa using proper)

theorem hindrance?_eq_noDirectory_iff
    (store : FileStore)
    (path : Text) :
    store.hindrance? path = some .noDirectory ↔ store.MeetsFile path := by
  have way := store.obstacle?_eq_noDirectory_iff path [] (path.splitAt '/')
  simp only [List.nil_append] at way
  rw [hindrance?, MeetsFile]
  cases store.manner with
  | memory => simp
  | disk =>
      rw [← way, ← origin_eq_passed]
      cases path with
      | nil => simp
      | cons first rest => simp

/-- Why a path cannot be followed depends on the nodes of a store alone. -/
theorem hindrance?_congr
    {store other : FileStore}
    (manner : other.manner = store.manner)
    (workingDirectory : other.workingDirectory = store.workingDirectory)
    (same : ∀ place, other.node? place = store.node? place)
    (path : Text) :
    other.hindrance? path = store.hindrance? path := by
  have sameObstacle (above : Place) (rest : List Text) :
      other.obstacle? above rest = store.obstacle? above rest := by
    induction rest generalizing above with
    | nil => rfl
    | cons segment rest induction => simp only [obstacle?, same, induction]
  have sameOrigin : other.origin path = store.origin path := by
    rw [origin, origin, place, place, workingDirectory]
  simp only [hindrance?, manner, sameOrigin, sameObstacle]

theorem reaches_of_memory
    {store : FileStore}
    (memory : store.manner = .memory)
    (path : Text) :
    store.Reaches path := by
  intro onDisk
  rw [memory] at onDisk
  exact Manner.noConfusion onDisk

/-- A path can still be followed where the directories on its way are still there. -/
theorem Reaches.mono
    {store other : FileStore}
    {path : Text}
    (reaches : store.Reaches path)
    (manner : other.manner = store.manner)
    (workingDirectory : other.workingDirectory = store.workingDirectory)
    (keeps :
      ∀ part, part <+: path.splitAt '/' → part ≠ path.splitAt '/' →
        store.HasDirectory (store.passed path part) →
          other.HasDirectory (store.passed path part)) :
    other.Reaches path := by
  intro onDisk
  obtain ⟨nonempty, clear⟩ := reaches (manner ▸ onDisk)
  refine ⟨nonempty, fun part shorter differs => ?_⟩
  have same : other.passed path part = store.passed path part := by
    rw [passed, passed, start, start, workingDirectory]
  rw [same]
  exact keeps part shorter differs (clear part shorter differs)

/-- Where a path can be followed, the way down to its place is open, provided that the place at which
it starts is below directories only. -/
theorem Reaches.isOpenWay
    {store : FileStore}
    {path : Text}
    (reaches : store.Reaches path)
    (onDisk : store.manner = .disk)
    (started : ∀ above, above <+: store.passed path [] → store.HasDirectory above) :
    store.IsOpenWay [] (store.place path) := by
  intro above _ shorter differs
  rw [List.nil_append]
  rw [place_eq_passed] at shorter differs
  rcases store.exists_passed_of_above path (fun _ => Text.not_mem_of_mem_splitAt) shorter with
    atStart | ⟨part, inside, rfl⟩
  · exact started above atStart
  · apply (reaches onDisk).2 part inside
    rintro rfl
    exact differs rfl

/-- A cleaned path can be followed when the way down to its place is open. -/
theorem reaches_clean
    {store : FileStore}
    (situated : store.manner = .disk → ∀ above, above <+: store.place [] → store.HasDirectory above)
    {path : Text}
    (clear : store.manner = .disk → store.IsOpenWay [] (store.place path)) :
    store.Reaches (clean path) := by
  intro onDisk
  refine ⟨clean_ne_nil path, fun part shorter differs => ?_⟩
  rcases passed_clean store path shorter differs with ⟨above, elsewhere⟩ | above
  · by_cases root : store.passed (clean path) part = []
    · rw [root]
      exact hasDirectory_root store
    · exact clear onDisk _ root above elsewhere
  · exact situated onDisk _ above

/-- A path that can be followed to a directory leads, cleaned, through directories as well. -/
theorem Reaches.hasDirectory_passed
    {store : FileStore}
    {path : Text}
    (reaches : store.Reaches path)
    (onDisk : store.manner = .disk)
    (directory : store.HasDirectory (store.place path))
    {first : List Text}
    (shorter : first <+: segments path) :
    store.HasDirectory (store.passed path first) := by
  obtain ⟨part, inside, -, same⟩ := store.exists_passed_of_segments path shorter
  rw [← same]
  by_cases whole : part = path.splitAt '/'
  · rwa [whole, ← place_eq_passed]
  · exact (reaches onDisk).2 part inside whole

/-- From a directory that can be reached one reaches what is below it, where the way down is open. -/
theorem Reaches.below
    {store : FileStore}
    {path : Text}
    (reaches : store.Reaches path)
    (directory : store.HasDirectory (store.place path))
    {way : Place}
    (nonempty : way ≠ [])
    (plain : ∀ segment ∈ way, IsPlain segment)
    (clear : store.IsOpenWay (store.place path) way) :
    store.Reaches (join [path, Text.join ['/'] way]) := by
  intro onDisk
  obtain ⟨sameRoot, split⟩ := segments_join path nonempty plain
  have joined : join [path, Text.join ['/'] way] ≠ [] := by
    intro empty
    rw [empty] at split
    have none : segments [] = [] := rfl
    rw [none] at split
    exact nonempty (List.append_eq_nil_iff.1 split.symm).2
  refine ⟨joined, ?_⟩
  obtain ⟨shown, cleaned⟩ := exists_clean_of_join joined
  rw [cleaned, isRooted_clean] at sameRoot
  rw [cleaned, segments_clean] at split
  rw [cleaned]
  intro part shorter differs
  obtain ⟨first, inside, proper, same⟩ := store.exists_first_of_clean shown shorter differs
  have samePassed (part : List Text) : store.passed shown part = store.passed path part := by
    rw [passed, passed, sameRoot]
  rw [same, samePassed]
  rw [split] at inside proper
  rcases List.prefix_or_prefix_of_prefix inside (List.prefix_append _ way) with
    above | ⟨more, rfl⟩
  · exact reaches.hasDirectory_passed onDisk directory above
  · have moreInside : more <+: way := (List.prefix_append_right_inj _).1 inside
    have below : store.passed path (segments path ++ more) = store.place path ++ more := by
      rw [place_eq_passed_segments, passed, passed, ← List.append_assoc,
        resolveSegments_append_of_isPlain true _ fun segment member =>
          plain segment (moreInside.subset member)]
    rw [below]
    by_cases here : more = []
    · rwa [here, List.append_nil]
    · apply clear more here moreInside
      rintro rfl
      exact here (List.append_eq_nil_iff.1 (proper rfl)).2

/-- A path that can be followed can be followed as seen from itself, also to a file. -/
theorem Reaches.join_same
    {store : FileStore}
    {path : Text}
    (reaches : store.Reaches path) :
    store.Reaches (join [path, ['.']]) := by
  intro onDisk
  obtain ⟨nonempty, clear⟩ := reaches onDisk
  have joined : join [path, ['.']] = clean (path ++ '/' :: ['.']) := by
    simp [join, nonempty, Text.join]
  obtain ⟨sameRoot, split⟩ :
      isRooted (path ++ '/' :: ['.']) = isRooted path ∧
        segments (path ++ '/' :: ['.']) = segments path := by
    have sameRoot : isRooted (path ++ '/' :: ['.']) = isRooted path := by
      cases path with
      | nil => exact (nonempty rfl).elim
      | cons first rest => rw [List.cons_append, isRooted_cons, isRooted_cons]
    refine ⟨sameRoot, ?_⟩
    rw [segments, sameRoot, Text.splitAt_append]
    exact resolveSegments_append_idle _ _ (Or.inr rfl)
  rw [joined]
  refine ⟨clean_ne_nil _, fun part shorter differs => ?_⟩
  obtain ⟨first, inside, proper, same⟩ := store.exists_first_of_clean _ shorter differs
  have samePassed : store.passed (path ++ '/' :: ['.']) first = store.passed path first := by
    rw [passed, passed, sameRoot]
  rw [split] at inside proper
  rw [same, samePassed]
  by_cases start : first = []
  · rw [start]
    exact clear [] List.nil_prefix (Ne.symm (Text.splitAt_ne_nil '/' path))
  · obtain ⟨part, partInside, whole, samePart⟩ := store.exists_passed_of_segments path inside
    rw [← samePart]
    exact clear part partInside fun same => start (proper (whole same))

/-! ## Finding -/

theorem find_eq_ok_iff
    (store : FileStore)
    (action path : Text)
    (node : FileNode) :
    store.find action path = .ok node ↔
      store.Reaches path ∧ store.node? (store.place path) = some node := by
  rw [← hindrance?_eq_none_iff, find]
  cases store.hindrance? path with
  | some hindrance => simp
  | none => cases store.node? (store.place path) <;> simp

theorem isMissingFile_absence
    (store : FileStore)
    (action path : Text) :
    (store.absence action path).isMissingFile = true := by
  rw [absence]
  cases store.manner <;> rfl

theorem find_of_vacant
    {store : FileStore}
    {path : Text}
    (reaches : store.Reaches path)
    (vacant : store.node? (store.place path) = none)
    (action : Text) :
    store.find action path = .error (store.absence action path) := by
  rw [← hindrance?_eq_none_iff] at reaches
  simp only [find, reaches, vacant]

/-- What is found at a path depends on the node at its place alone, if the path can be followed. -/
theorem find_congr
    {store other : FileStore}
    (manner : other.manner = store.manner)
    (workingDirectory : other.workingDirectory = store.workingDirectory)
    {path : Text}
    (node : other.node? (store.place path) = store.node? (store.place path))
    (reaches : store.Reaches path)
    (otherReaches : other.Reaches path)
    (action : Text) :
    other.find action path = store.find action path := by
  have place : other.place path = store.place path := by
    rw [FileStore.place, FileStore.place, workingDirectory]
  have absence : other.absence action path = store.absence action path := by
    simp only [FileStore.absence, failure, shownPath, manner]
  rw [← hindrance?_eq_none_iff] at reaches otherReaches
  simp only [find, reaches, otherReaches, place, node, absence]
  cases store.node? (store.place path) <;> rfl

/-! ## Reading, writing and making directories -/

theorem read_eq_ok_iff
    (store : FileStore)
    (path content : Text) :
    store.read path = .ok content ↔
      store.refusal .read (store.place path) = none ∧
        store.Reaches path ∧
        ∃ node, store.node? (store.place path) = some node ∧ node.content = content ∧
          (store.manner = .disk → node.isDirectory = false) := by
  have found := store.find_eq_ok_iff "open" path
  rw [read]
  cases store.refusal .read (store.place path) with
  | some fault => simp
  | none =>
      cases opened : store.find "open" path with
      | error fault =>
          rw [opened] at found
          constructor
          · intro same
            exact absurd same (by simp)
          · rintro ⟨-, reaches, node, present, -⟩
            exact absurd ((found node).2 ⟨reaches, present⟩) (by simp)
      | ok node =>
          obtain ⟨reaches, present⟩ := (found node).1 opened
          cases store.manner with
          | memory => simp [reaches, present]
          | disk => cases directory : node.isDirectory <;> simp [reaches, present, directory]

/-- A file that is not there is reported as missing, provided that the way to it can be followed. -/
theorem isMissingFile_of_read
    {store : FileStore}
    {path : Text}
    {fault : Fault}
    (allowed : store.refusal .read (store.place path) = none)
    (reaches : store.Reaches path)
    (absent : store.node? (store.place path) = none)
    (failed : store.read path = .error fault) :
    fault.isMissingFile = true := by
  simp only [read, allowed, find_of_vacant reaches absent, Except.error.injEq] at failed
  rw [← failed]
  exact isMissingFile_absence store "open" path

/-- What is read at a path depends on the node at its place alone, once the way to it is open. -/
theorem read_congr
    {store other : FileStore}
    (manner : other.manner = store.manner)
    (workingDirectory : other.workingDirectory = store.workingDirectory)
    (refusal : other.refusal = store.refusal)
    {path : Text}
    (node : other.node? (store.place path) = store.node? (store.place path))
    (reaches : store.Reaches path)
    (otherReaches : other.Reaches path) :
    other.read path = store.read path := by
  have place : other.place path = store.place path := by
    rw [FileStore.place, FileStore.place, workingDirectory]
  simp only [read, find_congr manner workingDirectory node reaches otherReaches, refusal, place,
    manner, failure, shownPath]

theorem writeObstacle?_eq_none_iff
    (store : FileStore)
    (path : Text) :
    store.writeObstacle? path = none ↔
      store.Reaches path ∧
        (store.manner = .disk → ¬ store.HasDirectory (store.place path)) := by
  rw [← hindrance?_eq_none_iff, writeObstacle?]
  cases store.hindrance? path with
  | some hindrance => simp
  | none =>
      cases store.manner with
      | memory => simp
      | disk =>
          cases found : store.node? (store.place path) with
          | none => simp [HasDirectory, found]
          | some node => cases directory : node.isDirectory <;> simp [HasDirectory, found, directory]

theorem write_eq_ok_iff
    (store : FileStore)
    (path content : Text)
    (after : FileStore) :
    store.write path content = (after, none) ↔
      store.refusal .write (store.place path) = none ∧
        store.Reaches path ∧
        (store.manner = .disk → ¬ store.HasDirectory (store.place path)) ∧
        after = store.withContent (store.place path) content := by
  have free := store.writeObstacle?_eq_none_iff path
  rw [write]
  cases store.refusal .write (store.place path) with
  | some fault =>
      cases store.writeObstacle? path with
      | some obstacle => simp
      | none => cases store.remnant (store.place path) <;> simp
  | none =>
      cases obstructed : store.writeObstacle? path with
      | some obstacle =>
          rw [obstructed] at free
          constructor
          · intro same
            exact absurd same (by simp)
          · rintro ⟨-, reaches, noDirectory, -⟩
            exact absurd (free.2 ⟨reaches, noDirectory⟩) (by simp)
      | none =>
          obtain ⟨reaches, noDirectory⟩ := free.1 obstructed
          constructor
          · intro same
            exact ⟨rfl, reaches, noDirectory, (Prod.mk.inj same).1.symm⟩
          · rintro ⟨-, -, -, rfl⟩
            rfl

/-- A write that fails has changed nothing, or it leaves something in the file that it was to
write. -/
theorem eq_or_remnant_of_write
    {store after : FileStore}
    {path content : Text}
    {fault : Fault}
    (failed : store.write path content = (after, some fault)) :
    after = store ∨
      ∃ rest, store.Reaches path ∧
        (store.manner = .disk → ¬ store.HasDirectory (store.place path)) ∧
        after = store.withContent (store.place path) rest := by
  have free := store.writeObstacle?_eq_none_iff path
  rw [write] at failed
  split at failed
  · exact absurd failed (by simp)
  · exact Or.inl (Prod.mk.inj failed).1.symm
  · exact Or.inl (Prod.mk.inj failed).1.symm
  · rename_i unobstructed
    obtain ⟨reaches, noDirectory⟩ := free.1 unobstructed
    split at failed
    · exact Or.inl (Prod.mk.inj failed).1.symm
    · exact Or.inr ⟨_, reaches, noDirectory, (Prod.mk.inj failed).1.symm⟩

theorem stop?_eq_none_iff
    (store : FileStore)
    (path : Text) :
    store.stop? path = none ↔
      ¬ store.HasFile (store.place path) ∧
        (store.node? (store.place path) = none →
          store.refusal .makeDirectory (store.place path) = none) := by
  rw [stop?]
  cases found : store.node? (store.place path) with
  | none => simp [HasFile, found]
  | some node => cases directory : node.isDirectory <;> simp [HasFile, found, directory]

theorem firstStop?_eq_none_iff
    (store : FileStore)
    (path : Text) :
    store.firstStop? path = none ↔
      (store.manner = .disk →
        ∀ ancestor ∈ ancestors path,
          ¬ store.HasFile (store.place ancestor) ∧
            (store.node? (store.place ancestor) = none →
              store.refusal .makeDirectory (store.place ancestor) = none)) := by
  simp only [← stop?_eq_none_iff, firstStop?]
  cases store.manner with
  | memory => simp
  | disk => simp [List.findSome?_eq_none_iff]

theorem makeDirectories_eq_ok_iff
    (store : FileStore)
    (path : Text)
    (after : FileStore) :
    store.makeDirectories path = (after, none) ↔
      store.refusal .makeDirectory (store.place path) = none ∧
        (store.manner = .disk →
          ∀ ancestor ∈ ancestors path,
            ¬ store.HasFile (store.place ancestor) ∧
              (store.node? (store.place ancestor) = none →
                store.refusal .makeDirectory (store.place ancestor) = none)) ∧
        after = store.withDirectories (store.place path) := by
  rw [← firstStop?_eq_none_iff, makeDirectories]
  cases store.firstStop? path with
  | some stop => simp
  | none =>
      cases store.refusal .makeDirectory (store.place path) with
      | some fault => simp
      | none => simp [eq_comm]

/-- Making directories stops at one of the segments of a path, and none of those before it leads to a
file. -/
theorem exists_part_of_firstStop?
    {store : FileStore}
    {path ancestor : Text}
    {fault : Fault}
    (stopped : store.firstStop? path = some (ancestor, fault)) :
    store.manner = .disk ∧
      ancestor ∈ ancestors path ∧
      store.stop? ancestor = some fault ∧
      ∃ part, part <+: segments path ∧
        ancestor = ofSegments (isRooted path) part ∧
        ∀ first, first ≠ [] → first <+: part → first ≠ part →
          ¬ store.HasFile (store.passed path first) := by
  rw [firstStop?] at stopped
  cases manner : store.manner with
  | memory => simp [manner] at stopped
  | disk =>
      rw [manner] at stopped
      obtain ⟨before, here, after, split, stops, earlier⟩ :=
        List.findSome?_eq_some_iff.1 stopped
      obtain ⟨reason, halted, same⟩ := Option.map_eq_some_iff.1 stops
      obtain ⟨rfl, rfl⟩ := Prod.mk.inj same
      have bound : before.length < (segments path).length := by
        have counted := congrArg List.length split
        rw [length_ancestors, List.length_append, List.length_cons] at counted
        omega
      refine ⟨rfl, by simp [split], halted, (segments path).take (before.length + 1),
        List.take_prefix _ _, ?_, ?_⟩
      · have found := ancestors_getElem? bound
        rw [split, List.getElem?_append_right (Nat.le_refl _), Nat.sub_self,
          List.getElem?_cons_zero] at found
        exact Option.some.inj found
      · intro first nonempty inside differs
        have inPath := inside.trans (List.take_prefix _ (segments path))
        have positive := List.length_pos_iff.2 nonempty
        have fewer := lt_of_le_of_ne inside.length_le fun same =>
          differs (inside.eq_of_length same)
        rw [List.length_take_of_le bound] at fewer
        have listed : ofSegments (isRooted path) first ∈ before := by
          have found := ancestors_getElem?_of_above nonempty inPath
          rw [split, List.getElem?_append_left (by omega)] at found
          exact List.mem_of_getElem? found
        have free := earlier _ listed
        rw [Option.map_eq_none_iff, stop?_eq_none_iff, place_ofSegments_of_above store inPath]
          at free
        exact free.1

/-! ## What can go wrong -/

/-- What the operating system answers carries none of the conditions that callers branch on. -/
theorem carries_failure
    (store : FileStore)
    (action path reason : Text)
    (missing : Bool)
    (condition : Condition) :
    (store.failure action path reason missing).carries condition = false := rfl

theorem carries_absence
    (store : FileStore)
    (action path : Text)
    (condition : Condition) :
    (store.absence action path).carries condition = false := by
  rw [absence]
  cases store.manner <;> rfl

theorem carries_hindered
    (store : FileStore)
    (action path : Text)
    (hindrance : Hindrance)
    (condition : Condition) :
    (store.hindered action path hindrance).carries condition = false := by
  cases hindrance with
  | missing => exact carries_absence store action path condition
  | noDirectory => exact carries_failure store action path _ false condition

theorem carries_of_find
    {store : FileStore}
    {action path : Text}
    {fault : Fault}
    (failed : store.find action path = .error fault)
    (condition : Condition) :
    fault.carries condition = false := by
  rw [find] at failed
  split at failed
  · rw [← Except.error.inj failed]
    exact carries_hindered store action path _ condition
  · rw [← Except.error.inj failed]
    exact carries_absence store action path condition
  · exact absurd failed (by simp)

variable
  {store : FileStore}
  (free : ∀ action place, store.refusal action place = none)

include free

theorem carries_of_read
    {path : Text}
    {fault : Fault}
    (failed : store.read path = .error fault)
    (condition : Condition) :
    fault.carries condition = false := by
  simp only [read, free] at failed
  split at failed
  · rename_i hindered
    rw [← Except.error.inj failed]
    exact carries_of_find hindered condition
  · split at failed
    · rw [← Except.error.inj failed]
      exact carries_failure store _ path _ false condition
    · exact absurd failed (by simp)

theorem carries_of_write
    {path content : Text}
    {after : FileStore}
    {fault : Fault}
    (failed : store.write path content = (after, some fault))
    (condition : Condition) :
    fault.carries condition = false := by
  simp only [write, free] at failed
  cases obstacle : store.writeObstacle? path with
  | none => simp [obstacle] at failed
  | some reason =>
      simp only [obstacle, Prod.mk.injEq, Option.some.injEq] at failed
      rw [← failed.2]
      rw [writeObstacle?] at obstacle
      split at obstacle
      · rw [← Option.some.inj obstacle]
        exact carries_hindered store _ path _ condition
      · split at obstacle
        · split at obstacle
          · rw [← Option.some.inj obstacle]
            exact carries_failure store _ path _ false condition
          · exact absurd obstacle (by simp)
        · exact absurd obstacle (by simp)

theorem carries_of_makeDirectories
    {path : Text}
    {after : FileStore}
    {fault : Fault}
    (failed : store.makeDirectories path = (after, some fault))
    (condition : Condition) :
    fault.carries condition = false := by
  simp only [makeDirectories, free] at failed
  split at failed
  · rename_i ancestor reason _ stopped
    rw [← Option.some.inj (Prod.mk.inj failed).2]
    rw [firstStop?] at stopped
    split at stopped
    · exact absurd stopped (by simp)
    · obtain ⟨above, -, stops⟩ := List.exists_of_findSome?_eq_some stopped
      obtain ⟨reason, stops, same⟩ := Option.map_eq_some_iff.1 stops
      rw [← (Prod.mk.inj same).2]
      simp only [stop?, free] at stops
      split at stops
      · split at stops
        · exact absurd stops (by simp)
        · rw [← Option.some.inj stops]
          exact carries_failure store _ _ _ false condition
      · exact absurd stops (by simp)
  · exact absurd ‹none = some _› (by simp)
  · exact absurd failed (by simp)

end UnoBindgen.FileStore
