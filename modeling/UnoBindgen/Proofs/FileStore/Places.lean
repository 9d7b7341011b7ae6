import Mathlib
import UnoBindgen.FileStore
import UnoBindgen.Proofs.Text.SlashPath

/-!
# The places that paths name

A path names a place through its segments, resolved from the root or from the working directory.
Cleaning a path does not change the place it names, so a path below a root names the place of the
root with the segments of the path behind it.

The paths of the directories above a directory name places on the way down to it, or on the way
down to the working directory when the path climbs out of that first.
-/

namespace UnoBindgen

namespace Text

namespace SlashPath

/-! ## Resolving segments -/

/-- The segment that leads upwards. -/
abbrev upwards : Text := ['.', '.']

theorem segment_cases
    {segment : Text}
    (noSlash : '/' ∉ segment) :
    (segment = [] ∨ segment = ['.']) ∨ segment = upwards ∨ IsPlain segment := by
  by_cases idle : segment = [] ∨ segment = ['.']
  · exact Or.inl idle
  · by_cases climb : segment = upwards
    · exact Or.inr (Or.inl climb)
    · rw [not_or] at idle
      exact Or.inr (Or.inr ⟨idle.1, idle.2, climb, noSlash⟩)

theorem pushSegment_idle
    (rooted : Bool)
    (kept : List Text)
    {segment : Text}
    (idle : segment = [] ∨ segment = ['.']) :
    pushSegment rooted kept segment = kept := by
  unfold pushSegment
  rw [if_pos idle]

theorem pushSegment_upwards
    (rooted : Bool)
    {last : Text}
    (notUpwards : last ≠ upwards)
    (kept : List Text) :
    pushSegment rooted (last :: kept) upwards = kept := by
  simp [pushSegment, notUpwards]

theorem pushSegment_upwards_replicate (climbs : Nat) :
    pushSegment false (List.replicate climbs upwards) upwards =
      List.replicate (climbs + 1) upwards := by
  cases climbs <;> simp [pushSegment, List.replicate_succ]

theorem resolveSegments_concat
    (rooted : Bool)
    (segments : List Text)
    (segment : Text) :
    resolveSegments rooted (segments ++ [segment]) =
      (pushSegment rooted (resolveSegments rooted segments).reverse segment).reverse := by
  simp [resolveSegments]

/-- Resolved segments are some steps upwards, and then plain segments. -/
structure IsResolved (segments : List Text) (climbs : Nat) (plain : List Text) : Prop where
  shape : segments = List.replicate climbs upwards ++ plain
  isPlain : ∀ segment ∈ plain, IsPlain segment

theorem exists_isResolved
    {segments : List Text}
    (noSlash : ∀ segment ∈ segments, '/' ∉ segment) :
    ∃ climbs plain, IsResolved (resolveSegments false segments) climbs plain := by
  induction segments using List.reverseRecOn with
  | nil => exact ⟨0, [], rfl, by simp⟩
  | append_singleton segments segment induction =>
      obtain ⟨climbs, plain, resolved⟩ :=
        induction fun other member => noSlash other (List.mem_append_left _ member)
      rw [resolveSegments_concat, resolved.shape]
      rcases segment_cases (noSlash segment (by simp)) with idle | rfl | segmentPlain
      · refine ⟨climbs, plain, ?_, resolved.isPlain⟩
        rw [pushSegment_idle false _ idle, List.reverse_reverse]
      · rcases List.eq_nil_or_concat plain with rfl | ⟨before, last, rfl⟩
        · refine ⟨climbs + 1, [], ?_, by simp⟩
          rw [List.append_nil, List.reverse_replicate, pushSegment_upwards_replicate,
            List.reverse_replicate, List.append_nil]
        · refine ⟨climbs, before, ?_, fun other member => resolved.isPlain other (by simp [member])⟩
          rw [List.concat_eq_append, ← List.append_assoc, List.reverse_append,
            List.reverse_singleton, List.singleton_append,
            pushSegment_upwards false (resolved.isPlain last (by simp)).notUpwards,
            List.reverse_reverse]
      · refine ⟨climbs, plain ++ [segment], ?_, fun other member => ?_⟩
        · rw [pushSegment_of_isPlain false _ segmentPlain]
          simp
        · rcases List.mem_append.1 member with before | last
          · exact resolved.isPlain other before
          · rw [List.mem_singleton.1 last]
            exact segmentPlain

theorem resolveSegments_replicate (climbs : Nat) :
    resolveSegments false (List.replicate climbs upwards) = List.replicate climbs upwards := by
  induction climbs with
  | zero => rfl
  | succ climbs induction =>
      rw [List.replicate_succ', resolveSegments_concat, induction, List.reverse_replicate,
        pushSegment_upwards_replicate, List.reverse_replicate, List.replicate_succ']

/-- From the root there is no way upwards, so all resolved segments are plain. -/
theorem isPlain_of_mem_resolveSegments
    {segments : List Text}
    (noSlash : ∀ segment ∈ segments, '/' ∉ segment) :
    ∀ segment ∈ resolveSegments true segments, IsPlain segment := by
  induction segments using List.reverseRecOn with
  | nil => simp [resolveSegments]
  | append_singleton segments segment induction =>
      have plain := induction fun other member => noSlash other (List.mem_append_left _ member)
      rw [resolveSegments_concat]
      intro other member
      rw [List.mem_reverse] at member
      rcases segment_cases (noSlash segment (by simp)) with idle | rfl | segmentPlain
      · rw [pushSegment_idle true _ idle, List.mem_reverse] at member
        exact plain other member
      · rcases List.eq_nil_or_concat (resolveSegments true segments) with
          empty | ⟨before, last, split⟩
        · simp [empty, pushSegment] at member
        · have lastPlain := plain last (by simp [split])
          rw [split, List.concat_eq_append, List.reverse_append, List.reverse_singleton,
            List.singleton_append, pushSegment_upwards true lastPlain.notUpwards] at member
          exact plain other (by simp [split, List.mem_reverse.1 member])
      · rw [pushSegment_of_isPlain true _ segmentPlain] at member
        rcases List.mem_cons.1 member with rfl | before
        · exact segmentPlain
        · exact plain other (List.mem_reverse.1 before)

theorem resolveSegments_append_of_isPlain
    (rooted : Bool)
    (segments : List Text)
    {plain : List Text}
    (isPlain : ∀ segment ∈ plain, IsPlain segment) :
    resolveSegments rooted (segments ++ plain) = resolveSegments rooted segments ++ plain := by
  induction plain using List.reverseRecOn with
  | nil => simp
  | append_singleton plain last induction =>
      rw [← List.append_assoc, resolveSegments_concat,
        induction fun other member => isPlain other (List.mem_append_left _ member),
        pushSegment_of_isPlain rooted _ (isPlain last (by simp))]
      simp

/-- Resolving the end of a path first changes nothing. -/
theorem foldl_resolveSegments
    {segments : List Text}
    (noSlash : ∀ segment ∈ segments, '/' ∉ segment)
    (kept : List Text) :
    (resolveSegments false segments).foldl (pushSegment true) kept =
      segments.foldl (pushSegment true) kept := by
  induction segments using List.reverseRecOn with
  | nil => rfl
  | append_singleton segments segment induction =>
      have earlierNoSlash : ∀ other ∈ segments, '/' ∉ other :=
        fun other member => noSlash other (List.mem_append_left _ member)
      obtain ⟨climbs, plain, resolved⟩ := exists_isResolved earlierNoSlash
      rw [List.foldl_append, List.foldl_cons, List.foldl_nil, ← induction earlierNoSlash,
        resolveSegments_concat]
      rcases segment_cases (noSlash segment (by simp)) with idle | rfl | segmentPlain
      · rw [pushSegment_idle false _ idle, pushSegment_idle true _ idle, List.reverse_reverse]
      · rw [resolved.shape]
        rcases List.eq_nil_or_concat plain with rfl | ⟨before, last, rfl⟩
        · rw [List.append_nil, List.reverse_replicate, pushSegment_upwards_replicate,
            List.reverse_replicate, List.replicate_succ', List.foldl_append]
          rfl
        · -- The step upwards takes back the last plain segment, before and after resolving.
          have lastPlain := resolved.isPlain last (by simp)
          rw [List.concat_eq_append, ← List.append_assoc, List.reverse_append,
            List.reverse_singleton, List.singleton_append,
            pushSegment_upwards false lastPlain.notUpwards, List.reverse_reverse,
            List.foldl_append (l := _ ++ before), List.foldl_cons, List.foldl_nil,
            pushSegment_of_isPlain true _ lastPlain,
            pushSegment_upwards true lastPlain.notUpwards]
      · rw [pushSegment_of_isPlain false _ segmentPlain, List.reverse_cons,
          List.reverse_reverse, List.foldl_append]
        rfl

theorem resolveSegments_append_resolveSegments
    (directory : List Text)
    {segments : List Text}
    (noSlash : ∀ segment ∈ segments, '/' ∉ segment) :
    resolveSegments true (directory ++ resolveSegments false segments) =
      resolveSegments true (directory ++ segments) := by
  simp only [resolveSegments, List.foldl_append]
  exact congrArg List.reverse (foldl_resolveSegments noSlash _)

theorem resolveSegments_append_idle
    (rooted : Bool)
    (segments : List Text)
    {segment : Text}
    (idle : segment = [] ∨ segment = ['.']) :
    resolveSegments rooted (segments ++ [segment]) = resolveSegments rooted segments := by
  rw [resolveSegments_concat, pushSegment_idle rooted _ idle, List.reverse_reverse]

/-- From the root a step upwards is never kept. -/
theorem not_mem_resolveSegments (segments : List Text) :
    upwards ∉ resolveSegments true segments := by
  induction segments using List.reverseRecOn with
  | nil => simp [resolveSegments]
  | append_singleton segments segment induction =>
      rw [resolveSegments_concat, List.mem_reverse]
      rw [← List.mem_reverse] at induction
      by_cases idle : segment = [] ∨ segment = ['.']
      · rw [pushSegment_idle true _ idle]
        exact induction
      · by_cases climb : segment = upwards
        · subst climb
          cases kept : (resolveSegments true segments).reverse with
          | nil => simp [pushSegment]
          | cons last earlier =>
              rw [kept, List.mem_cons, not_or] at induction
              rw [pushSegment_upwards true (Ne.symm induction.1)]
              exact induction.2
        · unfold pushSegment
          rw [if_neg idle, if_neg climb, List.mem_cons, not_or]
          exact ⟨Ne.symm climb, induction⟩

/-- One more segment is kept as it is, or not at all. -/
theorem mem_of_mem_pushSegment
    {rooted : Bool}
    {kept : List Text}
    {segment other : Text}
    (member : other ∈ pushSegment rooted kept segment) :
    other ∈ kept ∨ other = segment ∧ ¬ (segment = [] ∨ segment = ['.']) := by
  by_cases idle : segment = [] ∨ segment = ['.']
  · rw [pushSegment_idle rooted kept idle] at member
    exact Or.inl member
  · have new {front : List Text} (subset : front ⊆ kept) (listed : other ∈ segment :: front) :
        other ∈ kept ∨ other = segment ∧ ¬ (segment = [] ∨ segment = ['.']) := by
      rcases List.mem_cons.1 listed with here | before
      · exact Or.inr ⟨here, idle⟩
      · exact Or.inl (subset before)
    unfold pushSegment at member
    rw [if_neg idle] at member
    split at member
    · split at member
      · split at member
        · exact absurd member List.not_mem_nil
        · exact new (List.Subset.refl _) member
      · split at member
        · exact new (List.Subset.refl _) member
        · exact Or.inl (List.mem_cons_of_mem _ member)
    · exact new (List.Subset.refl _) member

theorem not_idle_of_mem_resolveSegments
    (rooted : Bool)
    (segments : List Text) :
    ∀ segment ∈ resolveSegments rooted segments, ¬ (segment = [] ∨ segment = ['.']) := by
  induction segments using List.reverseRecOn with
  | nil => simp [resolveSegments]
  | append_singleton segments last induction =>
      intro segment member
      rw [resolveSegments_concat, List.mem_reverse] at member
      rcases mem_of_mem_pushSegment member with earlier | ⟨rfl, notIdle⟩
      · exact induction segment (List.mem_reverse.1 earlier)
      · exact notIdle

/-- Segments that were resolved from the root are resolved. -/
theorem resolveSegments_resolveSegments_append
    (first second : List Text) :
    resolveSegments true (resolveSegments true first ++ second) =
      resolveSegments true (first ++ second) := by
  have pushed (kept : List Text) :
      (resolveSegments true first).foldl (pushSegment true) kept =
        (resolveSegments true first).reverse ++ kept := by
    have notIdle := not_idle_of_mem_resolveSegments true first
    have notUpwards := not_mem_resolveSegments first
    generalize resolveSegments true first = resolved at notIdle notUpwards
    induction resolved generalizing kept with
    | nil => rfl
    | cons segment rest induction =>
        rw [List.mem_cons, not_or] at notUpwards
        have here : pushSegment true kept segment = segment :: kept := by
          unfold pushSegment
          rw [if_neg (notIdle segment List.mem_cons_self), if_neg (Ne.symm notUpwards.1)]
        rw [List.foldl_cons, here,
          induction (segment :: kept)
            (fun other member => notIdle other (List.mem_cons_of_mem segment member))
            notUpwards.2]
        simp
  have again : (resolveSegments true first).foldl (pushSegment true) [] =
      first.foldl (pushSegment true) [] := by
    rw [pushed, List.append_nil, resolveSegments, List.reverse_reverse]
  simp only [resolveSegments, List.foldl_append]
  rw [resolveSegments] at again
  rw [again]

/-- Climbing from a place leads to a place above it. -/
theorem resolveSegments_append_replicate
    (directory : List Text)
    (climbs : Nat) :
    resolveSegments true (directory ++ List.replicate climbs upwards) <+:
      resolveSegments true directory := by
  induction climbs with
  | zero => simp
  | succ climbs induction =>
      rw [List.replicate_succ', ← List.append_assoc, resolveSegments_concat]
      rcases List.eq_nil_or_concat
          (resolveSegments true (directory ++ List.replicate climbs upwards)) with
        empty | ⟨before, last, split⟩
      · rw [empty]
        simp [pushSegment]
      · rw [split, List.concat_eq_append] at induction
        have lastNotUpwards : last ≠ upwards := by
          rintro rfl
          exact not_mem_resolveSegments directory (induction.subset (by simp))
        rw [split, List.concat_eq_append, List.reverse_append, List.reverse_singleton,
          List.singleton_append, pushSegment_upwards true lastNotUpwards, List.reverse_reverse]
        exact (List.prefix_append before [last]).trans induction

/-- One more segment is put behind those that were kept, or changes nothing, or takes the last of
them away. -/
theorem pushSegment_cases
    (rooted : Bool)
    (kept : List Text)
    (segment : Text) :
    pushSegment rooted kept segment = segment :: kept ∨ pushSegment rooted kept segment <:+ kept := by
  unfold pushSegment
  split
  · exact Or.inr List.suffix_rfl
  · split
    · cases kept with
      | nil =>
          cases rooted with
          | true => exact Or.inr List.suffix_rfl
          | false => exact Or.inl rfl
      | cons last earlier =>
          dsimp only
          split
          · exact Or.inl rfl
          · exact Or.inr (List.suffix_cons last earlier)
    · exact Or.inl rfl

/-- The first of the segments that are left were all that was left at some point before. -/
theorem exists_part_of_resolveSegments
    {rooted : Bool}
    {segments first : List Text}
    (shorter : first <+: resolveSegments rooted segments) :
    ∃ part, part <+: segments ∧ resolveSegments rooted part = first := by
  induction segments using List.reverseRecOn with
  | nil => exact ⟨[], List.prefix_refl _, (List.prefix_nil.1 shorter).symm⟩
  | append_singleton segments segment induction =>
      have earlier (still : first <+: resolveSegments rooted segments) :
          ∃ part, part <+: segments ++ [segment] ∧ resolveSegments rooted part = first := by
        obtain ⟨part, inside, here⟩ := induction still
        exact ⟨part, inside.trans (List.prefix_append segments [segment]), here⟩
      have stepped := resolveSegments_concat rooted segments segment
      rcases pushSegment_cases rooted (resolveSegments rooted segments).reverse segment with
        more | fewer
      · rw [more, List.reverse_cons, List.reverse_reverse] at stepped
        rw [stepped] at shorter
        rcases List.prefix_concat_iff.1 shorter with here | still
        · exact ⟨segments ++ [segment], List.prefix_refl _, stepped.trans here.symm⟩
        · exact earlier still
      · rw [stepped] at shorter
        have above := List.reverse_prefix.2 fewer
        rw [List.reverse_reverse] at above
        exact earlier (shorter.trans above)

/-! ## Paths of resolved segments -/

theorem isRooted_cons
    (first : Char)
    (rest : Text) :
    isRooted (first :: rest) = (first == '/') := by
  simp [isRooted, startsWith, List.isPrefixOf, Bool.beq_comm]

/-- A join of segments is relative when its first segment is there and has no slash. -/
theorem isRooted_join_eq_false
    {segment : Text}
    (nonempty : segment ≠ [])
    (noSlash : '/' ∉ segment)
    (rest : List Text) :
    isRooted (Text.join ['/'] (segment :: rest)) = false := by
  obtain ⟨first, others, rfl⟩ := List.exists_cons_of_ne_nil nonempty
  have notSlash : first ≠ '/' := by
    rintro rfl
    exact noSlash List.mem_cons_self
  rw [Text.join_cons_eq_append_flatten, List.cons_append, isRooted_cons]
  simpa using notSlash

theorem IsResolved.mem
    {segments : List Text}
    {climbs : Nat}
    {plain : List Text}
    (resolved : IsResolved segments climbs plain)
    {segment : Text}
    (member : segment ∈ segments) :
    segment ≠ [] ∧ '/' ∉ segment := by
  rw [resolved.shape] at member
  rcases List.mem_append.1 member with climb | isPlain
  · rw [List.eq_of_mem_replicate climb]
    decide
  · exact ⟨(resolved.isPlain segment isPlain).nonempty, (resolved.isPlain segment isPlain).noSlash⟩

theorem solid_of_mem_segments
    (path : Text)
    {segment : Text}
    (member : segment ∈ segments path) :
    segment ≠ [] ∧ '/' ∉ segment := by
  have noSlash : ∀ segment ∈ path.splitAt '/', '/' ∉ segment :=
    fun segment member => Text.not_mem_of_mem_splitAt member
  rw [segments] at member
  cases rooted : isRooted path with
  | true =>
      rw [rooted] at member
      have plain := isPlain_of_mem_resolveSegments noSlash segment member
      exact ⟨plain.nonempty, plain.noSlash⟩
  | false =>
      rw [rooted] at member
      obtain ⟨climbs, plain, resolved⟩ := exists_isResolved noSlash
      exact resolved.mem member

theorem clean_ne_nil (path : Text) :
    clean path ≠ [] := by
  rw [clean]
  cases isRooted path with
  | true => exact List.cons_ne_nil _ _
  | false =>
      cases kept : segments path with
      | nil => exact List.cons_ne_nil _ _
      | cons segment rest =>
          rw [← kept]
          have nonempty : Text.join ['/'] (segments path) ≠ [] :=
            Text.join_ne_nil _ (by simp [kept]) fun _ member =>
              (solid_of_mem_segments path member).1
          rw [kept] at nonempty ⊢
          exact nonempty

theorem isRooted_clean (path : Text) :
    isRooted (clean path) = isRooted path := by
  rw [clean]
  cases rooted : isRooted path with
  | true => rfl
  | false =>
      cases kept : segments path with
      | nil => rfl
      | cons segment rest =>
          have solid := solid_of_mem_segments path (kept ▸ List.mem_cons_self)
          exact isRooted_join_eq_false solid.1 solid.2 rest

theorem splitAt_join_segments
    {path : Text}
    (nonempty : segments path ≠ []) :
    (Text.join ['/'] (segments path)).splitAt '/' = segments path :=
  Text.splitAt_join nonempty fun _ member => (solid_of_mem_segments path member).2

/-- Cleaning again finds nothing left to resolve. -/
theorem segments_clean (path : Text) :
    segments (clean path) = segments path := by
  have noSlash : ∀ segment ∈ path.splitAt '/', '/' ∉ segment :=
    fun segment member => Text.not_mem_of_mem_splitAt member
  rw [segments, isRooted_clean, clean]
  cases rooted : isRooted path with
  | true =>
      have kept : segments path = resolveSegments true (path.splitAt '/') := by
        rw [segments, rooted]
      have shape : ofSegments true (segments path) = '/' :: Text.join ['/'] (segments path) := rfl
      have skipped (rest : List Text) :
          resolveSegments true ([] :: rest) = resolveSegments true rest := rfl
      rw [shape, Text.splitAt_cons_separator, skipped]
      by_cases empty : segments path = []
      · rw [empty]
        rfl
      · rw [splitAt_join_segments empty, kept]
        exact resolveSegments_of_isPlain true (isPlain_of_mem_resolveSegments noSlash)
  | false =>
      have kept : segments path = resolveSegments false (path.splitAt '/') := by
        rw [segments, rooted]
      obtain ⟨climbs, plain, resolved⟩ := exists_isResolved noSlash
      cases found : segments path with
      | nil => rfl
      | cons segment rest =>
          have shape :
              ofSegments false (segments path) = Text.join ['/'] (segments path) := by
            rw [found]
            rfl
          rw [← found, shape, splitAt_join_segments (by simp [found]), kept, resolved.shape,
            resolveSegments_append_of_isPlain false _ resolved.isPlain,
            resolveSegments_replicate]

/-- The segments of a path below a directory are those of the directory and those behind it. -/
theorem segments_join
    (path : Text)
    {way : List Text}
    (nonempty : way ≠ [])
    (plain : ∀ segment ∈ way, IsPlain segment) :
    isRooted (join [path, Text.join ['/'] way]) = isRooted path ∧
      segments (join [path, Text.join ['/'] way]) = segments path ++ way := by
  have relative : isRooted (Text.join ['/'] way) = false := isRooted_join nonempty plain
  have split : (Text.join ['/'] way).splitAt '/' = way :=
    Text.splitAt_join nonempty fun segment member => (plain segment member).noSlash
  have joinNonempty : Text.join ['/'] way ≠ [] :=
    Text.join_ne_nil _ nonempty fun segment member => (plain segment member).nonempty
  cases path with
  | nil =>
      have shape : join [[], Text.join ['/'] way] = clean (Text.join ['/'] way) := by
        simp [join, joinNonempty]
      rw [shape, isRooted_clean, segments_clean, relative, segments, relative, split]
      exact ⟨rfl, resolveSegments_of_isPlain false plain⟩
  | cons first rest =>
      have shape :
          join [first :: rest, Text.join ['/'] way] =
            clean ((first :: rest) ++ '/' :: Text.join ['/'] way) := by
        simp [join, joinNonempty, Text.join]
      have sameRoot :
          isRooted ((first :: rest) ++ '/' :: Text.join ['/'] way) =
            isRooted (first :: rest) := by
        rw [List.cons_append, isRooted_cons, isRooted_cons]
      rw [shape, isRooted_clean, segments_clean, sameRoot, segments, sameRoot,
        Text.splitAt_append, split]
      exact ⟨rfl, resolveSegments_append_of_isPlain _ _ plain⟩

theorem dropCommon_append
    (base way : List Text) :
    dropCommon base (base ++ way) = ([], way) := by
  induction base with
  | nil =>
      cases way <;> rfl
  | cons first base induction =>
      rw [List.cons_append, dropCommon, if_pos rfl, induction]

/-- What lies below a base is reached from there by the segments behind it. -/
theorem relative?_of_segments
    {base target : Text}
    {way : List Text}
    (sameRoot : isRooted target = isRooted base)
    (below : segments target = segments base ++ way) :
    relative? base target = some (ofSegments false way) := by
  rw [relative?, below, dropCommon_append, sameRoot]
  simp

/-- What is joined is cleaned, unless there is nothing to join. -/
theorem exists_clean_of_join
    {parts : List Text}
    (nonempty : join parts ≠ []) :
    ∃ path, join parts = clean path := by
  rw [join] at nonempty ⊢
  split at nonempty
  · exact (nonempty rfl).elim
  · exact ⟨_, rfl⟩

end SlashPath

end Text

namespace FileStore

open Text.SlashPath

/-- What the segments of a path are added to. -/
def start (store : FileStore) (rooted : Bool) : Place :=
  if rooted then [] else store.workingDirectory

@[simp]
theorem start_true (store : FileStore) : store.start true = [] := rfl

@[simp]
theorem start_false (store : FileStore) : store.start false = store.workingDirectory := rfl

theorem place_eq
    (store : FileStore)
    (path : Text) :
    store.place path =
      resolveSegments true (store.start (isRooted path) ++ path.splitAt '/') := by
  rw [place, start]
  cases isRooted path <;> rfl

/-- The empty path names the working directory. -/
theorem place_nil (store : FileStore) :
    store.place [] = resolveSegments true store.workingDirectory :=
  resolveSegments_append_idle true _ (Or.inl rfl)

/-- The place of a path that is given by segments. -/
theorem place_ofSegments
    (store : FileStore)
    (rooted : Bool)
    {segments : List Text}
    (solid : ∀ segment ∈ segments, segment ≠ [] ∧ '/' ∉ segment) :
    store.place (ofSegments rooted segments) =
      resolveSegments true (store.start rooted ++ segments) := by
  have split (nonempty : segments ≠ []) :
      (Text.join ['/'] segments).splitAt '/' = segments :=
    Text.splitAt_join nonempty fun segment member => (solid segment member).2
  rw [place_eq]
  cases rooted with
  | true =>
      have shape : ofSegments true segments = '/' :: Text.join ['/'] segments := rfl
      rw [shape, isRooted_cons, beq_self_eq_true, Text.splitAt_cons_separator]
      cases segments with
      | nil => rfl
      | cons segment rest =>
          rw [split (List.cons_ne_nil segment rest)]
          rfl
  | false =>
      cases segments with
      | nil =>
          have relative : isRooted (ofSegments false []) = false := rfl
          rw [relative, List.append_nil]
          exact resolveSegments_append_idle true _ (Or.inr rfl)
      | cons segment rest =>
          have shape :
              ofSegments false (segment :: rest) = Text.join ['/'] (segment :: rest) := rfl
          obtain ⟨nonempty, noSlash⟩ := solid segment List.mem_cons_self
          rw [shape, isRooted_join_eq_false nonempty noSlash,
            split (List.cons_ne_nil segment rest)]

/-- Cleaning a path does not change the place it names. -/
theorem place_clean
    (store : FileStore)
    (path : Text) :
    store.place (clean path) = store.place path := by
  have noSlash : ∀ segment ∈ path.splitAt '/', '/' ∉ segment :=
    fun segment member => Text.not_mem_of_mem_splitAt member
  rw [clean, place_ofSegments store _ fun _ => solid_of_mem_segments path, segments,
    place_eq store path]
  cases isRooted path with
  | true => exact resolveSegments_of_isPlain true (isPlain_of_mem_resolveSegments noSlash)
  | false => exact resolveSegments_append_resolveSegments _ noSlash

/-- A path below a root names the place of the root with the segments of the path behind it. -/
theorem place_join
    (store : FileStore)
    (root : Text)
    {segments : List Text}
    (plain : ∀ segment ∈ segments, IsPlain segment) :
    store.place (join [root, Text.join ['/'] segments]) = store.place root ++ segments := by
  have joined :
      root ≠ [] → segments ≠ [] →
        store.place (root ++ '/' :: Text.join ['/'] segments) = store.place root ++ segments := by
    intro rootNonempty nonempty
    obtain ⟨first, rest, rfl⟩ := List.exists_cons_of_ne_nil rootNonempty
    rw [place_eq, place_eq, Text.splitAt_append,
      Text.splitAt_join nonempty fun segment member => (plain segment member).noSlash,
      List.cons_append, isRooted_cons, isRooted_cons, ← List.append_assoc]
    exact resolveSegments_append_of_isPlain true _ plain
  by_cases empty : segments = []
  · subst empty
    rw [Text.join_nil, List.append_nil]
    cases root with
    | nil => rfl
    | cons first rest => exact place_clean store (first :: rest)
  · have joinNonempty : Text.join ['/'] segments ≠ [] :=
      Text.join_ne_nil _ empty fun segment member => (plain segment member).nonempty
    have kept : (!(Text.join ['/'] segments).isEmpty) = true := by simpa using joinNonempty
    cases root with
    | nil =>
        have alone :
            join [[], Text.join ['/'] segments] = clean (Text.join ['/'] segments) := by
          simp [join, kept]
        rw [alone, place_clean, place_eq, isRooted_join empty plain,
          Text.splitAt_join empty fun segment member => (plain segment member).noSlash,
          resolveSegments_append_of_isPlain true _ plain, place_nil, start_false]
    | cons first rest =>
        have both :
            join [first :: rest, Text.join ['/'] segments] =
              clean ((first :: rest) ++ '/' :: Text.join ['/'] segments) := by
          simp [join, kept, Text.join]
        rw [both, place_clean]
        exact joined (List.cons_ne_nil first rest) empty

/-- A root as seen from itself. -/
theorem place_join_same
    (store : FileStore)
    (root : Text) :
    store.place (join [root, ['.']]) = store.place root := by
  cases root with
  | nil =>
      have alone : join [[], ['.']] = clean ['.'] := by simp [join]
      rw [alone, place_clean, place_nil]
      exact resolveSegments_append_idle true _ (Or.inr rfl)
  | cons first rest =>
      have both : join [first :: rest, ['.']] = clean ((first :: rest) ++ '/' :: ['.']) := by
        simp [join, Text.join]
      rw [both, place_clean, place_eq, place_eq, Text.splitAt_append, List.cons_append,
        isRooted_cons, isRooted_cons, ← List.append_assoc]
      exact resolveSegments_append_idle true _ (Or.inr rfl)

/-! ## Following a path -/

/-- Where one is behind some of the segments of a path. -/
def passed (store : FileStore) (path : Text) (part : List Text) : Place :=
  resolveSegments true (store.start (isRooted path) ++ part)

theorem place_eq_passed
    (store : FileStore)
    (path : Text) :
    store.place path = store.passed path (path.splitAt '/') :=
  place_eq store path

theorem origin_eq_passed
    (store : FileStore)
    (path : Text) :
    store.origin path = store.passed path [] := by
  rw [origin, passed, List.append_nil, place_nil]
  cases isRooted path <;> rfl

/-- To follow a segment is to be behind one more of them. -/
theorem follow_passed
    (store : FileStore)
    (path : Text)
    (part : List Text)
    (segment : Text) :
    follow (store.passed path part) segment = store.passed path (part ++ [segment]) := by
  rw [follow, passed, passed, resolveSegments_resolveSegments_append, List.append_assoc]

/-- The way of a path starts at the root or in the working directory. -/
theorem passed_nil_above
    (store : FileStore)
    (path : Text) :
    store.passed path [] <+: store.place [] := by
  rw [← origin_eq_passed, origin]
  split
  · exact List.nil_prefix
  · exact List.prefix_refl _

theorem passed_concat
    (store : FileStore)
    (path : Text)
    (part : List Text)
    (segment : Text) :
    store.passed path (part ++ [segment]) =
      (pushSegment true (store.passed path part).reverse segment).reverse := by
  rw [passed, ← List.append_assoc, resolveSegments_concat]
  rfl

/-- What is above a place that a path leads to was passed on the way there, unless it is above the
place at which the way starts. -/
theorem exists_passed_of_above
    (store : FileStore)
    (path : Text)
    {segments : List Text}
    (noSlash : ∀ segment ∈ segments, '/' ∉ segment)
    {above : Place}
    (shorter : above <+: store.passed path segments) :
    above <+: store.passed path [] ∨
      ∃ part, part <+: segments ∧ store.passed path part = above := by
  induction segments using List.reverseRecOn with
  | nil => exact Or.inl shorter
  | append_singleton segments segment induction =>
      have earlier (still : above <+: store.passed path segments) :
          above <+: store.passed path [] ∨
            ∃ part, part <+: segments ++ [segment] ∧ store.passed path part = above := by
        rcases induction (fun other member => noSlash other (List.mem_append_left _ member)) still
          with atStart | ⟨part, inside, here⟩
        · exact Or.inl atStart
        · exact Or.inr ⟨part, inside.trans (List.prefix_append segments [segment]), here⟩
      have stepped := passed_concat store path segments segment
      rcases segment_cases (noSlash segment (by simp)) with idle | rfl | plain
      · rw [stepped, pushSegment_idle true _ idle, List.reverse_reverse] at shorter
        exact earlier shorter
      · have climbed :=
          resolveSegments_append_replicate (store.start (isRooted path) ++ segments) 1
        rw [List.replicate_one, List.append_assoc] at climbed
        exact earlier (shorter.trans climbed)
      · rw [pushSegment_of_isPlain true _ plain, List.reverse_cons, List.reverse_reverse]
          at stepped
        rw [stepped] at shorter
        rcases List.prefix_concat_iff.1 shorter with here | still
        · exact Or.inr ⟨segments ++ [segment], List.prefix_refl _, stepped.trans here.symm⟩
        · exact earlier still

/-- The first segments of a cleaned path lead to places above that of the path, unless the path is
still climbing out of the working directory. -/
theorem passed_above
    (store : FileStore)
    {path : Text}
    {part : List Text}
    (shorter : part <+: segments path)
    (differs : part ≠ segments path) :
    store.passed path part <+: store.place path ∧ store.passed path part ≠ store.place path ∨
      store.passed path part <+: store.place [] := by
  have noSlash : ∀ segment ∈ path.splitAt '/', '/' ∉ segment :=
    fun segment member => Text.not_mem_of_mem_splitAt member
  have fewer : part.length ≠ (segments path).length := fun same =>
    differs (shorter.eq_of_length same)
  rw [segments] at shorter fewer
  rw [place_eq store path, passed]
  cases rooted : isRooted path with
  | true =>
      rw [rooted] at shorter fewer
      have plain := isPlain_of_mem_resolveSegments noSlash
      left
      rw [start_true, List.nil_append, List.nil_append,
        resolveSegments_of_isPlain true fun segment taken => plain segment (shorter.subset taken)]
      exact ⟨shorter, fun same => fewer (congrArg List.length same)⟩
  | false =>
      rw [rooted] at shorter fewer
      obtain ⟨climbs, plain, resolved⟩ := exists_isResolved noSlash
      rw [resolved.shape] at shorter fewer
      rw [← resolveSegments_append_resolveSegments _ noSlash, resolved.shape, place_nil,
        start_false]
      rcases List.prefix_or_prefix_of_prefix shorter (List.prefix_append _ plain) with
        climbing | ⟨taken, rfl⟩
      · right
        rw [(List.prefix_replicate_iff.1 climbing).2]
        exact resolveSegments_append_replicate _ _
      · have inside : taken <+: plain := (List.prefix_append_right_inj _).1 shorter
        left
        rw [← List.append_assoc, ← List.append_assoc,
          resolveSegments_append_of_isPlain true _ fun segment member =>
            resolved.isPlain segment (inside.subset member),
          resolveSegments_append_of_isPlain true _ resolved.isPlain]
        refine ⟨(List.prefix_append_right_inj _).2 inside, fun same => fewer ?_⟩
        rw [List.append_cancel_left same]

/-- The empty segment in front of a rooted path leads nowhere. -/
theorem passed_nil_cons
    (store : FileStore)
    {path : Text}
    (rooted : isRooted path = true)
    (part : List Text) :
    store.passed path ([] :: part) = store.passed path part := by
  rw [passed, passed, rooted]
  rfl

/-- The places that a cleaned path passes are those that its first segments lead to. -/
theorem exists_first_of_clean
    (store : FileStore)
    (path : Text)
    {part : List Text}
    (shorter : part <+: (clean path).splitAt '/')
    (differs : part ≠ (clean path).splitAt '/') :
    ∃ first, first <+: segments path ∧ (first = segments path → first = []) ∧
      store.passed (clean path) part = store.passed path first := by
  have same (part : List Text) : store.passed (clean path) part = store.passed path part := by
    rw [passed, passed, isRooted_clean]
  have atStart :
      ∃ first, first <+: segments path ∧ (first = segments path → first = []) ∧
        store.passed path [] = store.passed path first :=
    ⟨[], List.nil_prefix, fun _ => rfl, rfl⟩
  have further {first : List Text} (inside : first <+: segments path)
      (proper : first ≠ segments path) :
      ∃ other, other <+: segments path ∧ (other = segments path → other = []) ∧
        store.passed path first = store.passed path other :=
    ⟨first, inside, fun whole => (proper whole).elim, rfl⟩
  rw [same]
  rw [clean] at shorter differs
  cases rooted : isRooted path with
  | true =>
      have shape : ofSegments true (segments path) = '/' :: Text.join ['/'] (segments path) := rfl
      rw [rooted, shape, Text.splitAt_cons_separator] at shorter differs
      cases part with
      | nil => exact atStart
      | cons first rest =>
          obtain ⟨rfl, inside⟩ := List.cons_prefix_cons.1 shorter
          rw [ne_eq, List.cons.injEq, not_and] at differs
          rw [passed_nil_cons store rooted]
          by_cases empty : segments path = []
          · rw [empty, Text.join_nil] at inside differs
            rcases List.prefix_concat_iff.1 (show rest <+: [] ++ [[]] from inside) with
              whole | none
            · exact (differs rfl whole).elim
            · rw [List.prefix_nil.1 none]
              exact atStart
          · rw [splitAt_join_segments empty] at inside differs
            exact further inside (differs rfl)
  | false =>
      rw [rooted] at shorter differs
      cases kept : segments path with
      | nil =>
          have alone : (ofSegments false []).splitAt '/' = [] ++ [['.']] := rfl
          rw [kept, alone] at shorter differs
          rcases List.prefix_concat_iff.1 shorter with whole | none
          · exact (differs whole).elim
          · rw [kept] at atStart
            rw [List.prefix_nil.1 none]
            exact atStart
      | cons segment rest =>
          have shape :
              ofSegments false (segments path) = Text.join ['/'] (segments path) := by
            rw [kept]
            rfl
          rw [shape, splitAt_join_segments (by simp [kept])] at shorter differs
          rw [← kept]
          exact further shorter differs

/-- The way of a cleaned path leads through places above its own, and before that out of the
working directory. -/
theorem passed_clean
    (store : FileStore)
    (path : Text)
    {part : List Text}
    (shorter : part <+: (clean path).splitAt '/')
    (differs : part ≠ (clean path).splitAt '/') :
    store.passed (clean path) part <+: store.place path ∧
        store.passed (clean path) part ≠ store.place path ∨
      store.passed (clean path) part <+: store.place [] := by
  obtain ⟨first, inside, proper, same⟩ := exists_first_of_clean store path shorter differs
  rw [same]
  by_cases whole : first = segments path
  · rw [proper whole]
    exact Or.inr (store.passed_nil_above path)
  · exact passed_above store inside whole

/-- Where the first segments of a cleaned path lead, one passes with the path as it is spelled
too. -/
theorem exists_passed_of_segments
    (store : FileStore)
    (path : Text)
    {first : List Text}
    (shorter : first <+: segments path) :
    ∃ part, part <+: path.splitAt '/' ∧ (part = path.splitAt '/' → first = segments path) ∧
      store.passed path part = store.passed path first := by
  obtain ⟨part, inside, rfl⟩ := exists_part_of_resolveSegments shorter
  refine ⟨part, inside, fun whole => by rw [whole, segments], ?_⟩
  rw [passed, passed]
  cases isRooted path with
  | true =>
      have again := resolveSegments_resolveSegments_append part []
      rw [List.append_nil, List.append_nil] at again
      exact again.symm
  | false =>
      exact (resolveSegments_append_resolveSegments _ fun _ member =>
        Text.not_mem_of_mem_splitAt (inside.subset member)).symm

/-- The path of the first segments of a cleaned path leads to where these segments lead. -/
theorem place_ofSegments_of_above
    (store : FileStore)
    {path : Text}
    {part : List Text}
    (shorter : part <+: segments path) :
    store.place (ofSegments (isRooted path) part) = store.passed path part :=
  place_ofSegments store _ fun _ member => solid_of_mem_segments path (shorter.subset member)

theorem place_eq_passed_segments
    (store : FileStore)
    (path : Text) :
    store.place path = store.passed path (segments path) := by
  rw [← place_ofSegments_of_above store (List.prefix_refl (segments path))]
  exact (place_clean store path).symm

theorem length_ancestors (path : Text) : (ancestors path).length = (segments path).length := by
  rw [ancestors, List.length_map, List.length_range]

theorem ancestors_getElem?
    {path : Text}
    {count : Nat}
    (within : count < (segments path).length) :
    (ancestors path)[count]? =
      some (ofSegments (isRooted path) ((segments path).take (count + 1))) := by
  rw [ancestors, List.getElem?_map, List.getElem?_range within]
  rfl

/-- The first segments of a path name the directory that is as many steps down. -/
theorem ancestors_getElem?_of_above
    {path : Text}
    {part : List Text}
    (nonempty : part ≠ [])
    (inside : part <+: segments path) :
    (ancestors path)[part.length - 1]? = some (ofSegments (isRooted path) part) := by
  have positive := List.length_pos_iff.2 nonempty
  have counted := inside.length_le
  rw [ancestors_getElem? (by omega), Nat.sub_add_cancel positive,
    ← List.prefix_iff_eq_take.1 inside]

/-- The directories above a path are above its place, unless the path climbs to them out of the
working directory. -/
theorem place_ancestor
    (store : FileStore)
    {path ancestor : Text}
    (member : ancestor ∈ ancestors path) :
    store.place ancestor <+: store.place path ∨ store.place ancestor <+: store.place [] := by
  obtain ⟨count, -, rfl⟩ := List.mem_map.1 member
  have shorter := List.take_prefix (count + 1) (segments path)
  by_cases whole : (segments path).take (count + 1) = segments path
  · left
    rw [whole, place_ofSegments_of_above store (List.prefix_refl _),
      ← place_eq_passed_segments]
  · rw [place_ofSegments_of_above store shorter]
    exact (passed_above store shorter whole).imp_left And.left

/-- Conversely, what is above the place of a path is the place of a directory above the path, or
above the working directory. -/
theorem exists_ancestor_of_above
    (store : FileStore)
    {path : Text}
    {above : Place}
    (shorter : above <+: store.place path) :
    above <+: store.place [] ∨ ∃ ancestor ∈ ancestors path, store.place ancestor = above := by
  rw [place_eq_passed_segments] at shorter
  rcases store.exists_passed_of_above path (fun _ member => (solid_of_mem_segments path member).2)
      shorter with atStart | ⟨part, inside, rfl⟩
  · exact Or.inl (atStart.trans (store.passed_nil_above path))
  · by_cases empty : part = []
    · rw [empty]
      exact Or.inl (store.passed_nil_above path)
    · exact Or.inr ⟨_, List.mem_of_getElem? (ancestors_getElem?_of_above empty inside),
        place_ofSegments_of_above store inside⟩

end FileStore

end UnoBindgen
