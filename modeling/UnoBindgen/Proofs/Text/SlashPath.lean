import UnoBindgen.Text.SlashPath
import UnoBindgen.Proofs.Text.Split

/-!
# Paths of plain segments

Cleaning resolves `.`, `..` and empty segments.  A path whose segments are plain has none of
them, so it is left as it is, and splitting it at its slashes gives the segments back.
-/

namespace UnoBindgen.Text.SlashPath

/-- The segments that name a file or directory of their own. -/
structure IsPlain (segment : Text) : Prop where
  nonempty : segment ≠ []
  notSame : segment ≠ ['.']
  notUpwards : segment ≠ ['.', '.']
  noSlash : '/' ∉ segment

instance (segment : Text) : Decidable (IsPlain segment) :=
  decidable_of_iff
    (segment ≠ [] ∧ segment ≠ ['.'] ∧ segment ≠ ['.', '.'] ∧ '/' ∉ segment)
    ⟨fun ⟨nonempty, notSame, notUpwards, noSlash⟩ => ⟨nonempty, notSame, notUpwards, noSlash⟩,
      fun plain => ⟨plain.nonempty, plain.notSame, plain.notUpwards, plain.noSlash⟩⟩

theorem pushSegment_of_isPlain
    (rooted : Bool)
    (kept : List Text)
    {segment : Text}
    (plain : IsPlain segment) :
    pushSegment rooted kept segment = segment :: kept := by
  unfold pushSegment
  rw [if_neg (not_or.2 ⟨plain.nonempty, plain.notSame⟩), if_neg plain.notUpwards]

theorem resolveSegments_of_isPlain
    (rooted : Bool)
    {segments : List Text}
    (plain : ∀ segment ∈ segments, IsPlain segment) :
    resolveSegments rooted segments = segments := by
  have pushed (kept : List Text) :
      segments.foldl (pushSegment rooted) kept = segments.reverse ++ kept := by
    induction segments generalizing kept with
    | nil => rfl
    | cons segment rest induction =>
        rw [List.foldl_cons, pushSegment_of_isPlain rooted kept (plain segment List.mem_cons_self),
          induction (fun other member => plain other (List.mem_cons_of_mem segment member))]
        simp
  rw [resolveSegments, pushed, List.append_nil, List.reverse_reverse]

theorem isRooted_join
    {segments : List Text}
    (nonempty : segments ≠ [])
    (plain : ∀ segment ∈ segments, IsPlain segment) :
    isRooted (Text.join ['/'] segments) = false := by
  obtain ⟨segment, rest, rfl⟩ := List.exists_cons_of_ne_nil nonempty
  have segmentPlain := plain segment List.mem_cons_self
  obtain ⟨first, others, rfl⟩ := List.exists_cons_of_ne_nil segmentPlain.nonempty
  have notSlash : first ≠ '/' := by
    rintro rfl
    exact segmentPlain.noSlash List.mem_cons_self
  have differs : ('/' == first) = false := by
    simpa using Ne.symm notSlash
  cases rest with
  | nil => simp [isRooted, startsWith, List.isPrefixOf, differs]
  | cons next behind =>
      rw [Text.join_cons _ _ (List.cons_ne_nil next behind)]
      simp [isRooted, startsWith, List.isPrefixOf, differs]

/-- Cleaning leaves a path of plain segments as it is. -/
theorem clean_join
    {segments : List Text}
    (nonempty : segments ≠ [])
    (plain : ∀ segment ∈ segments, IsPlain segment) :
    clean (Text.join ['/'] segments) = Text.join ['/'] segments := by
  have split : (Text.join ['/'] segments).splitAt '/' = segments :=
    Text.splitAt_join nonempty fun segment member => (plain segment member).noSlash
  rw [clean, SlashPath.segments, split, isRooted_join nonempty plain,
    resolveSegments_of_isPlain false plain]
  cases segments with
  | nil => exact (nonempty rfl).elim
  | cons segment rest => rfl

/-- Joining a directory of plain segments, which may be empty, with a plain file. -/
theorem join_directory
    {directory : List Text}
    {file : Text}
    (plainDirectory : ∀ segment ∈ directory, IsPlain segment)
    (plainFile : IsPlain file) :
    join [Text.join ['/'] directory, file] = Text.join ['/'] (directory ++ [file]) := by
  have plain : ∀ segment ∈ directory ++ [file], IsPlain segment := by
    intro segment member
    rcases List.mem_append.1 member with inDirectory | isFile
    · exact plainDirectory segment inDirectory
    · rw [List.mem_singleton.1 isFile]
      exact plainFile
  have cleaned := clean_join (by simp) plain
  cases directory with
  | nil =>
      have kept :
          [Text.join ['/'] [], file].filter (fun part => !part.isEmpty) = [file] := by
        simp [plainFile.nonempty]
      rw [join, kept]
      exact cleaned
  | cons segment rest =>
      have directoryNonempty : Text.join ['/'] (segment :: rest) ≠ [] :=
        Text.join_ne_nil _ (List.cons_ne_nil segment rest)
          fun other member => (plainDirectory other member).nonempty
      have kept :
          [Text.join ['/'] (segment :: rest), file].filter (fun part => !part.isEmpty) =
            [Text.join ['/'] (segment :: rest), file] := by
        simp [plainFile.nonempty, directoryNonempty]
      rw [Text.join_concat] at cleaned ⊢
      rw [join, kept]
      exact cleaned

/-! ## Extensions -/

/-- A text behind the last slash belongs to the last part of a path. -/
theorem lastPart_append
    (path : Text)
    {last : Text}
    (noSlash : '/' ∉ last) :
    lastPart (path ++ last) = lastPart path ++ last := by
  have kept : ∀ character ∈ last.reverse, (character != '/') = true := by
    intro character member
    rw [bne_iff_ne]
    rintro rfl
    exact noSlash (List.mem_reverse.1 member)
  rw [lastPart, lastPart, List.reverse_append, List.takeWhile_append_of_pos kept,
    List.reverse_append, List.reverse_reverse]

/-- The extension of a path is read off its last part, whatever stands before its last dot. -/
theorem extension_append_dot
    (path : Text)
    {rest : Text}
    (noSlash : '/' ∉ rest) :
    extension (path ++ '.' :: rest) = '.' :: (rest.reverse.takeWhile (· != '.')).reverse := by
  have behind : '/' ∉ '.' :: rest := by simp [noSlash]
  have dotted (before : Text) : (before ++ '.' :: rest).any (· == '.') = true := by simp
  -- Read backwards, a dot is met at the latest in front of the rest.
  have stops (before : Text) :
      (before ++ '.' :: rest).reverse.takeWhile (· != '.') =
        rest.reverse.takeWhile (· != '.') := by
    rw [List.reverse_append, List.reverse_cons, List.append_assoc, List.takeWhile_append]
    split
    · rename_i full
      simp [(List.takeWhile_prefix _).eq_of_length full]
    · rfl
  simp only [extension, lastPart_append path behind, dotted, stops, if_true]

/-- An extension with a single dot is read as it is. -/
theorem extension_of_single_dot
    {rest : Text}
    (noSlash : '/' ∉ rest)
    (noDot : '.' ∉ rest) :
    extension ('.' :: rest) = '.' :: rest := by
  have kept : ∀ character ∈ rest.reverse, (character != '.') = true := by
    intro character member
    rw [bne_iff_ne]
    rintro rfl
    exact noDot (List.mem_reverse.1 member)
  have whole : (rest.reverse ++ []).takeWhile (· != '.') = rest.reverse ++ [] :=
    List.takeWhile_append_of_pos kept
  rw [List.append_nil] at whole
  have read := extension_append_dot [] noSlash
  rwa [whole, List.reverse_reverse] at read

end UnoBindgen.Text.SlashPath
