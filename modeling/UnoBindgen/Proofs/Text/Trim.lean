import UnoBindgen.Text.Blank

/-!
# Trimming

Trimming takes white space off both ends of a text and nothing else.  A text that neither starts
nor ends with white space is therefore found again inside of any padding.
-/

namespace UnoBindgen.Text

/-- The texts that consist of white space only. -/
def AllBlank (text : Text) : Prop :=
  ∀ character ∈ text, isBlank character = true

/-- The non-empty texts that neither start nor end with white space. -/
structure IsSolid (text : Text) : Prop where
  starts : ∃ first ∈ text.head?, isBlank first = false
  ends : ∃ last ∈ text.getLast?, isBlank last = false

theorem IsSolid.ne_nil
    {text : Text}
    (solid : IsSolid text) :
    text ≠ [] := by
  rintro rfl
  obtain ⟨first, member, -⟩ := solid.starts
  simp at member

theorem IsSolid.reverse
    {text : Text}
    (solid : IsSolid text) :
    IsSolid text.reverse where
  starts := by simpa using solid.ends
  ends := by simpa using solid.starts

/-- White space in front of a solid text is all that is dropped. -/
theorem trimLeft_append
    {before text : Text}
    (blank : AllBlank before)
    (after : Text)
    (solid : IsSolid text) :
    trimLeft (before ++ (text ++ after)) = text ++ after := by
  obtain ⟨first, member, notBlank⟩ := solid.starts
  obtain ⟨rest, rfl⟩ : ∃ rest, text = first :: rest := by
    cases text with
    | nil => simp at member
    | cons head rest =>
        have same : head = first := by simpa using member
        exact ⟨rest, by rw [same]⟩
  rw [trimLeft, List.dropWhile_append_of_pos blank, List.cons_append,
    List.dropWhile_cons_of_neg (by simp [notBlank])]

/-- Trimming a padded text finds the text again. -/
theorem trim_padded
    {before text after : Text}
    (blankBefore : AllBlank before)
    (solid : IsSolid text)
    (blankAfter : AllBlank after) :
    trim (before ++ text ++ after) = text := by
  have reversedBlank : AllBlank after.reverse := by
    intro character member
    exact blankAfter character (List.mem_reverse.1 member)
  have fromRight := trimLeft_append reversedBlank [] solid.reverse
  rw [List.append_nil] at fromRight
  rw [trim, List.append_assoc, trimLeft_append blankBefore after solid, trimRight,
    List.reverse_append, ← trimLeft, fromRight, List.reverse_reverse]

/-- Every text is its trimmed form with white space around it. -/
theorem exists_padding (text : Text) :
    ∃ before after : Text,
      AllBlank before ∧ AllBlank after ∧ text = before ++ text.trim ++ after := by
  have takenBlank (whole : Text) : AllBlank (whole.takeWhile isBlank) := by
    intro character member
    exact List.all_eq_true.1 List.all_takeWhile character member
  refine ⟨text.takeWhile isBlank, (text.trimLeft.reverse.takeWhile isBlank).reverse,
    takenBlank text, ?_, ?_⟩
  · intro character member
    exact takenBlank text.trimLeft.reverse character (List.mem_reverse.1 member)
  · have right :
        text.trimLeft =
          text.trim ++ (text.trimLeft.reverse.takeWhile isBlank).reverse := by
      rw [trim, trimRight, ← List.reverse_append, List.takeWhile_append_dropWhile,
        List.reverse_reverse]
    have left : text = text.takeWhile isBlank ++ text.trimLeft :=
      (List.takeWhile_append_dropWhile).symm
    rw [List.append_assoc, ← right, ← left]

end UnoBindgen.Text
