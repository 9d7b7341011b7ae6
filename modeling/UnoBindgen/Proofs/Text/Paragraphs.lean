import UnoBindgen.Proofs.Text.Lines

/-!
# Paragraphs

Generated texts are written paragraph by paragraph, with an empty line behind each.  A reader gets
the paragraphs back from the lines alone, and neither surplus empty lines nor the tidying of the end
of a text make a difference to what is read.
-/

namespace UnoBindgen.Text

/-- The paragraphs of a text: the lines that stand together between empty lines. -/
def paragraphs (text : Text) : List (List Text) :=
  ((lines text).splitOnP List.isEmpty).filter fun paragraph => !paragraph.isEmpty

/-- Lines that stand together as a paragraph. -/
structure IsParagraph (paragraph : List Text) : Prop where
  nonempty : paragraph ≠ []
  whole : ∀ line ∈ paragraph, '\n' ∉ line
  filled : ∀ line ∈ paragraph, line ≠ []

theorem isParagraph_singleton
    {line : Text}
    (whole : '\n' ∉ line)
    (filled : line ≠ []) :
    IsParagraph [line] where
  nonempty := List.cons_ne_nil line []
  whole := List.forall_mem_singleton.2 whole
  filled := List.forall_mem_singleton.2 filled

/-- A paragraph with the empty line behind it. -/
def spaced (paragraph : List Text) : Text :=
  unlines (paragraph ++ [[]])

/-- Line feeds at the end of a text make no paragraph. -/
theorem paragraphs_append_replicate
    (text : Text)
    (count : Nat) :
    paragraphs (text ++ List.replicate count '\n') = paragraphs text := by
  rw [paragraphs, paragraphs, lines_append_replicate]
  induction count with
  | zero => rw [List.replicate_zero, List.append_nil]
  | succ count induction =>
      have separates : List.isEmpty ([] : Text) = true := rfl
      rw [List.replicate_succ', ← List.append_assoc, List.splitOnP_append_cons _ _ separates,
        List.filter_append]
      exact (List.append_nil _).trans induction

theorem paragraphs_tidied (text : Text) :
    paragraphs (text.dropFinalLineFeeds ++ ['\n']) = paragraphs text := by
  obtain ⟨count, split⟩ := exists_dropFinalLineFeeds text
  calc
    paragraphs (text.dropFinalLineFeeds ++ ['\n'])
    _ = paragraphs text.dropFinalLineFeeds :=
      paragraphs_append_replicate text.dropFinalLineFeeds 1
    _ = paragraphs (text.dropFinalLineFeeds ++ List.replicate count '\n') :=
      (paragraphs_append_replicate text.dropFinalLineFeeds count).symm
    _ = paragraphs text := by rw [← split]

/-- A paragraph is found again, whatever text follows it. -/
theorem paragraphs_spaced_append
    {paragraph : List Text}
    (isParagraph : IsParagraph paragraph)
    (rest : Text) :
    paragraphs (spaced paragraph ++ rest) = paragraph :: paragraphs rest := by
  have whole : ∀ line ∈ paragraph ++ [[]], '\n' ∉ line :=
    List.forall_mem_append.2 ⟨isParagraph.whole, by simp⟩
  have filled : ∀ line ∈ paragraph, line.isEmpty = false :=
    fun line member => List.isEmpty_eq_false_iff.2 (isParagraph.filled line member)
  have separates : List.isEmpty ([] : Text) = true := rfl
  rw [paragraphs, spaced, lines_unlines_append whole, List.append_assoc, List.singleton_append,
    List.splitOnP_append_cons_of_forall_mem filled [] separates]
  apply List.filter_cons_of_pos
  rw [Bool.not_eq_true', List.isEmpty_eq_false_iff]
  exact isParagraph.nonempty

/-- Texts are read as the paragraphs that they are written from. -/
theorem paragraphs_flatMap_spaced
    {written : List (List Text)}
    (areParagraphs : ∀ paragraph ∈ written, IsParagraph paragraph) :
    paragraphs (written.flatMap spaced) = written := by
  induction written with
  | nil => rfl
  | cons paragraph others induction =>
      rw [List.forall_mem_cons] at areParagraphs
      rw [List.flatMap_cons, paragraphs_spaced_append areParagraphs.1, induction areParagraphs.2]

end UnoBindgen.Text
