import UnoBindgen.ModulePath
import UnoBindgen.Proofs.Identifier

/-!
# Module paths and their names

The dotted name of a path of identifiers says everything about the path, because no identifier
holds a dot, and so do its slash path and its qualified namespace.  Reading a dotted name is the
inverse of writing it, with the root module as the path of the empty name.  The parent of a child
is the path that the child was made of.
-/

namespace UnoBindgen.ModulePath

/-- The paths that consist of identifiers. -/
def HasIdentifiers (path : ModulePath) : Prop :=
  ∀ segment ∈ path.segments, isIdentifier segment = true

theorem ext_segments
    {left right : ModulePath}
    (same : left.segments = right.segments) :
    left = right := by
  cases left
  cases right
  exact congrArg ModulePath.mk same

/-! ## Comparing paths -/

theorem equals_iff (path other : ModulePath) : path.equals other = true ↔ path = other := by
  refine ⟨fun same => ext_segments ?_, ?_⟩
  · by_cases different : path.segments.length ≠ other.segments.length
    · rw [equals, if_pos different] at same
      exact absurd same Bool.false_ne_true
    · rw [equals, if_neg different, List.all_eq_true] at same
      have lengths : path.segments.length = other.segments.length := not_not.1 different
      apply List.ext_getElem?
      intro position
      by_cases inside : position < path.segments.length
      · exact eq_of_beq (same position (List.mem_range.2 inside))
      · rw [List.getElem?_eq_none (by omega), List.getElem?_eq_none (by omega)]
  · rintro rfl
    simp [equals]

/-! ## Reading dotted names -/

theorem segmentFault?_eq_none_iff (dotted segment : Text) :
    segmentFault? dotted segment = none ↔ isIdentifier segment = true := by
  rw [segmentFault?]
  by_cases empty : segment = []
  · rw [if_pos empty, empty]
    simp [isIdentifier]
  · rw [if_neg empty]
    split <;> simp_all

theorem findSome?_segmentFault?_eq_none_iff (dotted : Text) :
    (dotted.splitAt '.').findSome? (segmentFault? dotted) = none ↔
      isQualifiedIdentifier dotted = true := by
  rw [isQualifiedIdentifier, List.all_eq_true, List.findSome?_eq_none_iff]
  exact forall₂_congr fun segment _ => segmentFault?_eq_none_iff dotted segment

theorem parse_of_isQualifiedIdentifier
    {dotted : Text}
    (qualified : isQualifiedIdentifier dotted = true) :
    parse dotted = .ok ⟨dotted.splitAt '.'⟩ := by
  have nonempty : dotted ≠ [] := ((isQualifiedIdentifier_iff_isDotted dotted).1 qualified).ne_nil
  simp only [parse, if_neg nonempty, (findSome?_segmentFault?_eq_none_iff dotted).2 qualified]

theorem name_splitAt (dotted : Text) :
    name ⟨dotted.splitAt '.'⟩ = dotted :=
  Text.join_splitAt '.' dotted

/-- The texts that are read: the empty one and the dotted sequences of identifiers. -/
theorem exists_parse_iff (dotted : Text) :
    (∃ path, parse dotted = .ok path) ↔ dotted = [] ∨ isQualifiedIdentifier dotted = true := by
  by_cases empty : dotted = []
  · exact iff_of_true ⟨root, by rw [parse, if_pos empty]⟩ (Or.inl empty)
  · rw [or_iff_right empty]
    constructor
    · rintro ⟨path, parsed⟩
      rw [← findSome?_segmentFault?_eq_none_iff]
      by_contra refused
      obtain ⟨fault, found⟩ := Option.ne_none_iff_exists'.1 refused
      simp [parse, empty, found] at parsed
    · exact fun qualified => ⟨_, parse_of_isQualifiedIdentifier qualified⟩

/-- A path is read from its dotted name and from no other. -/
theorem parse_eq_ok_iff
    (dotted : Text)
    (path : ModulePath) :
    parse dotted = .ok path ↔ path.HasIdentifiers ∧ path.name = dotted := by
  by_cases empty : dotted = []
  · subst empty
    constructor
    · intro parsed
      obtain rfl : root = path := Except.ok.inj parsed
      exact ⟨by simp [HasIdentifiers, root], rfl⟩
    · rintro ⟨identifiers, unnamed⟩
      have noSegments : path.segments = [] := by
        by_contra segments
        exact Text.join_ne_nil "." segments
          (fun segment member => ne_nil_of_isIdentifier (identifiers segment member)) unnamed
      exact congrArg Except.ok (ext_segments noSegments.symm)
  · constructor
    · intro parsed
      have qualified := ((exists_parse_iff dotted).1 ⟨path, parsed⟩).resolve_left empty
      rw [parse_of_isQualifiedIdentifier qualified] at parsed
      obtain rfl := Except.ok.inj parsed
      exact ⟨List.all_eq_true.1 qualified, name_splitAt dotted⟩
    · rintro ⟨identifiers, named⟩
      have segments : path.segments ≠ [] := by
        intro noSegments
        exact empty (by rw [← named, name, noSegments, Text.join_nil])
      have free : ∀ segment ∈ path.segments, '.' ∉ segment := fun segment member =>
        not_mem_of_isIdentifier (identifiers segment member) (by decide)
      have pieces : dotted.splitAt '.' = path.segments := by
        rw [← named]
        exact Text.splitAt_join segments free
      have qualified : isQualifiedIdentifier dotted = true := by
        rw [isQualifiedIdentifier, pieces, List.all_eq_true]
        exact identifiers
      rw [parse_of_isQualifiedIdentifier qualified, pieces]

/-! ## Views that tell paths apart -/

section Views

variable
    {left right : ModulePath}
    (leftIdentifiers : left.HasIdentifiers)
    (rightIdentifiers : right.HasIdentifiers)

include leftIdentifiers rightIdentifiers

/-- A join of the segments determines the path, when the separator starts with a character that is
in no identifier. -/
theorem eq_iff_join_eq
    (mark : Char)
    (more : Text)
    (outside : Identifier.isFollowing mark = false) :
    left = right ↔
      Text.join (mark :: more) left.segments = Text.join (mark :: more) right.segments := by
  have solid {path : ModulePath} (identifiers : path.HasIdentifiers) :
      ∀ segment ∈ path.segments, segment ≠ [] := fun segment member =>
    ne_nil_of_isIdentifier (identifiers segment member)
  have free {path : ModulePath} (identifiers : path.HasIdentifiers) :
      ∀ segment ∈ path.segments, mark ∉ segment := fun segment member =>
    not_mem_of_isIdentifier (identifiers segment member) outside
  refine ⟨fun same => same ▸ rfl, fun same => ext_segments ?_⟩
  by_cases leftRoot : left.segments = []
  · by_contra different
    rw [leftRoot, Text.join_nil] at same
    refine Text.join_ne_nil (mark :: more) ?_ (solid rightIdentifiers) same.symm
    rw [leftRoot] at different
    exact Ne.symm different
  · by_cases rightRoot : right.segments = []
    · rw [rightRoot, Text.join_nil] at same
      exact (Text.join_ne_nil (mark :: more) leftRoot (solid leftIdentifiers) same).elim
    · exact Text.join_injective_of_mark leftRoot rightRoot (free leftIdentifiers)
        (free rightIdentifiers) same

theorem eq_iff_name_eq : left = right ↔ left.name = right.name :=
  eq_iff_join_eq leftIdentifiers rightIdentifiers '.' [] (by decide)

theorem eq_iff_slashPath_eq : left = right ↔ left.slashPath = right.slashPath :=
  eq_iff_join_eq leftIdentifiers rightIdentifiers '/' [] (by decide)

theorem eq_iff_qualifiedNamespace_eq :
    left = right ↔ left.qualifiedNamespace = right.qualifiedNamespace :=
  eq_iff_join_eq leftIdentifiers rightIdentifiers ':' [':'] (by decide)

end Views

/-! ## Going down and up -/

@[simp]
theorem parent_child (path : ModulePath) (segment : Text) :
    (path.child segment).parent = path := by
  simp [child, parent]

@[simp]
theorem lastName_child (path : ModulePath) (segment : Text) :
    (path.child segment).lastName = segment := by
  simp [child, lastName]

theorem child_parent_lastName
    {path : ModulePath}
    (inner : path.isRoot = false) :
    path.parent.child path.lastName = path := by
  have segments : path.segments ≠ [] := by simpa [isRoot] using inner
  apply ext_segments
  rw [child, parent, lastName, List.getLastD_eq_getLast?, List.getLast?_eq_some_getLast segments,
    Option.getD_some, List.dropLast_append_getLast]

end UnoBindgen.ModulePath
