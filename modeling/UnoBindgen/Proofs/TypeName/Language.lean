import UnoBindgen.TypeName
import UnoBindgen.Proofs.Identifier
import UnoBindgen.Proofs.Text.Trim

/-!
# The language of type names

The type names are given here by clauses, without any reference to how a text is read: `void`,
`string`, the primitive types, dotted names, sequences, and instantiated structs whose arguments
may be surrounded by white space.

The splitter of struct arguments counts brackets without asking whether they are balanced.  A
type name is *absorbed* by it: read at any depth that is not negative, it is divided nowhere and
leaves the depth as it was.  So the arguments of a struct are found again between its commas.
-/

namespace UnoBindgen.TypeName

/-- The ways in which a text can be a type name. -/
inductive Clause where
  | void
  | string
  | primitive
  | named
  | sequence
  | instantiated
  deriving DecidableEq, Repr

/-- The category that a clause stands for. -/
def Clause.category : Clause → Category
  | .void => .void
  | .string => .string
  | .primitive => .primitive
  | .named => .aggregate
  | .sequence => .aggregate
  | .instantiated => .aggregate

theorem Clause.category_eq_void_iff (clause : Clause) :
    clause.category = .void ↔ clause = .void := by
  cases clause <;> simp [Clause.category]

/-- The names of the primitive types. -/
def primitiveNames : List Text :=
  primitiveTypes.map Prod.fst

/-- An argument of an instantiated struct: a name with the clause that it matches, and what
stands before and behind it. -/
structure Argument where
  before : Text
  name : Text
  after : Text
  clause : Clause

/-- An argument as it is written between the brackets. -/
def Argument.text (argument : Argument) : Text :=
  argument.before ++ argument.name ++ argument.after

/-- The texts that match a clause. -/
inductive Matches : Clause → Text → Prop where
  | void :
      Matches .void "void"
  | string :
      Matches .string "string"
  | primitive
      {name : Text}
      (known : name ∈ primitiveNames) :
      Matches .primitive name
  | named
      {name : Text}
      (dotted : IsDotted name)
      (notVoid : name ≠ "void")
      (notString : name ≠ "string")
      (notPrimitive : name ∉ primitiveNames) :
      Matches .named name
  | sequence
      {clause : Clause}
      {element : Text}
      (matched : Matches clause element)
      (notVoid : clause ≠ .void) :
      Matches .sequence ('[' :: ']' :: element)
  | instantiated
      {struct : Text}
      {arguments : List Argument}
      (dotted : IsDotted struct)
      (nonempty : arguments ≠ [])
      (padded :
        ∀ argument ∈ arguments,
          Text.AllBlank argument.before ∧ Text.AllBlank argument.after)
      (matched :
        ∀ argument ∈ arguments,
          Matches argument.clause argument.name)
      (notVoid :
        ∀ argument ∈ arguments, argument.clause ≠ .void) :
      Matches .instantiated
        (struct ++ '<' :: (Text.join [','] (arguments.map Argument.text) ++ ['>']))

/-! ## The characters of type names -/

/-- The texts without brackets and commas: letters, digits, underscores, dots and blanks. -/
def IsFlat (text : Text) : Prop :=
  ∀ character ∈ text,
    Identifier.isFollowing character = true ∨ character = '.' ∨ character = ' '

instance : DecidablePred IsFlat := fun text =>
  List.decidableBAll
    (fun character => Identifier.isFollowing character = true ∨ character = '.' ∨ character = ' ')
    text

theorem IsFlat.not_mem
    {text : Text}
    (flat : IsFlat text)
    {character : Char}
    (outside : Identifier.isFollowing character = false)
    (noDot : character ≠ '.')
    (noBlank : character ≠ ' ') :
    character ∉ text := by
  intro member
  rcases flat character member with following | dot | blank
  · rw [outside] at following
    exact Bool.false_ne_true following
  · exact noDot dot
  · exact noBlank blank

theorem isFlat_of_isDotted
    {text : Text}
    (dotted : IsDotted text) :
    IsFlat text := by
  intro character member
  rcases dotted.isFollowing_or_dot member with following | dot
  · exact Or.inl following
  · exact Or.inr (Or.inl dot)

theorem isFlat_void : IsFlat "void" := by
  decide

theorem isFlat_string : IsFlat "string" := by
  decide

theorem isFlat_of_mem_primitiveNames
    {name : Text}
    (known : name ∈ primitiveNames) :
    IsFlat name := by
  have all : ∀ primitive ∈ primitiveNames, IsFlat primitive := by decide
  exact all name known

theorem isSolid_of_mem_primitiveNames
    {name : Text}
    (known : name ∈ primitiveNames) :
    Text.IsSolid name := by
  have starts :
      ∀ primitive ∈ primitiveNames,
        primitive.head?.any (fun first => !Text.isBlank first) = true := by
    decide
  have ends :
      ∀ primitive ∈ primitiveNames,
        primitive.getLast?.any (fun last => !Text.isBlank last) = true := by
    decide
  exact ⟨by simpa using (Option.any_eq_true _ _).1 (starts name known),
    by simpa using (Option.any_eq_true _ _).1 (ends name known)⟩

theorem isSolid_of_isDotted
    {text : Text}
    (dotted : IsDotted text) :
    Text.IsSolid text := by
  have notBlank : ∀ character ∈ text, Text.isBlank character = false := by
    intro character member
    rcases dotted.isFollowing_or_dot member with following | rfl
    · exact Identifier.isBlank_eq_false_of_isFollowing following
    · decide
  refine ⟨?_, ?_⟩
  · exact ⟨text.head dotted.ne_nil, List.head_mem_head? dotted.ne_nil,
      notBlank _ (List.head_mem dotted.ne_nil)⟩
  · exact ⟨text.getLast dotted.ne_nil, List.getLast_mem_getLast? dotted.ne_nil,
      notBlank _ (List.getLast_mem dotted.ne_nil)⟩

/-- A type name neither starts nor ends with white space. -/
theorem Matches.isSolid
    {clause : Clause}
    {name : Text}
    (matched : Matches clause name) :
    Text.IsSolid name := by
  induction matched with
  | void => exact ⟨⟨'v', rfl, by decide⟩, ⟨'d', rfl, by decide⟩⟩
  | string => exact ⟨⟨'s', rfl, by decide⟩, ⟨'g', rfl, by decide⟩⟩
  | primitive known => exact isSolid_of_mem_primitiveNames known
  | named dotted notVoid notString notPrimitive => exact isSolid_of_isDotted dotted
  | @sequence clause element matched notVoid elementSolid =>
      obtain ⟨last, member, notBlank⟩ := elementSolid.ends
      refine ⟨⟨'[', rfl, by decide⟩, ⟨last, ?_, notBlank⟩⟩
      cases element with
      | nil => simp at member
      | cons first rest => simpa [List.getLast?_cons] using member
  | @instantiated struct arguments dotted nonempty padded matched notVoid inner =>
      obtain ⟨first, member, notBlank⟩ := (isSolid_of_isDotted dotted).starts
      refine ⟨⟨first, ?_, notBlank⟩, ⟨'>', ?_, by decide⟩⟩
      · rw [List.head?_append, Option.mem_def.1 member]
        rfl
      · rw [← List.cons_append, ← List.append_assoc, List.getLast?_append]
        rfl

/-! ## Splitting the arguments of a struct -/

/--
A text that the splitter reads through without dividing it, from every depth that is at least
`least`, and that leaves the depth unchanged.
-/
def Absorbed (least : Int) (text : Text) : Prop :=
  ∀ depth : Int, least ≤ depth →
    ∀ current rest : Text,
      splitArguments depth current (text ++ rest) =
        splitArguments depth (text.reverse ++ current) rest

namespace Absorbed

theorem nil (least : Int) : Absorbed least [] := by
  intro depth atLeast current rest
  rfl

theorem append
    {least : Int}
    {left right : Text}
    (leftAbsorbed : Absorbed least left)
    (rightAbsorbed : Absorbed least right) :
    Absorbed least (left ++ right) := by
  intro depth atLeast current rest
  rw [List.append_assoc, leftAbsorbed depth atLeast, rightAbsorbed depth atLeast,
    List.reverse_append, List.append_assoc]

theorem mono
    {lower higher : Int}
    (ordered : lower ≤ higher)
    {text : Text}
    (absorbed : Absorbed lower text) :
    Absorbed higher text := by
  intro depth atLeast current rest
  exact absorbed depth (by omega) current rest

/-- A text without brackets and commas is absorbed everywhere. -/
theorem of_not_mem
    (least : Int)
    {text : Text}
    (noComma : ',' ∉ text)
    (noOpening : '<' ∉ text)
    (noClosing : '>' ∉ text) :
    Absorbed least text := by
  induction text with
  | nil => exact nil least
  | cons character rest induction =>
      simp only [List.mem_cons, not_or] at noComma noOpening noClosing
      intro depth atLeast current behind
      rw [List.cons_append, splitArguments,
        if_neg (fun comma => noComma.1 comma.1.symm)]
      simp only [if_neg (Ne.symm noOpening.1), if_neg (Ne.symm noClosing.1)]
      rw [induction noComma.2 noOpening.2 noClosing.2 depth atLeast, List.reverse_cons,
        List.append_assoc, List.singleton_append]

theorem of_isFlat
    (least : Int)
    {text : Text}
    (flat : IsFlat text) :
    Absorbed least text :=
  of_not_mem least
    (flat.not_mem (by decide) (by decide) (by decide))
    (flat.not_mem (by decide) (by decide) (by decide))
    (flat.not_mem (by decide) (by decide) (by decide))

theorem of_allBlank
    (least : Int)
    {text : Text}
    (blank : Text.AllBlank text) :
    Absorbed least text := by
  have notMember (character : Char) (visible : Text.isBlank character = false) :
      character ∉ text := by
    intro member
    have isBlank := blank character member
    rw [visible] at isBlank
    exact Bool.false_ne_true isBlank
  exact of_not_mem least (notMember ',' (by decide)) (notMember '<' (by decide))
    (notMember '>' (by decide))

/-- Inside of brackets a comma divides nothing. -/
theorem comma : Absorbed 1 [','] := by
  intro depth atLeast current rest
  have positive : ¬ (',' = ',' ∧ depth = 0) := by omega
  rw [List.singleton_append, splitArguments, if_neg positive]
  rfl

/-- A pair of brackets around what is absorbed one level deeper. -/
theorem brackets
    {inner : Text}
    (absorbed : Absorbed 1 inner) :
    Absorbed 0 ('<' :: (inner ++ ['>'])) := by
  intro depth atLeast current rest
  have opened :
      splitArguments depth current ('<' :: (inner ++ '>' :: rest)) =
        splitArguments (depth + 1) ('<' :: current) (inner ++ '>' :: rest) := by
    rw [splitArguments, if_neg (fun comma => absurd comma.1 (by decide))]
    rfl
  have closed :
      splitArguments (depth + 1) (inner.reverse ++ '<' :: current) ('>' :: rest) =
        splitArguments depth ('>' :: (inner.reverse ++ '<' :: current)) rest := by
    rw [splitArguments, if_neg (fun comma => absurd comma.1 (by decide))]
    simp
  calc
    splitArguments depth current (('<' :: (inner ++ ['>'])) ++ rest)
        = splitArguments depth current ('<' :: (inner ++ '>' :: rest)) := by simp
    _ = splitArguments (depth + 1) ('<' :: current) (inner ++ '>' :: rest) := opened
    _ = splitArguments (depth + 1) (inner.reverse ++ '<' :: current) ('>' :: rest) :=
        absorbed (depth + 1) (by omega) ('<' :: current) ('>' :: rest)
    _ = splitArguments depth ('>' :: (inner.reverse ++ '<' :: current)) rest := closed
    _ = splitArguments depth (('<' :: (inner ++ ['>'])).reverse ++ current) rest := by simp

theorem join
    {parts : List Text}
    (absorbed : ∀ part ∈ parts, Absorbed 1 part) :
    Absorbed 1 (Text.join [','] parts) := by
  induction parts with
  | nil => exact nil 1
  | cons part rest induction =>
      have partAbsorbed := absorbed part List.mem_cons_self
      cases rest with
      | nil => exact partAbsorbed
      | cons next others =>
          rw [Text.join_cons [','] part (List.cons_ne_nil next others)]
          exact (partAbsorbed.append comma).append
            (induction fun other member =>
              absorbed other (List.mem_cons_of_mem part member))

end Absorbed

/-- Every type name is absorbed. -/
theorem Matches.absorbed
    {clause : Clause}
    {name : Text}
    (matched : Matches clause name) :
    Absorbed 0 name := by
  induction matched with
  | void => exact Absorbed.of_isFlat 0 isFlat_void
  | string => exact Absorbed.of_isFlat 0 isFlat_string
  | primitive known => exact Absorbed.of_isFlat 0 (isFlat_of_mem_primitiveNames known)
  | named dotted notVoid notString notPrimitive =>
      exact Absorbed.of_isFlat 0 (isFlat_of_isDotted dotted)
  | @sequence clause element matched notVoid elementAbsorbed =>
      have marks : Absorbed 0 ['[', ']'] :=
        Absorbed.of_not_mem 0 (by decide) (by decide) (by decide)
      exact marks.append elementAbsorbed
  | instantiated dotted nonempty padded matched notVoid namesAbsorbed =>
      refine (Absorbed.of_isFlat 0 (isFlat_of_isDotted dotted)).append
        (Absorbed.brackets (Absorbed.join ?_))
      intro text member
      obtain ⟨argument, argumentMember, rfl⟩ := List.mem_map.1 member
      have blank := padded argument argumentMember
      have name := (namesAbsorbed argument argumentMember).mono (Int.zero_le_ofNat 1)
      exact ((Absorbed.of_allBlank 1 blank.1).append name).append
        (Absorbed.of_allBlank 1 blank.2)

/-- Absorbed parts are found again between the commas that join them. -/
theorem splitArguments_join
    {parts : List Text}
    (nonempty : parts ≠ [])
    (absorbed : ∀ part ∈ parts, Absorbed 0 part) :
    splitArguments 0 [] (Text.join [','] parts) = parts := by
  induction parts with
  | nil => exact (nonempty rfl).elim
  | cons part rest induction =>
      have partAbsorbed := absorbed part List.mem_cons_self 0 (Int.le_refl 0) []
      cases rest with
      | nil => simpa [splitArguments] using partAbsorbed []
      | cons next others =>
          rw [Text.join_cons [','] part (List.cons_ne_nil next others), List.append_assoc,
            List.singleton_append, partAbsorbed, splitArguments, if_pos ⟨rfl, rfl⟩,
            induction (List.cons_ne_nil next others)
              (fun other member => absorbed other (List.mem_cons_of_mem part member))]
          simp

theorem splitArguments_ne_nil
    (depth : Int)
    (current text : Text) :
    splitArguments depth current text ≠ [] := by
  induction text generalizing depth current with
  | nil => simp [splitArguments]
  | cons character rest induction =>
      rw [splitArguments]
      split
      · simp
      · exact induction _ _

/-- Whatever the brackets are, splitting loses nothing but the commas between the parts. -/
theorem join_splitArguments
    (depth : Int)
    (current text : Text) :
    Text.join [','] (splitArguments depth current text) = current.reverse ++ text := by
  induction text generalizing depth current with
  | nil => simp [splitArguments]
  | cons character rest induction =>
      rw [splitArguments]
      split
      · rename_i divides
        rw [Text.join_cons [','] current.reverse (splitArguments_ne_nil 0 [] rest), induction,
          divides.1]
        simp
      · rw [induction]
        simp

/-- Parts with a name in each of them are the arguments, trimmed. -/
theorem arguments_join
    {parts names : List Text}
    (nonempty : parts ≠ [])
    (absorbed : ∀ part ∈ parts, Absorbed 0 part)
    (trimmed : parts.map Text.trim = names)
    (named : ∀ name ∈ names, name ≠ []) :
    arguments (Text.join [','] parts) = names := by
  rw [arguments, splitArguments_join nonempty absorbed, trimmed]
  split
  · rename_i only
    have onlyNonempty : only ≠ [] := named only (List.mem_singleton_self only)
    simp [onlyNonempty]
  · rfl

/-- Unless there are none, the arguments are the trimmed parts between dividing commas. -/
theorem arguments_eq_map_trim
    {text : Text}
    (nonempty : arguments text ≠ []) :
    arguments text = (splitArguments 0 [] text).map Text.trim := by
  rw [arguments] at nonempty ⊢
  split at nonempty
  · rename_i only equal
    split at nonempty
    · exact (nonempty rfl).elim
    · rename_i notEmpty
      rw [equal]
      simp [notEmpty]
  · rfl

end UnoBindgen.TypeName
