import Mathlib
import UnoBindgen.Proofs.TypeName.Language

/-!
# Classification of type names

`classify` accepts exactly the texts that match a clause of the language of type names, and
returns the category of the clause, which is unique.  Every other text is refused as an unknown
type.

Completeness is an induction over the derivation that a text matches; soundness is an induction
along the recursion of `classify`.
-/

namespace UnoBindgen.TypeName

/-! ## Names that are listed -/

theorem simpleCategory?_void : simpleCategory? "void" = some .void := rfl

theorem simpleCategory?_string : simpleCategory? "string" = some .string := rfl

theorem simpleCategory?_of_mem_primitiveNames
    {name : Text}
    (known : name ∈ primitiveNames) :
    simpleCategory? name = some .primitive := by
  have all :
      ∀ primitive ∈ primitiveNames, simpleCategory? primitive = some .primitive := by
    decide
  exact all name known

theorem primitive?_eq_none
    {name : Text}
    (unknown : name ∉ primitiveNames) :
    primitive? name = none := by
  rw [primitive?, List.lookup_eq_none_iff]
  intro entry member
  rw [bne_iff_ne]
  rintro rfl
  exact unknown (List.mem_map_of_mem member)

theorem mem_primitiveNames_of_primitive?
    {name : Text}
    (found : (primitive? name).isSome = true) :
    name ∈ primitiveNames := by
  by_cases known : name ∈ primitiveNames
  · exact known
  · rw [primitive?_eq_none known] at found
    exact (Bool.false_ne_true found).elim

theorem simpleCategory?_eq_none
    {name : Text}
    (notVoid : name ≠ "void")
    (notString : name ≠ "string")
    (notPrimitive : name ∉ primitiveNames) :
    simpleCategory? name = none := by
  rw [simpleCategory?, if_neg notVoid, if_neg notString, primitive?_eq_none notPrimitive]
  rfl

/-- A text with a character that no flat name has is no simple name. -/
theorem simpleCategory?_eq_none_of_mem
    {name : Text}
    {character : Char}
    (member : character ∈ name)
    (outside : Identifier.isFollowing character = false)
    (noDot : character ≠ '.')
    (noBlank : character ≠ ' ') :
    simpleCategory? name = none := by
  apply simpleCategory?_eq_none
  · rintro rfl
    exact isFlat_void.not_mem outside noDot noBlank member
  · rintro rfl
    exact isFlat_string.not_mem outside noDot noBlank member
  · intro known
    exact (isFlat_of_mem_primitiveNames known).not_mem outside noDot noBlank member

/-- A simple category comes from a clause that lists names. -/
theorem matches_of_simpleCategory?
    {name : Text}
    {category : Category}
    (simple : simpleCategory? name = some category) :
    ∃ clause, Matches clause name ∧ clause.category = category := by
  rw [simpleCategory?] at simple
  split at simple
  · rename_i isVoid
    exact ⟨.void, isVoid ▸ Matches.void, Option.some.inj simple⟩
  · split at simple
    · rename_i isString
      exact ⟨.string, isString ▸ Matches.string, Option.some.inj simple⟩
    · split at simple
      · rename_i found
        exact ⟨.primitive, Matches.primitive (mem_primitiveNames_of_primitive? found),
          Option.some.inj simple⟩
      · exact absurd simple (by simp)

theorem sequenceElement?_eq_none
    {name : Text}
    (noMark : '[' ∉ name) :
    sequenceElement? name = none := by
  unfold sequenceElement?
  split
  · exact (noMark List.mem_cons_self).elim
  · rfl

theorem eq_of_sequenceElement?
    {name element : Text}
    (found : sequenceElement? name = some element) :
    name = '[' :: ']' :: element := by
  unfold sequenceElement? at found
  split at found
  · rw [Option.some.inj found]
  · exact absurd found (by simp)

/-! ## Every type name is accepted -/

theorem classify_of_simpleCategory?
    {name : Text}
    {category : Category}
    (simple : simpleCategory? name = some category) :
    classify name = some category := by
  rw [classify, simple]

/-- A sequence of values is an aggregate. -/
theorem classify_sequence
    {element : Text}
    {category : Category}
    (classified : classify element = some category)
    (notVoid : category ≠ .void) :
    classify ('[' :: ']' :: element) = some .aggregate := by
  have notSimple : simpleCategory? ('[' :: ']' :: element) = none :=
    simpleCategory?_eq_none_of_mem List.mem_cons_self (by decide) (by decide) (by decide)
  rw [classify, notSimple]
  dsimp only
  split
  · rename_i inner sequence
    obtain rfl : element = inner := Option.some.inj sequence
    rw [classified]
    cases category with
    | void => exact (notVoid rfl).elim
    | primitive => rfl
    | string => rfl
    | aggregate => rfl
  · rename_i noSequence
    exact absurd noSequence (by simp [sequenceElement?])

theorem classify_of_isDotted
    {name : Text}
    (dotted : IsDotted name)
    (notSimple : simpleCategory? name = none) :
    classify name = some .aggregate := by
  have noSequence : sequenceElement? name = none :=
    sequenceElement?_eq_none (dotted.not_mem (by decide) (by decide))
  have noInstance : Text.cutAt? '<' name = none :=
    Text.cutAt?_of_not_mem (dotted.not_mem (by decide) (by decide))
  rw [classify, notSimple]
  dsimp only
  split
  · rename_i element found
    rw [noSequence] at found
    exact absurd found (by simp)
  · split
    · rw [if_pos ((isQualifiedIdentifier_iff_isDotted name).2 dotted)]
    · rename_i struct after found
      rw [noInstance] at found
      exact absurd found (by simp)

/-- A dotted name with arguments that are values is an aggregate. -/
theorem classify_instantiated
    {struct inner : Text}
    (dotted : IsDotted struct)
    (nonempty : arguments inner ≠ [])
    (values :
      ∀ argument ∈ arguments inner,
        ∃ category, classify argument = some category ∧ category ≠ .void) :
    classify (struct ++ '<' :: (inner ++ ['>'])) = some .aggregate := by
  have bracket : '<' ∈ struct ++ '<' :: (inner ++ ['>']) := by simp
  have notSimple : simpleCategory? (struct ++ '<' :: (inner ++ ['>'])) = none :=
    simpleCategory?_eq_none_of_mem bracket (by decide) (by decide) (by decide)
  have noSequence : sequenceElement? (struct ++ '<' :: (inner ++ ['>'])) = none := by
    obtain ⟨first, rest, rfl⟩ := List.exists_cons_of_ne_nil dotted.ne_nil
    have notMark : first ≠ '[' := by
      rintro rfl
      exact dotted.not_mem (by decide) (by decide) List.mem_cons_self
    unfold sequenceElement?
    split
    · rename_i equal
      exact (notMark (List.cons.inj equal).1).elim
    · rfl
  have cut :
      Text.cutAt? '<' (struct ++ '<' :: (inner ++ ['>'])) = some (struct, inner ++ ['>']) :=
    Text.cutAt?_append (dotted.not_mem (by decide) (by decide)) _
  rw [classify, notSimple]
  dsimp only
  split
  · rename_i element found
    rw [noSequence] at found
    exact absurd found (by simp)
  · split
    · rename_i found
      rw [cut] at found
      exact absurd found (by simp)
    · rename_i otherStruct after found
      rw [cut] at found
      obtain ⟨rfl, rfl⟩ := Prod.mk.inj (Option.some.inj found)
      have between : (inner ++ ['>']).dropLast = inner := List.dropLast_concat
      rw [if_pos]
      refine ⟨by simp, (isQualifiedIdentifier_iff_isDotted struct).2 dotted,
        between.symm ▸ nonempty, ?_⟩
      rw [List.all_eq_true]
      rintro ⟨argument, member⟩ -
      have isArgument : argument ∈ arguments inner := between ▸ member
      obtain ⟨category, classified, notVoid⟩ := values argument isArgument
      dsimp only
      rw [classified]
      cases category with
      | void => exact (notVoid rfl).elim
      | primitive => rfl
      | string => rfl
      | aggregate => rfl

/-- Whatever matches a clause is accepted with the category of the clause. -/
theorem Matches.classify_eq
    {clause : Clause}
    {name : Text}
    (matched : Matches clause name) :
    classify name = some clause.category := by
  induction matched with
  | void => exact classify_of_simpleCategory? simpleCategory?_void
  | string => exact classify_of_simpleCategory? simpleCategory?_string
  | primitive known =>
      exact classify_of_simpleCategory? (simpleCategory?_of_mem_primitiveNames known)
  | named dotted notVoid notString notPrimitive =>
      exact classify_of_isDotted dotted
        (simpleCategory?_eq_none notVoid notString notPrimitive)
  | @sequence clause element matched notVoid classified =>
      exact classify_sequence classified
        (fun isVoid => notVoid ((Clause.category_eq_void_iff clause).1 isVoid))
  | @instantiated struct arguments dotted nonempty padded matched notVoid classified =>
      have found :
          TypeName.arguments (Text.join [','] (arguments.map Argument.text)) =
            arguments.map Argument.name := by
        apply arguments_join
        · simpa using nonempty
        · intro part member
          obtain ⟨argument, argumentMember, rfl⟩ := List.mem_map.1 member
          have blank := padded argument argumentMember
          exact ((Absorbed.of_allBlank 0 blank.1).append
            (matched argument argumentMember).absorbed).append
              (Absorbed.of_allBlank 0 blank.2)
        · rw [List.map_map]
          apply List.map_congr_left
          intro argument argumentMember
          have blank := padded argument argumentMember
          exact Text.trim_padded blank.1 (matched argument argumentMember).isSolid blank.2
        · intro name member
          obtain ⟨argument, argumentMember, rfl⟩ := List.mem_map.1 member
          exact (matched argument argumentMember).isSolid.ne_nil
      apply classify_instantiated dotted
      · rw [found]
        simpa using nonempty
      · rw [found]
        intro name member
        obtain ⟨argument, argumentMember, rfl⟩ := List.mem_map.1 member
        refine ⟨argument.clause.category, classified argument argumentMember, ?_⟩
        intro isVoid
        exact notVoid argument argumentMember
          ((Clause.category_eq_void_iff argument.clause).1 isVoid)

/-! ## Nothing else is accepted -/

/-- The reading that `classify` makes of a single argument. -/
theorem exists_of_isValue
    {found? : Option Category}
    (value :
      (match found? with
        | none => false
        | some .void => false
        | some _ => true) = true) :
    ∃ category, found? = some category ∧ category ≠ .void := by
  cases found? with
  | none => exact (Bool.false_ne_true value).elim
  | some category =>
      refine ⟨category, rfl, ?_⟩
      rintro rfl
      exact Bool.false_ne_true value

/-- A list is the image of a list whose members have a property, if each member is the image of
one that has it. -/
theorem exists_map_eq
    {Source Target : Type}
    (image : Source → Target)
    (property : Source → Prop)
    {targets : List Target}
    (covered : ∀ target ∈ targets, ∃ source, image source = target ∧ property source) :
    ∃ sources : List Source,
      sources.map image = targets ∧ ∀ source ∈ sources, property source := by
  induction targets with
  | nil => exact ⟨[], rfl, by simp⟩
  | cons target rest induction =>
      obtain ⟨source, same, holds⟩ := covered target List.mem_cons_self
      obtain ⟨sources, sameRest, holdRest⟩ :=
        induction fun other member => covered other (List.mem_cons_of_mem target member)
      refine ⟨source :: sources, by rw [List.map_cons, same, sameRest], ?_⟩
      intro member isMember
      rcases List.mem_cons.1 isMember with rfl | inRest
      · exact holds
      · exact holdRest member inRest

/-- Arguments that match clauses other than `void` make an instantiated struct, however the text
between the brackets was divided. -/
theorem matches_instantiated
    {struct inner : Text}
    (dotted : IsDotted struct)
    (nonempty : arguments inner ≠ [])
    (matched :
      ∀ argument ∈ arguments inner, ∃ clause, Matches clause argument ∧ clause ≠ .void) :
    Matches .instantiated (struct ++ '<' :: (inner ++ ['>'])) := by
  have trimmed := arguments_eq_map_trim nonempty
  have covered :
      ∀ part ∈ splitArguments 0 [] inner,
        ∃ argument : Argument,
          argument.text = part ∧
            ((Text.AllBlank argument.before ∧ Text.AllBlank argument.after) ∧
              Matches argument.clause argument.name ∧ argument.clause ≠ .void) := by
    intro part member
    obtain ⟨before, after, blankBefore, blankAfter, padded⟩ := Text.exists_padding part
    have isArgument : part.trim ∈ arguments inner := by
      rw [trimmed]
      exact List.mem_map_of_mem member
    obtain ⟨clause, partMatched, notVoid⟩ := matched part.trim isArgument
    exact ⟨⟨before, part.trim, after, clause⟩, padded.symm,
      ⟨blankBefore, blankAfter⟩, partMatched, notVoid⟩
  obtain ⟨found, same, holds⟩ := exists_map_eq Argument.text _ covered
  have joined : Text.join [','] (found.map Argument.text) = inner := by
    rw [same]
    exact join_splitArguments 0 [] inner
  rw [← joined]
  refine Matches.instantiated dotted ?_ (fun argument member => (holds argument member).1)
    (fun argument member => (holds argument member).2.1)
    (fun argument member => (holds argument member).2.2)
  rintro rfl
  exact splitArguments_ne_nil 0 [] inner same.symm

/-- Whatever is accepted matches a clause of the category that is returned. -/
theorem matches_of_classify
    {name : Text}
    {category : Category}
    (accepted : classify name = some category) :
    ∃ clause, Matches clause name ∧ clause.category = category := by
  fun_induction classify name generalizing category with
  | case1 name simple found =>
      exact matches_of_simpleCategory? (found.trans accepted)
  | case2 | case3 | case6 | case8 => exact absurd accepted (by simp)
  | case4 name notSimple element sequence elementCategory notVoid classified hypothesis =>
      obtain ⟨clause, matched, sameCategory⟩ := hypothesis classified
      rw [eq_of_sequenceElement? sequence]
      refine ⟨.sequence, Matches.sequence matched ?_, Option.some.inj accepted⟩
      rintro rfl
      exact notVoid sameCategory.symm
  | case5 name notSimple noSequence noInstance qualified =>
      refine ⟨.named, Matches.named ((isQualifiedIdentifier_iff_isDotted name).1 qualified)
        ?_ ?_ ?_, Option.some.inj accepted⟩
      · rintro rfl
        rw [simpleCategory?_void] at notSimple
        exact absurd notSimple (by simp)
      · rintro rfl
        rw [simpleCategory?_string] at notSimple
        exact absurd notSimple (by simp)
      · intro known
        rw [simpleCategory?_of_mem_primitiveNames known] at notSimple
        exact absurd notSimple (by simp)
  | case7 name notSimple noSequence struct after found inner accepting =>
      rename_i hypothesis
      obtain ⟨closed, qualified, nonempty, values⟩ := accepting
      obtain ⟨content, rfl⟩ : ∃ content, after = content ++ ['>'] :=
        List.getLast?_eq_some_iff.1 closed
      have between : (content ++ ['>']).dropLast = content := List.dropLast_concat
      rw [Text.eq_append_of_cutAt? found]
      refine ⟨.instantiated,
        matches_instantiated ((isQualifiedIdentifier_iff_isDotted struct).1 qualified)
          (between ▸ nonempty) ?_, Option.some.inj accepted⟩
      intro argument member
      have isInner : argument ∈ arguments (content ++ ['>']).dropLast :=
        between.symm ▸ member
      obtain ⟨argumentCategory, classified, notVoid⟩ :=
        exists_of_isValue (List.all_eq_true.1 values ⟨argument, isInner⟩ (List.mem_attach _ _))
      obtain ⟨clause, matched, sameCategory⟩ := hypothesis ⟨argument, isInner⟩ classified
      refine ⟨clause, matched, ?_⟩
      rintro rfl
      exact notVoid sameCategory.symm

/-! ## The clause is unique -/

/-- The names of a clause that lists names, and dotted names, have no brackets. -/
theorem Matches.isFlat
    {clause : Clause}
    {name : Text}
    (matched : Matches clause name)
    (notSequence : clause ≠ .sequence)
    (notInstantiated : clause ≠ .instantiated) :
    IsFlat name := by
  cases matched with
  | void => exact isFlat_void
  | string => exact isFlat_string
  | primitive known => exact isFlat_of_mem_primitiveNames known
  | named dotted notVoid notString notPrimitive => exact isFlat_of_isDotted dotted
  | sequence matched notVoid => exact (notSequence rfl).elim
  | instantiated dotted nonempty padded matched notVoid => exact (notInstantiated rfl).elim

/-- Only sequences start with a square bracket. -/
theorem Matches.eq_sequence_iff
    {clause : Clause}
    {name : Text}
    (matched : Matches clause name) :
    clause = .sequence ↔ name.head? = some '[' := by
  constructor
  · rintro rfl
    cases matched with
    | sequence elementMatched notVoid => rfl
  · intro starts
    have bracket : '[' ∈ name := List.mem_of_head? starts
    by_cases isSequence : clause = .sequence
    · exact isSequence
    · by_cases isInstantiated : clause = .instantiated
      · subst isInstantiated
        cases matched with
        | @instantiated struct arguments dotted nonempty padded matched notVoid =>
            obtain ⟨first, rest, rfl⟩ := List.exists_cons_of_ne_nil dotted.ne_nil
            have same : first = '[' := by simpa using starts
            subst same
            exact (dotted.not_mem (by decide) (by decide) List.mem_cons_self).elim
      · exact ((matched.isFlat isSequence isInstantiated).not_mem
          (by decide) (by decide) (by decide) bracket).elim

/-- Apart from sequences, only instantiated structs have an angle bracket. -/
theorem Matches.eq_instantiated_iff
    {clause : Clause}
    {name : Text}
    (matched : Matches clause name)
    (notSequence : clause ≠ .sequence) :
    clause = .instantiated ↔ '<' ∈ name := by
  constructor
  · rintro rfl
    cases matched with
    | instantiated dotted nonempty padded matched notVoid => simp
  · intro bracket
    by_cases isInstantiated : clause = .instantiated
    · exact isInstantiated
    · exact ((matched.isFlat notSequence isInstantiated).not_mem
        (by decide) (by decide) (by decide) bracket).elim

/-- A text matches at most one clause. -/
theorem Matches.clause_unique
    {first second : Clause}
    {name : Text}
    (firstMatched : Matches first name)
    (secondMatched : Matches second name) :
    first = second := by
  have sameCategory : first.category = second.category :=
    Option.some.inj (firstMatched.classify_eq.symm.trans secondMatched.classify_eq)
  have sequences : first = .sequence ↔ second = .sequence :=
    firstMatched.eq_sequence_iff.trans secondMatched.eq_sequence_iff.symm
  by_cases isSequence : first = .sequence
  · rw [isSequence, sequences.1 isSequence]
  · have otherNot : second ≠ .sequence := fun other => isSequence (sequences.2 other)
    have instances : first = .instantiated ↔ second = .instantiated :=
      (firstMatched.eq_instantiated_iff isSequence).trans
        (secondMatched.eq_instantiated_iff otherNot).symm
    by_cases isInstantiated : first = .instantiated
    · rw [isInstantiated, instances.1 isInstantiated]
    · have otherNotInstantiated : second ≠ .instantiated :=
        fun other => isInstantiated (instances.2 other)
      cases first <;> cases second <;> simp_all [Clause.category]

/-! ## The characterization -/

theorem Matches.category_eq
    {clause : Clause}
    {name : Text}
    (matched : Matches clause name) :
    TypeName.category ⟨name⟩ = .ok clause.category := by
  simp only [TypeName.category, matched.classify_eq]

/-- The type of strings. -/
def string : TypeName := ⟨"string"⟩

theorem category_string : TypeName.string.category = .ok .string :=
  Matches.string.category_eq

/--
Every text either matches exactly one clause, and then its category is the one of that clause, or
it matches none, and then it is refused as an unknown type.
-/
theorem category_decides_matches (text : Text) :
    (∃ clause,
      Matches clause text ∧
        (∀ other, Matches other text → other = clause) ∧
        TypeName.category ⟨text⟩ = .ok clause.category) ∨
    ((∀ clause, ¬ Matches clause text) ∧
      ∃ fault : Fault,
        TypeName.category ⟨text⟩ = .error fault ∧ fault.carries .unknownType = true) := by
  cases classified : classify text with
  | some category =>
      obtain ⟨clause, matched, rfl⟩ := matches_of_classify classified
      exact Or.inl ⟨clause, matched,
        fun other otherMatched => otherMatched.clause_unique matched, matched.category_eq⟩
  | none =>
      refine Or.inr ⟨?_, .within text.quote (.ofCondition .unknownType), ?_, rfl⟩
      · intro clause matched
        rw [matched.classify_eq] at classified
        exact absurd classified (by simp)
      · simp only [TypeName.category, classified]

end UnoBindgen.TypeName
