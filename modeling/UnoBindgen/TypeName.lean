import UnoBindgen.Fault
import UnoBindgen.Identifier
import UnoBindgen.Text.Blank
import UnoBindgen.Text.Quoted

/-!
# Type names

A type name is `void`, `string`, a primitive type, or an aggregate: a named type such as
`com.sun.star.uno.XInterface`, a sequence `[]T`, or an instantiated struct `a.b.Pair<long, T>`.
`classify` finds the category that decides how values of the type are passed, and `spelling`
writes the type on each of the surfaces of the generated code.
-/

namespace UnoBindgen

/-- How values of a type are passed. -/
inductive Category where
  | void
  | primitive
  | string
  | aggregate
  deriving DecidableEq, Repr

namespace Category

/-- The categories in the order of their codes. -/
def all : List Category := [.void, .primitive, .string, .aggregate]

/-- The name of a category. -/
def name : Category → Text
  | .void => "void"
  | .primitive => "primitive"
  | .string => "string"
  | .aggregate => "aggregate"

end Category

/-- The places where a type is spelled. -/
inductive Surface where
  /-- The C++ signature of a call shim. -/
  | declaration
  /-- The C++ slot that the binary call fills with the result. -/
  | marshal
  /-- The Haskell signature of the foreign import. -/
  | foreign
  /-- The Haskell signature of the wrapper. -/
  | wrapper
  deriving DecidableEq, Repr

namespace Surface

/-- The surfaces in the order of their codes. -/
def all : List Surface := [.declaration, .marshal, .foreign, .wrapper]

/-- The name of a surface. -/
def name : Surface → Text
  | .declaration => "declaration"
  | .marshal => "marshal"
  | .foreign => "foreign"
  | .wrapper => "wrapper"

end Surface

/-- The spellings of a primitive type.  Primitives are passed by value, so one native and one
Haskell spelling serve two surfaces each. -/
structure Primitive where
  native : Text
  haskell : Text
  deriving DecidableEq, Repr

/-- The primitive types with their spellings. -/
def primitiveTypes : List (Text × Primitive) :=
  [ ("boolean", ⟨"sal_Bool", "Word8"⟩),
    ("byte", ⟨"sal_Int8", "Int8"⟩),
    ("short", ⟨"sal_Int16", "Int16"⟩),
    ("unsigned short", ⟨"sal_uInt16", "Word16"⟩),
    ("long", ⟨"sal_Int32", "Int32"⟩),
    ("unsigned long", ⟨"sal_uInt32", "Word32"⟩),
    ("hyper", ⟨"sal_Int64", "Int64"⟩),
    ("unsigned hyper", ⟨"sal_uInt64", "Word64"⟩),
    ("float", ⟨"float", "Float"⟩),
    ("double", ⟨"double", "Double"⟩),
    ("char", ⟨"sal_Unicode", "Word16"⟩) ]

/-- A type as a schema names it. -/
structure TypeName where
  text : Text
  deriving DecidableEq, Repr

namespace TypeName

/-- The type of a method without a result. -/
def void : TypeName := ⟨"void"⟩

/-- The name of the element type, if the text is the name of a sequence. -/
def sequenceElement? : Text → Option Text
  | '[' :: ']' :: element => some element
  | _ => none

/-- Whether the type is a sequence. -/
def isSequence (type : TypeName) : Bool :=
  (sequenceElement? type.text).isSome

/-- The element type of a sequence; any other type is its own element. -/
def element (type : TypeName) : TypeName :=
  ⟨(sequenceElement? type.text).getD type.text⟩

/-- The spellings of a primitive type. -/
def primitive? (name : Text) : Option Primitive :=
  primitiveTypes.lookup name

/-- The category of a type that is neither a sequence nor an instantiated struct and has a name
of its own: `void`, `string` and the primitive types. -/
def simpleCategory? (name : Text) : Option Category :=
  if name = "void" then some .void
  else if name = "string" then some .string
  else if (primitive? name).isSome then some .primitive
  else none

/-- Split the arguments of an instantiated struct at the commas outside of all inner brackets.
`depth` counts the brackets left open, and `current` holds the characters of the argument so far,
last one first. -/
def splitArguments (depth : Int) (current : Text) : Text → List Text
  | [] => [current.reverse]
  | character :: rest =>
    if character = ',' ∧ depth = 0 then
      current.reverse :: splitArguments 0 [] rest
    else
      let deeper :=
        if character = '<' then depth + 1 else if character = '>' then depth - 1 else depth
      splitArguments deeper (character :: current) rest

/-- The arguments between the outer brackets, trimmed.  Nothing but white space between the
brackets is no argument at all. -/
def arguments (text : Text) : List Text :=
  match (splitArguments 0 [] text).map Text.trim with
  | [only] => if only.isEmpty then [] else [only]
  | several => several

theorem splitArguments_length_le
    (text : Text) :
    ∀ (depth : Int) (current : Text),
      ∀ argument ∈ splitArguments depth current text,
        argument.length ≤ current.length + text.length := by
  induction text with
  | nil =>
    intro depth current argument member
    simp [splitArguments] at member
    simp [member]
  | cons character rest hypothesis =>
    intro depth current argument member
    rw [splitArguments] at member
    split at member
    · rcases List.mem_cons.1 member with equality | inner
      · simp [equality]
      · have bound := hypothesis 0 [] argument inner
        simp at bound ⊢
        omega
    · have bound := hypothesis _ (character :: current) argument member
      simp at bound ⊢
      omega

theorem trim_length_le (text : Text) : text.trim.length ≤ text.length := by
  have shorter (text : Text) : (text.dropWhile Text.isBlank).length ≤ text.length :=
    (List.dropWhile_suffix Text.isBlank).length_le
  have outer := shorter (text.dropWhile Text.isBlank).reverse
  have inner := shorter text
  simp [Text.trim, Text.trimRight, Text.trimLeft] at outer ⊢
  omega

theorem arguments_length_le
    (text argument : Text)
    (member : argument ∈ arguments text) :
    argument.length ≤ text.length := by
  have general :
      ∀ candidate ∈ (splitArguments 0 [] text).map Text.trim,
        candidate.length ≤ text.length := by
    intro candidate candidateMember
    obtain ⟨piece, pieceMember, rfl⟩ := List.mem_map.1 candidateMember
    have bound := splitArguments_length_le text 0 [] piece pieceMember
    have trimmed := trim_length_le piece
    simp at bound
    omega
  unfold arguments at member
  split at member
  · rename_i only equality
    split at member
    · simp at member
    · have same : argument = only := by simpa using member
      exact general argument (by simp [equality, same])
  · exact general argument member

theorem sequenceElement?_length
    (name element : Text)
    (found : sequenceElement? name = some element) :
    element.length + 2 = name.length := by
  unfold sequenceElement? at found
  split at found
  · simp only [Option.some.injEq] at found
    simp [found]
  · simp at found

theorem cutAt?_length
    (separator : Char)
    (text before after : Text)
    (found : Text.cutAt? separator text = some (before, after)) :
    before.length + after.length + 1 = text.length := by
  induction text generalizing before after with
  | nil => simp [Text.cutAt?] at found
  | cons character rest hypothesis =>
    rw [Text.cutAt?] at found
    split at found
    · simp only [Option.some.injEq, Prod.mk.injEq] at found
      simp [← found.1, ← found.2]
    · obtain ⟨⟨innerBefore, innerAfter⟩, inner, equality⟩ := Option.map_eq_some_iff.1 found
      simp only [Prod.mk.injEq] at equality
      have bound := hypothesis innerBefore innerAfter inner
      simp [← equality.1, ← equality.2]
      omega

/-- The category of a type name, or nothing when the text names no type.

A sequence needs an element that is a type other than `void`; an instantiated struct needs a
qualified name and at least one argument, each a type other than `void`. -/
def classify (name : Text) : Option Category :=
  match simpleCategory? name with
  | some category => some category
  | none =>
    match _sequence : sequenceElement? name with
    | some element =>
      match classify element with
      | none => none
      | some .void => none
      | some _ => some .aggregate
    | none =>
      match _instance : Text.cutAt? '<' name with
      | none => if isQualifiedIdentifier name then some .aggregate else none
      | some (struct, after) =>
        let inner := arguments after.dropLast
        if after.getLast? = some '>' ∧ isQualifiedIdentifier struct ∧ inner ≠ [] ∧
            inner.attach.all (fun argument =>
              match classify argument.val with
              | none => false
              | some .void => false
              | some _ => true) then
          some .aggregate
        else
          none
termination_by name.length
decreasing_by
  · have size := sequenceElement?_length _ _ _sequence
    omega
  · have bound := arguments_length_le _ _ argument.property
    have size := cutAt?_length _ _ _ _ _instance
    simp only [List.length_dropLast] at bound
    omega

/-- The category of a type, or the fault that its name is no type. -/
def category (type : TypeName) : Except Fault Category :=
  match classify type.text with
  | some category => .ok category
  | none => .error (.within type.text.quote (.ofCondition .unknownType))

/-- The spelling of `void`.  No result slot is needed, so the marshal surface has none. -/
def voidSpelling : Surface → Text
  | .declaration => "void"
  | .marshal => ""
  | .foreign => "()"
  | .wrapper => "()"

/-- The spelling of `string`.  The memory of a string changes hands at the boundary, so every
native and foreign surface uses a pointer. -/
def stringSpelling : Surface → Text
  | .declaration => "rtl::OUString *"
  | .marshal => "rtl_uString *"
  | .foreign => "Ptr OUString"
  | .wrapper => "Text"

/-- The spelling of a primitive type. -/
def primitiveSpelling (primitive : Primitive) : Surface → Text
  | .declaration => primitive.native
  | .marshal => primitive.native
  | .foreign => primitive.haskell
  | .wrapper => primitive.haskell

/-- The spelling of a type of a category on a surface.  Aggregates have none.  On no surface at all,
`void` and `string` are written as nothing and a primitive type keeps its native spelling.  There
is no further category. -/
def spellingOf (type : TypeName) (category : Category) (surface? : Option Surface) :
    Except Fault Text :=
  if category = .void then
    .ok ((surface?.map voidSpelling).getD [])
  else if category = .string then
    .ok ((surface?.map stringSpelling).getD [])
  else if category = .primitive then
    let primitive := (primitive? type.text).getD ⟨[], []⟩
    .ok ((surface?.map (primitiveSpelling primitive)).getD primitive.native)
  else if category = .aggregate then
    .error (.unsupportedType type.text)
  else
    .error (.assertion ("unhandled category " ++ category.name))

/-- The spelling of a type on a surface. -/
def spelling (type : TypeName) (surface? : Option Surface) : Except Fault Text :=
  match type.category with
  | .error fault => .error fault
  | .ok category => type.spellingOf category surface?

/-- The spelling on a surface, category by category.  No category is unhandled. -/
theorem spelling_some_eq (type : TypeName) (surface : Surface) :
    type.spelling (some surface) =
      match type.category with
      | .error fault => .error fault
      | .ok .void => .ok (voidSpelling surface)
      | .ok .string => .ok (stringSpelling surface)
      | .ok .primitive =>
        .ok (primitiveSpelling ((primitive? type.text).getD ⟨[], []⟩) surface)
      | .ok .aggregate => .error (.unsupportedType type.text) := by
  rw [spelling]
  cases type.category with
  | error fault => rfl
  | ok category => cases category <;> rfl

end TypeName

end UnoBindgen
