import UnoBindgen.Text.Numeral
import UnoBindgen.Text.Quoted

/-!
# Semantic versions

A version has three numbers, of which the last two may be left out when it is written, and
optionally the parts of a pre-release and of the build.
-/

namespace UnoBindgen

/-- A version. -/
structure SemanticVersion where
  major : Nat
  minor : Nat
  patch : Nat
  /-- The parts of the pre-release; a release has none. -/
  prerelease : List Text
  /-- The parts that tell builds of the same version apart. -/
  build : List Text
  deriving DecidableEq, Repr

namespace SemanticVersion

/-- Why a text is no version. -/
inductive Problem where
  | malformed
  /-- A number does not fit into sixty-four bits. -/
  | outOfRange (digits : Text)
  /-- A number of the pre-release starts with a superfluous zero. -/
  | leadingZero
  deriving DecidableEq, Repr

/-- The wording of a problem. -/
def Problem.text : Problem → Text
  | .malformed => "invalid semantic version"
  | .outOfRange digits =>
    "error parsing version segment: strconv.ParseUint: parsing " ++ digits.quote ++
      ": value out of range"
  | .leadingZero => "version segment starts with 0"

/-- The characters of pre-releases and builds. -/
def isPartCharacter (character : Char) : Bool :=
  character.isAlphanum || character == '-'

/-- Split dotted parts; each has to hold something. -/
def parts? (text : Text) : Option (List Text) :=
  let parts := text.splitAt '.'
  if parts.all fun part => !part.isEmpty && part.all isPartCharacter then some parts else none

/-- Split a text at the first occurrence of a character; without it nothing stands behind. -/
def splitOptional (separator : Char) (text : Text) : Text × Option Text :=
  match text.cutAt? separator with
  | some (before, after) => (before, some after)
  | none => (text, none)

/-- Read one of the three numbers. -/
def number (digits : Text) : Except Problem Nat :=
  match Text.natural? 10 digits with
  | some value => if value < Nat.pow 2 64 then .ok value else .error (.outOfRange digits)
  | none => .error .malformed

/-- Whether a part is a number that starts with a superfluous zero. -/
def hasLeadingZero (part : Text) : Bool :=
  part.length > 1 && part.head? == some '0' && part.all Text.isDecimal

/-- The optional parts behind a separator, if all of them are well formed. -/
def optionalParts : Option Text → Except Problem (List Text)
  | none => .ok []
  | some text =>
    match parts? text with
    | some parts => .ok parts
    | none => .error .malformed

/-- Read a version.  A letter `v` may stand in front. -/
def parse (text : Text) : Except Problem SemanticVersion := do
  let unmarked := (text.dropInitial? ['v']).getD text
  let (beforeBuild, build) := splitOptional '+' unmarked
  let (core, prerelease) := splitOptional '-' beforeBuild
  let build ← optionalParts build
  let prerelease ← optionalParts prerelease
  let numbers := core.splitAt '.'
  if numbers.any fun digits => digits.isEmpty || !digits.all Text.isDecimal then
    throw .malformed
  let numbers ←
    match numbers with
    | [major] => pure (major, ['0'], ['0'])
    | [major, minor] => pure (major, minor, ['0'])
    | [major, minor, patch] => pure (major, minor, patch)
    | _ => throw .malformed
  let major ← number numbers.1
  let minor ← number numbers.2.1
  let patch ← number numbers.2.2
  if prerelease.any hasLeadingZero then
    throw .leadingZero
  return ⟨major, minor, patch, prerelease, build⟩

/-- Dotted parts behind a separator; without parts there is no separator. -/
def showParts (separator : Char) (parts : List Text) : Text :=
  if parts.isEmpty then [] else separator :: Text.join ['.'] parts

/-- The full form of a version. -/
def name (version : SemanticVersion) : Text :=
  Text.join ['.'] [Text.ofNat version.major, Text.ofNat version.minor, Text.ofNat version.patch] ++
    showParts '-' version.prerelease ++ showParts '+' version.build

/-- Whether a version is a release from a given major number on, and before the next one. -/
def isReleaseOf (major : Nat) (version : SemanticVersion) : Bool :=
  version.prerelease.isEmpty && version.major == major

end SemanticVersion

end UnoBindgen
