import UnoBindgen.Text.Basic

/-!
# Faults

Everything that can go wrong, as causes with context around them.  A fault is a plain cause, an
answer of the surroundings, a cancellation or a broken promise of the program itself, wrapped in
any number of contexts, hints and details.

Callers branch on a `Condition`: a fault carries a condition when one of the causes reached
through its wrappers is the plain cause with the condition's text.  `message` renders the whole
fault, outermost context first.
-/

namespace UnoBindgen

/-- The causes that callers branch on. -/
inductive Condition where
  | unknownType
  | unsupportedType
  | notImplemented
  | invalidSchema
  | outOfDate
  deriving DecidableEq, Repr

/-- The text that a condition is reported with. -/
def Condition.text : Condition → Text
  | .unknownType => "unknown type"
  | .unsupportedType => "unsupported type"
  | .notImplemented => "not implemented"
  | .invalidSchema => "invalid schema"
  | .outOfDate => "generated files are out of date"

/-- A fault: a cause with wrappers around it. -/
inductive Fault where
  /-- A cause with a text of its own. -/
  | plain (text : Text)
  /-- An answer of the surroundings; `missing` says that a file does not exist. -/
  | external (text : Text) (missing : Bool)
  /-- The work was called off. -/
  | cancelled
  /-- The program broke a promise it makes to itself. -/
  | assertion (text : Text)
  /-- A cause seen from further out. -/
  | within (context : Text) (cause : Fault)
  /-- A cause with advice for the person who runs the program. -/
  | hinted (hint : Text) (cause : Fault)
  /-- A cause with a detail. -/
  | detailed (detail : Text) (cause : Fault)
  /-- A cause with a second one that is not reported. -/
  | alongside (primary : Fault) (secondary : Fault)
  /-- A list of one cause. -/
  | listed (only : Fault)
  /-- A list of two causes. -/
  | both (first : Fault) (second : Fault)
  deriving DecidableEq, Repr

namespace Fault

/-- Angle quotation marks are reserved for marking sensitive parts of a message, so a message
shows a question mark in place of each of them. -/
def visible (text : Text) : Text :=
  text.map fun character => if character = '‹' ∨ character = '›' then '?' else character

/-- The cause that stands for a condition. -/
def ofCondition (condition : Condition) : Fault :=
  .plain condition.text

/-- An invalid schema, for a stated reason. -/
def invalidSchema (reason : Text) : Fault :=
  .within reason (ofCondition .invalidSchema)

/-- An unsupported type, by its name. -/
def unsupportedType (typeName : Text) : Fault :=
  .within typeName (ofCondition .unsupportedType)

/-- The full text of a fault, outermost context first.  An empty context is not shown. -/
def message : Fault → Text
  | .plain text => visible text
  | .external text _ => text
  | .cancelled => "context canceled"
  | .assertion text => visible text
  | .within context cause =>
    match visible context with
    | [] => cause.message
    | shown => shown ++ ": " ++ cause.message
  | .hinted _ cause => cause.message
  | .detailed _ cause => cause.message
  | .alongside primary _ => primary.message
  | .listed only => only.message
  | .both first second => first.message ++ "\n" ++ second.message

/-- Whether one of the causes of a fault passes a test. -/
def anyCause (test : Fault → Bool) : Fault → Bool
  | .within _ cause => anyCause test cause
  | .hinted _ cause => anyCause test cause
  | .detailed _ cause => anyCause test cause
  | .alongside primary _ => anyCause test primary
  | .listed only => anyCause test only
  | .both first second => anyCause test first || anyCause test second
  | cause => test cause

/-- Whether a fault carries a condition. -/
def carries (condition : Condition) : Fault → Bool :=
  anyCause fun
    | .plain text => visible text == condition.text
    | .assertion text => visible text == condition.text
    | _ => false

/-- Whether a broken promise of the program is among the causes. -/
def isAssertion : Fault → Bool :=
  anyCause fun
    | .assertion _ => true
    | _ => false

/-- Whether a cancellation is among the causes. -/
def isCancelled : Fault → Bool :=
  anyCause fun
    | .cancelled => true
    | _ => false

/-- Whether a missing file is among the causes. -/
def isMissingFile : Fault → Bool :=
  anyCause fun
    | .external _ missing => missing
    | _ => false

/-- All hints along the wrappers, innermost first.  Lists of causes keep theirs to themselves. -/
def allHints : Fault → List Text
  | .hinted hint cause => allHints cause ++ [hint]
  | .within _ cause => allHints cause
  | .detailed _ cause => allHints cause
  | .alongside primary _ => allHints primary
  | _ => []

/-- The hints of a fault that say something, innermost first, each once. -/
def hints (fault : Fault) : List Text :=
  Text.distinct (fault.allHints.filter fun hint => !hint.isEmpty)

/-- The details of a fault, innermost first.  Lists of causes keep theirs to themselves. -/
def details : Fault → List Text
  | .detailed detail cause => details cause ++ [detail]
  | .within _ cause => details cause
  | .hinted _ cause => details cause
  | .alongside primary _ => details primary
  | _ => []

/-- The hints as one text. -/
def hintText (fault : Fault) : Text :=
  Text.join "\n--\n" fault.hints

/-- Keep the first of two possible faults and remember the other beside it. -/
def combine : Option Fault → Option Fault → Option Fault
  | none, other => other
  | first, none => first
  | some primary, some secondary => some (.alongside primary secondary)

/-- List the faults that are there. -/
def list : Option Fault → Option Fault → Option Fault
  | none, none => none
  | some only, none => some (.listed only)
  | none, some only => some (.listed only)
  | some first, some second => some (.both first second)

end Fault

end UnoBindgen
