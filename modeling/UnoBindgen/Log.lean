import UnoBindgen.Text.Basic

/-!
# Log records

The records a run leaves behind, each with a level, the name of its logger, a message and
structured fields; and how the verbosity asked for on the command line becomes a level.
-/

namespace UnoBindgen.Log

/-- The levels, from the most talkative to the most serious. -/
inductive Level where
  | debug
  | info
  | warn
  | error
  deriving DecidableEq, Repr

namespace Level

/-- The levels in increasing order. -/
def all : List Level := [.debug, .info, .warn, .error]

/-- The name of a level. -/
def name : Level → Text
  | .debug => "debug"
  | .info => "info"
  | .warn => "warn"
  | .error => "error"

/-- The rank of a level. -/
def rank : Level → Nat
  | .debug => 0
  | .info => 1
  | .warn => 2
  | .error => 3

/-- The level that a verbosity asks for: warnings at zero, information at one, and everything at
any other count. -/
def ofVerbosity (verbosity : Int) : Level :=
  if verbosity = 0 then .warn else if verbosity = 1 then .info else .debug

/-- The levels that pass a threshold. -/
def enabledFrom (threshold : Level) : List Level :=
  all.filter fun level => threshold.rank ≤ level.rank

end Level

/-- The description of a verbosity. -/
def verbosityName (verbosity : Int) : Text :=
  if verbosity = 0 then "User"
  else if verbosity = 1 then "Info (-v)"
  else if verbosity = 2 then "Debug (-vv)"
  else if verbosity = 3 then "Trace (-vvv)"
  else if verbosity = 4 then "All (-vvvv)"
  else if verbosity > 4 then "All (-vvvv+)"
  else "Unknown"

/-- Whether a verbosity asks for the derived identifiers. -/
def wantsTrace (verbosity : Int) : Bool :=
  verbosity ≥ 3

/-- Whether a verbosity asks for the full generated texts. -/
def wantsAll (verbosity : Int) : Bool :=
  verbosity ≥ 4

/-- The value of a structured field. -/
inductive FieldValue where
  | text (value : Text)
  | number (value : Int)
  | texts (values : List Text)
  deriving DecidableEq, Repr

/-- A log record. -/
structure Record where
  level : Level
  logger : Text
  message : Text
  fields : List (Text × FieldValue)
  deriving DecidableEq, Repr

/-- What is known about the work that records belong to. -/
structure Context where
  runId : Text
  component : Text
  deriving DecidableEq, Repr

/-- The fields that a context adds to every record; unknown parts add none. -/
def Context.fields (context : Context) : List (Text × Text) :=
  [(("run_id" : Text), context.runId), ("component", context.component)].filter fun field =>
    !field.2.isEmpty

/-- A record that belongs to a context. -/
def Context.record
    (context : Context)
    (level : Level)
    (message : Text)
    (fields : List (Text × FieldValue)) :
    Record where
  level := level
  logger := []
  message := message
  fields := context.fields.map (fun field => (field.1, .text field.2)) ++ fields

/-- A record that belongs to no context. -/
def plainRecord (level : Level) (message : Text) (fields : List (Text × FieldValue)) : Record :=
  Context.record ⟨[], []⟩ level message fields

end UnoBindgen.Log
