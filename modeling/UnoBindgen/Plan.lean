import UnoBindgen.Naming

/-!
# Call plans

A plan settles everything that the three artifacts of an entity must agree on for one call:
the symbol, the import name, and the category and spellings of each position.  The renderers
only read plans.
-/

namespace UnoBindgen

/-- The spellings of a type on the four surfaces. -/
structure Spellings where
  declaration : Text
  marshal : Text
  foreign : Text
  wrapper : Text
  deriving DecidableEq, Repr

namespace Spellings

/-- No spelling on any surface. -/
def none : Spellings := ⟨[], [], [], []⟩

/-- The spelling on a surface. -/
def on (spellings : Spellings) : Surface → Text
  | .declaration => spellings.declaration
  | .marshal => spellings.marshal
  | .foreign => spellings.foreign
  | .wrapper => spellings.wrapper

/-- The spellings with another one on a surface. -/
def withSpelling (spellings : Spellings) (spelled : Text) : Surface → Spellings
  | .declaration => { spellings with declaration := spelled }
  | .marshal => { spellings with marshal := spelled }
  | .foreign => { spellings with foreign := spelled }
  | .wrapper => { spellings with wrapper := spelled }

/-- Spell a type on the surfaces in turn.  An unsupported type ends this without a fault, and the
surfaces from there on keep what they have. -/
def spell (type : TypeName) : List Surface → Spellings → Except Fault Spellings
  | [], spellings => .ok spellings
  | surface :: rest, spellings =>
    match type.spelling (some surface) with
    | .ok spelled => spell type rest (spellings.withSpelling spelled surface)
    | .error fault => if fault.carries .unsupportedType then .ok spellings else .error fault

end Spellings

/-- One typed position of a call: a parameter, a result or an exception member. -/
structure PlannedValue where
  name : Text
  type : TypeName
  category : Category
  spellings : Spellings
  deriving DecidableEq, Repr

namespace PlannedValue

/-- Whether values at this position can be passed. -/
def isSupported (value : PlannedValue) : Bool :=
  value.category != .aggregate

/-- Settle the category and the spellings of a position. -/
def plan (name : Text) (type : TypeName) : Except Fault PlannedValue := do
  let category ← type.category
  let spellings ← Spellings.spell type Surface.all .none
  return ⟨name, type, category, spellings⟩

end PlannedValue

/-- The plan of a method call. -/
structure MethodPlan where
  names : Names
  /-- The name of the method. -/
  method : Text
  /-- The exported C symbol of the shim. -/
  symbol : Text
  /-- The Haskell name bound to the imported shim. -/
  importName : Text
  /-- The name under which the binary call finds the method. -/
  qualified : Text
  result : PlannedValue
  parameters : List PlannedValue
  /-- The aggregate types that stand in the way of the call, the result before the parameters. -/
  unsupported : List TypeName
  /-- They are those of the positions. -/
  unsupported_eq :
    unsupported =
      ((result :: parameters).filter fun value => !value.isSupported).map PlannedValue.type
  deriving DecidableEq, Repr

namespace MethodPlan

/-- Whether all positions of the call can be passed. -/
def isSupported (plan : MethodPlan) : Bool :=
  plan.unsupported.isEmpty

/-- Whether the method returns a value. -/
def hasResult (plan : MethodPlan) : Bool :=
  plan.result.category != .void

/-- The plan of a call without parameters. -/
def start (names : Names) (method : Text) (result : PlannedValue) : MethodPlan :=
  { names := names
    method := method
    symbol := names.callSymbol method
    importName := Names.importName method
    qualified := names.qualifiedMethod method
    result := result
    parameters := []
    unsupported := if result.isSupported then [] else [result.type]
    unsupported_eq := by cases supported : result.isSupported <;> simp [supported] }

/-- The plan with one more parameter, whose type is recorded if it is an aggregate. -/
def withParameter (plan : MethodPlan) (value : PlannedValue) : MethodPlan :=
  { plan with
    parameters := plan.parameters ++ [value]
    unsupported :=
      if value.isSupported then plan.unsupported else plan.unsupported ++ [value.type]
    unsupported_eq := by
      rw [← List.cons_append, List.filter_append, List.map_append, ← plan.unsupported_eq]
      cases supported : value.isSupported <;> simp [supported] }

/-- Settle the parameters that follow the `earlier` names. -/
def planParameters (plan : MethodPlan) : List Text → List Field → Except Fault MethodPlan
  | _, [] => .ok plan
  | earlier, parameter :: rest =>
    if parameter.name ∈ earlier then
      .error (.invalidSchema
        (plan.qualified ++ " has duplicate parameter " ++ parameter.name.quote))
    else
      let described := "parameter " ++ parameter.name ++ " of " ++ plan.qualified
      match PlannedValue.plan parameter.name parameter.type with
      | .error fault => .error (.within described fault)
      | .ok value =>
        if value.category = .void then
          .error (.invalidSchema (described ++ " cannot be void"))
        else
          (plan.withParameter value).planParameters (parameter.name :: earlier) rest

/-- Plan a method, or report the first position that rules it out: the result, and then the
parameters in order. -/
def ofMethod (names : Names) (method : Method) : Except Fault MethodPlan :=
  match PlannedValue.plan [] method.returns with
  | .error fault =>
    .error (.within ("return type of " ++ names.qualifiedMethod method.name) fault)
  | .ok result => (start names method.name result).planParameters [] method.parameters

end MethodPlan

/-- The plan of the accessor of an exception member. -/
structure GetterPlan where
  names : Names
  /-- The name of the member. -/
  member : Text
  /-- The name of the accessor, such as `getCode`. -/
  function : Text
  /-- The exported C symbol of the accessor. -/
  symbol : Text
  /-- The Haskell name bound to the imported accessor. -/
  importName : Text
  value : PlannedValue
  deriving DecidableEq, Repr

namespace GetterPlan

/-- Plan the accessor of a primitive member; members of other categories have none. -/
def ofMember (names : Names) (member : Field) : Except Fault GetterPlan :=
  let described := "member " ++ member.name ++ " of " ++ names.fullName
  match PlannedValue.plan member.name member.type with
  | .error fault => .error (.within described fault)
  | .ok value =>
    if value.category = .primitive then
      let function := Names.getterFunction member.name
      .ok
        { names := names
          member := member.name
          function := function
          symbol := names.callSymbol function
          importName := Names.importName function
          value := value }
    else
      .error (.within (described ++ " is " ++ value.category.name)
        (.unsupportedType member.type.text))

end GetterPlan

end UnoBindgen
