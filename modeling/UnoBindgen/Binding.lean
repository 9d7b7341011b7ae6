import UnoBindgen.FreshName
import UnoBindgen.Plan

/-!
# The Haskell side

Fragments of the generated Haskell module: its header, the foreign imports of the shims, the
type class of an interface with its wrapper methods, and the handle types of exceptions and
singletons.

A wrapper method binds one name for each parameter, and one more for the marshaled form of each
string.  `bindParameters` chooses them so that no name hides another, a local of the wrapper, the
method itself or its import.
-/

namespace UnoBindgen.Binding

/-- The imports of an interface module; an empty one separates groups. -/
def interfaceImports : List Text :=
  [ "SAL.Types", "UNO.Binary", "UNO.Service", "UNO.OUString", "", "Control.Monad (when)",
    "Data.Text (Text)", "Foreign" ]

/-- The imports of an exception module. -/
def exceptionImports : List Text :=
  ["Foreign"]

/-- The imports of a singleton module, before that of its base. -/
def singletonImports : List Text :=
  ["UNO.Binary", "UNO.Service", "", "Foreign"]

/-- The line of an import.  An empty import is an empty line. -/
def importLine (imported : Text) : Text :=
  if imported.isEmpty then "\n" else "import " ++ imported ++ "\n"

/-- The module line and the imports. -/
def moduleHeader (module : Text) (imports : List Text) : Text :=
  "module " ++ module ++ " where\n\n" ++ imports.flatMap importLine ++ "\n"

/-- The names that a wrapper binds or calls itself. -/
def wrapperLocals : List Text :=
  Text.words
    [ "a", "iface", "exceptionPtr", "aException", "result", "methodResult", "ptr", "with",
    "withOUString", "getInterface", "nullPtr", "peek", "when", "error", "return",
    "ouStringToText", "deleteOUString" ]

/-- The reserved words of Haskell. -/
def reservedWords : List Text :=
  Text.words
    [ "case", "class", "data", "default", "deriving", "do", "else", "foreign", "if", "import",
    "in", "infix", "infixl", "infixr", "instance", "let", "module", "newtype", "of", "then",
    "type", "where" ]

/-- A name as a value identifier: the first letter small, and a prime behind a name that is
reserved or bound by the wrappers. -/
def identifier (name : Text) : Text :=
  let small := name.uncapitalize
  if wrapperLocals.contains small || reservedWords.contains small then small ++ "'" else small

/-- The name of the marshaled form of a string argument, before it is made fresh. -/
def marshaledIdentifier (name : Text) : Text :=
  "hs" ++ ((identifier name).dropFinal "'").capitalize

/-- The type of an action with a result; a compound type is put in parentheses. -/
def actionType (result : Text) : Text :=
  if result.any (· == ' ') then "IO (" ++ result ++ ")" else "IO " ++ result

/-- A function type. -/
def arrows (parts : List Text) : Text :=
  Text.join " -> " parts

/-- The comment line about an aggregate type of a call. -/
def unsupportedLine (plan : MethodPlan) (typeName : Text) : Text :=
  "-- hsuno: unsupported: " ++ plan.qualified ++ " uses aggregate type " ++ typeName ++ "\n"

/-- One comment line for each aggregate type of the call, and then an empty line. -/
def placeholder (plan : MethodPlan) : Text :=
  (Text.distinct (plan.unsupported.map TypeName.text)).flatMap (unsupportedLine plan) ++ "\n"

/-- A foreign import with its type on the following line. -/
def importDeclaration (symbol importName type : Text) : Text :=
  "foreign import ccall \"" ++ symbol ++ "\" " ++ importName ++ "\n    :: " ++ type ++ "\n\n"

/-- The foreign import of a method shim, or the placeholder of a method that cannot be called. -/
def foreignImport (plan : MethodPlan) : Text :=
  if plan.isSupported then
    importDeclaration plan.symbol plan.importName
      (arrows
        (Text.words ["Ptr UnoInterface", "Ptr (Ptr Any)"] ++
          plan.parameters.map (fun value => value.spellings.foreign) ++
          [actionType plan.result.spellings.foreign]))
  else
    placeholder plan

/-- The head of the type class of an interface. -/
def classHeader (names : Names) : Text :=
  "class Service a => " ++ names.foreignType ++ " a where\n"

/-- The type of a position in the signature of a wrapper; an aggregate is opaque. -/
def wrapperSpelling (value : PlannedValue) : Text :=
  if value.isSupported then value.spellings.wrapper else "Ptr ()"

/-- A parameter with the names that a wrapper binds for it. -/
structure BoundParameter where
  value : PlannedValue
  argument : Text
  marshaled? : Option Text
  deriving DecidableEq, Repr

/-- The names that no parameter of a wrapper may have. -/
def avoidedNames (plan : MethodPlan) : List Text :=
  identifier plan.method :: plan.importName :: (wrapperLocals ++ reservedWords)

/-- Choose the marshaled names of the string parameters. -/
def marshaledNames (avoid : List Text) : List PlannedValue → List (Option Text)
  | [] => []
  | value :: rest =>
    if value.category = .string then
      let chosen := FreshName.choose '\'' avoid (marshaledIdentifier value.name)
      some chosen :: marshaledNames (chosen :: avoid) rest
    else
      none :: marshaledNames avoid rest

/-- Name every parameter, and then the marshaled form of every string, so that the latter give
way on a clash. -/
def bindParameters (plan : MethodPlan) : List BoundParameter :=
  let avoid := avoidedNames plan
  let arguments :=
    FreshName.chooseAll '\'' avoid
      (plan.parameters.map fun value => value.name.uncapitalize)
  let marshaled := marshaledNames (arguments ++ avoid) plan.parameters
  List.zipWith (fun value names => ⟨value, names.1, names.2⟩)
    plan.parameters (arguments.zip marshaled)

/-- The name by which the foreign call receives a parameter. -/
def BoundParameter.passed (parameter : BoundParameter) : Text :=
  parameter.marshaled?.getD parameter.argument

/-- The lines that marshal the strings among the parameters, each one level deeper than the last,
and the indentation of what follows them. -/
def marshalLines (indentation : Text) : List BoundParameter → Text × Text
  | [] => ([], indentation)
  | parameter :: rest =>
    match parameter.marshaled? with
    | none => marshalLines indentation rest
    | some marshaled =>
      let (lines, deepest) := marshalLines (indentation ++ "    ") rest
      (indentation ++ "withOUString " ++ parameter.argument ++ " $ \\" ++ marshaled ++ " -> do\n" ++
        lines, deepest)

/-- The lines that turn the raw result into the result of the wrapper. -/
def resultLines (indentation : Text) : Category → Text
  | .string =>
    indentation ++ "methodResult <- ouStringToText result\n" ++
    indentation ++ "deleteOUString result\n" ++
    indentation ++ "return methodResult\n"
  | .primitive => indentation ++ "return result\n"
  | _ => indentation ++ "return ()\n"

/-- The body of a wrapper: get the interface, marshal the strings, call the shim with a fresh
exception slot, and turn the result back. -/
def wrapperBody (plan : MethodPlan) : Text :=
  let bound := bindParameters plan
  let outer : Text := "        "
  let (marshalling, middle) := marshalLines outer bound
  let inner := middle ++ "    "
  let call :=
    Text.join " "
      (plan.importName :: "iface" :: "exceptionPtr" :: bound.map BoundParameter.passed)
  outer ++ "let iface = getInterface a\n" ++
  marshalling ++
  middle ++ "with nullPtr $ \\exceptionPtr -> do\n" ++
  inner ++ (if plan.hasResult then "result <- " else "") ++ call ++ "\n" ++
  inner ++ "aException <- peek exceptionPtr\n" ++
  inner ++ "when (aException /= nullPtr) (error \"exceptions not yet implemented\")\n" ++
  resultLines inner plan.result.category

/-- A class method: its signature and its default body.  A method that cannot be called fails
when it is used. -/
def classMethod (plan : MethodPlan) : Text :=
  let name := identifier plan.method
  "    " ++ name ++ " :: " ++
    arrows (Text.words ["a"] ++ plan.parameters.map wrapperSpelling ++
      [actionType (wrapperSpelling plan.result)]) ++ "\n" ++
  if plan.isSupported then
    "    " ++ Text.join " "
      (name :: "a" :: (bindParameters plan).map BoundParameter.argument) ++ " = do\n" ++
    wrapperBody plan ++ "\n"
  else
    "    " ++ name ++ (List.replicate (plan.parameters.length + 1) (" _" : Text)).flatten ++
      " = error \"" ++ plan.qualified ++ ": aggregate types are not supported\"\n\n"

/-- The phantom type that the pointer of an exception points to. -/
def objectType (names : Names) : Text :=
  names.foreignType ++ "Obj"

/-- The opaque representation of an exception. -/
def exceptionType (names : Names) : Text :=
  "data " ++ objectType names ++ "\n\nnewtype " ++ names.foreignType ++ " = " ++
    names.foreignType ++ " (Ptr " ++ objectType names ++ ")\n\n"

/-- The foreign import of the accessor of an exception member. -/
def getterImport (plan : GetterPlan) : Text :=
  importDeclaration plan.symbol plan.importName
    (arrows ["Ptr " ++ objectType plan.names, actionType plan.value.spellings.foreign])

/-- The accessor of an exception member on the exception type. -/
def getterWrapper (plan : GetterPlan) : Text :=
  let name := identifier plan.function
  name ++ " :: " ++
    arrows [plan.names.foreignType, actionType plan.value.spellings.wrapper] ++ "\n" ++
  name ++ " (" ++ plan.names.foreignType ++ " ptr) = " ++ plan.importName ++ " ptr\n\n"

/-- The handle type of a singleton, with its interface pointer and as an instance of the class of
its base, whose default methods then apply. -/
def singletonType (names : Names) (baseClass : Text) : Text :=
  let handle := names.foreignType
  "data " ++ handle ++ " = " ++ handle ++ " (Ptr UnoInterface)\n\n" ++
  "instance Service " ++ handle ++ " where\n" ++
  "    getInterface (" ++ handle ++ " ptr) = ptr\n\n" ++
  "instance " ++ baseClass ++ " " ++ handle ++ " where\n\n"

/-- The action that obtains a singleton. -/
def constructorWrapper (names : Names) : Text :=
  let function := names.constructorWrapperName
  function ++ " :: IO " ++ names.foreignType ++ "\n" ++
  function ++ " = " ++ names.foreignType ++ " <$> " ++ names.constructorImportName ++ "\n\n"

/-- The foreign import of a singleton constructor. -/
def constructorImport (names : Names) : Text :=
  importDeclaration names.constructorSymbol names.constructorImportName "IO (Ptr UnoInterface)"

end UnoBindgen.Binding
