import UnoBindgen.FreshName
import UnoBindgen.Plan

/-!
# The C++ side

Fragments of the generated header and source: guards, includes, and the `extern "C"` shims that
hand a call over to the binary interface.  A shim recovers the interface from its opaque handle,
maps it into the binary environment, fills the array of argument addresses and makes the call.
-/

namespace UnoBindgen.Native

/-- Lines that open a guarded header. -/
def headerOpen (guard : Text) : Text :=
  "#ifndef " ++ guard ++ "\n#define " ++ guard ++ "\n\n"

/-- The line that closes a guarded header. -/
def headerClose (guard : Text) : Text :=
  "#endif // " ++ guard ++ "\n"

/-- Include a header that lies next to the generated files. -/
def includeLocal (path : Text) : Text :=
  "#include \"" ++ path ++ "\"\n"

/-- Include a header of the development kit. -/
def includeSystem (path : Text) : Text :=
  "#include <" ++ path ++ ">\n"

/-- The header that declares the binary call and the environment mapping. -/
def supportHeader : Text := "UNO/Binary.hxx"

/-- The header of interface references. -/
def referenceHeader : Text := "com/sun/star/uno/Reference.hxx"

/-- The headers that every interface declaration needs. -/
def interfaceHeaderIncludes : List Text :=
  ["rtl/ustring.hxx", "uno/any2.hxx", "uno/mapping.hxx"]

/-- The headers that every interface shim needs. -/
def interfaceSourceIncludes : List Text :=
  [referenceHeader, "cppu/unotype.hxx"]

/-- The names that a shim binds itself. -/
def shimLocals : List Text :=
  Text.words
    ["rIface", "exception", "ref", "iface", "result", "args"]

/-- The keywords of C++. -/
def keywords : List Text :=
  Text.words
    [ "alignas", "alignof", "asm", "auto", "bool", "break", "case", "catch", "char", "char8_t",
    "char16_t", "char32_t", "class", "concept", "const", "consteval", "constexpr", "constinit",
    "const_cast", "continue", "co_await", "co_return", "co_yield", "decltype", "default",
    "delete", "do", "double", "dynamic_cast", "else", "enum", "explicit", "export", "extern",
    "false", "float", "for", "friend", "goto", "if", "inline", "int", "long", "mutable",
    "namespace", "new", "noexcept", "nullptr", "operator", "private", "protected", "public",
    "register", "reinterpret_cast", "requires", "return", "short", "signed", "sizeof", "static",
    "static_assert", "static_cast", "struct", "switch", "template", "this", "thread_local",
    "throw", "true", "try", "typedef", "typeid", "typename", "union", "unsigned", "using",
    "virtual", "void", "volatile", "wchar_t", "while" ]

/-- The operators of C++ that are spelled like names, and the names with a meaning of their own
in declarations. -/
def operatorNames : List Text :=
  Text.words
    [ "and", "and_eq", "bitand", "bitor", "compl", "not", "not_eq", "or", "or_eq", "xor",
    "xor_eq", "final", "override" ]

/-- The names that the generated files use without qualification. -/
def usedNames : List Text :=
  Text.words
    [ "makeBinaryUnoCall", "g_cpp2uno", "cppu", "rtl", "uno_Any", "uno_Interface", "rtl_uString",
    "sal_Bool", "sal_Int8", "sal_Int16", "sal_Int32", "sal_Int64", "sal_uInt16", "sal_uInt32",
    "sal_uInt64", "sal_Unicode" ]

/-- The names that no shim parameter may have. -/
def reservedNames : List Text :=
  shimLocals ++ keywords ++ operatorNames ++ usedNames

/-- A name that can be used for a shim parameter: a reserved name gets an underscore. -/
def identifier (name : Text) : Text :=
  if reservedNames.contains name then name ++ "_" else name

/-- The names of the shim parameters.  Underscores are added until a name is neither reserved nor
the name of an earlier parameter. -/
def parameterNames (plan : MethodPlan) : List Text :=
  FreshName.chooseAll '_' reservedNames (plan.parameters.map PlannedValue.name)

/-- The signature of an exported function. -/
def externC (result symbol : Text) (parameters : List Text) : Text :=
  "extern \"C\"\n" ++ result ++ " " ++ symbol ++ "(" ++ Text.join ", " parameters ++ ")"

/-- The comment line about an aggregate type of a call. -/
def unsupportedLine (plan : MethodPlan) (typeName : Text) : Text :=
  "// hsuno: unsupported: " ++ plan.qualified ++ " uses aggregate type " ++ typeName ++ "\n"

/-- One comment line for each aggregate type of the call, and then an empty line. -/
def placeholder (plan : MethodPlan) : Text :=
  (Text.distinct (plan.unsupported.map TypeName.text)).flatMap (unsupportedLine plan) ++ "\n"

/-- The signature of a method shim. -/
def methodSignature (plan : MethodPlan) : Text :=
  externC plan.result.spellings.declaration plan.symbol
    ("void * rIface" :: "uno_Any ** exception" ::
      List.zipWith (fun value name => value.spellings.declaration ++ " " ++ name)
        plan.parameters (parameterNames plan))

/-- The declaration of a method shim, or the placeholder of a method that cannot be called. -/
def methodDeclaration (plan : MethodPlan) : Text :=
  if plan.isSupported then methodSignature plan ++ ";\n\n" else placeholder plan

/-- The address that the binary call reads an argument from. -/
def argumentAddress (value : PlannedValue) (name : Text) : Text :=
  if value.category = .string then
    "const_cast< rtl_uString ** >(&" ++ name ++ "->pData)"
  else
    "&" ++ name

/-- The lines that fill the argument array, from a given index on. -/
def argumentLines : Nat → List PlannedValue → List Text → Text
  | index, value :: values, name :: names =>
    "    args[" ++ Text.ofNat index ++ "] = " ++ argumentAddress value name ++ ";\n" ++
      argumentLines (index + 1) values names
  | _, _, _ => []

/-- The declaration of the argument array and the lines that fill it. -/
def argumentArray (plan : MethodPlan) : Text :=
  if plan.parameters.isEmpty then
    "    void ** args = 0;\n"
  else
    "    void * args[" ++ Text.ofNat plan.parameters.length ++ "];\n" ++
      argumentLines 0 plan.parameters (parameterNames plan)

/-- The statement that returns the result of the call. -/
def returnStatement (plan : MethodPlan) : Text :=
  match plan.result.category with
  | .string => "\n    return new rtl::OUString(result, SAL_NO_ACQUIRE);\n"
  | .primitive => "\n    return result;\n"
  | _ => []

/-- The definition of a method shim, or the placeholder of a method that cannot be called. -/
def methodShim (plan : MethodPlan) : Text :=
  if plan.isSupported then
    let reference := Names.referenceType plan.names.qualified
    methodSignature plan ++ "\n\x7b\n" ++
    "    " ++ reference ++ " * ref = static_cast< " ++ reference ++ " * >(rIface);\n" ++
    "    uno_Interface * iface = static_cast< uno_Interface * >(\n" ++
    "        g_cpp2uno.mapInterface(ref->get(), cppu::UnoType< " ++ plan.names.qualified ++
      " >::get()));\n\n" ++
    (if plan.hasResult then
      "    " ++ plan.result.spellings.marshal ++ " result = 0;\n"
    else
      []) ++
    argumentArray plan ++
    "\n    makeBinaryUnoCall(iface, \"" ++ plan.qualified ++ "\", " ++
      (if plan.hasResult then "&result" else "0") ++ ", args, exception);\n" ++
    "    iface->release(iface);\n" ++
    returnStatement plan ++
    "\x7d\n\n"
  else
    placeholder plan

/-- The signature of the accessor of an exception member. -/
def getterSignature (plan : GetterPlan) : Text :=
  externC plan.value.spellings.declaration plan.symbol [plan.names.qualified ++ " * e"]

/-- The declaration of the accessor of an exception member. -/
def getterDeclaration (plan : GetterPlan) : Text :=
  getterSignature plan ++ ";\n\n"

/-- The definition of the accessor of an exception member. -/
def getterShim (plan : GetterPlan) : Text :=
  getterSignature plan ++ "\n\x7b\n    return e->" ++ plan.member ++ ";\n\x7d\n\n"

/-- The signature of a singleton constructor. -/
def constructorSignature (names : Names) : Text :=
  externC "void *" names.constructorSymbol []

/-- The declaration of a singleton constructor. -/
def constructorDeclaration (names : Names) : Text :=
  constructorSignature names ++ ";\n\n"

/-- The definition of a singleton constructor: it fetches the singleton from the component
context and hands out a reference typed as the base interface. -/
def constructorShim (names : Names) (baseQualified nativeContext : Text) : Text :=
  constructorSignature names ++ "\n\x7b\n    return new " ++ Names.referenceType baseQualified ++
    "(" ++ names.qualified ++ "::get(" ++ nativeContext ++ "));\n\x7d\n\n"

end UnoBindgen.Native
