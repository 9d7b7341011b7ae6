import UnoBindgen.Entity
import UnoBindgen.Text.SlashPath

/-!
# Derived names

All generated files of an entity read their identifiers from one record, `Names`, which is
computed from the naming options and the path of the entity alone.  That is what keeps the
symbols of the declaration, the shim and the binding identical.
-/

namespace UnoBindgen

/-- The naming choices shared by all entities of a run. -/
structure NamingOptions where
  /-- The start of every exported C symbol. -/
  symbolPrefix : Text
  /-- What stands before the upper-case path in a header guard. -/
  guardPrefix : Text
  /-- What stands behind the upper-case path in a header guard. -/
  guardSuffix : Text
  headerExtension : Text
  sourceExtension : Text
  bindingExtension : Text
  /-- The C++ expression for the component context that singletons are fetched from. -/
  nativeContext : Text
  deriving DecidableEq, Repr

/-- The naming used when nothing is configured. -/
def NamingOptions.default : NamingOptions where
  symbolPrefix := "hsuno_"
  guardPrefix := "HSUNO_"
  guardSuffix := "_H"
  headerExtension := ".hpp"
  sourceExtension := ".cpp"
  bindingExtension := ".hs"
  nativeContext := "g_context"

/-- The extension of the native header that the type system itself supplies for a type. -/
def nativeHeaderExtension : Text := ".hpp"

/-- The three texts that are generated for an entity. -/
inductive Artifact where
  /-- The C++ header that declares the call shims. -/
  | declaration
  /-- The C++ source that defines the call shims. -/
  | implementation
  /-- The Haskell module that imports the call shims. -/
  | binding
  deriving DecidableEq, Repr

namespace Artifact

/-- The artifacts in the order in which they are written. -/
def all : List Artifact := [.declaration, .implementation, .binding]

/-- The name of an artifact. -/
def name : Artifact → Text
  | .declaration => "declaration"
  | .implementation => "implementation"
  | .binding => "binding"

end Artifact

/-- One text for each artifact. -/
structure Texts where
  declaration : Text
  implementation : Text
  binding : Text
  deriving DecidableEq, Repr

namespace Texts

/-- The text of an artifact. -/
def get (texts : Texts) : Artifact → Text
  | .declaration => texts.declaration
  | .implementation => texts.implementation
  | .binding => texts.binding

/-- Three empty texts. -/
def none : Texts := ⟨[], [], []⟩

/-- Replace the text of an artifact. -/
def set (texts : Texts) (text : Text) : Artifact → Texts
  | .declaration => { texts with declaration := text }
  | .implementation => { texts with implementation := text }
  | .binding => { texts with binding := text }

/-- Whether all three texts are empty. -/
def isEmpty (texts : Texts) : Bool :=
  texts.declaration.isEmpty && texts.implementation.isEmpty && texts.binding.isEmpty

end Texts

/-- The identifiers and file names derived for an entity. -/
structure Names where
  /-- The entity's own name, such as `Widget`. -/
  name : Text
  /-- The dotted name, such as `a.b.Widget`. -/
  fullName : Text
  /-- The qualified C++ type, such as `a::b::Widget`. -/
  qualified : Text
  /-- The header guard, such as `HSUNO_A_B_WIDGET_H`. -/
  headerGuard : Text
  /-- The native header of the type, such as `a/b/Widget.hpp`. -/
  nativeHeader : Text
  /-- The generated header, such as `Widget.hpp`. -/
  ownHeader : Text
  /-- The directory of the generated files below the output root, such as `A/B`. -/
  directory : Text
  /-- The start of the exported symbols, such as `hsuno_a_b_Widget`. -/
  symbolStem : Text
  /-- The Haskell module, such as `A.B.Widget`. -/
  foreignModule : Text
  /-- The Haskell type or class, such as `Widget`. -/
  foreignType : Text
  /-- The file names of the artifacts inside the directory. -/
  files : Texts
  deriving DecidableEq, Repr

namespace Names

/-- The names of the entity called `name` in a module. -/
def derive (options : NamingOptions) (module : ModulePath) (name : Text) : Names :=
  let full := module.child name
  { name := name
    fullName := full.name
    qualified := full.qualifiedNamespace
    headerGuard := options.guardPrefix ++ full.headerGuard ++ options.guardSuffix
    nativeHeader := full.slashPath ++ nativeHeaderExtension
    ownHeader := name ++ options.headerExtension
    directory := module.capitalizedSlashPath
    symbolStem :=
      if module.isRoot then
        options.symbolPrefix ++ name
      else
        options.symbolPrefix ++ module.flattened ++ "_" ++ name
    foreignModule := full.capitalizedName
    foreignType := name.capitalize
    files :=
      { declaration := name ++ options.headerExtension
        implementation := name ++ options.sourceExtension
        binding := name ++ options.bindingExtension } }

/-- The names of a described entity. -/
def ofEntity (options : NamingOptions) (entity : Entity) : Names :=
  derive options entity.module entity.name

/-- The exported C symbol of a function of the entity. -/
def callSymbol (names : Names) (function : Text) : Text :=
  names.symbolStem ++ "_" ++ function

/-- The name under which the binary call finds a method. -/
def qualifiedMethod (names : Names) (method : Text) : Text :=
  names.fullName ++ "::" ++ method

/-- The Haskell name bound to the imported shim of a function. -/
def importName (function : Text) : Text :=
  "c" ++ function

/-- The function part of a constructor symbol. -/
def constructorFunction : Text := "new"

/-- The exported C symbol of a singleton constructor. -/
def constructorSymbol (names : Names) : Text :=
  names.callSymbol constructorFunction

/-- The Haskell name bound to the imported constructor, such as `cTheWidget_new`. -/
def constructorImportName (names : Names) : Text :=
  "c" ++ names.name.capitalize ++ "_" ++ constructorFunction

/-- The Haskell wrapper of the constructor, such as `theWidgetNew`. -/
def constructorWrapperName (names : Names) : Text :=
  names.name.uncapitalize ++ constructorFunction.capitalize

/-- The function part of the symbol that reads an exception member, such as `getCode`. -/
def getterFunction (member : Text) : Text :=
  "get" ++ member.capitalize

/-- The C++ type of a handle on an interface. -/
def referenceType (qualified : Text) : Text :=
  "com::sun::star::uno::Reference< " ++ qualified ++ " >"

/-- The path of a file in the entity's directory, relative to the output root. -/
def filePath (names : Names) (file : Text) : Text :=
  Text.SlashPath.join [names.directory, file]

/-- The path of an artifact, relative to the output root. -/
def artifactPath (names : Names) (artifact : Artifact) : Text :=
  names.filePath (names.files.get artifact)

end Names

end UnoBindgen
