import UnoBindgen.ModulePath
import UnoBindgen.TypeName

/-!
# Entities

An entity is one named element of the type system for which bindings are generated.  A
description may be wrong in many ways: its tag may be no kind at all, and the parts that belong
to other kinds may be present.  `Entity.check` accepts exactly the descriptions that are
consistent, and reports the first inconsistency of any other.
-/

namespace UnoBindgen

/-- The kinds of entities. -/
inductive Kind where
  | interface
  | exception
  | interfaceSingleton
  | serviceSingleton
  deriving DecidableEq, Repr

namespace Kind

/-- The kinds in the order of their codes, which start at one. -/
def all : List Kind := [.interface, .exception, .interfaceSingleton, .serviceSingleton]

/-- How a schema spells the kind. -/
def name : Kind → Text
  | .interface => "interface"
  | .exception => "exception"
  | .interfaceSingleton => "interface-singleton"
  | .serviceSingleton => "service-singleton"

/-- The code of the kind. -/
def code : Kind → Int
  | .interface => 1
  | .exception => 2
  | .interfaceSingleton => 3
  | .serviceSingleton => 4

/-- The kind that a schema spells in this way. -/
def parse (text : Text) : Except Fault Kind :=
  match all.find? fun kind => kind.name == text with
  | some kind => .ok kind
  | none =>
    .error (.invalidSchema
      ("unknown entity kind " ++ text.quote ++
        " (supported: interface, exception, interface-singleton, service-singleton)"))

end Kind

/-- What a description says about its kind: one of the kinds, or a code that is none. -/
inductive KindTag where
  | known (kind : Kind)
  | other (code : Int)
  deriving DecidableEq, Repr

namespace KindTag

/-- The tag with a given code. -/
def ofCode (code : Int) : KindTag :=
  match Kind.all.find? fun kind => kind.code == code with
  | some kind => .known kind
  | none => .other code

/-- The spelling of a tag. -/
def name : KindTag → Text
  | .known kind => kind.name
  | .other _ => "unknown"

end KindTag

/-- A parameter of a method, or a member of an exception: a name with a type. -/
structure Field where
  name : Text
  type : TypeName
  deriving DecidableEq, Repr

/-- A method of an interface, with its parameters in order. -/
structure Method where
  name : Text
  returns : TypeName
  parameters : List Field
  deriving DecidableEq, Repr

/-- The description of an entity.  The methods of an interface, the members of an exception and
the base of a singleton are separate parts, any of which may be missing. -/
structure Entity where
  name : Text
  module : ModulePath
  tag : KindTag
  methods? : Option (List Method)
  members? : Option (List Field)
  base? : Option Text
  deriving DecidableEq, Repr

namespace Entity

/-- The path of the entity: its module and then its own name. -/
def path (entity : Entity) : ModulePath :=
  entity.module.child entity.name

/-- The dotted name of the entity. -/
def fullName (entity : Entity) : Text :=
  entity.path.name

/-- The first fault in a list of names: one that is missing, is no identifier, or repeats one of
the `earlier` names.  The three wordings are given by the caller. -/
def firstNameFault
    (missing : Text)
    (malformed : Text → Text)
    (repeated : Text → Text) :
    List Text → List Text → Option Fault
  | _, [] => none
  | earlier, name :: rest =>
    if name = [] then
      some (.invalidSchema missing)
    else if !isIdentifier name then
      some (.invalidSchema (malformed name))
    else if name ∈ earlier then
      some (.invalidSchema (repeated name))
    else
      firstNameFault missing malformed repeated (name :: earlier) rest

/-- The first fault among the parameter names of a method. -/
def parameterFault? (entity : Entity) (method : Method) : Option Fault :=
  let called := entity.fullName ++ "::" ++ method.name
  firstNameFault
    ("method " ++ called ++ " has a parameter without a name")
    (fun name => "method " ++ called ++ ": parameter name " ++ name.quote ++
      " is not an identifier")
    (fun name => "method " ++ called ++ " has duplicate parameter " ++ name.quote)
    [] (method.parameters.map Field.name)

/-- The first fault among the methods that follow the `earlier` names.  The parameters of a
method are looked at before the next method. -/
def methodFault? (entity : Entity) (earlier : List Text) : List Method → Option Fault
  | [] => none
  | method :: rest =>
    let interface := "interface " ++ entity.fullName
    match
      firstNameFault
        (interface ++ " has a method without a name")
        (fun name => interface ++ ": method name " ++ name.quote ++ " is not an identifier")
        (fun name => interface ++ " declares method " ++ name ++ " more than once")
        earlier [method.name] with
    | some fault => some fault
    | none =>
      match entity.parameterFault? method with
      | some fault => some fault
      | none => methodFault? entity (method.name :: earlier) rest

/-- The first fault among the members of an exception. -/
def memberFault? (entity : Entity) (members : List Field) : Option Fault :=
  let exception := "exception " ++ entity.fullName
  firstNameFault
    (exception ++ " has a member without a name")
    (fun name => exception ++ ": member name " ++ name.quote ++ " is not an identifier")
    (fun name => exception ++ " declares member " ++ name ++ " more than once")
    [] (members.map Field.name)

/-- The fault of the base of a singleton. -/
def baseFault? (entity : Entity) (base : Text) : Option Fault :=
  let singleton := "singleton " ++ entity.fullName
  if base = [] then
    some (.invalidSchema (singleton ++ " has no base type"))
  else if !isQualifiedIdentifier base then
    some (.invalidSchema (singleton ++ ": base " ++ base.quote ++ " is not a dotted type name"))
  else
    match ModulePath.parse base with
    | .error _ => none
    | .ok path =>
      if path.equals entity.path then
        some (.invalidSchema (singleton ++ " names itself as its base"))
      else
        none

/-- The fault of the part that belongs to the kind. -/
def partFault? (entity : Entity) : Kind → Option Fault
  | .interface =>
    match entity.methods? with
    | none =>
      some (.invalidSchema ("interface " ++ entity.fullName ++ " has no interface payload"))
    | some methods => entity.methodFault? [] methods
  | .exception =>
    match entity.members? with
    | none =>
      some (.invalidSchema ("exception " ++ entity.fullName ++ " has no exception payload"))
    | some members => entity.memberFault? members
  | .interfaceSingleton => entity.baseFault? (entity.base?.getD [])
  | .serviceSingleton => entity.baseFault? (entity.base?.getD [])

/-- The first inconsistency of a description: its name, its module, and then what belongs to its
kind. -/
def fault? (entity : Entity) : Option Fault :=
  if entity.name = [] then
    some (.invalidSchema ("entity in module " ++ entity.module.name.quote ++ " has no name"))
  else if !isIdentifier entity.name then
    some (.invalidSchema
      ("entity name " ++ entity.name.quote ++ " in module " ++ entity.module.name.quote ++
        " is not an identifier"))
  else
    match entity.module.segments.find? fun segment => !isIdentifier segment with
    | some segment =>
      some (.invalidSchema
        ("module of " ++ entity.name ++ ": segment " ++ segment.quote ++
          " is not an identifier"))
    | none =>
      match entity.tag with
      | .known kind => entity.partFault? kind
      | .other code =>
        some (.invalidSchema
          ("entity " ++ entity.fullName ++ " has unknown kind " ++ Text.ofInt code))

/-- Accept a consistent description, and report the first inconsistency of any other. -/
def check (entity : Entity) : Except Fault Unit :=
  match entity.fault? with
  | some fault => .error fault
  | none => .ok ()

end Entity

end UnoBindgen
