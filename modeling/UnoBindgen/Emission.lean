import UnoBindgen.Binding
import UnoBindgen.Log
import UnoBindgen.Native
import UnoBindgen.Registry

/-!
# Emission

Emission turns the description of an entity into its three texts.  The texts are composed as a
whole before the first of them is handed on, so an entity that fails leaves nothing behind, and
every text that is handed on ends in exactly one line feed.
-/

namespace UnoBindgen.Emission

/-- What all emissions of a run share: the naming options and the registry in which the base of a
singleton is looked up. -/
structure Context where
  options : NamingOptions
  registry : Registry
  deriving DecidableEq, Repr

/-- The texts of an interface: a shim for each method, its foreign import, and a type class whose
default methods wrap the imports. -/
def interfaceTexts (names : Names) (plans : List MethodPlan) : Texts where
  declaration :=
    Native.headerOpen names.headerGuard ++
    Native.interfaceHeaderIncludes.flatMap Native.includeSystem ++ "\n" ++
    plans.flatMap Native.methodDeclaration ++
    Native.headerClose names.headerGuard
  implementation :=
    Native.includeLocal names.ownHeader ++
    Native.includeLocal Native.supportHeader ++
    Native.includeSystem names.nativeHeader ++
    Native.interfaceSourceIncludes.flatMap Native.includeSystem ++ "\n" ++
    plans.flatMap Native.methodShim
  binding :=
    Binding.moduleHeader names.foreignModule Binding.interfaceImports ++
    plans.flatMap Binding.foreignImport ++
    Binding.classHeader names ++
    plans.flatMap Binding.classMethod

/-- The texts of an exception: an accessor for each primitive member. -/
def exceptionTexts (names : Names) (getters : List GetterPlan) : Texts where
  declaration :=
    Native.headerOpen names.headerGuard ++
    Native.includeSystem names.nativeHeader ++ "\n" ++
    getters.flatMap Native.getterDeclaration ++
    Native.headerClose names.headerGuard
  implementation :=
    Native.includeLocal names.ownHeader ++ "\n" ++
    getters.flatMap Native.getterShim
  binding :=
    Binding.moduleHeader names.foreignModule Binding.exceptionImports ++
    Binding.exceptionType names ++
    getters.flatMap Binding.getterImport ++
    getters.flatMap Binding.getterWrapper

/-- The texts of a singleton: a constructor typed as the base interface, and an instance of the
base's class. -/
def singletonTexts (names base : Names) (nativeContext : Text) : Texts where
  declaration :=
    Native.headerOpen names.headerGuard ++
    Native.constructorDeclaration names ++
    Native.headerClose names.headerGuard
  implementation :=
    Native.includeLocal names.ownHeader ++
    Native.includeLocal Native.supportHeader ++
    Native.includeSystem names.nativeHeader ++
    Native.includeSystem Native.referenceHeader ++ "\n" ++
    Native.constructorShim names base.qualified nativeContext
  binding :=
    Binding.moduleHeader names.foreignModule
      (Binding.singletonImports ++ [base.foreignModule]) ++
    Binding.singletonType names base.foreignType ++
    Binding.constructorWrapper names ++
    Binding.constructorImport names

/-- Compose the texts of an interface, or report its first method that cannot be planned. -/
def composeInterface (context : Context) (entity : Entity) : Except Fault Texts := do
  let names := Names.ofEntity context.options entity
  let plans ← (entity.methods?.getD []).mapM (MethodPlan.ofMethod names)
  return interfaceTexts names plans

/-- Plan the accessors of the primitive members and pass over the others; a member whose type is
unknown is reported. -/
def planGetters (names : Names) : List Field → Except Fault (List GetterPlan)
  | [] => .ok []
  | member :: rest =>
    match member.type.category with
    | .error fault => .error fault
    | .ok .primitive => do
      let getter ← GetterPlan.ofMember names member
      let getters ← planGetters names rest
      return getter :: getters
    | .ok _ => planGetters names rest

/-- Compose the texts of an exception. -/
def composeException (context : Context) (entity : Entity) : Except Fault Texts := do
  let names := Names.ofEntity context.options entity
  let getters ← planGetters names (entity.members?.getD [])
  return exceptionTexts names getters

/-- Compose the texts of an interface singleton.  Its base may be unknown to the registry, but a
registered base must be an interface. -/
def composeSingleton (context : Context) (entity : Entity) : Except Fault Texts := do
  let names := Names.ofEntity context.options entity
  let basePath ← ModulePath.parse (entity.base?.getD [])
  let texts :=
    singletonTexts names
      (Names.derive context.options basePath.parent basePath.lastName)
      context.options.nativeContext
  match context.registry.find? basePath.name with
  | none => return texts
  | some base =>
    if base.tag = .known .interface then
      return texts
    else
      throw (.invalidSchema
        ("base " ++ base.fullName ++ " of singleton " ++ names.fullName ++ " is a " ++
          base.tag.name ++ ", not an interface"))

/-- Compose the texts of an entity as they are before their ends are tidied. -/
def composeRaw (context : Context) (entity : Entity) : Except Fault Texts :=
  let inEntity (texts : Except Fault Texts) : Except Fault Texts :=
    texts.mapError fun fault => .within ("entity " ++ entity.fullName) fault
  match entity.tag with
  | .known .interface => inEntity (composeInterface context entity)
  | .known .exception => inEntity (composeException context entity)
  | .known .interfaceSingleton => inEntity (composeSingleton context entity)
  | .known .serviceSingleton =>
    .error (.hinted "only interface-based singletons can be bound"
      (.within ("service-based singleton " ++ entity.fullName) (.ofCondition .notImplemented)))
  | .other _ =>
    .error (.assertion
      ("entity " ++ entity.fullName ++ " has unhandled kind " ++ entity.tag.name))

/-- A text with exactly one line feed at its end. -/
def tidyEnd (text : Text) : Text :=
  text.dropFinalLineFeeds ++ "\n"

/-- Compose the texts of an entity whose description is consistent. -/
def compose (context : Context) (entity : Entity) : Except Fault Texts := do
  entity.check
  let texts ← composeRaw context entity
  return ⟨tidyEnd texts.declaration, tidyEnd texts.implementation, tidyEnd texts.binding⟩

/-! ## Handing the texts on -/

/-- A place that a text is handed to. -/
inductive Sink where
  | missing
  | accepting
  | failing (reason : Text)
  deriving DecidableEq, Repr

/-- Hand the texts of the remaining artifacts to their sinks, up to the first that fails. -/
def deliver (texts : Texts) (sinks : Artifact → Sink) :
    List Artifact → Texts → Texts × Option Fault
  | [], delivered => (delivered, none)
  | artifact :: rest, delivered =>
    match sinks artifact with
    | .failing reason =>
      (delivered,
        some (.within ("failed to write " ++ artifact.name ++ " artifact")
          (.external reason false)))
    | _ => deliver texts sinks rest (delivered.set (texts.get artifact) artifact)

/-- Emit an entity into three sinks: what reached them, and what went wrong.  No sink receives
anything unless the whole entity could be composed and all sinks are there. -/
def emitInto (context : Context) (entity : Entity) (sinks : Artifact → Sink) :
    Texts × Option Fault :=
  match compose context entity with
  | .error fault => (.none, some fault)
  | .ok texts =>
    let inEntity (fault : Fault) : Fault := .within ("entity " ++ entity.fullName) fault
    match Artifact.all.find? fun artifact => sinks artifact = .missing with
    | some artifact =>
      (.none, some (inEntity (.assertion ("no sink for " ++ artifact.name ++ " artifact"))))
    | none =>
      let (delivered, fault?) := deliver texts sinks Artifact.all .none
      (delivered, fault?.map inEntity)

/-! ## Log records of an emission -/

/-- The record about a method that only gets a placeholder. -/
def placeholderRecord? (names : Names) (plan : MethodPlan) : Option Log.Record :=
  plan.unsupported.head?.map fun type =>
    Log.plainRecord .debug "Method uses aggregate types, emitting placeholder"
      [("entity", .text names.fullName), ("method", .text plan.method), ("type", .text type.text)]

/-- The record about a member that gets no accessor. -/
def skippedRecord? (names : Names) (member : Field) : Option Log.Record :=
  match member.type.category with
  | .ok .primitive => none
  | .ok category =>
    some (Log.plainRecord .debug "Skipping exception member"
      [ ("entity", .text names.fullName), ("member", .text member.name),
        ("type", .text member.type.text), ("category", .text category.name) ])
  | .error _ => none

/-- The results up to the first failure. -/
def beforeFailure {α β : Type} (attempt : α → Except Fault β) : List α → List β
  | [] => []
  | item :: rest =>
    match attempt item with
    | .error _ => []
    | .ok result => result :: beforeFailure attempt rest

/-- The records of an emission, in the order of the work.  An emission that fails has the records
of the work done before. -/
def records (context : Context) (entity : Entity) : List Log.Record :=
  let names := Names.ofEntity context.options entity
  match entity.check with
  | .error _ => []
  | .ok _ =>
    let during :=
      match entity.tag with
      | .known .interface =>
        (beforeFailure (MethodPlan.ofMethod names) (entity.methods?.getD [])).filterMap
          (placeholderRecord? names)
      | .known .exception =>
        (beforeFailure (fun member => member.type.category.map fun _ => member)
          (entity.members?.getD [])).filterMap (skippedRecord? names)
      | _ => []
    let final :=
      match compose context entity with
      | .error _ => []
      | .ok _ =>
        [Log.plainRecord .debug "Emitted entity"
          [("entity", .text entity.fullName), ("kind", .text entity.tag.name)]]
    during ++ final

end UnoBindgen.Emission
