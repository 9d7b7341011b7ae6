import UnoBindgen.Emission
import UnoBindgen.Proofs.Emission.BindingLines
import UnoBindgen.Proofs.Emission.Delivery
import UnoBindgen.Proofs.Emission.NativeLines

/-!
# The foreign interface of the three texts

The header, the source and the Haskell module of an interface are rendered one by one, but they
read the same plans.  The main theorem recovers the foreign interface from the lines of the
texts: both C++ texts announce the same signatures in the same order, the Haskell text imports the
same symbols in that order, and all of them are spelled from the types of the methods that can be
called.  A comment about a method that cannot be called is never mistaken for one of these lines.
-/

namespace UnoBindgen.Emission

open Text

/-! ## The interface that the methods ask for -/

/-- The names of the parameters of a shim. -/
def shimParameterNames (method : Method) : List Text :=
  FreshName.chooseAll '_' Native.reservedNames (method.parameters.map Field.name)

/-- The signature of the shim of a method, spelled from the types of the method. -/
def shimSignature (names : Names) (method : Method) : Except Fault Text := do
  let result ← method.returns.spelling (some .declaration)
  let types ← method.parameters.mapM fun parameter =>
    parameter.type.spelling (some .declaration)
  return Native.signature result (names.callSymbol method.name) types (shimParameterNames method)

/-- The import of the shim of a method: the line with the symbol, and the line with the type. -/
def shimImport (names : Names) (method : Method) : Except Fault (Text × Text) := do
  let types ← method.parameters.mapM fun parameter => parameter.type.spelling (some .foreign)
  let result ← method.returns.spelling (some .foreign)
  return (Binding.importHead (names.callSymbol method.name) (Names.importName method.name),
    Binding.importTyping types result)

/-- The three texts present these signatures and imports, and nothing else, as the foreign
interface of the methods. -/
structure Presents
    (names : Names)
    (methods : List Method)
    (texts : Texts)
    (signatures : List Text)
    (imports : List (Text × Text)) : Prop where
  /-- There is one signature for each method, in order. -/
  spelledSignatures : methods.mapM (shimSignature names) = .ok signatures
  /-- There is one import for each method, in order. -/
  spelledImports : methods.mapM (shimImport names) = .ok imports
  /-- Every parameter has its name in the signature. -/
  parametersNamed :
    ∀ method ∈ methods, (shimParameterNames method).length = method.parameters.length
  signatureCount : signatures.length = methods.length
  importCount : imports.length = methods.length
  /-- The lines behind `extern "C"` in the header are the signatures, each with a semicolon. -/
  declared :
    withNext Native.isExternLine texts.declaration.lines =
      signatures.map fun signature => (Native.externLine, some (signature ++ [';']))
  /-- The lines behind `extern "C"` in the source are the signatures. -/
  implemented :
    withNext Native.isExternLine texts.implementation.lines =
      signatures.map fun signature => (Native.externLine, some signature)
  /-- The importing lines of the Haskell text and the lines behind them are the imports. -/
  imported :
    withNext Binding.isImportLine texts.binding.lines =
      imports.map fun (head, typing) => (head, some typing)

/-! ## What the composed texts show -/

theorem shows_declaration
    {names : Names}
    (namesInline : names.IsInline)
    {plans : List MethodPlan}
    (plansInline : ∀ plan ∈ plans, plan.IsInline) :
    Shows Native.isExternLine (interfaceTexts names plans).declaration
      (plans.flatMap (Native.signatureEntries [';'])) := by
  have opening := Native.shows_headerOpen namesInline.headerGuard
  have includes :
      Shows Native.isExternLine
        (Native.interfaceHeaderIncludes.flatMap Native.includeSystem ++ "\n") [] := by
    apply Shows.unmarked Native.quote_mem_of_isExternLine
    · decide
    · decide
  have shims :=
    Shows.flatMap fun plan member => Native.shows_methodDeclaration (plansInline plan member)
  have closing := Native.shows_headerClose namesInline.headerGuard
  have whole := ((opening.append includes).append shims).append closing
  simpa [interfaceTexts] using whole

theorem shows_implementation
    {names : Names}
    (namesInline : names.IsInline)
    {plans : List MethodPlan}
    (plansInline : ∀ plan ∈ plans, plan.IsInline) :
    Shows Native.isExternLine (interfaceTexts names plans).implementation
      (plans.flatMap (Native.signatureEntries [])) := by
  have ownHeader := Native.shows_includeLocal namesInline.ownHeader
  have supportHeader :
      Shows Native.isExternLine (Native.includeLocal Native.supportHeader) [] :=
    Native.shows_includeLocal (by decide)
  have nativeHeader :=
    Native.shows_includeSystem namesInline.nativeHeader.lineFeed_not_mem
  have includes :
      Shows Native.isExternLine
        (Native.interfaceSourceIncludes.flatMap Native.includeSystem ++ "\n") [] := by
    apply Shows.unmarked Native.quote_mem_of_isExternLine
    · decide
    · decide
  have shims :=
    Shows.flatMap fun plan member => Native.shows_methodShim (plansInline plan member)
  have whole :=
    (((ownHeader.append supportHeader).append nativeHeader).append includes).append shims
  simpa [interfaceTexts] using whole

theorem shows_binding
    {names : Names}
    (namesInline : names.IsInline)
    {plans : List MethodPlan}
    (plansInline : ∀ plan ∈ plans, plan.IsInline) :
    Shows Binding.isImportLine (interfaceTexts names plans).binding
      (plans.flatMap Binding.importEntries) := by
  have header := Binding.shows_moduleHeader namesInline.foreignModule
  have imports :=
    Shows.flatMap fun plan member => Binding.shows_foreignImport (plansInline plan member)
  have classHeader := Binding.shows_classHeader namesInline
  have methods :=
    Shows.flatMap_nothing fun plan member => Binding.shows_classMethod (plansInline plan member)
  have whole := ((header.append imports).append classHeader).append methods
  simpa [interfaceTexts] using whole

/-- Entries for the plans that can be called, one for each. -/
theorem flatMap_ite_eq_map_filter
    {Entry : Type}
    (plans : List MethodPlan)
    (entry : MethodPlan → Entry) :
    (plans.flatMap fun plan => if plan.isSupported then [entry plan] else []) =
      (plans.filter MethodPlan.isSupported).map entry := by
  induction plans with
  | nil => rfl
  | cons plan rest induction =>
      rw [List.flatMap_cons, induction]
      by_cases supported : plan.isSupported = true
      · rw [if_pos supported, List.filter_cons_of_pos supported]
        rfl
      · rw [if_neg supported, List.filter_cons_of_neg supported]
        rfl

/-! ## From plans back to methods -/

theorem shimSignature_eq_ok
    {names : Names}
    {method : Method}
    {plan : MethodPlan}
    (settles : plan.Settles names method)
    (supported : plan.isSupported = true) :
    shimSignature names method = .ok (Native.signatureLine plan) := by
  rw [MethodPlan.isSupported_eq_all, List.all_cons, Bool.and_eq_true] at supported
  rw [shimSignature, settles.result.spelling_eq_ok supported.1,
    MethodPlan.mapM_spelling_eq_ok settles.parameters supported.2,
    shimParameterNames, ← MethodPlan.map_name_eq settles.parameters, ← settles.symbol]
  rfl

theorem shimImport_eq_ok
    {names : Names}
    {method : Method}
    {plan : MethodPlan}
    (settles : plan.Settles names method)
    (supported : plan.isSupported = true) :
    shimImport names method =
      .ok (Binding.importHead plan.symbol plan.importName,
        Binding.importTyping (plan.parameters.map fun value => value.spellings.foreign)
          plan.result.spellings.foreign) := by
  rw [MethodPlan.isSupported_eq_all, List.all_cons, Bool.and_eq_true] at supported
  rw [shimImport, settles.result.spelling_eq_ok supported.1,
    MethodPlan.mapM_spelling_eq_ok settles.parameters supported.2, ← settles.symbol,
    ← settles.importName]
  rfl

/-! ## The composition of an interface -/

theorem composeRaw_of_interface
    (context : Context)
    {entity : Entity}
    (interface : entity.tag = .known .interface)
    {raw : Texts}
    (composed : composeRaw context entity = .ok raw) :
    ∃ plans,
      (entity.methods?.getD []).mapM
          (MethodPlan.ofMethod (Names.ofEntity context.options entity)) = .ok plans ∧
        raw = interfaceTexts (Names.ofEntity context.options entity) plans := by
  simp only [composeRaw, interface, mapError_eq_ok_iff, composeInterface_eq_ok_iff] at composed
  exact composed

/-- Composing an interface checks it, plans its methods and tidies the rendered texts. -/
theorem exists_plans_of_compose
    {context : Context}
    {entity : Entity}
    (interface : entity.tag = .known .interface)
    {texts : Texts}
    (composed : compose context entity = .ok texts) :
    entity.check = .ok () ∧
      ∃ plans,
        (entity.methods?.getD []).mapM
            (MethodPlan.ofMethod (Names.ofEntity context.options entity)) = .ok plans ∧
          texts.declaration =
            tidyEnd (interfaceTexts (Names.ofEntity context.options entity) plans).declaration ∧
          texts.implementation =
            tidyEnd (interfaceTexts (Names.ofEntity context.options entity) plans).implementation ∧
          texts.binding =
            tidyEnd (interfaceTexts (Names.ofEntity context.options entity) plans).binding := by
  rw [compose] at composed
  obtain ⟨⟨⟩, checked, composed⟩ := (bind_eq_ok_iff _ _ _).1 composed
  obtain ⟨raw, rawComposed, done⟩ := (bind_eq_ok_iff _ _ _).1 composed
  obtain ⟨plans, planned, rfl⟩ := composeRaw_of_interface context interface rawComposed
  rw [← Except.ok.inj done]
  exact ⟨checked, plans, planned, rfl, rfl, rfl⟩

/-- A consistent interface is composed as soon as its methods can be planned. -/
theorem exists_compose_of_plans
    {context : Context}
    {entity : Entity}
    (checked : entity.check = .ok ())
    (interface : entity.tag = .known .interface)
    {plans : List MethodPlan}
    (planned :
      (entity.methods?.getD []).mapM
        (MethodPlan.ofMethod (Names.ofEntity context.options entity)) = .ok plans) :
    ∃ texts, compose context entity = .ok texts := by
  have raw :
      composeRaw context entity =
        .ok (interfaceTexts (Names.ofEntity context.options entity) plans) := by
    simp only [composeRaw, interface, composeInterface, planned]
    rfl
  rw [compose, checked, raw]
  exact ⟨_, rfl⟩

/-- The methods of an entity without an aggregate position, in order. -/
def callableMethods (entity : Entity) : List Method :=
  (entity.methods?.getD []).filter fun method => !method.hasAggregate

/--
The three texts of an interface agree on its foreign interface: they present the signatures and
imports that the callable methods ask for, in the order of the methods, and nothing else.
-/
theorem exists_presents_of_compose
    (context : Context)
    (entity : Entity)
    (texts : Texts)
    (singleLine : context.options.IsSingleLine)
    (interface : entity.tag = .known .interface)
    (composed : compose context entity = .ok texts) :
    ∃ signatures imports,
      Presents (Names.ofEntity context.options entity) (callableMethods entity) texts
        signatures imports := by
  obtain ⟨checked, plans, planned, declaration, implementation, binding⟩ :=
    exists_plans_of_compose interface composed
  have namesInline := Names.isInline_ofEntity singleLine checked
  have settled :
      List.Forall₂
        (fun method plan =>
          MethodPlan.Settles plan (Names.ofEntity context.options entity) method)
        (entity.methods?.getD []) plans :=
    ((mapM_eq_ok_iff _ _ _).1 planned).imp fun _ _ => MethodPlan.settles_of_ofMethod
  have plansInline : ∀ plan ∈ plans, plan.IsInline := by
    intro plan member
    obtain ⟨method, methodMember, settles⟩ := exists_of_mem_right settled member
    have identifiers := Entity.isIdentifier_of_mem_methods checked interface methodMember
    exact settles.isInline namesInline identifiers.1 identifiers.2
  have callable :
      ∀ method plan,
        MethodPlan.Settles plan (Names.ofEntity context.options entity) method →
          plan.isSupported = !method.hasAggregate :=
    fun _ _ settles => settles.isSupported_eq
  have signatures :=
    mapM_filter_eq_ok settled callable fun _ _ settles => shimSignature_eq_ok settles
  have imports :=
    mapM_filter_eq_ok settled callable fun _ _ settles => shimImport_eq_ok settles
  refine ⟨_, _,
    { spelledSignatures := signatures
      spelledImports := imports
      parametersNamed := fun method _ => by simp [shimParameterNames]
      signatureCount := ((mapM_eq_ok_iff _ _ _).1 signatures).length_eq.symm
      importCount := ((mapM_eq_ok_iff _ _ _).1 imports).length_eq.symm
      declared := ?_
      implemented := ?_
      imported := ?_ }⟩
  · rw [declaration, List.map_map]
    refine ((shows_declaration namesInline plansInline).withNext_tidied (by decide)).trans ?_
    exact flatMap_ite_eq_map_filter plans _
  · rw [implementation, List.map_map]
    refine ((shows_implementation namesInline plansInline).withNext_tidied (by decide)).trans ?_
    refine (flatMap_ite_eq_map_filter plans _).trans ?_
    simp
  · rw [binding, List.map_map]
    refine ((shows_binding namesInline plansInline).withNext_tidied (by decide)).trans ?_
    exact flatMap_ite_eq_map_filter plans _

/-- An interface with a method that can be called and one that cannot. -/
def labelInterface : Entity :=
  ⟨"Label", ⟨["a", "b"]⟩, .known .interface,
    some [⟨"setText", .void, [⟨"text", ⟨"string"⟩⟩]⟩, ⟨"getValue", ⟨"any"⟩, []⟩], none, none⟩

theorem exists_compose_labelInterface :
    ∃ texts, compose ⟨.default, .empty⟩ labelInterface = .ok texts := by
  have void : TypeName.void.category = .ok .void := TypeName.Matches.void.category_eq
  have string : TypeName.category ⟨"string"⟩ = .ok .string := TypeName.Matches.string.category_eq
  have any : TypeName.category ⟨"any"⟩ = .ok .aggregate := by
    have dotted : IsDotted "any" := (isQualifiedIdentifier_iff_isDotted _).1 (by decide)
    exact (TypeName.Matches.named dotted (by decide) (by decide) (by decide)).category_eq
  obtain ⟨nothing, nothingPlanned, -⟩ := PlannedValue.exists_plan_of_category [] void
  obtain ⟨text, textPlanned, textCategory⟩ := PlannedValue.exists_plan_of_category "text" string
  obtain ⟨value, valuePlanned, -⟩ := PlannedValue.exists_plan_of_category [] any
  have setText (names : Names) :
      ∃ plan, MethodPlan.ofMethod names ⟨"setText", .void, [⟨"text", ⟨"string"⟩⟩]⟩ = .ok plan := by
    simp only [MethodPlan.ofMethod, nothingPlanned, MethodPlan.planParameters_cons_eq_ok_iff]
    exact ⟨_, List.not_mem_nil, text, textPlanned, by simp [textCategory], rfl⟩
  have getValue (names : Names) :
      ∃ plan, MethodPlan.ofMethod names ⟨"getValue", ⟨"any"⟩, []⟩ = .ok plan := by
    simp only [MethodPlan.ofMethod, valuePlanned, MethodPlan.planParameters_nil]
    exact ⟨_, rfl⟩
  obtain ⟨setTextPlan, setTextPlanned⟩ := setText (Names.ofEntity .default labelInterface)
  obtain ⟨getValuePlan, getValuePlanned⟩ := getValue (Names.ofEntity .default labelInterface)
  apply exists_compose_of_plans rfl rfl
  exact (mapM_eq_ok_iff _ _ [setTextPlan, getValuePlan]).2
    (.cons setTextPlanned (.cons getValuePlanned .nil))

/-- The texts of an interface with one callable method and one placeholder. -/
theorem exists_presents_labelInterface :
    labelInterface.tag = .known .interface ∧
      ∃ texts, compose ⟨.default, .empty⟩ labelInterface = .ok texts ∧
        ∃ signatures imports,
          Presents (Names.ofEntity .default labelInterface) (callableMethods labelInterface) texts
            signatures imports := by
  obtain ⟨texts, composed⟩ := exists_compose_labelInterface
  have singleLine : NamingOptions.default.IsSingleLine := by
    unfold NamingOptions.IsSingleLine
    decide
  exact ⟨rfl, texts, composed,
    exists_presents_of_compose ⟨.default, .empty⟩ labelInterface texts singleLine rfl composed⟩

end UnoBindgen.Emission
