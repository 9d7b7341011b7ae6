import UnoBindgen.Proofs.Emission.Outcome
import UnoBindgen.Proofs.Emission.Parts
import UnoBindgen.Proofs.Text.Paragraphs

/-!
# The accessors of an exception

Only the primitive members of an exception have accessors.  The plans of an exception are those of
its primitive members, so an exception without its other members is composed to the same texts.
What the texts say is read back paragraph by paragraph: besides the paragraphs that every exception
has, there is one for each accessor in both C++ texts, and in the Haskell text one for its import
and one for its wrapper, each in the order of the members.

A definition that starts with a literal is opened with `delta`: deriving an equation for it would
evaluate the literal.
-/

namespace UnoBindgen

open Names (primitiveMembers)

/-! ## Exceptions without their other members -/

namespace Entity

/-- An entity without the members that are not primitive. -/
def keepPrimitive (entity : Entity) : Entity :=
  { entity with members? := entity.members?.map (List.filter Field.isPrimitive) }

theorem members?_keepPrimitive (entity : Entity) :
    entity.keepPrimitive.members?.getD [] = primitiveMembers entity := by
  rw [keepPrimitive, primitiveMembers]
  cases entity.members? with
  | none => rfl
  | some members => rfl

/-- The members that are left have the same names, each at most once. -/
theorem check_keepPrimitive
    {entity : Entity}
    (exception : entity.tag = .known .exception)
    (checked : entity.check = .ok ()) :
    entity.keepPrimitive.check = .ok () := by
  have path := ((fault?_eq_none_iff entity).1 ((check_eq_ok_iff entity).1 checked)).1
  have clean := partFault?_of_check checked exception
  have cleanRest : entity.keepPrimitive.partFault? .exception = none := by
    rw [partFault?] at clean ⊢
    rw [keepPrimitive]
    cases present : entity.members? with
    | none =>
        rw [present] at clean
        exact absurd clean (by simp)
    | some members =>
        rw [present] at clean
        obtain ⟨identifiers, distinct⟩ := (memberFault?_eq_none_iff entity members).1 clean
        refine (memberFault?_eq_none_iff _ _).2 ⟨?_, ?_⟩
        · intro member kept
          exact identifiers member (List.mem_of_mem_filter kept)
        · exact distinct.sublist (List.filter_sublist.map Field.name)
  rw [check_eq_ok_iff, fault?_eq_none_iff]
  exact ⟨path, .exception, exception, cleanRest⟩

end Entity

namespace Emission

open Text

/-- An exception is composed when it is consistent and its accessors can be planned. -/
theorem compose_eq_ok_iff_of_exception
    (context : Context)
    {entity : Entity}
    (exception : entity.tag = .known .exception)
    (texts : Texts) :
    compose context entity = .ok texts ↔
      entity.check = .ok () ∧
        ∃ plans,
          planGetters (Names.ofEntity context.options entity) (entity.members?.getD []) =
              .ok plans ∧
            ∀ artifact,
              texts.get artifact =
                tidyEnd
                  ((exceptionTexts (Names.ofEntity context.options entity) plans).get
                    artifact) := by
  constructor
  · intro composed
    obtain ⟨checked, parts, planned, tidied⟩ := exists_parts_get_of_compose composed
    cases planned with
    | methods interface _ => exact absurd (exception.symm.trans interface) (by simp)
    | base singleton _ _ => exact absurd (exception.symm.trans singleton) (by simp)
    | getters _ gettersPlanned => exact ⟨checked, _, gettersPlanned, tidied⟩
  · rintro ⟨checked, plans, planned, tidied⟩
    have raw :
        composeRaw context entity =
          .ok (exceptionTexts (Names.ofEntity context.options entity) plans) := by
      simp only [composeRaw, exception, composeException, planned]
      rfl
    have declaration := tidied .declaration
    have implementation := tidied .implementation
    have binding := tidied .binding
    obtain ⟨_, _, _⟩ := texts
    simp only [Texts.get] at declaration implementation binding
    rw [compose, checked, raw, declaration, implementation, binding]
    rfl

/-- The members that are not primitive leave no trace in the texts. -/
theorem compose_keepPrimitive
    {context : Context}
    {entity : Entity}
    (exception : entity.tag = .known .exception)
    {texts : Texts}
    (composed : compose context entity = .ok texts) :
    compose context entity.keepPrimitive = .ok texts := by
  obtain ⟨checked, plans, planned, tidied⟩ :=
    (compose_eq_ok_iff_of_exception context exception texts).1 composed
  obtain ⟨known, primitive⟩ := (planGetters_eq_ok_iff _ _ plans).1 planned
  have exceptionRest : entity.keepPrimitive.tag = .known .exception := exception
  refine (compose_eq_ok_iff_of_exception context exceptionRest texts).2
    ⟨Entity.check_keepPrimitive exception checked, plans, ?_, tidied⟩
  rw [Entity.members?_keepPrimitive, planGetters_eq_ok_iff]
  refine ⟨fun member kept => known member (List.mem_of_mem_filter kept), ?_⟩
  have once : (primitiveMembers entity).filter Field.isPrimitive = primitiveMembers entity :=
    List.filter_eq_self.2 fun member kept => (List.mem_filter.1 kept).2
  rw [once]
  exact primitive

/-! ## What the texts say about an accessor -/

/-- The names and the spelled types of an accessor. -/
structure Accessor where
  member : Text
  /-- The symbol that is exported and imported. -/
  symbol : Text
  /-- The Haskell name of the import. -/
  importName : Text
  /-- The Haskell name of the wrapper. -/
  wrapper : Text
  declaredType : Text
  foreignType : Text
  wrapperType : Text
  deriving DecidableEq, Repr

namespace Accessor

/-- The accessor that a member asks for, or the fault of its type. -/
def ofMember (names : Names) (member : Field) : Except Fault Accessor := do
  let declaredType ← member.type.spelling (some .declaration)
  let foreignType ← member.type.spelling (some .foreign)
  let wrapperType ← member.type.spelling (some .wrapper)
  return {
    member := member.name
    symbol := names.callSymbol (Names.getterFunction member.name)
    importName := Names.importName (Names.getterFunction member.name)
    wrapper := Binding.identifier (Names.getterFunction member.name)
    declaredType := declaredType
    foreignType := foreignType
    wrapperType := wrapperType }

/-- The signature of the exported function. -/
def signature (names : Names) (accessor : Accessor) : Text :=
  accessor.declaredType ++ " " ++ accessor.symbol ++ "(" ++ names.qualified ++ " * e)"

/-- The paragraph of the header. -/
def declaration (names : Names) (accessor : Accessor) : List Text :=
  [Native.externLine, accessor.signature names ++ ";"]

/-- The paragraph of the source. -/
def definition (names : Names) (accessor : Accessor) : List Text :=
  [ Native.externLine, accessor.signature names, "\x7b",
    ("    return e->" : Text) ++ accessor.member ++ ";", "\x7d" ]

/-- The paragraph of the Haskell text that imports the symbol. -/
def importing (names : Names) (accessor : Accessor) : List Text :=
  [ Binding.importHead accessor.symbol accessor.importName,
    ("    :: Ptr " : Text) ++ Binding.objectType names ++ " -> " ++
      Binding.actionType accessor.foreignType ]

/-- The paragraph of the Haskell text whose function calls the import. -/
def wrapping (names : Names) (accessor : Accessor) : List Text :=
  [ accessor.wrapper ++ " :: " ++ names.foreignType ++ " -> " ++
      Binding.actionType accessor.wrapperType,
    accessor.wrapper ++ " (" ++ names.foreignType ++ " ptr) = " ++ accessor.importName ++ " ptr" ]

end Accessor

/-! ## What the texts of every exception say -/

/-- The paragraphs of the header before the accessors. -/
def headerOpening (names : Names) : List (List Text) :=
  [ [("#ifndef " : Text) ++ names.headerGuard, ("#define " : Text) ++ names.headerGuard],
    [("#include <" : Text) ++ names.nativeHeader ++ ">"] ]

/-- The paragraph of the header behind the accessors. -/
def headerClosing (names : Names) : List (List Text) :=
  [[("#endif // " : Text) ++ names.headerGuard]]

/-- The paragraph of the source before the accessors. -/
def sourceOpening (names : Names) : List (List Text) :=
  [[("#include \"" : Text) ++ names.ownHeader ++ "\""]]

/-- The paragraphs of the Haskell text before the accessors. -/
def bindingOpening (names : Names) : List (List Text) :=
  [ [("module " : Text) ++ names.foreignModule ++ " where"],
    ["import Foreign"],
    [("data " : Text) ++ Binding.objectType names],
    [("newtype " : Text) ++ names.foreignType ++ " = " ++ names.foreignType ++ " (Ptr " ++
      Binding.objectType names ++ ")"] ]

/-- The three texts of an exception present these accessors, in order and besides nothing but the
paragraphs that every exception has. -/
structure PresentsAccessors
    (names : Names)
    (members : List Field)
    (texts : Texts)
    (accessors : List Accessor) : Prop where
  /-- There is one accessor for each member, in order. -/
  spelled : members.mapM (Accessor.ofMember names) = .ok accessors
  /-- The header declares the accessors. -/
  declared :
    paragraphs texts.declaration =
      headerOpening names ++ accessors.map (Accessor.declaration names) ++ headerClosing names
  /-- The source defines the accessors. -/
  defined :
    paragraphs texts.implementation =
      sourceOpening names ++ accessors.map (Accessor.definition names)
  /-- The Haskell text imports the accessors and then wraps them. -/
  bound :
    paragraphs texts.binding =
      bindingOpening names ++ accessors.map (Accessor.importing names) ++
        accessors.map (Accessor.wrapping names)

/-! ## The paragraphs that the texts are written from -/

/-- The accessor that a plan settles. -/
def Accessor.ofPlan (plan : GetterPlan) : Accessor where
  member := plan.member
  symbol := plan.symbol
  importName := plan.importName
  wrapper := Binding.identifier plan.function
  declaredType := plan.value.spellings.declaration
  foreignType := plan.value.spellings.foreign
  wrapperType := plan.value.spellings.wrapper

theorem Accessor.ofMember_eq_ok
    {names : Names}
    {member : Field}
    {plan : GetterPlan}
    (planned : GetterPlan.ofMember names member = .ok plan) :
    plan.names = names ∧ ofMember names member = .ok (ofPlan plan) := by
  have settles := GetterPlan.settles_of_ofMember planned
  have supported : plan.value.isSupported = true := by
    rw [PlannedValue.isSupported, settles.primitive]
    rfl
  have spelled (surface : Surface) := settles.value.spelling_eq_ok supported surface
  have named :
      plan.member = member.name ∧
        plan.symbol = names.callSymbol (Names.getterFunction member.name) := by
    rw [GetterPlan.ofMember] at planned
    split at planned
    · exact absurd planned (by simp)
    · split at planned
      · rw [← Except.ok.inj planned]
        exact ⟨rfl, rfl⟩
      · exact absurd planned (by simp)
  refine ⟨settles.sameNames, ?_⟩
  rw [ofMember, spelled .declaration, spelled .foreign, spelled .wrapper, ofPlan, named.1, named.2,
    settles.importName, settles.function]
  rfl

theorem getterSignature_eq (plan : GetterPlan) :
    Native.getterSignature plan =
      Native.externLine ++ '\n' :: (Accessor.ofPlan plan).signature plan.names := by
  rw [Native.getterSignature]
  delta Native.externC Native.externLine Accessor.signature Accessor.ofPlan
  simp

theorem getterDeclaration_eq_spaced (plan : GetterPlan) :
    Native.getterDeclaration plan =
      spaced ((Accessor.ofPlan plan).declaration plan.names) := by
  rw [Native.getterDeclaration, getterSignature_eq]
  delta Accessor.declaration
  simp [spaced, unlines]

theorem getterShim_eq_spaced (plan : GetterPlan) :
    Native.getterShim plan =
      spaced ((Accessor.ofPlan plan).definition plan.names) := by
  rw [Native.getterShim, getterSignature_eq]
  delta Accessor.definition
  simp [spaced, unlines, Accessor.ofPlan]

theorem arrows_pair (argument result : Text) :
    Binding.arrows [argument, result] = argument ++ " -> " ++ result := rfl

theorem getterImport_eq_spaced (plan : GetterPlan) :
    Binding.getterImport plan =
      spaced ((Accessor.ofPlan plan).importing plan.names) := by
  rw [Binding.getterImport, arrows_pair]
  delta Binding.importDeclaration Accessor.importing Binding.importHead
  simp [spaced, unlines, Accessor.ofPlan]

theorem getterWrapper_eq_spaced (plan : GetterPlan) :
    Binding.getterWrapper plan =
      spaced ((Accessor.ofPlan plan).wrapping plan.names) := by
  rw [Binding.getterWrapper, arrows_pair]
  delta Accessor.wrapping
  simp [spaced, unlines, Accessor.ofPlan]

/-- Fragments that are paragraphs of accessors, one for each plan. -/
theorem flatMap_eq_spaced
    {fragment : GetterPlan → Text}
    {paragraph : Names → Accessor → List Text}
    (written : ∀ plan, fragment plan = spaced (paragraph plan.names (.ofPlan plan)))
    {names : Names}
    {plans : List GetterPlan}
    (sameNames : ∀ plan ∈ plans, plan.names = names) :
    plans.flatMap fragment =
      ((plans.map Accessor.ofPlan).map (paragraph names)).flatMap spaced := by
  induction plans with
  | nil => rfl
  | cons plan rest induction =>
      rw [List.forall_mem_cons] at sameNames
      rw [List.flatMap_cons, written plan, sameNames.1, induction sameNames.2]
      rfl

section

variable
  {names : Names}
  {plans : List GetterPlan}
  (sameNames : ∀ plan ∈ plans, plan.names = names)

include sameNames

theorem declaration_eq_spaced :
    (exceptionTexts names plans).declaration ++ ['\n'] =
      (headerOpening names ++ (plans.map Accessor.ofPlan).map (Accessor.declaration names) ++
        headerClosing names).flatMap spaced := by
  have opening :
      Native.headerOpen names.headerGuard ++ Native.includeSystem names.nativeHeader ++ "\n" =
        (headerOpening names).flatMap spaced := by
    delta Native.headerOpen Native.includeSystem headerOpening
    simp [spaced, unlines]
  have closing :
      Native.headerClose names.headerGuard ++ ['\n'] = (headerClosing names).flatMap spaced := by
    delta Native.headerClose headerClosing
    simp [spaced, unlines]
  rw [exceptionTexts, flatMap_eq_spaced getterDeclaration_eq_spaced sameNames, List.append_assoc,
    closing, opening, ← List.flatMap_append, ← List.flatMap_append]

theorem implementation_eq_spaced :
    (exceptionTexts names plans).implementation =
      (sourceOpening names ++
        (plans.map Accessor.ofPlan).map (Accessor.definition names)).flatMap spaced := by
  have opening :
      Native.includeLocal names.ownHeader ++ "\n" = (sourceOpening names).flatMap spaced := by
    delta Native.includeLocal sourceOpening
    simp [spaced, unlines]
  rw [exceptionTexts, flatMap_eq_spaced getterShim_eq_spaced sameNames, opening,
    ← List.flatMap_append]

theorem binding_eq_spaced :
    (exceptionTexts names plans).binding =
      (bindingOpening names ++ (plans.map Accessor.ofPlan).map (Accessor.importing names) ++
        (plans.map Accessor.ofPlan).map (Accessor.wrapping names)).flatMap spaced := by
  have opening :
      Binding.moduleHeader names.foreignModule Binding.exceptionImports ++
          Binding.exceptionType names =
        (bindingOpening names).flatMap spaced := by
    delta Binding.moduleHeader Binding.exceptionType bindingOpening
    simp [spaced, unlines, Binding.exceptionImports, Binding.importLine]
  rw [exceptionTexts, flatMap_eq_spaced getterImport_eq_spaced sameNames,
    flatMap_eq_spaced getterWrapper_eq_spaced sameNames, opening, ← List.flatMap_append,
    ← List.flatMap_append]

end

/-! ## Paragraphs of whole lines -/

/-- The texts of an accessor stay on their lines, and only its symbol may have a double quote. -/
structure Accessor.IsInline (accessor : Accessor) : Prop where
  member : Text.IsInline accessor.member
  symbol : '\n' ∉ accessor.symbol
  importName : Text.IsInline accessor.importName
  wrapper : Text.IsInline accessor.wrapper
  declaredType : Text.IsInline accessor.declaredType
  foreignType : Text.IsInline accessor.foreignType
  wrapperType : Text.IsInline accessor.wrapperType

theorem Accessor.isInline_of_ofMember
    {names : Names}
    (namesInline : names.IsInline)
    {member : Field}
    (identifier : isIdentifier member.name = true)
    {accessor : Accessor}
    (spelled : ofMember names member = .ok accessor) :
    accessor.IsInline := by
  have function := Names.isIdentifier_getterFunction identifier
  have functionInline := isInline_of_isIdentifier function
  simp only [ofMember, bind_eq_ok_iff] at spelled
  obtain ⟨declared, declaredSpelled, foreign, foreignSpelled, wrapped, wrappedSpelled, done⟩ :=
    spelled
  rw [← Except.ok.inj done]
  exact
    { member := isInline_of_isIdentifier identifier
      symbol := by simp [Names.callSymbol, namesInline.symbolStem, functionInline.lineFeed_not_mem]
      importName := (Text.isInline_append _ _).2 ⟨by decide, functionInline⟩
      wrapper := Binding.isInline_identifier function
      declaredType := TypeName.isInline_of_spelling declaredSpelled
      foreignType := TypeName.isInline_of_spelling foreignSpelled
      wrapperType := TypeName.isInline_of_spelling wrappedSpelled }

theorem lineFeed_not_mem_objectType
    {names : Names}
    (namesInline : names.IsInline) :
    '\n' ∉ Binding.objectType names := by
  simp [Binding.objectType, namesInline.foreignType.lineFeed_not_mem]

section

variable
  {names : Names}
  (namesInline : names.IsInline)
  {accessor : Accessor}
  (inline : accessor.IsInline)

include namesInline inline

theorem Accessor.lineFeed_not_mem_signature : '\n' ∉ accessor.signature names := by
  simp [signature, inline.declaredType.lineFeed_not_mem, inline.symbol,
    namesInline.qualified.lineFeed_not_mem]

theorem Accessor.isParagraph_declaration : IsParagraph (accessor.declaration names) := by
  have signature := lineFeed_not_mem_signature namesInline inline
  delta declaration Native.externLine
  constructor
  · exact List.cons_ne_nil _ _
  · simp [signature]
  · simp

theorem Accessor.isParagraph_definition : IsParagraph (accessor.definition names) := by
  have signature := lineFeed_not_mem_signature namesInline inline
  have named : accessor.signature names ≠ [] := by simp [Accessor.signature]
  delta definition Native.externLine
  constructor
  · exact List.cons_ne_nil _ _
  · simp [signature, inline.member.lineFeed_not_mem]
  · simp [named]

theorem Accessor.isParagraph_importing : IsParagraph (accessor.importing names) := by
  have object := lineFeed_not_mem_objectType namesInline
  have action := (Binding.isInline_actionType inline.foreignType).lineFeed_not_mem
  delta importing Binding.importHead
  constructor
  · exact List.cons_ne_nil _ _
  · simp [inline.symbol, inline.importName.lineFeed_not_mem, object, action]
  · simp

theorem Accessor.isParagraph_wrapping : IsParagraph (accessor.wrapping names) := by
  have action := (Binding.isInline_actionType inline.wrapperType).lineFeed_not_mem
  delta wrapping
  constructor
  · exact List.cons_ne_nil _ _
  · simp [inline.wrapper.lineFeed_not_mem, inline.importName.lineFeed_not_mem,
      namesInline.foreignType.lineFeed_not_mem, action]
  · simp

end

section

variable
  {names : Names}
  (namesInline : names.IsInline)

include namesInline

theorem isParagraph_headerOpening : ∀ paragraph ∈ headerOpening names, IsParagraph paragraph := by
  have path := namesInline.nativeHeader.lineFeed_not_mem
  delta headerOpening
  rw [List.forall_mem_cons, List.forall_mem_singleton]
  constructor
  · constructor
    · exact List.cons_ne_nil _ _
    · simp [namesInline.headerGuard]
    · simp
  · exact isParagraph_singleton (by simp [path]) (by simp)

theorem isParagraph_headerClosing : ∀ paragraph ∈ headerClosing names, IsParagraph paragraph := by
  delta headerClosing
  rw [List.forall_mem_singleton]
  exact isParagraph_singleton (by simp [namesInline.headerGuard]) (by simp)

theorem isParagraph_sourceOpening : ∀ paragraph ∈ sourceOpening names, IsParagraph paragraph := by
  delta sourceOpening
  rw [List.forall_mem_singleton]
  exact isParagraph_singleton (by simp [namesInline.ownHeader]) (by simp)

theorem isParagraph_bindingOpening :
    ∀ paragraph ∈ bindingOpening names, IsParagraph paragraph := by
  have module := namesInline.foreignModule.lineFeed_not_mem
  have type := namesInline.foreignType.lineFeed_not_mem
  have object := lineFeed_not_mem_objectType namesInline
  delta bindingOpening
  rw [List.forall_mem_cons, List.forall_mem_cons, List.forall_mem_cons, List.forall_mem_singleton]
  exact
    ⟨isParagraph_singleton (by simp [module]) (by simp),
      isParagraph_singleton (by simp) (by simp),
      isParagraph_singleton (by simp [object]) (by simp),
      isParagraph_singleton (by simp [type, object]) (by simp)⟩

end

/-! ## The texts read back -/

theorem paragraphs_tidyEnd (text : Text) :
    paragraphs (tidyEnd text) = paragraphs text :=
  paragraphs_tidied text

section

variable
  {names : Names}
  (namesInline : names.IsInline)
  {plans : List GetterPlan}
  (sameNames : ∀ plan ∈ plans, plan.names = names)
  (inline : ∀ accessor ∈ plans.map Accessor.ofPlan, accessor.IsInline)

include namesInline sameNames inline

/-- The closing line of the header has no empty line behind it. -/
theorem paragraphs_declaration :
    paragraphs (exceptionTexts names plans).declaration =
      headerOpening names ++ (plans.map Accessor.ofPlan).map (Accessor.declaration names) ++
        headerClosing names := by
  have accessors :=
    List.forall_mem_map.2 fun accessor present =>
      Accessor.isParagraph_declaration namesInline (inline accessor present)
  have ended := paragraphs_append_replicate (exceptionTexts names plans).declaration 1
  rw [← ended, List.replicate_one, declaration_eq_spaced sameNames]
  apply paragraphs_flatMap_spaced
  rw [List.forall_mem_append, List.forall_mem_append]
  exact
    ⟨⟨isParagraph_headerOpening namesInline, accessors⟩, isParagraph_headerClosing namesInline⟩

theorem paragraphs_implementation :
    paragraphs (exceptionTexts names plans).implementation =
      sourceOpening names ++ (plans.map Accessor.ofPlan).map (Accessor.definition names) := by
  have accessors :=
    List.forall_mem_map.2 fun accessor present =>
      Accessor.isParagraph_definition namesInline (inline accessor present)
  rw [implementation_eq_spaced sameNames]
  apply paragraphs_flatMap_spaced
  rw [List.forall_mem_append]
  exact ⟨isParagraph_sourceOpening namesInline, accessors⟩

theorem paragraphs_binding :
    paragraphs (exceptionTexts names plans).binding =
      bindingOpening names ++ (plans.map Accessor.ofPlan).map (Accessor.importing names) ++
        (plans.map Accessor.ofPlan).map (Accessor.wrapping names) := by
  have imports :=
    List.forall_mem_map.2 fun accessor present =>
      Accessor.isParagraph_importing namesInline (inline accessor present)
  have wrappers :=
    List.forall_mem_map.2 fun accessor present =>
      Accessor.isParagraph_wrapping namesInline (inline accessor present)
  rw [binding_eq_spaced sameNames]
  apply paragraphs_flatMap_spaced
  rw [List.forall_mem_append, List.forall_mem_append]
  exact ⟨⟨isParagraph_bindingOpening namesInline, imports⟩, wrappers⟩

end

/-! ## The composition of an exception -/

/--
The texts of an exception are those of the exception without the members that are not primitive,
and they present one accessor for each primitive member, in the order of the members, and nothing
else.
-/
theorem compose_keeps_primitive_accessors
    (context : Context)
    (entity : Entity)
    (texts : Texts)
    (singleLine : context.options.IsSingleLine)
    (exception : entity.tag = .known .exception)
    (composed : compose context entity = .ok texts) :
    compose context entity.keepPrimitive = .ok texts ∧
      ∃ accessors,
        PresentsAccessors (Names.ofEntity context.options entity) (primitiveMembers entity) texts
          accessors := by
  obtain ⟨checked, plans, planned, tidied⟩ :=
    (compose_eq_ok_iff_of_exception context exception texts).1 composed
  have primitive := ((planGetters_eq_ok_iff _ _ plans).1 planned).2
  have namesInline := Names.isInline_ofEntity singleLine checked
  have sameNames : ∀ plan ∈ plans, plan.names = Names.ofEntity context.options entity := by
    intro plan present
    obtain ⟨member, -, memberPlanned⟩ := exists_of_mem_right primitive present
    exact (Accessor.ofMember_eq_ok memberPlanned).1
  have spelled :
      List.Forall₂
        (fun member accessor =>
          Accessor.ofMember (Names.ofEntity context.options entity) member = .ok accessor)
        (primitiveMembers entity) (plans.map Accessor.ofPlan) :=
    List.forall₂_map_right_iff.2
      (primitive.imp fun _ _ memberPlanned => (Accessor.ofMember_eq_ok memberPlanned).2)
  have inline : ∀ accessor ∈ plans.map Accessor.ofPlan, accessor.IsInline := by
    intro accessor present
    obtain ⟨member, kept, memberSpelled⟩ := exists_of_mem_right spelled present
    have identifier :=
      Entity.isIdentifier_of_mem_members checked exception (List.mem_of_mem_filter kept)
    exact Accessor.isInline_of_ofMember namesInline identifier memberSpelled
  refine ⟨compose_keepPrimitive exception composed, plans.map Accessor.ofPlan,
    { spelled := (mapM_eq_ok_iff _ _ _).2 spelled
      declared := ?_
      defined := ?_
      bound := ?_ }⟩
  · exact (congrArg paragraphs (tidied .declaration)).trans
      ((paragraphs_tidyEnd _).trans (paragraphs_declaration namesInline sameNames inline))
  · exact (congrArg paragraphs (tidied .implementation)).trans
      ((paragraphs_tidyEnd _).trans (paragraphs_implementation namesInline sameNames inline))
  · exact (congrArg paragraphs (tidied .binding)).trans
      ((paragraphs_tidyEnd _).trans (paragraphs_binding namesInline sameNames inline))

/-- An exception with a primitive member, a string and an aggregate. -/
def someException : Entity :=
  ⟨"SomeException", ⟨["a", "b"]⟩, .known .exception, none,
    some [⟨"code", ⟨"long"⟩⟩, ⟨"message", ⟨"string"⟩⟩,
      ⟨"context", ⟨"com.sun.star.uno.XInterface"⟩⟩],
    none⟩

/-- Its members are classified. -/
theorem category_members_someException :
    TypeName.category ⟨"long"⟩ = .ok .primitive ∧
      TypeName.category ⟨"string"⟩ = .ok .string ∧
      TypeName.category ⟨"com.sun.star.uno.XInterface"⟩ = .ok .aggregate := by
  have dotted : IsDotted "com.sun.star.uno.XInterface" :=
    (isQualifiedIdentifier_iff_isDotted _).1 (by decide)
  exact
    ⟨(TypeName.Matches.primitive (by decide)).category_eq, TypeName.Matches.string.category_eq,
      (TypeName.Matches.named dotted (by decide) (by decide) (by decide)).category_eq⟩

theorem primitiveMembers_someException :
    primitiveMembers someException = [⟨"code", ⟨"long"⟩⟩] := by
  obtain ⟨long, string, interface⟩ := category_members_someException
  have members :
      someException.members?.getD [] =
        [⟨"code", ⟨"long"⟩⟩, ⟨"message", ⟨"string"⟩⟩,
          ⟨"context", ⟨"com.sun.star.uno.XInterface"⟩⟩] := rfl
  rw [primitiveMembers, members]
  simp only [List.filter_cons, long, string, interface, List.filter_nil]
  rfl

theorem exists_compose_someException :
    ∃ texts, compose ⟨.default, .empty⟩ someException = .ok texts := by
  obtain ⟨long, string, interface⟩ := category_members_someException
  have known {type : TypeName} {category : Category} (classified : type.category = .ok category) :
      ¬ type.isUnknown = true := by
    intro unknown
    rw [TypeName.category_of_isUnknown unknown] at classified
    exact absurd classified (by simp)
  apply (compose_of_exception ⟨.default, .empty⟩ rfl rfl).1
  rw [List.find?_eq_none]
  change ∀ member ∈ [_, _, _], _
  simp only [List.forall_mem_cons]
  exact ⟨known long, known string, known interface, by simp⟩

theorem someException_keeps_code :
    NamingOptions.default.IsSingleLine ∧
      someException.tag = .known .exception ∧
      primitiveMembers someException = [⟨"code", ⟨"long"⟩⟩] ∧
      ∃ texts, compose ⟨.default, .empty⟩ someException = .ok texts ∧
        compose ⟨.default, .empty⟩ someException.keepPrimitive = .ok texts ∧
        ∃ accessors,
          PresentsAccessors (Names.ofEntity .default someException)
            (primitiveMembers someException) texts accessors := by
  obtain ⟨texts, composed⟩ := exists_compose_someException
  have singleLine : NamingOptions.default.IsSingleLine := by
    unfold NamingOptions.IsSingleLine
    decide
  exact ⟨singleLine, rfl, primitiveMembers_someException, texts, composed,
    compose_keeps_primitive_accessors ⟨.default, .empty⟩ someException texts singleLine rfl
      composed⟩

end Emission

end UnoBindgen
