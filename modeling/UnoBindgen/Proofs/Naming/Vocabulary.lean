import Mathlib
import UnoBindgen.Proofs.Emission.Outcome
import UnoBindgen.Proofs.Emission.Parts

/-!
# The types that a Haskell module declares and those that it imports

A generated module declares a type or a class that is named after its entity, and it refers to types
and classes of the modules that it imports.  Nothing keeps an entity from being called like one of
these: the check of an entity only compares the base of a singleton with the singleton itself, and
it does so before the names are capitalized.

The main theorem states exactly which entities keep the two apart.  The vocabulary of an entity
depends on its kind and on the types of its methods or members: only types that a signature spells
can clash.
-/

namespace UnoBindgen

/-! ## The words of a type expression -/

namespace Binding

/-- Whether a word starts with a capital. -/
def isCapitalized (word : Text) : Bool :=
  word.head?.any Char.isUpper

/-- The types and classes in a type expression: its words that start with a capital. -/
def typeWords (expression : Text) : List Text :=
  (expression.splitOnP fun character => !Identifier.isFollowing character).filter isCapitalized

/-- Expressions are divided at everything that belongs to no word. -/
theorem typeWords_append
    (left right : Text)
    {character : Char}
    (outside : Identifier.isFollowing character = false) :
    typeWords (left ++ character :: right) = typeWords left ++ typeWords right := by
  rw [typeWords, List.splitOnP_append_cons left right (by simp [outside]), List.filter_append]
  rfl

theorem typeWords_arrows (parts : List Text) :
    typeWords (arrows parts) = parts.flatMap typeWords := by
  induction parts with
  | nil => rfl
  | cons part rest induction =>
      cases rest with
      | nil => simp [arrows]
      | cons next others =>
          have arrow : (" -> " : Text) = ' ' :: '-' :: '>' :: ' ' :: [] := rfl
          rw [arrows, Text.join_cons _ part (List.cons_ne_nil next others), ← arrows,
            List.flatMap_cons, ← induction, arrow, List.append_assoc, List.cons_append,
            typeWords_append part _ (by decide)]
          rfl

theorem typeWords_actionType (result : Text) :
    typeWords (actionType result) = ("IO" : Text) :: typeWords result := by
  rw [actionType]
  split
  · have opening : ("IO (" : Text) = "IO" ++ [' ', '('] := rfl
    rw [opening, List.append_assoc, List.append_assoc]
    change typeWords ("IO" ++ ' ' :: ([] ++ '(' :: (result ++ ')' :: []))) = _
    rw [typeWords_append _ _ (by decide), typeWords_append _ _ (by decide),
      typeWords_append _ _ (by decide)]
    change [("IO" : Text)] ++ ([] ++ (typeWords result ++ [])) = _
    simp
  · have opening : ("IO " : Text) = "IO" ++ [' '] := rfl
    rw [opening, List.append_assoc, List.singleton_append, typeWords_append _ _ (by decide)]
    rfl

/-- The type in the signature of a class method. -/
def wrapperType (plan : MethodPlan) : Text :=
  arrows (Text.words ["a"] ++ plan.parameters.map wrapperSpelling ++
    [actionType (wrapperSpelling plan.result)])

/-- The type expressions of a method: the type of its import, if it can be called, and the type of
the class method. -/
def methodExpressions (plan : MethodPlan) : List Text :=
  if plan.isSupported then
    [importTyping (plan.parameters.map fun value => value.spellings.foreign)
      plan.result.spellings.foreign, wrapperType plan]
  else
    [wrapperType plan]

theorem typeWords_importTyping
    (parameters : List Text)
    (result : Text) :
    typeWords (importTyping parameters result) =
      Text.words ["Ptr", "UnoInterface", "Ptr", "Ptr", "Any"] ++ parameters.flatMap typeWords ++
        ("IO" : Text) :: typeWords result := by
  have opening : ("    :: " : Text) = "    ::" ++ [' '] := rfl
  have fixed :
      (Text.words ["Ptr UnoInterface", "Ptr (Ptr Any)"]).flatMap typeWords =
        Text.words ["Ptr", "UnoInterface", "Ptr", "Ptr", "Any"] := by
    decide
  have nothing : typeWords "    ::" = [] := by decide
  delta importTyping
  rw [opening, List.append_assoc, List.singleton_append,
    typeWords_append _ _ (by decide), typeWords_arrows, nothing, List.flatMap_append,
    List.flatMap_append, fixed]
  simp [typeWords_actionType]

theorem typeWords_wrapperType (plan : MethodPlan) :
    typeWords (wrapperType plan) =
      (plan.parameters.flatMap fun value => typeWords (wrapperSpelling value)) ++
        ("IO" : Text) :: typeWords (wrapperSpelling plan.result) := by
  have fixed : (Text.words ["a"]).flatMap typeWords = [] := by decide
  rw [wrapperType, typeWords_arrows, List.flatMap_append, List.flatMap_append, fixed,
    List.flatMap_map]
  simp [typeWords_actionType]

end Binding

/-! ## The vocabulary of methods and members -/

/-- The types that spell a position in the signature of a wrapper. -/
def TypeName.wrapperTypes (type : TypeName) : List Text :=
  match type.category with
  | .ok .string => ["Text"]
  | .ok .primitive => [((primitive? type.text).getD ⟨[], []⟩).haskell]
  | .ok .aggregate => ["Ptr"]
  | _ => []

/-- The types that spell a position in the type of an import. -/
def TypeName.foreignTypes (type : TypeName) : List Text :=
  match type.category with
  | .ok .string => ["Ptr", "OUString"]
  | .ok .primitive => [((primitive? type.text).getD ⟨[], []⟩).haskell]
  | _ => []

/-- The types that the signatures of a method refer to. -/
def Method.vocabulary (method : Method) : List Text :=
  ("IO" : Text) :: method.types.flatMap TypeName.wrapperTypes ++
    if method.hasAggregate then
      []
    else
      Text.words ["Ptr", "UnoInterface", "Any"] ++ method.types.flatMap TypeName.foreignTypes

/-- The types that the signatures of an accessor refer to. -/
def Field.vocabulary (member : Field) : List Text :=
  ("IO" : Text) :: member.type.wrapperTypes

/-- A primitive type is spelled with a single word. -/
theorem TypeName.typeWords_haskell
    {type : TypeName}
    (primitive : type.category = .ok .primitive) :
    Binding.typeWords ((primitive? type.text).getD ⟨[], []⟩).haskell =
      [((primitive? type.text).getD ⟨[], []⟩).haskell] := by
  have table :
      ∀ name ∈ primitiveNames,
        Binding.typeWords ((primitive? name).getD ⟨[], []⟩).haskell =
          [((primitive? name).getD ⟨[], []⟩).haskell] := by
    decide
  exact table type.text (mem_primitiveNames_of_category primitive)

namespace PlannedValue.Settles

variable
  {value : PlannedValue}
  {name : Text}
  {type : TypeName}

theorem typeWords_foreign
    (settles : value.Settles name type)
    (supported : value.isSupported = true) :
    Binding.typeWords value.spellings.foreign = type.foreignTypes := by
  rw [TypeName.foreignTypes]
  rcases settles.spelling_cases supported .foreign with
    ⟨void, spelled⟩ | ⟨string, spelled⟩ | ⟨primitive, spelled⟩
  · rw [void, show value.spellings.foreign = _ from spelled]
    rfl
  · rw [string, show value.spellings.foreign = _ from spelled]
    rfl
  · rw [primitive, show value.spellings.foreign = _ from spelled]
    exact TypeName.typeWords_haskell primitive

theorem typeWords_wrapperSpelling
    (settles : value.Settles name type) :
    Binding.typeWords (Binding.wrapperSpelling value) = type.wrapperTypes := by
  rw [TypeName.wrapperTypes, Binding.wrapperSpelling]
  by_cases supported : value.isSupported = true
  · rw [if_pos supported]
    rcases settles.spelling_cases supported .wrapper with
      ⟨void, spelled⟩ | ⟨string, spelled⟩ | ⟨primitive, spelled⟩
    · rw [void, show value.spellings.wrapper = _ from spelled]
      rfl
    · rw [string, show value.spellings.wrapper = _ from spelled]
      rfl
    · rw [primitive, show value.spellings.wrapper = _ from spelled]
      exact TypeName.typeWords_haskell primitive
  · have aggregate : value.category = .aggregate := by
      simpa [isSupported] using supported
    rw [if_neg supported, settles.classified, aggregate]
    rfl

end PlannedValue.Settles

namespace MethodPlan.Settles

variable
  {plan : MethodPlan}
  {names : Names}
  {method : Method}

theorem mem_typeWords_wrapperType_iff
    (settles : plan.Settles names method)
    (word : Text) :
    word ∈ Binding.typeWords (Binding.wrapperType plan) ↔
      word = "IO" ∨ word ∈ method.types.flatMap TypeName.wrapperTypes := by
  have words :
      (plan.result :: plan.parameters).flatMap
          (fun value => Binding.typeWords (Binding.wrapperSpelling value)) =
        method.types.flatMap TypeName.wrapperTypes := by
    rw [List.flatMap_def, List.flatMap_def]
    exact congrArg List.flatten
      (map_eq_map_of_forall₂ settles.positions fun _ _ _ ⟨_, settled⟩ =>
        settled.typeWords_wrapperSpelling)
  rw [Binding.typeWords_wrapperType, ← words, List.flatMap_cons, List.mem_append, List.mem_cons,
    List.mem_append, or_comm, or_assoc]

theorem mem_typeWords_importTyping_iff
    (settles : plan.Settles names method)
    (supported : plan.isSupported = true)
    (word : Text) :
    word ∈ Binding.typeWords
        (Binding.importTyping (plan.parameters.map fun value => value.spellings.foreign)
          plan.result.spellings.foreign) ↔
      word = "IO" ∨ word ∈ Text.words ["Ptr", "UnoInterface", "Any"] ∨
        word ∈ method.types.flatMap TypeName.foreignTypes := by
  have passed := List.all_eq_true.1 ((isSupported_eq_all plan).symm.trans supported)
  have words :
      (plan.result :: plan.parameters).flatMap
          (fun value => Binding.typeWords value.spellings.foreign) =
        method.types.flatMap TypeName.foreignTypes := by
    rw [List.flatMap_def, List.flatMap_def]
    exact congrArg List.flatten
      (map_eq_map_of_forall₂ settles.positions fun value member _ ⟨_, settled⟩ =>
        settled.typeWords_foreign (passed value member))
  have fixed :
      Text.words ["Ptr", "UnoInterface", "Ptr", "Ptr", "Any"] ⊆
          Text.words ["Ptr", "UnoInterface", "Any"] ∧
        Text.words ["Ptr", "UnoInterface", "Any"] ⊆
          Text.words ["Ptr", "UnoInterface", "Ptr", "Ptr", "Any"] := by
    decide
  have same :
      word ∈ Text.words ["Ptr", "UnoInterface", "Ptr", "Ptr", "Any"] ↔
        word ∈ Text.words ["Ptr", "UnoInterface", "Any"] :=
    ⟨fun member => fixed.1 member, fun member => fixed.2 member⟩
  rw [Binding.typeWords_importTyping, ← words, List.flatMap_cons, List.flatMap_map,
    List.mem_append, List.mem_append, List.mem_cons, List.mem_append, same, or_left_comm,
    or_assoc, or_comm (b := word ∈ Binding.typeWords _)]

/-- The signatures of a planned method refer to the vocabulary of the method. -/
theorem mem_typeWords_iff
    (settles : plan.Settles names method)
    (word : Text) :
    word ∈ (Binding.methodExpressions plan).flatMap Binding.typeWords ↔
      word ∈ method.vocabulary := by
  have wrapper := settles.mem_typeWords_wrapperType_iff word
  rw [Binding.methodExpressions, Method.vocabulary]
  cases aggregate : method.hasAggregate with
  | true =>
      have unsupported : ¬ plan.isSupported = true := by
        rw [settles.isSupported_eq, aggregate]
        decide
      rw [if_neg unsupported, if_pos rfl, List.append_nil, List.flatMap_cons, List.flatMap_nil,
        List.append_nil, wrapper, List.mem_cons]
  | false =>
      have supported : plan.isSupported = true := by
        rw [settles.isSupported_eq, aggregate]
        rfl
      have imported := settles.mem_typeWords_importTyping_iff supported word
      rw [if_pos supported, if_neg (by decide), List.flatMap_cons, List.flatMap_cons,
        List.flatMap_nil, List.append_nil, List.mem_append, imported, wrapper, List.mem_append,
        List.mem_append, List.mem_cons, ← or_or_distrib_left, or_comm (b := word ∈ _), or_assoc]

end MethodPlan.Settles

/-- The types of an accessor refer to the vocabulary of its member. -/
theorem GetterPlan.Settles.mem_typeWords_iff
    {plan : GetterPlan}
    {names : Names}
    {member : Field}
    (settles : plan.Settles names member)
    (word : Text) :
    word ∈
        [Binding.actionType plan.value.spellings.foreign,
          Binding.actionType plan.value.spellings.wrapper].flatMap Binding.typeWords ↔
      word ∈ member.vocabulary := by
  have supported : plan.value.isSupported = true := by
    simp [PlannedValue.isSupported, settles.primitive]
  have primitive : member.type.category = .ok .primitive :=
    settles.primitive ▸ settles.value.classified
  have wrapped := settles.value.typeWords_wrapperSpelling
  rw [Binding.wrapperSpelling, if_pos supported] at wrapped
  have foreign := settles.value.typeWords_foreign supported
  rw [TypeName.foreignTypes, primitive] at foreign
  rw [Field.vocabulary, List.flatMap_cons, List.flatMap_cons, List.flatMap_nil,
    Binding.typeWords_actionType, Binding.typeWords_actionType, wrapped, foreign,
    TypeName.wrapperTypes, primitive, List.append_nil, List.mem_append, or_self]

/-! ## Entities that keep out of the vocabulary -/

/-- The name of an entity is none of those that its Haskell module takes from its imports. -/
structure Entity.AvoidsVocabulary (entity : Entity) : Prop where
  interface :
    entity.tag = .known .interface →
      entity.name.capitalize ∉
          ("Service" : Text) :: (entity.methods?.getD []).flatMap Method.vocabulary ∧
        entity.path.capitalizedName ∉
          Text.words
            ["SAL.Types", "UNO.Binary", "UNO.Service", "UNO.OUString", "Control.Monad",
              "Data.Text", "Foreign"]
  exception :
    entity.tag = .known .exception →
      entity.name.capitalize ∉
          ("Ptr" : Text) :: (Names.primitiveMembers entity).flatMap Field.vocabulary ∧
        entity.path.capitalizedName ≠ "Foreign"
  /-- The base may live in another module, but its own name is different. -/
  singleton :
    entity.tag = .known .interfaceSingleton →
      entity.name.capitalize ∉ Text.words ["Ptr", "UnoInterface", "Service", "IO"] ∧
        entity.path.capitalizedName ∉ Text.words ["UNO.Binary", "UNO.Service", "Foreign"] ∧
        ∀ base, entity.base? = some base →
          ¬ Text.AgreeUpToInitial entity.name (ModulePath.lastName ⟨base.splitAt '.'⟩)

namespace Emission

/-- The types and classes that a Haskell module takes from its imports. -/
def Parts.references : Parts → List Text
  | .methods plans =>
    ("Service" : Text) ::
      plans.flatMap fun plan => (Binding.methodExpressions plan).flatMap Binding.typeWords
  | .getters plans =>
    ("Ptr" : Text) ::
      plans.flatMap fun plan =>
        [Binding.actionType plan.value.spellings.foreign,
          Binding.actionType plan.value.spellings.wrapper].flatMap Binding.typeWords
  | .base ofBase =>
    ofBase.foreignType ::
      (Text.words ["Ptr UnoInterface", "Service", "IO", "IO (Ptr UnoInterface)"]).flatMap
        Binding.typeWords

/-- The imports of a Haskell module. -/
def Parts.imports : Parts → List Text
  | .methods _ => Binding.interfaceImports
  | .getters _ => Binding.exceptionImports
  | .base ofBase => Binding.singletonImports ++ [ofBase.foreignModule]

/-- The modules that are imported, without what is selected from them. -/
def importedModules (imports : List Text) : List Text :=
  (imports.filter fun imported => !imported.isEmpty).map fun imported =>
    imported.takeWhile (· != ' ')

/-- A Haskell module declares no type that it also takes from an import, and it does not import
itself. -/
structure Parts.KeepsApart (names : Names) (parts : Parts) : Prop where
  types : ∀ type ∈ parts.types names, type ∉ parts.references
  module : names.foreignModule ∉ importedModules parts.imports

/-- No type that an accessor refers to ends like the phantom type of an exception. -/
theorem objectType_not_mem_vocabulary
    (names : Names)
    (member : Field) :
    Binding.objectType names ∉ ("Ptr" : Text) :: member.vocabulary := by
  have table :
      ∀ name ∈ TypeName.primitiveNames,
        Text.endsWith ((TypeName.primitive? name).getD ⟨[], []⟩).haskell "Obj" = false := by
    decide
  have different :
      ∀ word ∈ ("Ptr" : Text) :: ("IO" : Text) :: member.type.wrapperTypes,
        Text.endsWith word "Obj" = false := by
    rw [List.forall_mem_cons, List.forall_mem_cons]
    refine ⟨by decide, by decide, fun word listed => ?_⟩
    rw [TypeName.wrapperTypes] at listed
    split at listed
    · rw [List.mem_singleton.1 listed]
      decide
    · rename_i primitive
      rw [List.mem_singleton.1 listed]
      exact table member.type.text (TypeName.mem_primitiveNames_of_category primitive)
    · rw [List.mem_singleton.1 listed]
      decide
    · exact absurd listed List.not_mem_nil
  intro listed
  have ends : (Binding.objectType names).endsWith "Obj" = true :=
    List.isSuffixOf_iff_suffix.2 (List.suffix_append _ _)
  rw [different _ listed] at ends
  exact Bool.false_ne_true ends

theorem hasIdentifiers_dotted
    {base : Text}
    (qualified : isQualifiedIdentifier base = true) :
    ((ModulePath.parent ⟨base.splitAt '.'⟩).child
      (ModulePath.lastName ⟨base.splitAt '.'⟩)).HasIdentifiers := by
  have whole :
      (base.splitAt '.').dropLast ++ [(base.splitAt '.').getLastD []] = base.splitAt '.' := by
    rw [List.getLastD_eq_getLast?, List.getLast?_eq_some_getLast (Text.splitAt_ne_nil '.' base),
      Option.getD_some, List.dropLast_concat_getLast]
  intro segment member
  have inBase : segment ∈ base.splitAt '.' := by
    rw [← whole]
    exact member
  exact List.all_eq_true.1 qualified segment inBase

/-- The name of a module is one word. -/
theorem isModuleName_capitalizedName
    {path : ModulePath}
    {name : Text}
    (identifiers : (path.child name).HasIdentifiers) :
    (path.child name).capitalizedName ≠ [] ∧ ' ' ∉ (path.child name).capitalizedName := by
  constructor
  · apply Text.join_ne_nil
    · simp [ModulePath.capitalizedSegments, ModulePath.child]
    · exact fun segment member =>
        ne_nil_of_isIdentifier
          (ModulePath.isIdentifier_of_mem_capitalizedSegments identifiers member)
  · intro blank
    rcases Text.mem_join blank with isDot | ⟨segment, member, inSegment⟩
    · exact absurd isDot (by decide)
    · exact not_mem_of_isIdentifier
        (ModulePath.isIdentifier_of_mem_capitalizedSegments identifiers member) (by decide)
        inSegment

/-- A singleton imports the module of its base behind the three that it always imports. -/
theorem importedModules_concat
    {module : Text}
    (isName : module ≠ [] ∧ ' ' ∉ module) :
    importedModules (Binding.singletonImports ++ [module]) =
      Text.words ["UNO.Binary", "UNO.Service", "Foreign"] ++ [module] := by
  have fixed :
      importedModules Binding.singletonImports =
        Text.words ["UNO.Binary", "UNO.Service", "Foreign"] := by
    decide
  have whole : module.takeWhile (· != ' ') = module := by
    rw [List.takeWhile_eq_self_iff]
    intro character member
    rw [bne_iff_ne]
    rintro rfl
    exact isName.2 member
  rw [← fixed, importedModules, List.filter_append, List.map_append,
    List.filter_cons_of_pos (by simpa using isName.1), List.filter_nil, List.map_singleton, whole]
  rfl

/-- A module that is named like another declares a type that is named like the other's. -/
theorem capitalize_eq_of_capitalizedName_eq
    {left right : ModulePath}
    {leftName rightName : Text}
    (leftIdentifiers : (left.child leftName).HasIdentifiers)
    (rightIdentifiers : (right.child rightName).HasIdentifiers)
    (same : (left.child leftName).capitalizedName = (right.child rightName).capitalizedName) :
    leftName.capitalize = rightName.capitalize := by
  have nonempty (path : ModulePath) (name : Text) : (path.child name).capitalizedSegments ≠ [] := by
    simp [ModulePath.capitalizedSegments, ModulePath.child]
  have free {path : ModulePath} (identifiers : path.HasIdentifiers) :
      ∀ segment ∈ path.capitalizedSegments, '.' ∉ segment :=
    fun segment member =>
      not_mem_of_isIdentifier
        (ModulePath.isIdentifier_of_mem_capitalizedSegments identifiers member) (by decide)
  have segments :=
    Text.join_injective (nonempty left leftName) (nonempty right rightName) (free leftIdentifiers)
      (free rightIdentifiers) same
  simp only [ModulePath.capitalizedSegments, ModulePath.child, List.map_append, List.map_cons,
    List.map_nil] at segments
  exact List.singleton_inj.1 (List.append_inj' segments rfl).2

/-! ## The clashes of each kind -/

theorem not_mem_flatMap_iff_of_forall₂
    {Source Target : Type}
    {relation : Source → Target → Prop}
    {sources : List Source}
    {targets : List Target}
    (related : List.Forall₂ relation sources targets)
    {word : Text}
    {sourceWords : Source → List Text}
    {targetWords : Target → List Text}
    (sameWords :
      ∀ source target, relation source target →
        (word ∈ targetWords target ↔ word ∈ sourceWords source)) :
    word ∉ targets.flatMap targetWords ↔ word ∉ sources.flatMap sourceWords := by
  simp only [List.mem_flatMap, not_exists, not_and]
  exact forall_mem_iff_of_forall₂ related fun source _ target holds =>
    not_congr (sameWords source target holds)

section Kinds

variable
  {context : Context}
  {entity : Entity}

theorem keepsApart_methods_iff
    {plans : List MethodPlan}
    (planned :
      (entity.methods?.getD []).mapM
        (MethodPlan.ofMethod (Names.ofEntity context.options entity)) = .ok plans) :
    (Parts.methods plans).KeepsApart (Names.ofEntity context.options entity) ↔
      entity.name.capitalize ∉
          ("Service" : Text) :: (entity.methods?.getD []).flatMap Method.vocabulary ∧
        entity.path.capitalizedName ∉
          Text.words
            ["SAL.Types", "UNO.Binary", "UNO.Service", "UNO.OUString", "Control.Monad",
              "Data.Text", "Foreign"] := by
  have settled :=
    ((mapM_eq_ok_iff _ _ _).1 planned).imp fun _ _ => MethodPlan.settles_of_ofMethod
  have modules :
      importedModules Binding.interfaceImports =
        Text.words
          ["SAL.Types", "UNO.Binary", "UNO.Service", "UNO.OUString", "Control.Monad",
            "Data.Text", "Foreign"] := by
    decide
  have types :
      entity.name.capitalize ∉ (Parts.methods plans).references ↔
        entity.name.capitalize ∉
          ("Service" : Text) :: (entity.methods?.getD []).flatMap Method.vocabulary := by
    rw [Parts.references, List.mem_cons, List.mem_cons, not_or, not_or]
    exact and_congr_right' (not_mem_flatMap_iff_of_forall₂ settled fun _ _ settles =>
      settles.mem_typeWords_iff _)
  rw [← types, ← modules]
  constructor
  · rintro ⟨typesApart, modulesApart⟩
    exact ⟨typesApart _ (List.mem_singleton_self _), modulesApart⟩
  · rintro ⟨typesApart, modulesApart⟩
    exact ⟨fun type member => List.mem_singleton.1 member ▸ typesApart, modulesApart⟩

theorem keepsApart_getters_iff
    {plans : List GetterPlan}
    (planned :
      planGetters (Names.ofEntity context.options entity) (entity.members?.getD []) =
        .ok plans) :
    (Parts.getters plans).KeepsApart (Names.ofEntity context.options entity) ↔
      entity.name.capitalize ∉
          ("Ptr" : Text) :: (Names.primitiveMembers entity).flatMap Field.vocabulary ∧
        entity.path.capitalizedName ≠ "Foreign" := by
  have settled := settles_of_planGetters planned
  have modules : importedModules Binding.exceptionImports = Text.words ["Foreign"] := by decide
  have types (type : Text) :
      type ∉ (Parts.getters plans).references ↔
        type ∉ ("Ptr" : Text) :: (Names.primitiveMembers entity).flatMap Field.vocabulary := by
    rw [Parts.references, List.mem_cons, List.mem_cons, not_or, not_or]
    exact and_congr_right' (not_mem_flatMap_iff_of_forall₂ settled fun _ _ settles =>
      settles.mem_typeWords_iff _)
  have object :
      Binding.objectType (Names.ofEntity context.options entity) ∉
        (Parts.getters plans).references := by
    rw [types, List.mem_cons, List.mem_flatMap, not_or]
    have outside := objectType_not_mem_vocabulary (Names.ofEntity context.options entity)
    constructor
    · exact fun same => outside ⟨[], ⟨[]⟩⟩ (same ▸ List.mem_cons_self)
    · rintro ⟨member, -, listed⟩
      exact outside member (List.mem_cons_of_mem _ listed)
  have single :
      entity.path.capitalizedName ≠ "Foreign" ↔
        entity.path.capitalizedName ∉ importedModules Binding.exceptionImports := by
    rw [modules]
    exact not_congr List.mem_singleton.symm
  rw [← types, single]
  constructor
  · rintro ⟨typesApart, modulesApart⟩
    exact ⟨typesApart _ List.mem_cons_self, modulesApart⟩
  · rintro ⟨typesApart, modulesApart⟩
    refine ⟨fun type member => ?_, modulesApart⟩
    rcases List.mem_cons.1 member with rfl | isObject
    · exact typesApart
    · exact List.mem_singleton.1 isObject ▸ object

theorem keepsApart_base_iff
    (checked : entity.check = .ok ())
    {base : Text}
    (qualified : isQualifiedIdentifier base = true) :
    (Parts.base (dottedNames context.options base)).KeepsApart
        (Names.ofEntity context.options entity) ↔
      entity.name.capitalize ∉ Text.words ["Ptr", "UnoInterface", "Service", "IO"] ∧
        entity.path.capitalizedName ∉ Text.words ["UNO.Binary", "UNO.Service", "Foreign"] ∧
        ¬ Text.AgreeUpToInitial entity.name (ModulePath.lastName ⟨base.splitAt '.'⟩) := by
  have path := hasIdentifiers_dotted qualified
  have lastNamed : isIdentifier (ModulePath.lastName ⟨base.splitAt '.'⟩) = true :=
    path _ (List.mem_append_right _ (List.mem_singleton_self _))
  have types :
      entity.name.capitalize ∉ (Parts.base (dottedNames context.options base)).references ↔
        ¬ Text.AgreeUpToInitial entity.name (ModulePath.lastName ⟨base.splitAt '.'⟩) ∧
          entity.name.capitalize ∉ Text.words ["Ptr", "UnoInterface", "Service", "IO"] := by
    rw [← Text.capitalize_eq_iff (Entity.isIdentifier_name checked) lastNamed, Parts.references,
      List.mem_cons, not_or]
    have listed :
        (Text.words ["Ptr UnoInterface", "Service", "IO", "IO (Ptr UnoInterface)"]).flatMap
            Binding.typeWords ⊆ Text.words ["Ptr", "UnoInterface", "Service", "IO"] ∧
          Text.words ["Ptr", "UnoInterface", "Service", "IO"] ⊆
            (Text.words ["Ptr UnoInterface", "Service", "IO", "IO (Ptr UnoInterface)"]).flatMap
              Binding.typeWords := by
      decide
    exact and_congr_right'
      (not_congr ⟨fun member => listed.1 member, fun member => listed.2 member⟩)
  have modules :
      entity.path.capitalizedName ∉
          importedModules (Parts.base (dottedNames context.options base)).imports ↔
        entity.path.capitalizedName ∉ Text.words ["UNO.Binary", "UNO.Service", "Foreign"] ∧
          entity.path.capitalizedName ≠ (dottedNames context.options base).foreignModule := by
    have isName :
        (dottedNames context.options base).foreignModule ≠ [] ∧
          ' ' ∉ (dottedNames context.options base).foreignModule :=
      isModuleName_capitalizedName path
    rw [Parts.imports, importedModules_concat isName, List.mem_append, not_or]
    exact and_congr_right' (not_congr List.mem_singleton)
  constructor
  · rintro ⟨typesApart, modulesApart⟩
    have apart := types.1 (typesApart _ (List.mem_singleton_self _))
    exact ⟨apart.2, (modules.1 modulesApart).1, apart.1⟩
  · rintro ⟨unlisted, notImported, different⟩
    refine ⟨fun type member => ?_, modules.2 ⟨notImported, fun same => ?_⟩⟩
    · exact List.mem_singleton.1 member ▸ types.2 ⟨different, unlisted⟩
    · exact different ((Text.capitalize_eq_iff (Entity.isIdentifier_name checked) lastNamed).1
        (capitalize_eq_of_capitalizedName_eq (Entity.hasIdentifiers_path checked) path same))

end Kinds

/-- The planned parts keep the types apart exactly when the entity avoids the vocabulary. -/
theorem Parts.IsPlanned.keepsApart_iff
    {context : Context}
    {entity : Entity}
    (checked : entity.check = .ok ())
    {parts : Parts}
    (planned : parts.IsPlanned context entity) :
    parts.KeepsApart (Names.ofEntity context.options entity) ↔ entity.AvoidsVocabulary := by
  cases planned with
  | methods interface planned =>
      rw [keepsApart_methods_iff planned]
      refine ⟨fun apart => ⟨fun _ => apart, ?_, ?_⟩, fun avoids => avoids.interface interface⟩
      · exact fun exception => absurd (interface.symm.trans exception) (by decide)
      · exact fun singleton => absurd (interface.symm.trans singleton) (by decide)
  | getters exception planned =>
      rw [keepsApart_getters_iff planned]
      refine ⟨fun apart => ⟨?_, fun _ => apart, ?_⟩, fun avoids => avoids.exception exception⟩
      · exact fun interface => absurd (exception.symm.trans interface) (by decide)
      · exact fun singleton => absurd (exception.symm.trans singleton) (by decide)
  | base singleton named qualified =>
      rw [keepsApart_base_iff checked qualified]
      constructor
      · rintro ⟨types, modules, different⟩
        refine ⟨?_, ?_, fun _ => ⟨types, modules, fun base alsoNamed => ?_⟩⟩
        · exact fun interface => absurd (singleton.symm.trans interface) (by decide)
        · exact fun exception => absurd (singleton.symm.trans exception) (by decide)
        · rw [← Option.some.inj (named.symm.trans alsoNamed)]
          exact different
      · intro avoids
        obtain ⟨types, modules, different⟩ := avoids.singleton singleton
        exact ⟨types, modules, different _ named⟩

/--
A composed Haskell module is rendered from parts that keep its types and its own name apart from
what it imports, exactly when the name of the entity is not in the vocabulary of its kind.
-/
theorem exists_keepsApart_iff_of_compose
    (context : Context)
    (entity : Entity)
    (texts : Texts)
    (composed : compose context entity = .ok texts) :
    ∃ parts : Parts,
      parts.IsPlanned context entity ∧
        texts.binding =
          tidyEnd
            (parts.texts context.options (Names.ofEntity context.options entity)).binding ∧
        (parts.KeepsApart (Names.ofEntity context.options entity) ↔
          entity.AvoidsVocabulary) := by
  obtain ⟨checked, parts, planned, binding⟩ := exists_parts_of_compose composed
  exact ⟨parts, planned, binding, planned.keepsApart_iff checked⟩

/-- A singleton over a base that is not registered. -/
def singletonOver (name base : Text) : Entity :=
  ⟨name, ⟨["a"]⟩, .known .interfaceSingleton, none, none, some base⟩

theorem exists_compose_bareInterface
    {name : Text}
    (checked : (Entity.bareInterface name).check = .ok ()) :
    ∃ texts, compose ⟨.default, .empty⟩ (.bareInterface name) = .ok texts := by
  apply exists_compose_of_plans checked rfl
  exact (mapM_eq_ok_iff _ _ []).2 .nil

theorem exists_compose_singletonOver
    {name base : Text}
    (checked : (singletonOver name base).check = .ok ()) :
    ∃ texts, compose ⟨.default, .empty⟩ (singletonOver name base) = .ok texts := by
  apply (compose_of_singleton ⟨.default, .empty⟩ checked rfl).2
  rintro ⟨other, registered, -, found, -⟩
  exact absurd found (by simp [Registry.find?, Registry.empty])

/-- A singleton that is named after its base, but not like it. -/
theorem exists_keepsApart_theWidget :
    ∃ texts,
      compose ⟨.default, .empty⟩ (singletonOver "theWidget" "a.Widget") = .ok texts ∧
        ∃ parts : Parts,
          parts.IsPlanned ⟨.default, .empty⟩ (singletonOver "theWidget" "a.Widget") ∧
            parts.KeepsApart
              (Names.ofEntity .default (singletonOver "theWidget" "a.Widget")) := by
  obtain ⟨texts, composed⟩ :=
    exists_compose_singletonOver
      (show (singletonOver "theWidget" "a.Widget").check = .ok () from rfl)
  obtain ⟨parts, planned, -, exactly⟩ :=
    exists_keepsApart_iff_of_compose ⟨.default, .empty⟩ _ texts composed
  have avoids : (singletonOver "theWidget" "a.Widget").AvoidsVocabulary := by
    refine ⟨fun interface => absurd interface (by decide),
      fun exception => absurd exception (by decide), fun _ => ⟨by decide, by decide, ?_⟩⟩
    intro base named
    obtain rfl := Option.some.inj named
    decide
  exact ⟨texts, composed, parts, planned, exactly.2 avoids⟩

/-- An entity is composed although its Haskell module declares a type that it imports, or imports
itself. -/
def HasClash
    (context : Context)
    (entity : Entity) : Prop :=
  ∃ texts,
    compose context entity = .ok texts ∧
      ∀ parts : Parts,
        parts.IsPlanned context entity →
          ¬ parts.KeepsApart (Names.ofEntity context.options entity)

theorem hasClash_of_not_avoidsVocabulary
    {context : Context}
    {entity : Entity}
    (composed : ∃ texts, compose context entity = .ok texts)
    (listed : ¬ entity.AvoidsVocabulary) :
    HasClash context entity := by
  obtain ⟨texts, composed⟩ := composed
  have checked := (exists_parts_of_compose composed).1
  exact ⟨texts, composed, fun parts planned apart =>
    listed ((planned.keepsApart_iff checked).1 apart)⟩

/-- The interface `Service` declares the class that it also imports; the singleton `widget` over
`Widget` imports its own module; and a singleton may share the name of a base elsewhere. -/
theorem hasClash_service_and_widgets :
    HasClash ⟨.default, .empty⟩ (.bareInterface "Service") ∧
      HasClash ⟨.default, .empty⟩ (singletonOver "widget" "a.Widget") ∧
      HasClash ⟨.default, .empty⟩ (singletonOver "Widget" "b.Widget") := by
  refine ⟨?_, ?_, ?_⟩
  · apply hasClash_of_not_avoidsVocabulary (exists_compose_bareInterface rfl)
    exact fun avoids => (avoids.interface rfl).1 (by decide)
  · apply hasClash_of_not_avoidsVocabulary (exists_compose_singletonOver rfl)
    exact fun avoids => (avoids.singleton rfl).2.2 _ rfl (by decide)
  · apply hasClash_of_not_avoidsVocabulary (exists_compose_singletonOver rfl)
    exact fun avoids => (avoids.singleton rfl).2.2 _ rfl (by decide)

end Emission

end UnoBindgen
