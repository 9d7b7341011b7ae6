import Mathlib
import UnoBindgen.Proofs.Emission.Declarations
import UnoBindgen.Proofs.Registry.Acceptance

/-!
# Singletons and the interfaces that they are typed as

A singleton only knows the dotted name of its base.  The names that its artifacts mention are
derived from that name alone, while the artifacts of the base derive theirs from its description.

The main theorem states that the two agree for every registered base: the singleton imports the
module that the binding of the base declares, it is an instance of the class that stands in that
module, and its constructor hands out references to the type that the shims of the base take.
-/

namespace UnoBindgen.Emission

open Text

/-! ## Names of a registered base -/

theorem splitAt_fullName
    {entity : Entity}
    (checked : entity.check = .ok ()) :
    entity.fullName.splitAt '.' = entity.path.segments := by
  have free : ∀ segment ∈ entity.path.segments, '.' ∉ segment := by
    intro segment member
    exact not_mem_of_isIdentifier (Entity.hasIdentifiers_path checked segment member) (by decide)
  have nonempty : entity.path.segments ≠ [] := by simp [Entity.path, ModulePath.child]
  exact splitAt_join nonempty free

/-- The dotted name of a checked entity is read back as its path. -/
theorem parse_fullName
    {entity : Entity}
    (checked : entity.check = .ok ()) :
    ModulePath.parse entity.fullName = .ok entity.path :=
  (ModulePath.parse_eq_ok_iff entity.fullName entity.path).2
    ⟨Entity.hasIdentifiers_path checked, rfl⟩

theorem derive_path
    (options : NamingOptions)
    (entity : Entity) :
    Names.derive options entity.path.parent entity.path.lastName =
      Names.ofEntity options entity := by
  have parent : entity.path.parent = entity.module := by
    simp [Entity.path, ModulePath.child, ModulePath.parent]
  have lastName : entity.path.lastName = entity.name := by
    simp [Entity.path, ModulePath.child, ModulePath.lastName]
  rw [parent, lastName]
  rfl

/-- The names derived from the dotted name of a checked entity are its own. -/
theorem dottedNames_fullName
    (options : NamingOptions)
    {entity : Entity}
    (checked : entity.check = .ok ()) :
    dottedNames options entity.fullName = Names.ofEntity options entity := by
  rw [dottedNames, splitAt_fullName checked]
  exact derive_path options entity

/-- Registered entities have different names. -/
theorem eq_of_fullName_eq
    {entities : List Entity}
    {registry : Registry}
    (accepted : Registry.ofEntities entities = .ok registry)
    {left right : Entity}
    (leftMember : left ∈ entities)
    (rightMember : right ∈ entities)
    (same : left.fullName = right.fullName) :
    left = right := by
  by_contra different
  have apart := ((Registry.ofEntities_eq_ok_iff entities registry).1 accepted).1
  exact (apart.forall leftMember rightMember different).fullNames same

/-! ## The lines of a singleton's binding -/

/-- The lines of a singleton's binding that declare its handle and make it an instance. -/
def handleLines (handle baseClass : Text) : List Text :=
  (("data " : Text) ++ handle ++ " = " ++ handle ++ " (Ptr UnoInterface)") ::
  [] ::
  (("instance " : Text) ++ "Service" ++ " " ++ handle ++ " where") ::
  (("    getInterface (" : Text) ++ handle ++ " ptr) = ptr") ::
  [] ::
  (("instance " : Text) ++ baseClass ++ " " ++ handle ++ " where") ::
  [[]]

/-- The lines of a singleton's binding that obtain it. -/
def constructorLines (names : Names) : List Text :=
  (names.constructorWrapperName ++ " :: IO " ++ names.foreignType) ::
  (names.constructorWrapperName ++ " = " ++ names.foreignType ++ " <$> " ++
    names.constructorImportName) ::
  [[]]

/-- The lines of a singleton's binding that import its constructor. -/
def constructorImportLines (names : Names) : List Text :=
  (("foreign import ccall \"" : Text) ++ names.constructorSymbol ++ "\" " ++
    names.constructorImportName) ::
  ("    :: IO (Ptr UnoInterface)" : Text) ::
  [[]]

theorem singletonType_eq_unlines
    (names : Names)
    (baseClass : Text) :
    Binding.singletonType names baseClass = unlines (handleLines names.foreignType baseClass) := by
  have data : (" (Ptr UnoInterface)\n\n" : Text) = " (Ptr UnoInterface)" ++ '\n' :: ['\n'] := by simp
  have service : ("instance Service " : Text) = "instance " ++ ("Service" ++ " ") := by simp
  have opened : (" where\n" : Text) = " where" ++ ['\n'] := by simp
  have pointer : (" ptr) = ptr\n\n" : Text) = " ptr) = ptr" ++ '\n' :: ['\n'] := by simp
  have closed : (" where\n\n" : Text) = " where" ++ '\n' :: ['\n'] := by simp
  delta Binding.singletonType handleLines
  dsimp only
  rw [data, service, opened, pointer, closed]
  simp [unlines]

theorem constructorWrapper_eq_unlines (names : Names) :
    Binding.constructorWrapper names = unlines (constructorLines names) := by
  have ending (text : Text) : text ++ ("\n\n" : Text) = text ++ '\n' :: ['\n'] := rfl
  have single : ("\n" : Text) = ['\n'] := rfl
  delta Binding.constructorWrapper constructorLines
  dsimp only
  rw [ending, single]
  simp [unlines]

theorem constructorImport_eq_unlines (names : Names) :
    Binding.constructorImport names = unlines (constructorImportLines names) := by
  have single : ("\n    :: " : Text) = '\n' :: "    :: " := by simp
  have ending : ("\n\n" : Text) = '\n' :: ['\n'] := rfl
  have typing :
      ("    :: IO (Ptr UnoInterface)" : Text) = "    :: " ++ "IO (Ptr UnoInterface)" := by simp
  delta Binding.constructorImport Binding.importDeclaration constructorImportLines
  rw [single, ending, typing]
  simp [unlines]

/-- Everything in a singleton's binding up to the import of its constructor. -/
def frontLines (names base : Names) : List Text :=
  headerLines names.foreignModule (Binding.singletonImports ++ [base.foreignModule]) ++
    (handleLines names.foreignType base.foreignType ++ constructorLines names)

theorem binding_singletonTexts
    (names base : Names)
    (nativeContext : Text) :
    (singletonTexts names base nativeContext).binding =
      unlines (frontLines names base) ++ unlines (constructorImportLines names) := by
  have header := moduleHeader_eq_unlines names.foreignModule
    (Binding.singletonImports ++ [base.foreignModule])
  rw [singletonTexts, header, singletonType_eq_unlines, constructorWrapper_eq_unlines,
    constructorImport_eq_unlines, frontLines]
  simp only [unlines_append, List.append_assoc]

/-! ## What a singleton's binding says -/

theorem instanceOf?_headLine (imported : Text) : instanceOf? (headLine imported) = none := by
  rw [headLine]
  split <;> rfl

/-- A line that starts with another word declares no instance. -/
theorem instanceOf?_of_word
    {word : Text}
    (noBlank : ' ' ∉ word)
    (other : word ≠ "instance")
    (rest : Text) :
    instanceOf? (word ++ ' ' :: rest) = none := by
  cases dropped : dropInitial? (word ++ ' ' :: rest) "instance " with
  | none => rw [instanceOf?, dropped]; rfl
  | some behind =>
      have split : word ++ ' ' :: rest = ("instance" : Text) ++ ' ' :: behind := by
        rw [eq_append_of_dropInitial? dropped]
        simp
      have cut := cutAt?_append noBlank rest
      rw [split, cutAt?_append (by decide)] at cut
      exact absurd (Prod.mk.inj (Option.some.inj cut)).1.symm other

section Singleton

variable {names base : Names}

theorem constructorWrapperName_word
    (words : HasNameWords names) :
    ' ' ∉ names.constructorWrapperName ∧ '\n' ∉ names.constructorWrapperName ∧
      names.constructorWrapperName ≠ "instance" := by
  have small := Text.isIdentifier_uncapitalize words.nameIdentifier
  have function : Names.constructorFunction.capitalize = "New" := by decide
  have noBlank : ' ' ∉ names.name.uncapitalize := not_mem_of_isIdentifier small (by decide)
  have noLineFeed : '\n' ∉ names.name.uncapitalize := not_mem_of_isIdentifier small (by decide)
  rw [Names.constructorWrapperName, function]
  refine ⟨by simp [noBlank], by simp [noLineFeed], fun same => ?_⟩
  have last := congrArg List.getLast? same
  rw [List.getLast?_append_of_ne_nil _ (by decide)] at last
  exact absurd last (by decide)

theorem lineFeed_not_mem_constructorImportName (words : HasNameWords names) :
    '\n' ∉ names.constructorImportName := by
  have capital := Text.isIdentifier_capitalize words.nameIdentifier
  have noLineFeed : '\n' ∉ names.name.capitalize := not_mem_of_isIdentifier capital (by decide)
  have function : '\n' ∉ Names.constructorFunction := by decide
  rw [Names.constructorImportName]
  simp [noLineFeed, function]

theorem instances_headerLines
    (module : Text)
    (imports : List Text) :
    (headerLines module imports).filterMap instanceOf? = [] := by
  rw [List.filterMap_eq_nil_iff]
  intro line member
  simp only [headerLines, List.mem_cons, List.mem_append, List.mem_map] at member
  rcases member with rfl | rfl | ⟨imported, -, rfl⟩ | rfl | nothing
  · rfl
  · rfl
  · exact instanceOf?_headLine imported
  · rfl
  · exact absurd nothing List.not_mem_nil

theorem instances_frontLines
    (words : HasNameWords names)
    (baseWords : HasNameWords base) :
    (frontLines names base).filterMap instanceOf? =
      [(("Service" : Text), names.foreignType), (base.foreignType, names.foreignType)] := by
  have wrapper := constructorWrapperName_word words
  have header :=
    instances_headerLines names.foreignModule (Binding.singletonImports ++ [base.foreignModule])
  have empty : instanceOf? [] = none := rfl
  have data :
      instanceOf?
        (("data " : Text) ++ names.foreignType ++ " = " ++ names.foreignType ++
          " (Ptr UnoInterface)") = none := rfl
  have pointer :
      instanceOf? (("    getInterface (" : Text) ++ names.foreignType ++ " ptr) = ptr") = none :=
    rfl
  have service := instanceOf?_line (show ' ' ∉ ("Service" : Text) by decide) words.typeWord.1
  have ofBase := instanceOf?_line baseWords.typeWord.1 words.typeWord.1
  have typing :
      instanceOf? (names.constructorWrapperName ++ " :: IO " ++ names.foreignType) = none := by
    rw [List.append_assoc]
    exact instanceOf?_of_word wrapper.1 wrapper.2.2 _
  have equation :
      instanceOf?
        (names.constructorWrapperName ++ " = " ++ names.foreignType ++ " <$> " ++
          names.constructorImportName) = none := by
    simp only [List.append_assoc]
    exact instanceOf?_of_word wrapper.1 wrapper.2.2 _
  rw [frontLines, List.filterMap_append, header, handleLines, constructorLines]
  simp only [List.filterMap_cons, List.filterMap_append, List.filterMap_nil, empty, data, pointer,
    service, ofBase, typing, equation, List.nil_append, List.append_nil]

theorem lineFeed_not_mem_frontLines
    (words : HasNameWords names)
    (baseWords : HasNameWords base) :
    ∀ line ∈ frontLines names base, '\n' ∉ line := by
  have type := words.typeWord.2
  have baseType := baseWords.typeWord.2
  have wrapper := (constructorWrapperName_word words).2.1
  have importName := lineFeed_not_mem_constructorImportName words
  have importsWhole :
      ∀ imported ∈ Binding.singletonImports ++ [base.foreignModule], '\n' ∉ imported := by
    rw [List.forall_mem_append, List.forall_mem_singleton]
    exact ⟨by decide, baseWords.moduleWord.2.1⟩
  have header := lineFeed_not_mem_headerLines words.moduleWord.2.1 importsWhole
  rw [frontLines, List.forall_mem_append, handleLines, constructorLines]
  refine ⟨header, ?_⟩
  simp [type, baseType, wrapper, importName]

/-- The binding of a singleton imports the module of its base behind the three that it always
imports. -/
theorem importsOf_singletonTexts
    (words : HasNameWords names)
    (baseWords : HasNameWords base)
    (nativeContext : Text) :
    importsOf (singletonTexts names base nativeContext).binding =
      Text.words ["UNO.Binary", "UNO.Service", "Foreign"] ++ [base.foreignModule] := by
  have importsWhole :
      ∀ imported ∈ Binding.singletonImports ++ [base.foreignModule], '\n' ∉ imported := by
    rw [List.forall_mem_append, List.forall_mem_singleton]
    exact ⟨by decide, baseWords.moduleWord.2.1⟩
  have firstWhole :
      '\n' ∉ ("data " : Text) ++ names.foreignType ++ " = " ++ names.foreignType ++
        " (Ptr UnoInterface)" := by
    simp [words.typeWord.2]
  have split :
      (singletonTexts names base nativeContext).binding =
        Binding.moduleHeader names.foreignModule
            (Binding.singletonImports ++ [base.foreignModule]) ++
          ((("data " : Text) ++ names.foreignType ++ " = " ++ names.foreignType ++
              " (Ptr UnoInterface)") ++
            '\n' :: (unlines (handleLines names.foreignType base.foreignType).tail ++
              Binding.constructorWrapper names ++ Binding.constructorImport names)) := by
    have first (rest : List Text) :
        unlines
            ((("data " : Text) ++ names.foreignType ++ " = " ++ names.foreignType ++
              " (Ptr UnoInterface)") :: rest) =
          (("data " : Text) ++ names.foreignType ++ " = " ++ names.foreignType ++
            " (Ptr UnoInterface)") ++ '\n' :: unlines rest :=
      unlines_cons _ rest
    have handle := first (handleLines names.foreignType base.foreignType).tail
    have whole :
        (("data " : Text) ++ names.foreignType ++ " = " ++ names.foreignType ++
            " (Ptr UnoInterface)") :: (handleLines names.foreignType base.foreignType).tail =
          handleLines names.foreignType base.foreignType := rfl
    rw [whole] at handle
    rw [singletonTexts, singletonType_eq_unlines, handle]
    simp only [List.append_assoc, List.cons_append]
  rw [split, importsOf_moduleHeader words.moduleWord.2.1 importsWhole firstWhole rfl,
    importedModules_concat ⟨baseWords.moduleWord.2.2, baseWords.moduleWord.1⟩]

/-- The instances that a singleton's binding declares before it imports its constructor. -/
theorem instances_prefix_singletonTexts
    (words : HasNameWords names)
    (baseWords : HasNameWords base)
    (nativeContext : Text) :
    [(("Service" : Text), names.foreignType), (base.foreignType, names.foreignType)] <+:
      readLines instanceOf? (singletonTexts names base nativeContext).binding := by
  rw [binding_singletonTexts, readLines,
    lines_unlines_append (lineFeed_not_mem_frontLines words baseWords), List.filterMap_append,
    instances_frontLines words baseWords]
  exact List.prefix_append _ _

theorem instances_singletonTexts
    (words : HasNameWords names)
    (baseWords : HasNameWords base)
    (symbolWhole : '\n' ∉ names.constructorSymbol)
    (nativeContext : Text) :
    readLines instanceOf? (singletonTexts names base nativeContext).binding =
      [(("Service" : Text), names.foreignType), (base.foreignType, names.foreignType)] := by
  have front := lineFeed_not_mem_frontLines words baseWords
  have importName := lineFeed_not_mem_constructorImportName words
  have whole :
      ∀ line ∈ frontLines names base ++ constructorImportLines names, '\n' ∉ line := by
    rw [List.forall_mem_append]
    refine ⟨front, ?_⟩
    delta constructorImportLines
    simp [symbolWhole, importName]
  rw [binding_singletonTexts, ← unlines_append, readLines_unlines rfl whole,
    List.filterMap_append, instances_frontLines words baseWords, constructorImportLines]
  rfl

/-! ## What a singleton's constructor hands out -/

/-- The lines of a singleton's implementation up to the body of its constructor. -/
def linesBeforeReference (names : Names) : List Text :=
  [ ("#include \"" : Text) ++ names.ownHeader ++ "\"",
    ("#include \"" : Text) ++ Native.supportHeader ++ "\"",
    ("#include <" : Text) ++ names.nativeHeader ++ ">",
    ("#include <" : Text) ++ Native.referenceHeader ++ ">",
    [],
    Native.externLine,
    ("void * " : Text) ++ names.constructorSymbol ++ "()",
    ("\x7b" : Text) ]

/-- The line in which a constructor hands out its singleton. -/
def referenceLine (names base : Names) (nativeContext : Text) : Text :=
  ("    return new " : Text) ++ Names.referenceType base.qualified ++ "(" ++
    (names.qualified ++ "::get(" ++ nativeContext ++ "));")

theorem implementation_singletonTexts
    (names base : Names)
    (nativeContext : Text) :
    (singletonTexts names base nativeContext).implementation =
      unlines (linesBeforeReference names) ++
        unlines [referenceLine names base nativeContext, ("\x7d" : Text), []] := by
  have announced : ("extern \"C\"\n" : Text) = Native.externLine ++ ['\n'] := rfl
  have result : ("void * " : Text) = "void *" ++ " " := by simp
  have parameters : ("()" : Text) = "(" ++ (join ", " [] ++ ")") := by simp
  have opened :
      ("\n\x7b\n    return new " : Text) = '\n' :: ("\x7b" ++ '\n' :: "    return new ") := by simp
  have closed : ("));\n\x7d\n\n" : Text) = "));" ++ '\n' :: ("\x7d" ++ '\n' :: ['\n']) := by simp
  have blank : ("\n" : Text) = ['\n'] := rfl
  delta singletonTexts Native.constructorShim Native.constructorSignature Native.externC
    linesBeforeReference referenceLine
  dsimp only
  rw [Native.includeLocal_eq, Native.includeLocal_eq, Native.includeSystem_eq,
    Native.includeSystem_eq, announced, result, parameters, opened, closed, blank]
  simp [unlines]

theorem mem_referred_singletonTexts
    (baseWords : HasNameWords base)
    (nativeContext : Text) :
    base.qualified ∈
      readLines referredOf? (singletonTexts names base nativeContext).implementation := by
  have qualified := baseWords.qualifiedWord
  have opening :
      '\n' ∉ ("    return new " : Text) ++ Names.referenceType base.qualified ++ "(" := by
    delta Names.referenceType
    simp [qualified.2]
  obtain ⟨rest, split⟩ :
      ∃ rest : Text,
        unlines [referenceLine names base nativeContext, ("\x7d" : Text), []] =
          ("    return new " : Text) ++ Names.referenceType base.qualified ++ "(" ++ rest := by
    delta referenceLine
    rw [unlines_cons, List.append_assoc]
    exact ⟨_, rfl⟩
  -- the component context may run over several lines
  obtain ⟨line, others, -, continued⟩ := exists_lines_append opening rest
  have present :
      ("    return new " : Text) ++ Names.referenceType base.qualified ++ "(" ++ line ∈
        lines (unlines [referenceLine names base nativeContext, ("\x7d" : Text), []]) := by
    rw [split, continued]
    exact List.mem_cons_self
  rw [implementation_singletonTexts]
  exact List.mem_filterMap.2
    ⟨_, mem_lines_unlines_append present _,
      referenceBetween?_line qualified.1 "    return new " "(" line⟩

theorem referred_singletonTexts
    (inline : names.IsInline)
    (baseWords : HasNameWords base)
    (symbolWhole : '\n' ∉ names.constructorSymbol)
    {nativeContext : Text}
    (contextWhole : '\n' ∉ nativeContext) :
    readLines referredOf? (singletonTexts names base nativeContext).implementation =
      [base.qualified] := by
  have qualified := baseWords.qualifiedWord
  have ownHeader := inline.ownHeader
  have nativeHeader := inline.nativeHeader.lineFeed_not_mem
  have own := inline.qualified.lineFeed_not_mem
  have referenceWhole : '\n' ∉ referenceLine names base nativeContext := by
    delta referenceLine Names.referenceType
    simp [qualified.2, own, contextWhole]
  have frontWhole : ∀ line ∈ linesBeforeReference names, '\n' ∉ line := by
    have supportHeader : '\n' ∉ Native.supportHeader := by decide
    have referenceHeader : '\n' ∉ Native.referenceHeader := by decide
    have externLine : '\n' ∉ Native.externLine := by decide
    delta linesBeforeReference
    simp [ownHeader, nativeHeader, symbolWhole, supportHeader, referenceHeader, externLine]
  have frontUnread : (linesBeforeReference names).filterMap referredOf? = [] := by
    rw [List.filterMap_eq_nil_iff]
    delta linesBeforeReference
    simp only [List.forall_mem_cons]
    exact ⟨rfl, rfl, rfl, rfl, rfl, rfl, rfl, rfl, by simp⟩
  have read : referredOf? (referenceLine names base nativeContext) = some base.qualified :=
    referenceBetween?_line qualified.1 "    return new " "(" _
  rw [implementation_singletonTexts, ← unlines_append, readLines_unlines rfl,
    List.filterMap_append, frontUnread, List.filterMap_cons_some read]
  · rfl
  · rw [List.forall_mem_append]
    refine ⟨frontWhole, ?_⟩
    simp [referenceWhole]

end Singleton

/-! ## References to a base -/

/-- The artifacts of a singleton refer to an interface with these names. -/
structure RefersTo
    (options : NamingOptions)
    (singleton : Entity)
    (texts : Texts)
    (base : Names) : Prop where
  /-- The module of the interface is imported behind the three that every singleton imports. -/
  imports :
    importsOf texts.binding =
      words ["UNO.Binary", "UNO.Service", "Foreign"] ++ [base.foreignModule]
  /-- The first instances are that of the services and that of the interface. -/
  instances :
    [(("Service" : Text), (Names.ofEntity options singleton).foreignType),
        (base.foreignType, (Names.ofEntity options singleton).foreignType)] <+:
      readLines instanceOf? texts.binding
  onlyInstances :
    options.IsSingleLine →
      readLines instanceOf? texts.binding =
        [(("Service" : Text), (Names.ofEntity options singleton).foreignType),
          (base.foreignType, (Names.ofEntity options singleton).foreignType)]
  /-- The constructor hands out references to the type of the interface. -/
  referred : base.qualified ∈ readLines referredOf? texts.implementation
  onlyReferred :
    options.IsSingleLine → readLines referredOf? texts.implementation = [base.qualified]

theorem constructorSymbol_whole
    {options : NamingOptions}
    (singleLine : options.IsSingleLine)
    {entity : Entity}
    (checked : entity.check = .ok ()) :
    '\n' ∉ (Names.ofEntity options entity).constructorSymbol := by
  have stem := (Names.isInline_ofEntity singleLine checked).symbolStem
  have function : '\n' ∉ Names.constructorFunction := by decide
  simp [Names.constructorSymbol, Names.callSymbol, stem, function]

/-- The artifacts of a singleton refer to what its base is called. -/
theorem refersTo_of_compose
    {context : Context}
    {singleton : Entity}
    {texts : Texts}
    (composed : compose context singleton = .ok texts)
    (tag : singleton.tag = .known .interfaceSingleton)
    {base : Text}
    (named : singleton.base? = some base) :
    RefersTo context.options singleton texts (dottedNames context.options base) := by
  obtain ⟨checked, parts, planned, tidied⟩ := exists_parts_get_of_compose composed
  cases planned with
  | methods interface => exact absurd (interface.symm.trans tag) (by decide)
  | getters exception => exact absurd (exception.symm.trans tag) (by decide)
  | @base other _ otherNamed qualified =>
      obtain rfl := Option.some.inj (named.symm.trans otherNamed)
      have words := hasNameWords_ofEntity context.options checked
      have baseWords : HasNameWords (dottedNames context.options base) :=
        hasNameWords_derive context.options (hasIdentifiers_dotted qualified)
      have binding := tidied .binding
      have implementation := tidied .implementation
      simp only [Texts.get, Parts.texts] at binding implementation
      have instances :
          readLines instanceOf? texts.binding =
            readLines instanceOf?
              (singletonTexts (Names.ofEntity context.options singleton)
                (dottedNames context.options base) context.options.nativeContext).binding := by
        rw [binding]
        exact readLines_tidied rfl _
      have referred :
          readLines referredOf? texts.implementation =
            readLines referredOf?
              (singletonTexts (Names.ofEntity context.options singleton)
                (dottedNames context.options base)
                context.options.nativeContext).implementation := by
        rw [implementation]
        exact readLines_tidied rfl _
      refine
        { imports := ?_
          instances := ?_
          onlyInstances := fun singleLine => ?_
          referred := ?_
          onlyReferred := fun singleLine => ?_ }
      · rw [binding, importsOf_tidyEnd]
        exact importsOf_singletonTexts words baseWords _
      · rw [instances]
        exact instances_prefix_singletonTexts words baseWords _
      · rw [instances]
        exact instances_singletonTexts words baseWords
          (constructorSymbol_whole singleLine checked) _
      · rw [referred]
        exact mem_referred_singletonTexts baseWords _
      · rw [referred]
        exact referred_singletonTexts (Names.isInline_ofEntity singleLine checked) baseWords
          (constructorSymbol_whole singleLine checked)
          (singleLine _ (by simp [NamingOptions.texts]))

/-- The base that is looked up for a singleton is described under the path that the singleton
knows it by. -/
theorem eq_path_of_find?
    {registry : Registry}
    {dotted : Text}
    {path : ModulePath}
    (parsed : ModulePath.parse dotted = .ok path)
    (qualified : isQualifiedIdentifier dotted = true)
    {base : Entity}
    (checked : base.check = .ok ())
    (found : registry.find? path.name = some base) :
    path = base.path ∧ base.fullName = dotted := by
  have named : path.name = dotted := by
    rw [ModulePath.parse_of_isQualifiedIdentifier qualified] at parsed
    rw [← Except.ok.inj parsed, ModulePath.name_splitAt]
  have same : base.fullName = dotted := (fullName_of_find? found).trans named
  have reparsed := parse_fullName checked
  rw [same, parsed] at reparsed
  exact ⟨Except.ok.inj reparsed, same⟩

/-- The artifacts of a singleton and those of its base agree on the names of the base. -/
structure Agrees
    (options : NamingOptions)
    (registry : Registry)
    (singleton base : Entity)
    (path : ModulePath)
    (texts : Texts) : Prop where
  interface : base.tag = .known .interface
  samePath : path = base.path
  sameNames : Names.derive options path.parent path.lastName = Names.ofEntity options base
  refers : RefersTo options singleton texts (Names.ofEntity options base)
  declares :
    ∀ baseTexts, compose ⟨options, registry⟩ base = .ok baseTexts → Declares options base baseTexts

/--
Among registered entities, a singleton and its base agree: the names that the singleton derives
from the dotted name of its base are those of the base itself, so the module that it imports, the
class that it instantiates and the references that it hands out are those of the base's artifacts.
No other registered entity has the name of the base.
-/
theorem agrees_and_unique_of_compose
    (options : NamingOptions)
    (entities : List Entity)
    (registry : Registry)
    (checked : ∀ entity ∈ entities, entity.check = .ok ())
    (accepted : Registry.ofEntities entities = .ok registry)
    (singleton base : Entity)
    (texts : Texts)
    (dotted : Text)
    (path : ModulePath)
    (member : singleton ∈ entities)
    (tag : singleton.tag = .known .interfaceSingleton)
    (composed : compose ⟨options, registry⟩ singleton = .ok texts)
    (named : singleton.base? = some dotted)
    (parsed : ModulePath.parse dotted = .ok path)
    (found : registry.find? path.name = some base) :
    Agrees options registry singleton base path texts ∧
      base ∈ entities ∧ ∀ other ∈ entities, other.fullName = dotted → other = base := by
  obtain ⟨stated, statedNamed, statedQualified⟩ := Entity.exists_base (checked singleton member) tag
  have qualified : isQualifiedIdentifier dotted = true := by
    obtain rfl := Option.some.inj (named.symm.trans statedNamed)
    exact statedQualified
  have sameEntities : registry.entities = entities := by
    rw [((Registry.ofEntities_eq_ok_iff entities registry).1 accepted).2]
  have baseMember : base ∈ entities := by
    rw [← sameEntities]
    exact List.mem_of_find?_eq_some found
  have baseChecked := checked base baseMember
  obtain ⟨samePath, sameName⟩ := eq_path_of_find? parsed qualified baseChecked found
  have interface : base.tag = .known .interface := by
    by_contra other
    have foundDotted : registry.find? dotted = some base := by
      rw [samePath] at found
      rw [← sameName]
      exact found
    have refused :=
      (compose_of_singleton ⟨options, registry⟩ (checked singleton member) tag).1
        ⟨dotted, base, named, foundDotted, other⟩
    exact refused.not_composed ⟨texts, composed⟩
  have refers := refersTo_of_compose composed tag named
  rw [← sameName, dottedNames_fullName options baseChecked] at refers
  refine ⟨?_, baseMember, fun other otherMember same => ?_⟩
  · exact
      { interface := interface
        samePath := samePath
        sameNames := samePath ▸ derive_path options base
        refers := refers
        declares := fun baseTexts baseComposed => declares_of_compose interface baseComposed }
  · exact eq_of_fullName_eq accepted otherMember baseMember (same.trans sameName.symm)

/-- A singleton over an interface with a method that can be called. -/
theorem agrees_theLabel :
    ∃ (registry : Registry) (texts baseTexts : Texts),
      Registry.ofEntities [labelInterface, singletonOver "theLabel" "a.b.Label"] = .ok registry ∧
        compose ⟨.default, registry⟩ (singletonOver "theLabel" "a.b.Label") = .ok texts ∧
        compose ⟨.default, registry⟩ labelInterface = .ok baseTexts ∧
        Agrees .default registry (singletonOver "theLabel" "a.b.Label") labelInterface
          ⟨["a", "b", "Label"]⟩ texts := by
  let registry : Registry := ⟨[labelInterface, singletonOver "theLabel" "a.b.Label"]⟩
  obtain ⟨baseTexts, baseComposed⟩ := exists_compose_labelInterface
  have found : registry.find? "a.b.Label" = some labelInterface := rfl
  obtain ⟨texts, composed⟩ :
      ∃ texts,
        compose ⟨.default, registry⟩ (singletonOver "theLabel" "a.b.Label") = .ok texts := by
    apply (compose_of_singleton ⟨.default, registry⟩ rfl rfl).2
    rintro ⟨dotted, base, named, baseFound, other⟩
    obtain rfl := Option.some.inj named
    obtain rfl := Option.some.inj (found.symm.trans baseFound)
    exact other rfl
  refine ⟨registry, texts, baseTexts, rfl, composed, baseComposed, ?_⟩
  refine (agrees_and_unique_of_compose .default
    [labelInterface, singletonOver "theLabel" "a.b.Label"] registry ?_ rfl
    (singletonOver "theLabel" "a.b.Label") labelInterface texts "a.b.Label"
    ⟨["a", "b", "Label"]⟩ (by simp) rfl composed rfl rfl rfl).1
  simp only [List.forall_mem_cons]
  exact ⟨rfl, rfl, by simp⟩

end UnoBindgen.Emission
