import Mathlib
import UnoBindgen.Proofs.Naming.Vocabulary
import UnoBindgen.Proofs.Emission.ArgumentArray
import UnoBindgen.Proofs.Emission.WrapperReading

/-!
# What generated files declare

The artifacts of one entity mention those of another: a binding imports the module of another one
and makes its type an instance of a class declared there, and a constructor hands out references
that the shims of an interface take back.  Here such lines are read back from the generated texts.

An interface declares its module in the first line of its binding, one class behind the foreign
imports, and in each shim the type of the references that it takes.
-/

namespace UnoBindgen.Emission

open Text

/-! ## Reading what artifacts declare and refer to -/

/-- The module that a line declares. -/
def moduleOf? (line : Text) : Option Text := do
  let rest ← line.dropInitial? "module "
  let (module, behind) ← rest.cutAt? ' '
  if behind = "where" then some module else none

/-- The module that a line imports. -/
def importOf? (line : Text) : Option Text :=
  (line.dropInitial? "import ").map fun rest => rest.takeWhile (· != ' ')

/-- The class that a line declares. -/
def classOf? (line : Text) : Option Text := do
  let rest ← line.dropInitial? "class Service a => "
  let (name, behind) ← rest.cutAt? ' '
  if behind = "a where" then some name else none

/-- The class and the type of the instance that a line declares. -/
def instanceOf? (line : Text) : Option (Text × Text) := do
  let rest ← line.dropInitial? "instance "
  let (name, behind) ← rest.cutAt? ' '
  let (type, ending) ← behind.cutAt? ' '
  if ending = "where" then some (name, type) else none

/-- The type of the reference between an opening and a closing. -/
def referenceBetween? (opening closing line : Text) : Option Text := do
  let rest ← line.dropInitial? (opening ++ "com::sun::star::uno::Reference< ")
  let (type, behind) ← rest.cutAt? ' '
  if behind.startsWith ('>' :: closing) then some type else none

/-- The type of the references that a constructor hands out. -/
def referredOf? : Text → Option Text :=
  referenceBetween? "    return new " "("

/-- The type of the references that a shim takes its handle for. -/
def recoveredOf? : Text → Option Text :=
  referenceBetween? "    " " * ref = "

/-- The module that a binding declares in its first line. -/
def declaredModule? (binding : Text) : Option Text :=
  (lines binding).head?.bind moduleOf?

/-- Whether a line belongs to the imports of a binding. -/
def isImport (line : Text) : Bool :=
  line.isEmpty || (importOf? line).isSome

/-- The modules that a binding imports, before its first declaration. -/
def importsOf (binding : Text) : List Text :=
  ((lines binding).tail.takeWhile isImport).filterMap importOf?

theorem moduleOf?_line
    {module : Text}
    (noBlank : ' ' ∉ module) :
    moduleOf? (("module " : Text) ++ module ++ " where") = some module := by
  have split :
      ("module " : Text) ++ module ++ " where" = "module " ++ (module ++ ' ' :: "where") := by
    simp
  rw [split, moduleOf?, dropInitial?_append, Option.bind_eq_bind, Option.bind_some,
    cutAt?_append noBlank]
  rfl

theorem classOf?_line
    {name : Text}
    (noBlank : ' ' ∉ name) :
    classOf? (("class Service a => " : Text) ++ name ++ " a where") = some name := by
  have split :
      ("class Service a => " : Text) ++ name ++ " a where" =
        "class Service a => " ++ (name ++ ' ' :: "a where") := by
    simp
  rw [split, classOf?, dropInitial?_append, Option.bind_eq_bind, Option.bind_some,
    cutAt?_append noBlank]
  rfl

theorem instanceOf?_line
    {name type : Text}
    (nameNoBlank : ' ' ∉ name)
    (typeNoBlank : ' ' ∉ type) :
    instanceOf? (("instance " : Text) ++ name ++ " " ++ type ++ " where") = some (name, type) := by
  have split :
      ("instance " : Text) ++ name ++ " " ++ type ++ " where" =
        "instance " ++ (name ++ ' ' :: (type ++ ' ' :: "where")) := by
    simp
  rw [split, instanceOf?, dropInitial?_append, Option.bind_eq_bind, Option.bind_some,
    cutAt?_append nameNoBlank, Option.bind_eq_bind, Option.bind_some]
  simp only [cutAt?_append typeNoBlank, Option.bind_some]
  rfl

theorem referenceBetween?_line
    {type : Text}
    (noBlank : ' ' ∉ type)
    (opening closing rest : Text) :
    referenceBetween? opening closing
        (opening ++ Names.referenceType type ++ closing ++ rest) = some type := by
  have split :
      opening ++ Names.referenceType type ++ closing ++ rest =
        opening ++ "com::sun::star::uno::Reference< " ++
          (type ++ ' ' :: ('>' :: closing ++ rest)) := by
    delta Names.referenceType
    simp
  have closed : startsWith ('>' :: closing ++ rest) ('>' :: closing) = true :=
    List.isPrefixOf_iff_prefix.2 ⟨rest, rfl⟩
  rw [split, referenceBetween?, dropInitial?_append, Option.bind_eq_bind, Option.bind_some,
    cutAt?_append noBlank, Option.bind_eq_bind, Option.bind_some]
  exact if_pos closed

/-! ## Ends of artifacts -/

theorem exists_lines_tidyEnd (text : Text) :
    ∃ (body : List Text) (count : Nat),
      body ≠ [] ∧ lines text = body ++ List.replicate count [] ∧
        lines (tidyEnd text) = body ++ [[]] := by
  obtain ⟨count, split⟩ := exists_dropFinalLineFeeds text
  refine ⟨lines text.dropFinalLineFeeds, count, splitAt_ne_nil '\n' _, ?_, ?_⟩
  · conv => lhs; rw [split]
    exact lines_append_replicate _ count
  · exact lines_append_replicate text.dropFinalLineFeeds 1

theorem declaredModule?_tidyEnd (text : Text) :
    declaredModule? (tidyEnd text) = declaredModule? text := by
  obtain ⟨body, count, nonempty, split, tidied⟩ := exists_lines_tidyEnd text
  obtain ⟨first, rest, rfl⟩ := List.exists_cons_of_ne_nil nonempty
  rw [declaredModule?, declaredModule?, split, tidied]
  rfl

/-- Empty lines at the end of a binding import nothing. -/
theorem filterMap_takeWhile_append_replicate
    (body : List Text)
    (count : Nat) :
    ((body ++ List.replicate count []).takeWhile isImport).filterMap importOf? =
      (body.takeWhile isImport).filterMap importOf? := by
  have silent :
      ((List.replicate count ([] : Text)).takeWhile isImport).filterMap importOf? = [] := by
    rw [List.filterMap_eq_nil_iff]
    intro line member
    rw [List.eq_of_mem_replicate ((List.takeWhile_sublist _).subset member)]
    rfl
  rw [List.takeWhile_append]
  split
  · rename_i whole
    rw [List.filterMap_append, silent, List.append_nil,
      (List.takeWhile_sublist isImport).eq_of_length whole]
  · rfl

theorem importsOf_tidyEnd (text : Text) :
    importsOf (tidyEnd text) = importsOf text := by
  obtain ⟨body, count, nonempty, split, tidied⟩ := exists_lines_tidyEnd text
  have once := filterMap_takeWhile_append_replicate body.tail 1
  rw [importsOf, importsOf, split, tidied, List.tail_append_of_ne_nil nonempty,
    List.tail_append_of_ne_nil nonempty, filterMap_takeWhile_append_replicate]
  exact once

/-! ## The lines of a singleton's binding -/

/-- The line of an import; an empty one separates groups. -/
def headLine (imported : Text) : Text :=
  if imported.isEmpty then [] else ("import " : Text) ++ imported

/-- The lines of a module header. -/
def headerLines (module : Text) (imports : List Text) : List Text :=
  (("module " : Text) ++ module ++ " where") :: [] :: (imports.map headLine ++ [[]])

theorem moduleHeader_eq_unlines
    (module : Text)
    (imports : List Text) :
    Binding.moduleHeader module imports = unlines (headerLines module imports) := by
  have importLines : imports.flatMap Binding.importLine = unlines (imports.map headLine) := by
    rw [unlines, List.flatMap_map]
    congr 1
    funext imported
    rw [Binding.importLine, headLine]
    split
    · rfl
    · simp
  have declared : (" where\n\n" : Text) = " where" ++ '\n' :: ['\n'] := by simp
  delta Binding.moduleHeader headerLines
  rw [importLines, declared]
  simp [unlines]

theorem filterMap_headLine (imports : List Text) :
    (imports.map headLine).filterMap importOf? = importedModules imports := by
  induction imports with
  | nil => rfl
  | cons imported others induction =>
      cases imported with
      | nil => exact induction
      | cons character rest =>
          have read :
              importOf? (headLine (character :: rest)) =
                some ((character :: rest).takeWhile (· != ' ')) := by
            have line : headLine (character :: rest) = "import " ++ (character :: rest) := rfl
            rw [line, importOf?, dropInitial?_append]
            rfl
          rw [List.map_cons, List.filterMap_cons_some read, induction]
          rfl

theorem lineFeed_not_mem_headerLines
    {module : Text}
    (moduleWhole : '\n' ∉ module)
    {imports : List Text}
    (importsWhole : ∀ imported ∈ imports, '\n' ∉ imported) :
    ∀ line ∈ headerLines module imports, '\n' ∉ line := by
  simp only [headerLines, List.forall_mem_cons, List.forall_mem_append, List.forall_mem_map]
  refine ⟨by simp [moduleWhole], by simp, fun imported member => ?_, by simp⟩
  rw [headLine]
  split
  · exact List.not_mem_nil
  · simp [importsWhole imported member]

/-- The imports of a module end where something else is declared. -/
theorem importsOf_moduleHeader
    {module : Text}
    (moduleWhole : '\n' ∉ module)
    {imports : List Text}
    (importsWhole : ∀ imported ∈ imports, '\n' ∉ imported)
    {first : Text}
    (firstWhole : '\n' ∉ first)
    (other : isImport first = false)
    (rest : Text) :
    importsOf (Binding.moduleHeader module imports ++ (first ++ '\n' :: rest)) =
      importedModules imports := by
  have passed : ∀ line ∈ [] :: (imports.map headLine ++ [[]]), isImport line = true := by
    simp only [List.forall_mem_cons, List.forall_mem_append, List.forall_mem_map]
    refine ⟨rfl, fun imported member => ?_, by simp [isImport]⟩
    rw [headLine]
    split
    · rfl
    · rw [isImport, importOf?, dropInitial?_append]
      simp
  have behind : lines (first ++ '\n' :: rest) = first :: lines rest := by
    rw [lines, splitAt_append, splitAt_of_not_mem firstWhole]
    rfl
  rw [importsOf, moduleHeader_eq_unlines,
    lines_unlines_append (lineFeed_not_mem_headerLines moduleWhole importsWhole), behind,
    headerLines, List.cons_append, List.tail_cons, List.takeWhile_append_of_pos passed,
    List.takeWhile_cons_of_neg (by simp [other]), List.append_nil, ← filterMap_headLine]
  simp [importOf?, dropInitial?]

/-! ## Lines that declare no class -/

/-- Whether a line declares a class. -/
def isClassLine (line : Text) : Bool :=
  (classOf? line).isSome

theorem exists_of_isClassLine
    {line : Text}
    (passes : isClassLine line = true) :
    ∃ rest : Text, line = "class Service a => " ++ rest := by
  obtain ⟨name, read⟩ := Option.isSome_iff_exists.1 passes
  obtain ⟨rest, dropped, -⟩ := Option.bind_eq_some_iff.1 read
  exact ⟨rest, eq_append_of_dropInitial? dropped⟩

theorem equals_mem_of_isClassLine
    (line : Text)
    (passes : isClassLine line = true) :
    '=' ∈ line := by
  obtain ⟨rest, rfl⟩ := exists_of_isClassLine passes
  exact List.mem_append_left rest (by decide)

theorem isClassLine_eq_false_of_head
    {line : Text}
    (head : line.head? ≠ some 'c') :
    isClassLine line = false := by
  rw [← Bool.not_eq_true]
  intro passes
  obtain ⟨rest, rfl⟩ := exists_of_isClassLine passes
  exact head rfl

end UnoBindgen.Emission

namespace UnoBindgen.Binding

open Text

/-- A line that is empty or starts with a blank. -/
def IsIndented (line : Text) : Prop :=
  ∀ character ∈ line.head?, character = ' '

theorem isIndented_nil : IsIndented [] :=
  fun character member => absurd member (by simp)

theorem IsIndentation.isIndented_append
    {indentation : Text}
    (blank : IsIndentation indentation)
    (nonempty : indentation ≠ [])
    (rest : Text) :
    IsIndented (indentation ++ rest) := by
  intro character member
  rw [List.head?_append_of_ne_nil _ nonempty] at member
  exact blank character (List.mem_of_mem_head? member)

theorem IsIndented.isClassLine_eq_false
    {line : Text}
    (indented : IsIndented line) :
    Emission.isClassLine line = false := by
  apply Emission.isClassLine_eq_false_of_head
  intro head
  exact absurd (indented 'c' head) (by decide)

theorem isIndented_marshalLineList
    {indentation : Text}
    (blank : IsIndentation indentation)
    (nonempty : indentation ≠ [])
    (parameters : List BoundParameter) :
    ∀ line ∈ marshalLineList indentation parameters, IsIndented line := by
  induction parameters generalizing indentation with
  | nil => exact fun line member => absurd member List.not_mem_nil
  | cons parameter rest induction =>
      rw [marshalLineList]
      split
      · exact induction blank nonempty
      · rw [List.forall_mem_cons]
        exact ⟨blank.isIndented_append nonempty _,
          induction (blank.append isIndentation_four) (by simp)⟩

theorem marshalLines_snd_ne_nil
    {indentation : Text}
    (nonempty : indentation ≠ [])
    (parameters : List BoundParameter) :
    (marshalLines indentation parameters).2 ≠ [] := by
  induction parameters generalizing indentation with
  | nil => exact nonempty
  | cons parameter rest induction =>
      rw [marshalLines]
      split
      · exact induction nonempty
      · exact induction (by simp)

theorem isIndented_linesToCall (plan : MethodPlan) :
    ∀ line ∈ linesToCall plan, IsIndented line := by
  have blank := isIndentation_marshaling plan
  have nonempty : (marshaling plan).2 ≠ [] := marshalLines_snd_ne_nil (by decide) _
  have marshal := isIndented_marshalLineList isIndentation_eight (by decide) (bindParameters plan)
  have four := isIndentation_four.isIndented_append (by decide)
  have eight := isIndentation_eight.isIndented_append (by decide)
  have inner := (blank.append isIndentation_four).isIndented_append (by simp)
  delta linesToCall typingLine
  rw [List.append_assoc, List.append_assoc]
  simp only [List.forall_mem_cons, List.forall_mem_append]
  exact ⟨four _, four _, eight _, marshal, blank.isIndented_append nonempty _, inner _, by simp⟩

theorem linesBehindCall_spec (plan : MethodPlan) :
    (∀ line ∈ linesBehindCall plan, '\n' ∉ line) ∧
      ∀ line ∈ linesBehindCall plan, IsIndented line := by
  have blank : IsIndentation (innermost plan) :=
    (isIndentation_marshaling plan).append isIndentation_four
  have nonempty : innermost plan ≠ [] := by
    delta innermost
    simp
  have whole := blank.isInline.lineFeed_not_mem
  have start := blank.isIndented_append nonempty
  rw [linesBehindCall, resultLineList.eq_def, exceptionCheck]
  constructor
  · split <;> simp [whole]
  · split <;> simp [start, isIndented_nil]

/-! ## Bindings declare one class -/

theorem shows_classMethod_classes
    {plan : MethodPlan}
    (hasWords : HasWords plan)
    (qualifiedWhole : '\n' ∉ plan.qualified) :
    Shows Emission.isClassLine (classMethod plan) [] := by
  by_cases supported : plan.isSupported = true
  · have behind := linesBehindCall_spec plan
    rw [classMethod_eq_unlines supported]
    exact
      (Shows.unlines (lineFeed_not_mem_linesToCall hasWords) fun line member =>
        (isIndented_linesToCall plan line member).isClassLine_eq_false).append
      (Shows.unlines behind.1 fun line member => (behind.2 line member).isClassLine_eq_false)
  · have name := (isWord_identifier hasWords.method).noLineFeed
    have split :
        classMethod plan =
          unlines
            [typingLine plan,
              ("    " : Text) ++ (identifier plan.method ++
                (List.replicate (plan.parameters.length + 1) (" _" : Text)).flatten ++
                " = error \"" ++ plan.qualified ++ ": aggregate types are not supported\""),
              []] := by
      have typing : methodTyping plan = typingLine plan ++ ['\n'] := rfl
      rw [classMethod_eq_of_unsupported supported, typing]
      simp [unlines]
    rw [split]
    apply Shows.unlines
    · simp [hasWords.lineFeed_not_mem_typingLine, name, qualifiedWhole]
    · have four := isIndentation_four.isIndented_append (by decide)
      delta typingLine
      rw [List.append_assoc, List.append_assoc]
      simp only [List.forall_mem_cons]
      exact ⟨(four _).isClassLine_eq_false, (four _).isClassLine_eq_false, rfl, by simp⟩

theorem foreignImport_eq_unlines
    {plan : MethodPlan}
    (supported : plan.isSupported = true) :
    foreignImport plan =
      unlines
        [importHead plan.symbol plan.importName,
          importTyping (plan.parameters.map fun value => value.spellings.foreign)
            plan.result.spellings.foreign,
          []] := by
  rw [foreignImport_eq supported]
  simp [unlines]

theorem shows_foreignImport_classes
    {plan : MethodPlan}
    (inline : plan.IsInline)
    (typesFree : ∀ value ∈ plan.result :: plan.parameters, '=' ∉ value.type.text)
    (qualifiedFree : '=' ∉ plan.qualified) :
    Shows Emission.isClassLine (foreignImport plan) [] := by
  by_cases supported : plan.isSupported = true
  · have typing :
        '\n' ∉
          importTyping (plan.parameters.map fun value => value.spellings.foreign)
            plan.result.spellings.foreign := by
      apply lineFeed_not_mem_importTyping
      · rw [List.forall_mem_map]
        exact fun value member =>
          inline.spellings value (List.mem_cons_of_mem plan.result member) .foreign
      · exact inline.spellings plan.result List.mem_cons_self .foreign
    have head : '\n' ∉ importHead plan.symbol plan.importName := by
      have symbol := inline.symbol
      have importName := inline.importName.lineFeed_not_mem
      delta importHead
      simp [symbol, importName]
    rw [foreignImport_eq_unlines supported]
    apply Shows.unlines
    · simp [head, typing]
    · simp only [List.forall_mem_cons]
      exact ⟨rfl, rfl, rfl, by simp⟩
  · rw [foreignImport, if_neg supported]
    apply MethodPlan.shows_comments (by decide) typesFree Emission.equals_mem_of_isClassLine
    intro type typeFree
    delta unsupportedLine
    simp [typeFree, qualifiedFree]

end UnoBindgen.Binding

namespace UnoBindgen.Emission

open Text

/-! ## Words among the names of an entity -/

/-- The names of a checked entity are words of generated lines. -/
structure HasNameWords (names : Names) : Prop where
  moduleWord : ' ' ∉ names.foreignModule ∧ '\n' ∉ names.foreignModule ∧ names.foreignModule ≠ []
  typeWord : ' ' ∉ names.foreignType ∧ '\n' ∉ names.foreignType
  qualifiedWord : ' ' ∉ names.qualified ∧ '\n' ∉ names.qualified
  nameIdentifier : isIdentifier names.name = true

theorem hasNameWords_derive
    (options : NamingOptions)
    {module : ModulePath}
    {name : Text}
    (identifiers : (module.child name).HasIdentifiers) :
    HasNameWords (Names.derive options module name) := by
  have named : isIdentifier name = true :=
    identifiers name (List.mem_append_right _ (List.mem_singleton_self name))
  have capital := Text.isIdentifier_capitalize named
  have moduleWord := isModuleName_capitalizedName identifiers
  refine
    { moduleWord := ⟨moduleWord.2, ?_, moduleWord.1⟩
      typeWord :=
        ⟨not_mem_of_isIdentifier capital (by decide), not_mem_of_isIdentifier capital (by decide)⟩
      qualifiedWord := ⟨?_, ?_⟩
      nameIdentifier := named }
  · exact (ModulePath.isInline_capitalizedName identifiers).lineFeed_not_mem
  · intro member
    rcases mem_join member with isSeparator | ⟨segment, segmentMember, inSegment⟩
    · exact absurd isSeparator (by decide)
    · exact not_mem_of_isIdentifier (identifiers segment segmentMember) (by decide) inSegment
  · exact (ModulePath.isInline_join_segments identifiers (by decide)).lineFeed_not_mem

/-! ## What an interface declares -/

theorem declaredModule?_moduleHeader
    {module : Text}
    (noBlank : ' ' ∉ module)
    (whole : '\n' ∉ module)
    (imports : List Text)
    (rest : Text) :
    declaredModule? (Binding.moduleHeader module imports ++ rest) = some module := by
  have lineWhole : '\n' ∉ ("module " : Text) ++ module ++ " where" := by simp [whole]
  have first :
      (lines (Binding.moduleHeader module imports ++ rest)).head? =
        some (("module " : Text) ++ module ++ " where") := by
    rw [moduleHeader_eq_unlines, headerLines, unlines_cons, List.append_assoc, List.cons_append,
      lines, splitAt_append, splitAt_of_not_mem lineWhole]
    rfl
  rw [declaredModule?, first]
  exact moduleOf?_line noBlank

theorem exists_unlines_foreignImport (plan : MethodPlan) :
    ∃ parts, Binding.foreignImport plan = unlines parts := by
  by_cases supported : plan.isSupported = true
  · exact ⟨_, Binding.foreignImport_eq_unlines supported⟩
  · refine
      ⟨[(Text.distinct (plan.unsupported.map TypeName.text)).flatMap
        (Binding.unsupportedLine plan)], ?_⟩
    rw [Binding.foreignImport, if_neg supported, Binding.placeholder]
    simp [unlines]

/-- The names under which the artifacts of an interface declare it. -/
structure Declares
    (options : NamingOptions)
    (interface : Entity)
    (texts : Texts) : Prop where
  declaredModule :
    declaredModule? texts.binding = some (Names.ofEntity options interface).foreignModule
  declaredClass :
    (Names.ofEntity options interface).foreignType ∈ readLines classOf? texts.binding
  onlyClass :
    options.IsSingleLine →
      readLines classOf? texts.binding = [(Names.ofEntity options interface).foreignType]
  /-- Shims take references to the type of the interface. -/
  recovered :
    callableMethods interface ≠ [] →
      (Names.ofEntity options interface).qualified ∈
        readLines recoveredOf? texts.implementation

/-- The line that declares the class of an interface. -/
def classLine (names : Names) : Text :=
  ("class Service a => " : Text) ++ names.foreignType ++ " a where"

theorem classHeader_eq (names : Names) :
    Binding.classHeader names = classLine names ++ ['\n'] := by
  have ending : (" a where\n" : Text) = " a where" ++ ['\n'] := by simp
  delta Binding.classHeader classLine
  rw [ending, List.append_assoc, List.append_assoc, List.append_assoc]

section Interface

variable {names : Names}

theorem classOf?_classLine (noBlank : ' ' ∉ names.foreignType) :
    classOf? (classLine names) = some names.foreignType :=
  classOf?_line noBlank

theorem lines_classLine
    (whole : '\n' ∉ names.foreignType)
    (rest : Text) :
    lines (classLine names ++ '\n' :: rest) = classLine names :: lines rest := by
  have lineWhole : '\n' ∉ classLine names := by
    delta classLine
    simp [whole]
  rw [lines, splitAt_append, splitAt_of_not_mem lineWhole]
  rfl

theorem mem_classes_interfaceTexts
    (noBlank : ' ' ∉ names.foreignType)
    (whole : '\n' ∉ names.foreignType)
    (plans : List MethodPlan) :
    names.foreignType ∈ readLines classOf? (interfaceTexts names plans).binding := by
  obtain ⟨imports, importsSplit⟩ :=
    exists_unlines_flatMap fun plan (_ : plan ∈ plans) => exists_unlines_foreignImport plan
  have split :
      (interfaceTexts names plans).binding =
        unlines (headerLines names.foreignModule Binding.interfaceImports ++ imports) ++
          (classLine names ++ '\n' :: plans.flatMap Binding.classMethod) := by
    rw [interfaceTexts, importsSplit, moduleHeader_eq_unlines, classHeader_eq, unlines_append]
    simp only [List.append_assoc, List.singleton_append]
  have first :
      classLine names ∈ lines (classLine names ++ '\n' :: plans.flatMap Binding.classMethod) := by
    rw [lines_classLine whole]
    exact List.mem_cons_self
  rw [split]
  exact List.mem_filterMap.2
    ⟨classLine names, mem_lines_unlines_append first _, classOf?_classLine noBlank⟩

/-- The foreign imports before the class and the methods in it declare no other class. -/
theorem classes_interfaceTexts
    (words : HasNameWords names)
    {plans : List MethodPlan}
    (importsShow :
      ∀ plan ∈ plans, Shows isClassLine (Binding.foreignImport plan) [])
    (methodsShow :
      ∀ plan ∈ plans, Shows isClassLine (Binding.classMethod plan) []) :
    readLines classOf? (interfaceTexts names plans).binding = [names.foreignType] := by
  have noBlank := words.typeWord.1
  have header :
      Shows isClassLine (Binding.moduleHeader names.foreignModule Binding.interfaceImports) [] := by
    rw [moduleHeader_eq_unlines]
    apply Shows.unlines
    · exact lineFeed_not_mem_headerLines words.moduleWord.2.1 (by decide)
    · intro line member
      simp only [headerLines, List.mem_cons, List.mem_append, List.mem_map] at member
      apply isClassLine_eq_false_of_head
      rcases member with rfl | rfl | ⟨imported, -, rfl⟩ | rfl | nothing
      · simp
      · simp
      · rw [headLine]
        split <;> simp
      · simp
      · exact absurd nothing List.not_mem_nil
  have front := header.append (Shows.flatMap_nothing importsShow)
  have methods := Shows.flatMap_nothing methodsShow []
  rw [List.append_nil] at methods
  have split :
      (interfaceTexts names plans).binding =
        Binding.moduleHeader names.foreignModule Binding.interfaceImports ++
          plans.flatMap Binding.foreignImport ++
          (classLine names ++ '\n' :: plans.flatMap Binding.classMethod) := by
    rw [interfaceTexts, classHeader_eq]
    simp only [List.append_assoc, List.singleton_append]
  have passes : isClassLine (classLine names) = true := by
    rw [isClassLine, classOf?_classLine noBlank]
    rfl
  have empty : withNext isClassLine (lines []) = [] := rfl
  have all :
      withNext isClassLine (lines (interfaceTexts names plans).binding) =
        [(classLine names, (lines (plans.flatMap Binding.classMethod)).head?)] := by
    rw [split, front, lines_classLine words.typeWord.2, withNext, if_pos passes, methods, empty]
    rfl
  have read := readLines_eq_filterMap_withNext classOf? (interfaceTexts names plans).binding
  change _ = (withNext isClassLine _).filterMap _ at read
  rw [read, all]
  simp [classOf?_classLine noBlank]

/-- The line in which a shim recovers the interface from its handle. -/
def recoveryLine (qualified : Text) : Text :=
  ("    " : Text) ++ Names.referenceType qualified ++ " * ref = " ++
    ("static_cast< " ++ Names.referenceType qualified ++ " * >(rIface);")

theorem exists_recoveryLine
    {plan : MethodPlan}
    (supported : plan.isSupported = true) :
    ∃ before after : Text,
      Native.methodShim plan =
        before ++ '\n' :: (recoveryLine plan.names.qualified ++ '\n' :: after) := by
  have line :
      ("    " : Text) ++ Names.referenceType plan.names.qualified ++ " * ref = static_cast< " ++
          Names.referenceType plan.names.qualified ++ " * >(rIface);" =
        recoveryLine plan.names.qualified := by
    have opened : (" * ref = static_cast< " : Text) = " * ref = " ++ "static_cast< " := by simp
    delta recoveryLine
    rw [opened]
    simp only [List.append_assoc]
  have body :
      Native.linesBeforeArray plan =
        ("\x7b" : Text) :: recoveryLine plan.names.qualified ::
          (Native.linesBeforeArray plan).drop 2 := by
    rw [← line]
    rfl
  rw [Native.methodShim_eq_unlines supported, body]
  simp only [unlines_cons, List.append_assoc, List.cons_append]
  exact
    ⟨Native.externLine ++ '\n' :: (Native.signatureLine plan ++ '\n' :: "\x7b"), _, by
      simp only [List.append_assoc, List.cons_append]
      rfl⟩

theorem mem_recovered_interfaceTexts
    (words : HasNameWords names)
    {plans : List MethodPlan}
    {plan : MethodPlan}
    (member : plan ∈ plans)
    (supported : plan.isSupported = true)
    (sameNames : plan.names = names) :
    names.qualified ∈ readLines recoveredOf? (interfaceTexts names plans).implementation := by
  obtain ⟨before, after, rfl⟩ := List.append_of_mem member
  obtain ⟨front, back, shim⟩ := exists_recoveryLine supported
  have whole : '\n' ∉ recoveryLine names.qualified := by
    delta recoveryLine Names.referenceType
    simp [words.qualifiedWord.2]
  have read : recoveredOf? (recoveryLine names.qualified) = some names.qualified :=
    referenceBetween?_line words.qualifiedWord.1 "    " " * ref = " _
  have present :
      recoveryLine names.qualified ∈
        lines (interfaceTexts names (before ++ plan :: after)).implementation := by
    obtain ⟨includes, split⟩ :
        ∃ includes : Text,
          (interfaceTexts names (before ++ plan :: after)).implementation =
            includes ++ (before ++ plan :: after).flatMap Native.methodShim := ⟨_, rfl⟩
    have between :=
      mem_lines_between whole (includes ++ before.flatMap Native.methodShim ++ front)
        (back ++ after.flatMap Native.methodShim)
    rw [split, List.flatMap_append, List.flatMap_cons, shim, sameNames]
    simpa only [List.append_assoc, List.cons_append] using between
  exact List.mem_filterMap.2 ⟨_, present, read⟩

end Interface

theorem hasNameWords_ofEntity
    (options : NamingOptions)
    {entity : Entity}
    (checked : entity.check = .ok ()) :
    HasNameWords (Names.ofEntity options entity) :=
  hasNameWords_derive options (Entity.hasIdentifiers_path checked)

theorem equals_not_mem_qualified
    {plan : MethodPlan}
    {options : NamingOptions}
    {entity : Entity}
    {method : Method}
    (settles : plan.Settles (Names.ofEntity options entity) method)
    (checked : entity.check = .ok ())
    (named : isIdentifier method.name = true) :
    '=' ∉ plan.qualified := by
  have fullName : '=' ∉ entity.path.name := by
    intro member
    rcases mem_join member with isSeparator | ⟨segment, segmentMember, inSegment⟩
    · exact absurd isSeparator (by decide)
    · exact not_mem_of_isIdentifier (Entity.hasIdentifiers_path checked segment segmentMember)
        (by decide) inSegment
  have method : '=' ∉ method.name := not_mem_of_isIdentifier named (by decide)
  rw [settles.qualified, Names.qualifiedMethod]
  change '=' ∉ entity.path.name ++ _ ++ _
  simp [fullName, method]

/-- The planned methods of a checked interface bring no other class into its module. -/
theorem classes_of_settles
    {options : NamingOptions}
    {interface : Entity}
    (singleLine : options.IsSingleLine)
    (checked : interface.check = .ok ())
    (tag : interface.tag = .known .interface)
    {plans : List MethodPlan}
    (settled :
      List.Forall₂
        (fun method plan => MethodPlan.Settles plan (Names.ofEntity options interface) method)
        (interface.methods?.getD []) plans) :
    readLines classOf? (interfaceTexts (Names.ofEntity options interface) plans).binding =
      [(Names.ofEntity options interface).foreignType] := by
  have namesInline := Names.isInline_ofEntity singleLine checked
  have each :
      ∀ plan ∈ plans, ∃ method,
        plan.Settles (Names.ofEntity options interface) method ∧
          isIdentifier method.name = true ∧
            ∀ parameter ∈ method.parameters, isIdentifier parameter.name = true := by
    intro plan member
    obtain ⟨method, methodMember, settles⟩ := exists_of_mem_right settled member
    exact ⟨method, settles, Entity.isIdentifier_of_mem_methods checked tag methodMember⟩
  apply classes_interfaceTexts (hasNameWords_ofEntity options checked)
  · intro plan member
    obtain ⟨method, settles, named, parametersNamed⟩ := each plan member
    refine Binding.shows_foreignImport_classes
      (settles.isInline namesInline named parametersNamed) ?_
      (equals_not_mem_qualified settles checked named)
    intro value valueMember
    obtain ⟨type, -, name, position⟩ := exists_of_mem_right settles.positions valueMember
    rw [position.sameType]
    exact TypeName.not_mem_of_category position.classified (by decide)
  · intro plan member
    obtain ⟨method, settles, named, parametersNamed⟩ := each plan member
    exact Binding.shows_classMethod_classes
      (Binding.hasWords_of_settles settles named parametersNamed)
      (settles.isInline namesInline named parametersNamed).qualified.lineFeed_not_mem

/-- The artifacts of an interface declare it under its own names. -/
theorem declares_of_compose
    {context : Context}
    {interface : Entity}
    (tag : interface.tag = .known .interface)
    {texts : Texts}
    (composed : compose context interface = .ok texts) :
    Declares context.options interface texts := by
  obtain ⟨checked, plans, planned, -, implementation, binding⟩ :=
    exists_plans_of_compose tag composed
  have words := hasNameWords_ofEntity context.options checked
  have settled :
      List.Forall₂
        (fun method plan =>
          MethodPlan.Settles plan (Names.ofEntity context.options interface) method)
        (interface.methods?.getD []) plans :=
    ((mapM_eq_ok_iff _ _ _).1 planned).imp fun _ _ => MethodPlan.settles_of_ofMethod
  have classes :
      readLines classOf? texts.binding =
        readLines classOf?
          (interfaceTexts (Names.ofEntity context.options interface) plans).binding := by
    rw [binding]
    exact readLines_tidied rfl _
  refine
    { declaredModule := ?_
      declaredClass := ?_
      onlyClass := fun singleLine => ?_
      recovered := fun callable => ?_ }
  · rw [binding, declaredModule?_tidyEnd, interfaceTexts]
    simp only [List.append_assoc]
    exact declaredModule?_moduleHeader words.moduleWord.1 words.moduleWord.2.1 _ _
  · rw [classes]
    exact mem_classes_interfaceTexts words.typeWord.1 words.typeWord.2 plans
  · rw [classes]
    exact classes_of_settles singleLine checked tag settled
  · obtain ⟨method, methodMember⟩ := List.exists_mem_of_ne_nil _ callable
    rw [callableMethods, List.mem_filter] at methodMember
    have backwards :
        List.Forall₂
          (fun plan method =>
            MethodPlan.Settles plan (Names.ofEntity context.options interface) method)
          plans (interface.methods?.getD []) := settled.flip
    obtain ⟨plan, planMember, settles⟩ := exists_of_mem_right backwards methodMember.1
    have supported : plan.isSupported = true := by
      rw [settles.isSupported_eq]
      exact methodMember.2
    have recovered :
        readLines recoveredOf? texts.implementation =
          readLines recoveredOf?
            (interfaceTexts (Names.ofEntity context.options interface) plans).implementation := by
      rw [implementation]
      exact readLines_tidied rfl _
    rw [recovered]
    exact mem_recovered_interfaceTexts words planMember supported settles.sameNames

end UnoBindgen.Emission
