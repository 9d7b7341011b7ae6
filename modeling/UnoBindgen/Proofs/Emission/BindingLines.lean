import UnoBindgen.Binding
import UnoBindgen.Proofs.Emission.Inline
import UnoBindgen.Proofs.FreshName

/-!
# The foreign imports of the Haskell text

A line that starts with `foreign import ccall` and a quote imports a shim.  All such lines come
from the methods that can be called: module headers, class headers and the comments about aggregate
types have no double quote, and the quoted lines of the class methods are indented.
-/

namespace UnoBindgen.Binding

open Text

/-- Whether a line imports a shim. -/
def isImportLine (line : Text) : Bool :=
  line.startsWith "foreign import ccall \""

/-- The line that imports a shim. -/
def importHead (symbol importName : Text) : Text :=
  ("foreign import ccall \"" : Text) ++ symbol ++ "\" " ++ importName

/-- The line behind it, from the spelled types. -/
def importTyping (parameters : List Text) (result : Text) : Text :=
  ("    :: " : Text) ++
    arrows (words ["Ptr UnoInterface", "Ptr (Ptr Any)"] ++ parameters ++ [actionType result])

/-- What a plan contributes: the import of its shim, if the method can be called. -/
def importEntries (plan : MethodPlan) : List (Text × Option Text) :=
  if plan.isSupported then
    [(importHead plan.symbol plan.importName,
      some (importTyping (plan.parameters.map fun value => value.spellings.foreign)
        plan.result.spellings.foreign))]
  else
    []

theorem quote_mem_of_isImportLine
    (line : Text)
    (passes : isImportLine line = true) :
    '"' ∈ line := by
  obtain ⟨rest, rfl⟩ := List.isPrefixOf_iff_prefix.1 passes
  exact List.mem_append_left rest (by decide)

/-- A line with another first letter imports nothing. -/
theorem isImportLine_eq_false_of_head
    {line : Text}
    (head : line.head? ≠ some 'f') :
    isImportLine line = false := by
  rw [← Bool.not_eq_true]
  intro passes
  obtain ⟨rest, rfl⟩ := List.isPrefixOf_iff_prefix.1 passes
  exact head rfl

theorem shows_moduleHeader
    {module : Text}
    (inline : IsInline module) :
    Shows isImportLine (moduleHeader module interfaceImports) [] := by
  have moduleFree := inline.quote_not_mem
  have imports : '"' ∉ interfaceImports.flatMap importLine := by decide
  apply Shows.unmarked quote_mem_of_isImportLine
  · delta moduleHeader
    rw [List.getLast?_append]
    rfl
  · delta moduleHeader
    simp only [List.mem_append, not_or, moduleFree, imports, not_false_eq_true, and_true]
    decide

theorem shows_classHeader
    {names : Names}
    (inline : names.IsInline) :
    Shows isImportLine (classHeader names) [] := by
  have typeFree := inline.foreignType.quote_not_mem
  apply Shows.unmarked quote_mem_of_isImportLine
  · delta classHeader
    rw [List.getLast?_append]
    rfl
  · delta classHeader
    simp only [List.mem_append, not_or, typeFree, not_false_eq_true, and_true]
    decide

/-! ## Foreign imports -/

theorem isInline_actionType
    {result : Text}
    (inline : IsInline result) :
    IsInline (actionType result) := by
  rw [actionType]
  split
  · simp only [isInline_append]
    exact ⟨⟨by decide, inline⟩, by decide⟩
  · simp only [isInline_append]
    exact ⟨by decide, inline⟩

theorem lineFeed_not_mem_importTyping
    {parameters : List Text}
    (parametersInline : ∀ parameter ∈ parameters, IsInline parameter)
    {result : Text}
    (resultInline : IsInline result) :
    '\n' ∉ importTyping parameters result := by
  apply IsInline.lineFeed_not_mem
  refine (isInline_append _ _).2 ⟨by decide, isInline_join (by decide) ?_⟩
  intro part member
  rcases List.mem_append.1 member with inFront | isResult
  · rcases List.mem_append.1 inFront with isFixed | inParameters
    · have fixed : ∀ text ∈ words ["Ptr UnoInterface", "Ptr (Ptr Any)"], IsInline text := by
        decide
      exact fixed part isFixed
    · exact parametersInline part inParameters
  · rw [List.mem_singleton.1 isResult]
    exact isInline_actionType resultInline

theorem foreignImport_eq
    {plan : MethodPlan}
    (supported : plan.isSupported = true) :
    foreignImport plan =
      (importHead plan.symbol plan.importName ++ ['\n'] ++
        importTyping (plan.parameters.map fun value => value.spellings.foreign)
          plan.result.spellings.foreign ++ ['\n']) ++ ['\n'] := by
  have typing : ("\n    :: " : Text) = ['\n'] ++ "    :: " := rfl
  have ending : ("\n\n" : Text) = ['\n'] ++ ['\n'] := rfl
  rw [foreignImport, if_pos supported]
  delta importDeclaration importHead importTyping
  rw [typing, ending]
  simp only [List.append_assoc]

theorem shows_placeholder
    {plan : MethodPlan}
    (inline : plan.IsInline) :
    Shows isImportLine (placeholder plan) [] := by
  apply inline.shows_comments quote_mem_of_isImportLine
  intro type typeFree
  have qualifiedFree := inline.qualified.quote_not_mem
  delta unsupportedLine
  simp [typeFree, qualifiedFree]

theorem shows_foreignImport
    {plan : MethodPlan}
    (inline : plan.IsInline) :
    Shows isImportLine (foreignImport plan) (importEntries plan) := by
  rw [importEntries]
  split
  · rename_i supported
    rw [foreignImport_eq supported]
    have symbol := inline.symbol
    have importName := inline.importName.lineFeed_not_mem
    have marked :
        Shows isImportLine
          (importHead plan.symbol plan.importName ++ ['\n'] ++
            importTyping (plan.parameters.map fun value => value.spellings.foreign)
              plan.result.spellings.foreign ++ ['\n'])
          [(importHead plan.symbol plan.importName,
            some (importTyping (plan.parameters.map fun value => value.spellings.foreign)
              plan.result.spellings.foreign))] := by
      apply Shows.marked
      · delta importHead
        simp [symbol, importName]
      · rw [isImportLine, startsWith, List.isPrefixOf_iff_prefix]
        delta importHead
        simp only [List.append_assoc]
        exact List.prefix_append _ _
      · apply lineFeed_not_mem_importTyping
        · intro parameter member
          obtain ⟨value, valueMember, rfl⟩ := List.mem_map.1 member
          exact inline.spellings value (List.mem_cons_of_mem plan.result valueMember) .foreign
        · exact inline.spellings plan.result List.mem_cons_self .foreign
      · apply isImportLine_eq_false_of_head
        delta importTyping
        simp
    exact marked.append (Shows.blank (by decide))
  · rename_i unsupported
    rw [foreignImport, if_neg unsupported]
    exact shows_placeholder inline

/-! ## Names in wrappers -/

theorem isInline_identifier
    {name : Text}
    (named : isIdentifier name = true) :
    IsInline (identifier name) := by
  have small : IsInline name.uncapitalize :=
    isInline_of_isIdentifier (isIdentifier_uncapitalize named)
  rw [identifier]
  split
  · exact (isInline_append _ _).2 ⟨small, by decide⟩
  · exact small

/-- Without its prime a value identifier is the name with a small first letter. -/
theorem dropFinal_identifier
    {name : Text}
    (named : isIdentifier name = true) :
    (identifier name).dropFinal "'" = name.uncapitalize := by
  have bare : ¬ name.uncapitalize.endsWith "'" = true := by
    intro ends
    obtain ⟨front, same⟩ := List.isSuffixOf_iff_suffix.1 ends
    have member : '\'' ∈ name.uncapitalize := by
      rw [← same]
      simp
    exact not_mem_of_isIdentifier (isIdentifier_uncapitalize named) (by decide) member
  rw [identifier]
  split
  · simp [dropFinal, endsWith, List.isSuffixOf_iff_suffix.2 (List.suffix_append _ _)]
  · rw [dropFinal, if_neg bare]

theorem isIdentifier_marshaledIdentifier
    {name : Text}
    (named : isIdentifier name = true) :
    isIdentifier (marshaledIdentifier name) = true := by
  have capital := isIdentifier_capitalize (isIdentifier_uncapitalize named)
  rw [marshaledIdentifier, dropFinal_identifier named]
  change isIdentifier ('h' :: 's' :: name.uncapitalize.capitalize) = true
  rw [isIdentifier_cons_iff, List.forall_mem_cons]
  exact ⟨by decide, by decide, fun _ => isFollowing_of_mem_isIdentifier capital⟩

/-- A marshaled name is that of a parameter, with some primes behind it. -/
theorem exists_marked_of_mem_marshaledNames
    {values : List PlannedValue}
    {avoid : List Text}
    {marshaled : Text}
    (member : some marshaled ∈ marshaledNames avoid values) :
    ∃ value ∈ values, ∃ count,
      marshaled = FreshName.marked '\'' (marshaledIdentifier value.name) count := by
  induction values generalizing avoid with
  | nil => simp [marshaledNames] at member
  | cons value rest induction =>
      rw [marshaledNames] at member
      split at member
      · rcases List.mem_cons.1 member with same | inRest
        · exact ⟨value, List.mem_cons_self, _, Option.some.inj same⟩
        · obtain ⟨other, otherMember, marked⟩ := induction inRest
          exact ⟨other, List.mem_cons_of_mem value otherMember, marked⟩
      · rcases List.mem_cons.1 member with same | inRest
        · exact absurd same (by simp)
        · obtain ⟨other, otherMember, marked⟩ := induction inRest
          exact ⟨other, List.mem_cons_of_mem value otherMember, marked⟩

theorem isInline_of_mem_marshaledNames
    {values : List PlannedValue}
    (named : ∀ value ∈ values, isIdentifier value.name = true)
    {avoid : List Text}
    {marshaled : Text}
    (member : some marshaled ∈ marshaledNames avoid values) :
    IsInline marshaled := by
  obtain ⟨value, valueMember, count, rfl⟩ := exists_marked_of_mem_marshaledNames member
  have marshaledName := isIdentifier_marshaledIdentifier (named value valueMember)
  exact FreshName.isInline_marked (by decide) (isInline_of_isIdentifier marshaledName) count

/-- The names that a wrapper binds for a parameter stay on their line. -/
structure BoundParameter.IsInline (parameter : BoundParameter) : Prop where
  argument : Text.IsInline parameter.argument
  marshaled : ∀ marshaled ∈ parameter.marshaled?, Text.IsInline marshaled

theorem isInline_of_mem_bindParameters
    {plan : MethodPlan}
    (inline : plan.IsInline)
    {parameter : BoundParameter}
    (member : parameter ∈ bindParameters plan) :
    parameter.IsInline := by
  rw [bindParameters, ← List.map_uncurry_zip_eq_zipWith] at member
  obtain ⟨⟨value, names⟩, pairMember, rfl⟩ := List.mem_map.1 member
  have namesMember := (List.of_mem_zip pairMember).2
  have argumentMember := (List.of_mem_zip namesMember).1
  have marshaledMember := (List.of_mem_zip namesMember).2
  constructor
  · refine FreshName.isInline_of_mem_chooseAll (by decide) ?_ argumentMember
    intro name nameMember
    obtain ⟨original, originalMember, rfl⟩ := List.mem_map.1 nameMember
    exact isInline_of_isIdentifier
      (isIdentifier_uncapitalize (inline.parameters original originalMember))
  · intro marshaled same
    have found : names.2 = some marshaled := same
    rw [found] at marshaledMember
    exact isInline_of_mem_marshaledNames inline.parameters marshaledMember

/-! ## Bodies of wrappers -/

/-- The texts of blanks. -/
def IsIndentation (text : Text) : Prop :=
  ∀ character ∈ text, character = ' '

theorem IsIndentation.append
    {left right : Text}
    (leftBlank : IsIndentation left)
    (rightBlank : IsIndentation right) :
    IsIndentation (left ++ right) := by
  intro character member
  rcases List.mem_append.1 member with inLeft | inRight
  · exact leftBlank character inLeft
  · exact rightBlank character inRight

theorem isIndentation_four : IsIndentation "    " := by
  intro character member
  simpa using member

theorem isIndentation_eight : IsIndentation "        " := by
  intro character member
  simpa using member

theorem IsIndentation.isInline
    {text : Text}
    (blank : IsIndentation text) :
    Text.IsInline text := by
  intro character member
  rw [blank character member]
  decide

/-- Marshaling lines are unquoted, and they only deepen the indentation. -/
theorem marshalLines_spec
    {indentation : Text}
    (blank : IsIndentation indentation)
    {parameters : List BoundParameter}
    (inline : ∀ parameter ∈ parameters, parameter.IsInline) :
    '"' ∉ (marshalLines indentation parameters).1 ∧
      IsIndentation (marshalLines indentation parameters).2 := by
  induction parameters generalizing indentation with
  | nil => exact ⟨List.not_mem_nil, blank⟩
  | cons parameter rest induction =>
      rw [List.forall_mem_cons] at inline
      rw [marshalLines]
      split
      · exact induction blank inline.2
      · rename_i marshaled found
        have deeper := induction (blank.append isIndentation_four) inline.2
        have argument := inline.1.argument.quote_not_mem
        have marshaledFree := (inline.1.marshaled marshaled found).quote_not_mem
        have indentationFree := blank.isInline.quote_not_mem
        refine ⟨?_, deeper.2⟩
        simp only [List.mem_append, not_or, indentationFree, argument, marshaledFree, deeper.1,
          not_false_eq_true, and_true, true_and]
        decide

/-- The marshaling lines of a wrapper, and the indentation of what follows them. -/
def marshaling (plan : MethodPlan) : Text × Text :=
  marshalLines "        " (bindParameters plan)

/-- The indentation of the lines around the call. -/
def innermost (plan : MethodPlan) : Text :=
  (marshaling plan).2 ++ "    "

/-- The call of the imported shim. -/
def importedCall (plan : MethodPlan) : Text :=
  join " "
    (plan.importName :: "iface" :: "exceptionPtr" ::
      (bindParameters plan).map BoundParameter.passed)

/-- The lines of a wrapper up to the check for an exception. -/
def bodyOpening (plan : MethodPlan) : Text :=
  ("        " : Text) ++ "let iface = getInterface a\n" ++ (marshaling plan).1 ++
  (marshaling plan).2 ++ "with nullPtr $ \\exceptionPtr -> do\n" ++
  innermost plan ++ (if plan.hasResult then "result <- " else "") ++ importedCall plan ++ "\n" ++
  innermost plan ++ "aException <- peek exceptionPtr\n"

/-- The line that checks for an exception. -/
def exceptionCheck (plan : MethodPlan) : Text :=
  innermost plan ++ "when (aException /= nullPtr) (error \"exceptions not yet implemented\")"

theorem wrapperBody_eq (plan : MethodPlan) :
    wrapperBody plan =
      bodyOpening plan ++ (exceptionCheck plan ++ ['\n']) ++
        resultLines (innermost plan) plan.result.category := by
  have ending :
      ("when (aException /= nullPtr) (error \"exceptions not yet implemented\")\n" : Text) =
        "when (aException /= nullPtr) (error \"exceptions not yet implemented\")" ++ ['\n'] := by
    simp
  delta wrapperBody bodyOpening exceptionCheck importedCall innermost marshaling
  dsimp only
  rw [ending]
  simp only [List.append_assoc]

theorem marshaling_spec
    {plan : MethodPlan}
    (inline : plan.IsInline) :
    '"' ∉ (marshaling plan).1 ∧ IsIndentation (marshaling plan).2 :=
  marshalLines_spec isIndentation_eight fun _ member =>
    isInline_of_mem_bindParameters inline member

theorem isIndentation_innermost
    {plan : MethodPlan}
    (inline : plan.IsInline) :
    IsIndentation (innermost plan) :=
  (marshaling_spec inline).2.append isIndentation_four

theorem isInline_importedCall
    {plan : MethodPlan}
    (inline : plan.IsInline) :
    IsInline (importedCall plan) := by
  apply isInline_join (by decide)
  intro part member
  simp only [List.mem_cons] at member
  rcases member with rfl | rfl | rfl | inPassed
  · exact inline.importName
  · decide
  · decide
  · obtain ⟨parameter, parameterMember, rfl⟩ := List.mem_map.1 inPassed
    have parameterInline := isInline_of_mem_bindParameters inline parameterMember
    rw [BoundParameter.passed]
    cases found : parameter.marshaled? with
    | none => exact parameterInline.argument
    | some marshaled => exact parameterInline.marshaled marshaled found

theorem quote_not_mem_bodyOpening
    {plan : MethodPlan}
    (inline : plan.IsInline) :
    '"' ∉ bodyOpening plan := by
  have lines := (marshaling_spec inline).1
  have middle := (marshaling_spec inline).2.isInline.quote_not_mem
  have inner := (isIndentation_innermost inline).isInline.quote_not_mem
  have call := (isInline_importedCall inline).quote_not_mem
  have binder : '"' ∉ (if plan.hasResult then "result <- " else "").toList := by
    split <;> decide
  delta bodyOpening
  simp only [List.mem_append, not_or, lines, middle, inner, call, binder, not_false_eq_true,
    and_true]
  decide

/-- The check for an exception is quoted but indented. -/
theorem shows_exceptionCheck
    {plan : MethodPlan}
    (inline : plan.IsInline) :
    Shows isImportLine (exceptionCheck plan ++ ['\n']) [] := by
  have inner := isIndentation_innermost inline
  have innerFree := inner.isInline.lineFeed_not_mem
  apply Shows.line
  · delta exceptionCheck
    simp [innerFree]
  · apply isImportLine_eq_false_of_head
    intro head
    have nonempty : innermost plan ≠ [] := by
      delta innermost
      simp
    have letter : 'f' ∈ innermost plan := by
      delta exceptionCheck at head
      rw [List.head?_append_of_ne_nil _ nonempty] at head
      exact List.mem_of_mem_head? head
    exact absurd (inner 'f' letter) (by decide)

theorem quote_not_mem_resultLines
    {indentation : Text}
    (blank : IsIndentation indentation)
    (category : Category) :
    '"' ∉ resultLines indentation category := by
  have indentationFree := blank.isInline.quote_not_mem
  cases category
  all_goals
    simp only [resultLines, List.mem_append, not_or, indentationFree, not_false_eq_true, true_and,
      and_true]
    decide

/-! ## Class methods -/

/-- The signature of a class method. -/
def methodTyping (plan : MethodPlan) : Text :=
  ("    " : Text) ++ identifier plan.method ++ " :: " ++
    arrows (words ["a"] ++ plan.parameters.map wrapperSpelling ++
      [actionType (wrapperSpelling plan.result)]) ++ "\n"

theorem classMethod_eq_of_supported
    {plan : MethodPlan}
    (supported : plan.isSupported = true) :
    classMethod plan =
      (methodTyping plan ++ "    " ++
        join " "
          (identifier plan.method :: "a" ::
            (bindParameters plan).map BoundParameter.argument) ++ " = do\n" ++
        bodyOpening plan) ++ (exceptionCheck plan ++ ['\n']) ++
        (resultLines (innermost plan) plan.result.category ++ "\n") := by
  delta classMethod methodTyping
  simp only [supported, if_true, wrapperBody_eq]
  simp only [List.append_assoc]

theorem classMethod_eq_of_unsupported
    {plan : MethodPlan}
    (unsupported : ¬ plan.isSupported = true) :
    classMethod plan =
      methodTyping plan ++
        (("    " : Text) ++ identifier plan.method ++
          (List.replicate (plan.parameters.length + 1) (" _" : Text)).flatten ++ " = error \"" ++
          plan.qualified ++ ": aggregate types are not supported\"" ++ ['\n']) ++ ['\n'] := by
  have ending :
      (": aggregate types are not supported\"\n\n" : Text) =
        ": aggregate types are not supported\"" ++ ['\n'] ++ ['\n'] := by simp
  delta classMethod methodTyping
  simp only [if_neg unsupported, ending]
  simp only [List.append_assoc]

theorem isInline_wrapperSpelling
    {plan : MethodPlan}
    (inline : plan.IsInline)
    {value : PlannedValue}
    (member : value ∈ plan.result :: plan.parameters) :
    IsInline (wrapperSpelling value) := by
  rw [wrapperSpelling]
  split
  · exact inline.spellings value member .wrapper
  · decide

theorem quote_not_mem_methodTyping
    {plan : MethodPlan}
    (inline : plan.IsInline) :
    '"' ∉ methodTyping plan := by
  have name := (isInline_identifier inline.method).quote_not_mem
  have types :
      IsInline
        (arrows (words ["a"] ++ plan.parameters.map wrapperSpelling ++
          [actionType (wrapperSpelling plan.result)])) := by
    apply isInline_join (by decide)
    intro part member
    rcases List.mem_append.1 member with inFront | isResult
    · rcases List.mem_append.1 inFront with isFixed | inParameters
      · have fixed : ∀ text ∈ words ["a"], IsInline text := by decide
        exact fixed part isFixed
      · obtain ⟨value, valueMember, rfl⟩ := List.mem_map.1 inParameters
        exact isInline_wrapperSpelling inline (List.mem_cons_of_mem plan.result valueMember)
    · rw [List.mem_singleton.1 isResult]
      exact isInline_actionType (isInline_wrapperSpelling inline List.mem_cons_self)
  have typesFree := types.quote_not_mem
  delta methodTyping
  simp only [List.mem_append, not_or, name, typesFree, not_false_eq_true, and_true]
  decide

theorem quote_not_mem_parameterJoin
    {plan : MethodPlan}
    (inline : plan.IsInline) :
    '"' ∉
      join " "
        (identifier plan.method :: "a" ::
          (bindParameters plan).map BoundParameter.argument) := by
  apply IsInline.quote_not_mem
  apply isInline_join (by decide)
  intro part member
  simp only [List.mem_cons] at member
  rcases member with rfl | rfl | inArguments
  · exact isInline_identifier inline.method
  · decide
  · obtain ⟨parameter, parameterMember, rfl⟩ := List.mem_map.1 inArguments
    exact (isInline_of_mem_bindParameters inline parameterMember).argument

theorem shows_classMethod
    {plan : MethodPlan}
    (inline : plan.IsInline) :
    Shows isImportLine (classMethod plan) [] := by
  have typing := quote_not_mem_methodTyping inline
  by_cases supported : plan.isSupported = true
  · have parameters := quote_not_mem_parameterJoin inline
    have opening := quote_not_mem_bodyOpening inline
    have closing :=
      quote_not_mem_resultLines (isIndentation_innermost inline) plan.result.category
    rw [classMethod_eq_of_supported supported]
    refine Shows.append (Shows.append (Shows.unmarked quote_mem_of_isImportLine ?_ ?_)
      (shows_exceptionCheck inline)) (Shows.unmarked quote_mem_of_isImportLine ?_ ?_)
    · delta bodyOpening
      simp only [← List.append_assoc]
      rw [List.getLast?_append]
      rfl
    · simp only [List.mem_append, not_or, typing, parameters, opening, not_false_eq_true,
        and_true]
      decide
    · rw [List.getLast?_append]
      rfl
    · simp only [List.mem_append, not_or, closing, not_false_eq_true, true_and]
      decide
  · have name := (isInline_identifier inline.method).lineFeed_not_mem
    have qualified := inline.qualified.lineFeed_not_mem
    rw [classMethod_eq_of_unsupported supported]
    refine Shows.append (Shows.append (Shows.unmarked quote_mem_of_isImportLine ?_ typing)
      (Shows.line ?_ ?_)) (Shows.blank (by decide))
    · delta methodTyping
      rw [List.getLast?_append]
      rfl
    · simp [name, qualified]
    · apply isImportLine_eq_false_of_head
      simp

end UnoBindgen.Binding
