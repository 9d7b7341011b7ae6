import Mathlib
import UnoBindgen.Proofs.Association
import UnoBindgen.Proofs.Naming.Legality

/-!
# Wrappers read with their scopes

A wrapper binds names on its way to the call of the imported shim: the arguments of its head, the
interface, the marshaled form of each string and the slot for an exception.  Every name on the way
means what the nearest line above it binds, or something outside of the wrapper if no line does.

`readWrapper?` follows these scopes through the text of a class method up to the first call, and
says what the operands of that call mean.  The wildcard binds nothing, and nothing can be said of
it behind that place.

The lines of a class method are given here by their words, which is all that the reading depends
on.
-/

namespace UnoBindgen.Binding

open Text

/-! ## Words of a line -/

/-- The words of a line. -/
def wordsOf (line : Text) : List Text :=
  (line.splitAt ' ').filter fun word => !word.isEmpty

/-- A text that stands in a line as one word. -/
structure IsWord (word : Text) : Prop where
  nonempty : word ≠ []
  noBlank : ' ' ∉ word
  noLineFeed : '\n' ∉ word

instance (word : Text) : Decidable (IsWord word) :=
  decidable_of_iff (word ≠ [] ∧ ' ' ∉ word ∧ '\n' ∉ word)
    ⟨fun ⟨nonempty, noBlank, noLineFeed⟩ => ⟨nonempty, noBlank, noLineFeed⟩,
      fun word => ⟨word.nonempty, word.noBlank, word.noLineFeed⟩⟩

theorem wordsOf_indented
    {indentation : Text}
    (blank : IsIndentation indentation)
    {words : List Text}
    (nonempty : words ≠ [])
    (each : ∀ word ∈ words, IsWord word) :
    wordsOf (indentation ++ join " " words) = words := by
  induction indentation with
  | nil =>
      have split : splitAt ' ' (join " " words) = words :=
        splitAt_join nonempty fun word member => (each word member).noBlank
      rw [List.nil_append, wordsOf, split, List.filter_eq_self]
      intro word member
      simpa using (each word member).nonempty
  | cons character rest induction =>
      obtain rfl : character = ' ' := blank character List.mem_cons_self
      have rested := induction fun other member => blank other (List.mem_cons_of_mem ' ' member)
      rw [wordsOf] at rested
      rw [List.cons_append, wordsOf, splitAt_cons_separator, List.filter_cons_of_neg (by simp),
        rested]

theorem lineFeed_not_mem_indented
    {indentation : Text}
    (blank : IsIndentation indentation)
    {words : List Text}
    (each : ∀ word ∈ words, IsWord word) :
    '\n' ∉ indentation ++ join " " words := by
  intro member
  rcases List.mem_append.1 member with inIndentation | inWords
  · exact absurd (blank '\n' inIndentation) (by decide)
  · rcases mem_join inWords with inSeparator | ⟨word, wordMember, inWord⟩
    · exact absurd inSeparator (by decide)
    · exact (each word wordMember).noLineFeed inWord

/-! ## Scopes -/

/-- How a name gets its value from a call: as the result of the call, or as what the call hands to
the lines behind it. -/
inductive Manner where
  | result
  | handed
  deriving DecidableEq, Repr

/-- What a name means in a wrapper: the argument at a position of the head, something from outside
of the wrapper, or what a call gives. -/
inductive Meaning where
  | argument (index : Nat)
  | outer (name : Text)
  | obtained (manner : Manner) (function operand : Meaning)
  deriving DecidableEq, Repr

/-- The names that are bound at a place, the nearest first. -/
abbrev Scope := List (Text × Meaning)

namespace Scope

/-- Bind a name.  The wildcard binds nothing. -/
def bind (scope : Scope) (name : Text) (meaning : Meaning) : Scope :=
  if name = "_" then scope else (name, meaning) :: scope

/-- What a name means.  The wildcard is no name. -/
def meaning? (scope : Scope) (name : Text) : Option Meaning :=
  if name = "_" then none else some ((scope.lookup name).getD (.outer name))

theorem bind_of_ne
    (scope : Scope)
    {name : Text}
    (notWildcard : name ≠ "_")
    (meaning : Meaning) :
    scope.bind name meaning = (name, meaning) :: scope :=
  if_neg notWildcard

theorem ne_of_meaning?
    {scope : Scope}
    {name : Text}
    {meaning : Meaning}
    (means : scope.meaning? name = some meaning) :
    name ≠ "_" := by
  rintro rfl
  simp [meaning?] at means

/-- Where no name is bound twice, a name means what it was bound to. -/
theorem meaning?_of_mem
    {scope : Scope}
    (distinct : (scope.map Prod.fst).Nodup)
    {name : Text}
    {meaning : Meaning}
    (bound : (name, meaning) ∈ scope)
    (notWildcard : name ≠ "_") :
    scope.meaning? name = some meaning := by
  have found := (lookup_eq_some_iff_mem distinct name meaning).2 bound
  rw [meaning?, if_neg notWildcard, found, Option.getD_some]

theorem meaning?_of_not_mem
    {scope : Scope}
    {name : Text}
    (free : name ∉ scope.map Prod.fst)
    (notWildcard : name ≠ "_") :
    scope.meaning? name = some (.outer name) := by
  have missing := (lookup_eq_none_iff_not_mem scope name).2 free
  rw [meaning?, if_neg notWildcard, missing, Option.getD_none]

end Scope

/-! ## Reading a wrapper -/

/-- What a line of a wrapper does on the way to the call. -/
inductive Step where
  | binding (manner : Manner) (name function operand : Text)
  | call (function : Text) (operands : List Text)
  deriving DecidableEq, Repr

/-- Read the words of a line: a definition by `let`, a call that hands a value to a block of lines,
or any other call, whose result may be bound. -/
def readStep? (words : List Text) : Option Step :=
  match words with
  | [] => none
  | first :: rest =>
    if first = "let" then
      match rest with
      | [name, sign, function, operand] =>
        if sign = "=" then some (.binding .result name function operand) else none
      | _ => none
    else if rest[1]? = some ("$" : Text) then
      match rest with
      | [operand, _, '\\' :: name, arrow, opening] =>
        if arrow = "->" ∧ opening = "do" then some (.binding .handed name first operand) else none
      | _ => none
    else if rest[0]? = some ("<-" : Text) then
      match rest with
      | _ :: function :: operands => some (.call function operands)
      | _ => none
    else
      some (.call first rest)

/-- A call with its meaning. -/
structure Call where
  function : Meaning
  operands : List Meaning
  deriving DecidableEq, Repr

/-- Follow the lines of a block up to its first call. -/
def readCall? : Scope → List (List Text) → Option Call
  | _, [] => none
  | scope, words :: rest =>
    match readStep? words with
    | none => none
    | some (.binding manner name function operand) =>
      match scope.meaning? function, scope.meaning? operand with
      | some caller, some given => readCall? (scope.bind name (.obtained manner caller given)) rest
      | _, _ => none
    | some (.call function operands) => do
      let caller ← scope.meaning? function
      let given ← operands.mapM scope.meaning?
      return ⟨caller, given⟩

/-- The scope that the arguments of a head open. -/
def headScope (arguments : List Text) : Scope :=
  arguments.zipIdx.foldl (fun scope (name, index) => scope.bind name (.argument index)) []

/-- Read a class method: behind the line of its type, the head and the lines of its block. -/
def readWrapper? (text : Text) : Option Call :=
  match (lines text).map wordsOf with
  | _ :: head :: block => readCall? (headScope (head.tail.takeWhile (· ≠ "="))) block
  | _ => none

/-- What the call of a wrapper should receive: the interface of the first argument, a slot for an
exception, and the parameters of the method in order, strings in their marshaled form. -/
def intendedCall (plan : MethodPlan) : Call where
  function := .outer plan.importName
  operands :=
    .obtained .result (.outer "getInterface") (.argument 0) ::
    .obtained .handed (.outer "with") (.outer "nullPtr") ::
    (plan.parameters.zipIdx 1).map fun (value, index) =>
      if value.category = .string then
        .obtained .handed (.outer "withOUString") (.argument index)
      else
        .argument index

/-! ## Names as words -/

theorem not_mem_marked
    {name : Text}
    (identifier : isIdentifier name = true)
    (count : Nat)
    {character : Char}
    (outside : Identifier.isFollowing character = false)
    (noMark : character ≠ '\'') :
    character ∉ FreshName.marked '\'' name count := by
  intro member
  rcases List.mem_append.1 member with inName | isMark
  · exact not_mem_of_isIdentifier identifier outside inName
  · exact noMark (List.eq_of_mem_replicate isMark)

theorem isWord_marked
    {name : Text}
    (identifier : isIdentifier name = true)
    (count : Nat) :
    IsWord (FreshName.marked '\'' name count) :=
  ⟨by simp [FreshName.marked, ne_nil_of_isIdentifier identifier],
    not_mem_marked identifier count (by decide) (by decide),
    not_mem_marked identifier count (by decide) (by decide)⟩

theorem isWord_of_isIdentifier
    {name : Text}
    (identifier : isIdentifier name = true) :
    IsWord name := by
  have unmarked := isWord_marked identifier 0
  rwa [FreshName.marked, List.replicate_zero, List.append_nil] at unmarked

theorem isWord_identifier
    {name : Text}
    (named : isIdentifier name = true) :
    IsWord (identifier name) := by
  have small := isIdentifier_uncapitalize named
  rw [identifier]
  split
  · exact isWord_marked small 1
  · exact isWord_of_isIdentifier small

theorem map_marshaled_bindParameters (plan : MethodPlan) :
    (bindParameters plan).map BoundParameter.marshaled? =
      marshaledNames
        ((bindParameters plan).map BoundParameter.argument ++ avoidedNames plan)
        plan.parameters := by
  rw [map_argument_bindParameters, bindParameters, List.map_zipWith]
  apply List.ext_getElem
  · simp
  · intro index bound otherBound
    simp

theorem map_value_bindParameters (plan : MethodPlan) :
    (bindParameters plan).map BoundParameter.value = plan.parameters := by
  rw [bindParameters, List.map_zipWith]
  apply List.ext_getElem
  · simp
  · intro index bound otherBound
    simp

/-- An argument is called like a parameter, with a small first letter and primes behind it. -/
theorem exists_marked_argument
    {plan : MethodPlan}
    {parameter : BoundParameter}
    (member : parameter ∈ bindParameters plan) :
    ∃ value ∈ plan.parameters, ∃ count,
      parameter.argument = FreshName.marked '\'' value.name.uncapitalize count := by
  have chosen : parameter.argument ∈ (bindParameters plan).map BoundParameter.argument :=
    List.mem_map_of_mem member
  rw [map_argument_bindParameters] at chosen
  obtain ⟨small, smallMember, count, same⟩ := FreshName.exists_marked_of_mem_chooseAll chosen
  obtain ⟨value, valueMember, rfl⟩ := List.mem_map.1 smallMember
  exact ⟨value, valueMember, count, same⟩

theorem isWord_argument
    {plan : MethodPlan}
    (named : ∀ value ∈ plan.parameters, isIdentifier value.name = true)
    {parameter : BoundParameter}
    (member : parameter ∈ bindParameters plan) :
    IsWord parameter.argument := by
  obtain ⟨value, valueMember, count, same⟩ := exists_marked_argument member
  rw [same]
  exact isWord_marked (isIdentifier_uncapitalize (named value valueMember)) count

theorem isWord_marshaled
    {plan : MethodPlan}
    (named : ∀ value ∈ plan.parameters, isIdentifier value.name = true)
    {parameter : BoundParameter}
    (member : parameter ∈ bindParameters plan)
    {marshaled : Text}
    (present : parameter.marshaled? = some marshaled) :
    IsWord marshaled := by
  have chosen : some marshaled ∈ (bindParameters plan).map BoundParameter.marshaled? :=
    List.mem_map.2 ⟨parameter, member, present⟩
  rw [map_marshaled_bindParameters] at chosen
  obtain ⟨value, valueMember, count, rfl⟩ := exists_marked_of_mem_marshaledNames chosen
  exact isWord_marked (isIdentifier_marshaledIdentifier (named value valueMember)) count

/-! ## The lines of a class method -/

/-- The line with the type of a class method. -/
def typingLine (plan : MethodPlan) : Text :=
  ("    " : Text) ++ identifier plan.method ++ " :: " ++
    arrows (words ["a"] ++ plan.parameters.map wrapperSpelling ++
      [actionType (wrapperSpelling plan.result)])

/-- The words of the head of a class method. -/
def headWords (plan : MethodPlan) : List Text :=
  identifier plan.method :: "a" ::
    ((bindParameters plan).map BoundParameter.argument ++ words ["=", "do"])

/-- The words of the line that obtains the interface. -/
def interfaceWords : List Text :=
  words ["let", "iface", "=", "getInterface", "a"]

/-- The words of the line that marshals a parameter, if it is a string. -/
def marshalWords? (parameter : BoundParameter) : Option (List Text) :=
  parameter.marshaled?.map fun marshaled =>
    ["withOUString", parameter.argument, "$", '\\' :: marshaled, "->", "do"]

/-- The words of the line that provides the slot for an exception. -/
def slotWords : List Text :=
  words ["with", "nullPtr", "$", "\\exceptionPtr", "->", "do"]

/-- The words of the line with the call. -/
def callWords (plan : MethodPlan) : List Text :=
  (if plan.hasResult then words ["result", "<-"] else []) ++
    plan.importName :: "iface" :: "exceptionPtr" ::
      (bindParameters plan).map BoundParameter.passed

/-- The lines that marshal the strings among the parameters. -/
def marshalLineList (indentation : Text) : List BoundParameter → List Text
  | [] => []
  | parameter :: rest =>
    match marshalWords? parameter with
    | none => marshalLineList indentation rest
    | some words =>
      (indentation ++ join " " words) :: marshalLineList (indentation ++ "    ") rest

theorem marshalLines_eq_unlines
    (indentation : Text)
    (parameters : List BoundParameter) :
    (marshalLines indentation parameters).1 = unlines (marshalLineList indentation parameters) := by
  induction parameters generalizing indentation with
  | nil => rfl
  | cons parameter rest induction =>
      rw [marshalLines, marshalLineList, marshalWords?]
      cases parameter.marshaled? with
      | none => exact induction indentation
      | some marshaled =>
          have ending : (" -> do\n" : Text) = " -> do" ++ ['\n'] := by simp
          simp only [Option.map_some, induction, unlines_cons, join, ending]
          simp

theorem isIndentation_marshalLines
    {indentation : Text}
    (blank : IsIndentation indentation)
    (parameters : List BoundParameter) :
    IsIndentation (marshalLines indentation parameters).2 := by
  induction parameters generalizing indentation with
  | nil => exact blank
  | cons parameter rest induction =>
      rw [marshalLines]
      split
      · exact induction blank
      · exact induction (blank.append isIndentation_four)

theorem marshalLineList_spec
    {indentation : Text}
    (blank : IsIndentation indentation)
    {parameters : List BoundParameter}
    (each :
      ∀ parameter ∈ parameters, ∀ words ∈ marshalWords? parameter, ∀ word ∈ words,
        IsWord word) :
    (∀ line ∈ marshalLineList indentation parameters, '\n' ∉ line) ∧
      (marshalLineList indentation parameters).map wordsOf =
        parameters.filterMap marshalWords? := by
  induction parameters generalizing indentation with
  | nil => exact ⟨by simp [marshalLineList], rfl⟩
  | cons parameter rest induction =>
      rw [List.forall_mem_cons] at each
      rw [marshalLineList]
      cases found : marshalWords? parameter with
      | none =>
          rw [List.filterMap_cons_none found]
          exact induction blank each.2
      | some words =>
          have nonempty : words ≠ [] := by
            obtain ⟨marshaled, -, rfl⟩ := Option.map_eq_some_iff.1 found
            simp
          have deeper := induction (blank.append isIndentation_four) each.2
          have isWords := each.1 words found
          rw [List.filterMap_cons_some found, List.map_cons, deeper.2,
            wordsOf_indented blank nonempty isWords, List.forall_mem_cons]
          exact ⟨⟨lineFeed_not_mem_indented blank isWords, deeper.1⟩, rfl⟩

/-- The texts that a plan contributes to its class method can be told apart in it: its names are
words, and its types stay on their line. -/
structure HasWords (plan : MethodPlan) : Prop where
  method : isIdentifier plan.method = true
  parameters : ∀ value ∈ plan.parameters, isIdentifier value.name = true
  importName : plan.importName = Names.importName plan.method
  types : ∀ value ∈ plan.result :: plan.parameters, IsInline (wrapperSpelling value)

theorem hasWords_of_settles
    {plan : MethodPlan}
    {names : Names}
    {method : Method}
    (settles : plan.Settles names method)
    (named : isIdentifier method.name = true)
    (parametersNamed : ∀ parameter ∈ method.parameters, isIdentifier parameter.name = true) :
    HasWords plan := by
  refine
    { method := settles.sameMethod ▸ named
      parameters := ?_
      importName := settles.sameMethod ▸ settles.importName
      types := ?_ }
  · intro value member
    obtain ⟨parameter, parameterMember, settled⟩ :=
      exists_of_mem_right settles.parameters member
    rw [settled.sameName]
    exact parametersNamed parameter parameterMember
  · intro value member
    obtain ⟨type, -, name, settled⟩ := exists_of_mem_right settles.positions member
    rw [wrapperSpelling]
    split
    · exact settled.isInline_spelling .wrapper
    · decide

namespace HasWords

variable {plan : MethodPlan}

theorem isWord_importName (hasWords : HasWords plan) : IsWord plan.importName := by
  rw [hasWords.importName]
  exact isWord_of_isIdentifier (Emission.isIdentifier_importName hasWords.method)

theorem lineFeed_not_mem_typingLine (hasWords : HasWords plan) : '\n' ∉ typingLine plan := by
  have name := (isWord_identifier hasWords.method).noLineFeed
  have types :
      IsInline
        (arrows (words ["a"] ++ plan.parameters.map wrapperSpelling ++
          [actionType (wrapperSpelling plan.result)])) := by
    apply isInline_join (by decide)
    simp only [List.forall_mem_append, List.forall_mem_map, List.forall_mem_singleton]
    exact ⟨⟨by decide, fun value member =>
        hasWords.types value (List.mem_cons_of_mem plan.result member)⟩,
      isInline_actionType (hasWords.types plan.result List.mem_cons_self)⟩
  delta typingLine
  simp only [List.mem_append, not_or, name, types.lineFeed_not_mem, not_false_eq_true, and_true]
  decide

theorem isWord_of_mem_headWords (hasWords : HasWords plan) :
    ∀ word ∈ headWords plan, IsWord word := by
  simp only [headWords, List.forall_mem_cons, List.forall_mem_append, List.forall_mem_map]
  exact ⟨isWord_identifier hasWords.method, by decide,
    fun parameter => isWord_argument hasWords.parameters, by decide⟩

theorem isWord_of_mem_marshalWords
    (hasWords : HasWords plan)
    {parameter : BoundParameter}
    (member : parameter ∈ bindParameters plan)
    {words : List Text}
    (found : words ∈ marshalWords? parameter) :
    ∀ word ∈ words, IsWord word := by
  obtain ⟨marshaled, present, rfl⟩ := Option.map_eq_some_iff.1 found
  have binder := isWord_marshaled hasWords.parameters member present
  simp only [List.forall_mem_cons]
  refine ⟨by decide, isWord_argument hasWords.parameters member, by decide,
    ⟨by simp, ?_, ?_⟩, by decide, by decide, by simp⟩
  · simp [binder.noBlank]
  · simp [binder.noLineFeed]

theorem isWord_of_mem_callWords (hasWords : HasWords plan) :
    ∀ word ∈ callWords plan, IsWord word := by
  have passed : ∀ parameter ∈ bindParameters plan, IsWord parameter.passed := by
    intro parameter member
    rw [BoundParameter.passed]
    cases present : parameter.marshaled? with
    | none => exact isWord_argument hasWords.parameters member
    | some marshaled => exact isWord_marshaled hasWords.parameters member present
  have result :
      ∀ word ∈ if plan.hasResult then words ["result", "<-"] else [], IsWord word := by
    split
    · decide
    · simp
  simp only [callWords, List.forall_mem_append, List.forall_mem_cons, List.forall_mem_map]
  exact ⟨result, hasWords.isWord_importName, by decide, by decide, passed⟩

end HasWords

theorem join_headWords (plan : MethodPlan) :
    join " " (headWords plan) =
      join " "
        (identifier plan.method :: "a" :: (bindParameters plan).map BoundParameter.argument) ++
        " = do" := by
  have split :
      headWords plan =
        ((identifier plan.method :: "a" ::
          (bindParameters plan).map BoundParameter.argument) ++ [("=" : Text)]) ++
          [("do" : Text)] := by
    simp [headWords, words]
  have ending : (" = do" : Text) = " " ++ ("=" ++ (" " ++ "do")) := by simp
  rw [split, join_concat, if_neg (by simp), join_concat, if_neg (by simp), ending]
  simp only [List.append_assoc]

theorem join_callWords (plan : MethodPlan) :
    join " " (callWords plan) =
      (if plan.hasResult then "result <- " else "").toList ++ importedCall plan := by
  rw [callWords, importedCall]
  split
  · have binder : ("result <- " : Text) = "result" ++ (" " ++ ("<-" ++ " ")) := by simp
    rw [words, List.map_cons, List.map_singleton, List.cons_append, List.singleton_append,
      join_cons _ _ (by simp), join_cons _ _ (by simp), binder]
    simp only [List.append_assoc]
  · rfl

/-- The lines of a class method up to that of the call. -/
def linesToCall (plan : MethodPlan) : List Text :=
  typingLine plan ::
    (("    " : Text) ++ join " " (headWords plan)) ::
    (("        " : Text) ++ join " " interfaceWords) ::
    (marshalLineList "        " (bindParameters plan) ++
      [(marshaling plan).2 ++ join " " slotWords,
        innermost plan ++ join " " (callWords plan)])

/-- The lines that turn the raw result into the result of the wrapper. -/
def resultLineList (indentation : Text) : Category → List Text
  | .string =>
    [indentation ++ "methodResult <- ouStringToText result", indentation ++ "deleteOUString result",
      indentation ++ "return methodResult"]
  | .primitive => [indentation ++ "return result"]
  | _ => [indentation ++ "return ()"]

/-- The lines of a class method behind that of the call. -/
def linesBehindCall (plan : MethodPlan) : List Text :=
  (innermost plan ++ "aException <- peek exceptionPtr") :: exceptionCheck plan ::
    (resultLineList (innermost plan) plan.result.category ++ [[]])

theorem resultLines_eq_unlines
    (indentation : Text)
    (category : Category) :
    resultLines indentation category = unlines (resultLineList indentation category) := by
  have marshaled :
      ("methodResult <- ouStringToText result\n" : Text) =
        "methodResult <- ouStringToText result" ++ ['\n'] := by simp
  have deleted :
      ("deleteOUString result\n" : Text) = "deleteOUString result" ++ ['\n'] := by simp
  have returned : ("return methodResult\n" : Text) = "return methodResult" ++ ['\n'] := by simp
  have raw : ("return result\n" : Text) = "return result" ++ ['\n'] := by simp
  have nothing : ("return ()\n" : Text) = "return ()" ++ ['\n'] := by simp
  cases category
  all_goals
    simp only [resultLines, resultLineList, marshaled, deleted, returned, raw, nothing]
    simp [unlines]

theorem classMethod_eq_unlines
    {plan : MethodPlan}
    (supported : plan.isSupported = true) :
    classMethod plan = unlines (linesToCall plan) ++ unlines (linesBehindCall plan) := by
  have typing : methodTyping plan = typingLine plan ++ ['\n'] := rfl
  have head : (" = do\n" : Text) = " = do" ++ ['\n'] := by simp
  have interface :
      ("let iface = getInterface a\n" : Text) = join " " interfaceWords ++ ['\n'] := by
    simp [interfaceWords, words, join]
  have slot :
      ("with nullPtr $ \\exceptionPtr -> do\n" : Text) = join " " slotWords ++ ['\n'] := by
    simp [slotWords, words, join]
  have slotRead :
      ("aException <- peek exceptionPtr\n" : Text) =
        "aException <- peek exceptionPtr" ++ ['\n'] := by simp
  have ending : ("\n" : Text) = ['\n'] := rfl
  rw [classMethod_eq_of_supported supported, typing, resultLines_eq_unlines]
  delta bodyOpening linesToCall linesBehindCall
  rw [marshaling, marshalLines_eq_unlines, join_headWords, join_callWords, head, interface, slot,
    slotRead, ending]
  simp only [unlines_cons, unlines_append, List.append_assoc, List.cons_append, List.nil_append]
  simp [unlines]

theorem isIndentation_marshaling (plan : MethodPlan) : IsIndentation (marshaling plan).2 :=
  isIndentation_marshalLines isIndentation_eight (bindParameters plan)

theorem HasWords.marshalLines_spec
    {plan : MethodPlan}
    (hasWords : HasWords plan) :
    (∀ line ∈ marshalLineList "        " (bindParameters plan), '\n' ∉ line) ∧
      (marshalLineList "        " (bindParameters plan)).map wordsOf =
        (bindParameters plan).filterMap marshalWords? :=
  marshalLineList_spec isIndentation_eight fun _ member _ found =>
    hasWords.isWord_of_mem_marshalWords member found

theorem lineFeed_not_mem_linesToCall
    {plan : MethodPlan}
    (hasWords : HasWords plan) :
    ∀ line ∈ linesToCall plan, '\n' ∉ line := by
  have blank := isIndentation_marshaling plan
  have marshal := hasWords.marshalLines_spec
  simp only [linesToCall, List.forall_mem_cons, List.forall_mem_append]
  exact ⟨hasWords.lineFeed_not_mem_typingLine,
    lineFeed_not_mem_indented isIndentation_four hasWords.isWord_of_mem_headWords,
    lineFeed_not_mem_indented isIndentation_eight (by decide), marshal.1,
    lineFeed_not_mem_indented blank (by decide),
    lineFeed_not_mem_indented (blank.append isIndentation_four) hasWords.isWord_of_mem_callWords,
    by simp⟩

/-- The words of the lines of a class method, up to that of the call. -/
theorem exists_map_wordsOf_lines
    {plan : MethodPlan}
    (hasWords : HasWords plan)
    (supported : plan.isSupported = true) :
    ∃ (typing : List Text) (rest : List (List Text)),
      (lines (classMethod plan)).map wordsOf =
        typing :: headWords plan :: interfaceWords ::
          ((bindParameters plan).filterMap marshalWords? ++
            slotWords :: callWords plan :: rest) := by
  have blank := isIndentation_marshaling plan
  have deepest : IsIndentation (innermost plan) := blank.append isIndentation_four
  have interfaceEach : ∀ word ∈ interfaceWords, IsWord word := by decide
  have slotEach : ∀ word ∈ slotWords, IsWord word := by decide
  have marshal := hasWords.marshalLines_spec
  rw [classMethod_eq_unlines supported,
    lines_unlines_append (lineFeed_not_mem_linesToCall hasWords)]
  refine ⟨wordsOf (typingLine plan), (lines (unlines (linesBehindCall plan))).map wordsOf, ?_⟩
  simp only [linesToCall, List.map_append, List.map_cons, List.cons_append, List.append_assoc,
    List.nil_append, marshal.2]
  rw [wordsOf_indented isIndentation_four (by simp [headWords]) hasWords.isWord_of_mem_headWords,
    wordsOf_indented isIndentation_eight (by simp [interfaceWords, words]) interfaceEach,
    wordsOf_indented blank (by simp [slotWords, words]) slotEach,
    wordsOf_indented deepest (by simp [callWords]) hasWords.isWord_of_mem_callWords]

end UnoBindgen.Binding
