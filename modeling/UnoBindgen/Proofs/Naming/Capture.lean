import Mathlib
import UnoBindgen.Proofs.Emission.ForeignInterface
import UnoBindgen.Proofs.Emission.Outcome
import UnoBindgen.Proofs.Text.Unqualified

/-!
# Shim parameters and the names of a shim body

The body of a shim uses names of its own: its locals, keywords, types and functions of the runtime.
A parameter of the same name would take their place, so parameters are renamed when their names are
reserved.  `shimBody` is read name by name here, for every combination of result and parameters.

The main theorem states that the reserved names cover the body except for two names: the constant
`SAL_NO_ACQUIRE` of a shim that returns a string, and the type of an interface in the root module,
which no namespace stands in front of.
-/

namespace UnoBindgen

theorem Identifier.isDigit_ne_true_of_isInitial
    {character : Char}
    (initial : isInitial character = true) :
    character.isDigit ≠ true := by
  intro digit
  simp only [Char.isDigit, isInitial, Char.isAlpha, Char.isUpper, Char.isLower, Bool.or_eq_true,
    Bool.and_eq_true, decide_eq_true_eq, beq_iff_eq, ge_iff_le, UInt32.le_iff_toNat_le]
    at digit initial
  have code : 48 ≤ character.toNat ∧ character.toNat ≤ 57 := digit
  rcases initial with (upper | lower) | rfl
  · have above : 65 ≤ character.toNat := upper.1
    omega
  · have above : 97 ≤ character.toNat := lower.1
    omega
  · exact absurd code (by decide)

namespace Native

open Text
open scoped List

/-- What follows the signature in the definition of a shim. -/
def shimBody (plan : MethodPlan) : Text :=
  shimOpening plan ++ (shimCall plan ++ ['\n']) ++ shimClosing plan

/-- The unqualified names of a shim body, without the one use of each parameter as itself. -/
def reliedNames (plan : MethodPlan) : List Text :=
  (unqualifiedNames (shimBody plan)).diff (parameterNames plan)

theorem methodShim_eq_append_shimBody
    {plan : MethodPlan}
    (supported : plan.isSupported = true) :
    methodShim plan = methodSignature plan ++ '\n' :: shimBody plan := by
  rw [methodShim_eq supported, shimBody]
  simp only [List.append_nil, List.append_assoc, List.cons_append, List.nil_append]

/-! ## Parameters -/

theorem isIdentifier_of_mem_parameterNames
    {plan : MethodPlan}
    (named : ∀ value ∈ plan.parameters, isIdentifier value.name = true)
    {name : Text}
    (member : name ∈ parameterNames plan) :
    isIdentifier name = true := by
  obtain ⟨original, originalMember, count, rfl⟩ :=
    FreshName.exists_marked_of_mem_chooseAll member
  obtain ⟨value, valueMember, rfl⟩ := List.mem_map.1 originalMember
  apply isIdentifier_append (named value valueMember)
  intro character isMark
  rw [List.eq_of_mem_replicate isMark]
  decide

/-- The names in the address of an argument, besides that of the parameter. -/
def addressNames (value : PlannedValue) : List Text :=
  if value.category = .string then words ["const_cast", "rtl_uString"] else []

/-- The names in the lines that fill the argument array. -/
def argumentNames (values : List PlannedValue) (names : List Text) : List Text :=
  (List.zipWith (fun value name => words ["args"] ++ (addressNames value ++ [name]))
    values names).flatten

theorem mentions_numeral (number : Nat) : Mentions (Text.ofNat number ++ [']']) [] := by
  have digits : ∀ character ∈ Text.ofNat number, character.isDigit = true :=
    fun character member => Nat.isDigit_of_mem_toDigits (by decide) (by decide) member
  have following : ∀ character ∈ Text.ofNat number, Identifier.isFollowing character = true :=
    fun character member => by simp [Identifier.isFollowing, digits character member]
  have numeral : isIdentifier (Text.ofNat number) = false := by
    cases text : Text.ofNat number with
    | nil => rfl
    | cons first rest =>
        have digit := digits first (text ▸ List.mem_cons_self)
        rw [← Bool.not_eq_true, isIdentifier_cons_iff]
        rintro ⟨initial, -⟩
        exact Identifier.isDigit_ne_true_of_isInitial initial digit
  have nothing : plainNames (Text.ofNat number) = [] := by
    rw [plainNames, namesFrom_word following, kept, numeral]
    rfl
  rw [← nothing]
  exact Mentions.ofBoundary _ ']' (by decide)

/-- A string is passed by the data that its handle points to. -/
theorem mentions_stringData
    {name : Text}
    (identifier : isIdentifier name = true) :
    Mentions (name ++ "->pData)") [name] := by
  have following : ∀ character ∈ name, Identifier.isFollowing character = true :=
    fun _ => isFollowing_of_mem_isIdentifier identifier
  intro rest
  rw [plainNames, List.append_assoc, pieces_append_of_isFollowing following,
    namesFrom_append_of_isFollowing following]
  change kept false ([] ++ name) ++ namesFrom true [] (pieces ("pData)" ++ rest)) = _
  rw [List.nil_append, kept, identifier]
  rfl

theorem mentions_argumentAddress
    (value : PlannedValue)
    {name : Text}
    (identifier : isIdentifier name = true) :
    Mentions (argumentAddress value name ++ ";\n") (addressNames value ++ [name]) := by
  rw [argumentAddress, addressNames]
  split
  · have cast : Mentions "const_cast< rtl_uString ** >(&" (words ["const_cast", "rtl_uString"]) :=
      Mentions.literal (by decide) (by decide)
    have ending : Mentions ";\n" [] := Mentions.literal (by decide) (by decide)
    have whole := cast.append ((mentions_stringData identifier).append ending)
    simpa only [List.append_assoc, List.append_nil] using whole
  · have address : Mentions "&" [] := Mentions.literal (by decide) (by decide)
    have ending : Mentions "\n" [] := Mentions.literal (by decide) (by decide)
    have closing : (";\n" : Text) = [';'] ++ "\n" := rfl
    have whole := address.append ((Mentions.word identifier ';' (by decide)).append ending)
    rw [closing]
    simpa only [List.append_assoc, List.append_nil, List.nil_append] using whole

theorem mentions_argumentLines
    (values : List PlannedValue)
    {names : List Text}
    (identifiers : ∀ name ∈ names, isIdentifier name = true)
    (index : Nat) :
    Mentions (argumentLines index values names) (argumentNames values names) := by
  induction values generalizing names index with
  | nil => exact Mentions.nothing
  | cons value rest induction =>
      cases names with
      | nil => exact Mentions.nothing
      | cons name others =>
          rw [List.forall_mem_cons] at identifiers
          have opening : Mentions "    args[" (words ["args"]) :=
            Mentions.literal (by decide) (by decide)
          have equals : Mentions " = " [] := Mentions.literal (by decide) (by decide)
          have element : ("] = " : Text) = [']'] ++ " = " := rfl
          have whole :=
            opening.append ((mentions_numeral index).append (equals.append
              ((mentions_argumentAddress value identifiers.1).append
                (induction identifiers.2 (index + 1)))))
          have names :
              argumentNames (value :: rest) (name :: others) =
                words ["args"] ++ (addressNames value ++ [name]) ++ argumentNames rest others := rfl
          rw [argumentLines_cons, element, names]
          simpa only [List.append_assoc, List.nil_append] using whole

theorem mentions_argumentArray
    {plan : MethodPlan}
    (identifiers : ∀ name ∈ parameterNames plan, isIdentifier name = true) :
    Mentions (argumentArray plan)
      (words ["void", "args"] ++ argumentNames plan.parameters (parameterNames plan)) := by
  rw [argumentArray]
  split
  · rename_i empty
    have none : Mentions "    void ** args = 0;\n" (words ["void", "args"]) :=
      Mentions.literal (by decide) (by decide)
    rw [List.isEmpty_iff.1 empty, argumentNames, List.zipWith_nil_left, List.flatten_nil,
      List.append_nil]
    exact none
  · have opening : Mentions "    void * args[" (words ["void", "args"]) :=
      Mentions.literal (by decide) (by decide)
    have ending : Mentions ";\n" [] := Mentions.literal (by decide) (by decide)
    have bracket : ("];\n" : Text) = [']'] ++ ";\n" := rfl
    have whole :=
      opening.append ((mentions_numeral plan.parameters.length).append (ending.append
        (mentions_argumentLines plan.parameters identifiers 0)))
    rw [bracket]
    simpa only [List.append_assoc, List.nil_append] using whole

/-! ## The body of a shim -/

/-- The names of the slot for the result. -/
def slotNames (plan : MethodPlan) : List Text :=
  if plan.hasResult then
    plainNames plan.result.spellings.marshal ++ words ["result"]
  else
    []

/-- The names of the statement that returns the result. -/
def returnNames (plan : MethodPlan) : List Text :=
  match plan.result.category with
  | .string => words ["return", "new", "result", "SAL_NO_ACQUIRE"]
  | .primitive => words ["return", "result"]
  | _ => []

/-- The names of a shim body before the arguments. -/
def namesBefore (plan : MethodPlan) : List Text :=
  plainNames plan.names.qualified ++ words ["ref", "static_cast"] ++
    plainNames plan.names.qualified ++
    words ["rIface", "uno_Interface", "iface", "static_cast", "uno_Interface", "g_cpp2uno", "ref"] ++
    plainNames plan.names.qualified ++ slotNames plan ++ words ["void", "args"]

/-- The names of a shim body behind the arguments. -/
def namesBehind (plan : MethodPlan) : List Text :=
  words ["makeBinaryUnoCall", "iface"] ++
    (if plan.hasResult then words ["result"] else []) ++
    words ["args", "exception", "iface", "iface"] ++ returnNames plan

theorem mentions_slot (plan : MethodPlan) :
    Mentions
      (if plan.hasResult then
        ("    " : Text) ++ plan.result.spellings.marshal ++ " result = 0;\n"
      else
        [])
      (slotNames plan) := by
  rw [slotNames]
  split
  · have indentation : Mentions "    " [] := Mentions.literal (by decide) (by decide)
    have slot : Mentions "result = 0;\n" (words ["result"]) :=
      Mentions.literal (by decide) (by decide)
    have blank : (" result = 0;\n" : Text) = [' '] ++ "result = 0;\n" := rfl
    have whole :=
      indentation.append
        ((Mentions.ofBoundary plan.result.spellings.marshal ' ' (by decide)).append slot)
    rw [blank]
    simpa only [List.append_assoc, List.nil_append] using whole
  · exact Mentions.nothing

theorem mentions_shimOpening
    {plan : MethodPlan}
    (identifiers : ∀ name ∈ parameterNames plan, isIdentifier name = true) :
    Mentions (shimOpening plan)
      (namesBefore plan ++ argumentNames plan.parameters (parameterNames plan)) := by
  have brace : Mentions "\x7b\n    " [] := Mentions.literal (by decide) (by decide)
  have template : Mentions "com::sun::star::uno::Reference< " [] :=
    Mentions.literal (by decide) (by decide)
  have qualified := Mentions.ofBoundary plan.names.qualified ' ' (by decide)
  have reference :
      Mentions (['>'] ++ " * ref = static_cast< ") (words ["ref", "static_cast"]) :=
    Mentions.literal (by decide) (by decide)
  have handle : Mentions (['>'] ++ " * >(rIface);\n") (words ["rIface"]) :=
    Mentions.literal (by decide) (by decide)
  have interface :
      Mentions "    uno_Interface * iface = static_cast< uno_Interface * >(\n"
        (words ["uno_Interface", "iface", "static_cast", "uno_Interface"]) :=
    Mentions.literal (by decide) (by decide)
  have mapping :
      Mentions "        g_cpp2uno.mapInterface(ref->get(), cppu::UnoType< "
        (words ["g_cpp2uno", "ref"]) :=
    Mentions.literal (by decide) (by decide)
  have type : Mentions ">::get()));\n\n" [] := Mentions.literal (by decide) (by decide)
  have newline : Mentions "\n" [] := Mentions.literal (by decide) (by decide)
  have whole :=
    brace.append (template.append (qualified.append (reference.append (template.append
      (qualified.append (handle.append (interface.append (mapping.append (qualified.append
        (type.append ((mentions_slot plan).append
          ((mentions_argumentArray identifiers).append newline))))))))))))
  have closing : (" >" : Text) = [' '] ++ ['>'] := rfl
  have mapped : (" >::get()));\n\n" : Text) = [' '] ++ ">::get()));\n\n" := rfl
  have fixed :
      words
          ["rIface", "uno_Interface", "iface", "static_cast", "uno_Interface", "g_cpp2uno", "ref"] =
        words ["rIface"] ++ words ["uno_Interface", "iface", "static_cast", "uno_Interface"] ++
          words ["g_cpp2uno", "ref"] := rfl
  delta shimOpening Names.referenceType
  rw [namesBefore, fixed]
  simp only [closing, mapped]
  simpa only [List.append_assoc, List.nil_append, List.append_nil] using whole

theorem mentions_shimClosing (plan : MethodPlan) :
    Mentions (shimClosing plan) (words ["iface", "iface"] ++ returnNames plan) := by
  have release : Mentions "    iface->release(iface);\n" (words ["iface", "iface"]) :=
    Mentions.literal (by decide) (by decide)
  have ending : Mentions "\x7d\n\n" [] := Mentions.literal (by decide) (by decide)
  have statement : Mentions (returnStatement plan) (returnNames plan) := by
    rw [returnStatement, returnNames]
    cases plan.result.category with
    | string => exact Mentions.literal (by decide) (by decide)
    | primitive => exact Mentions.literal (by decide) (by decide)
    | void => exact Mentions.nothing
    | aggregate => exact Mentions.nothing
  have whole := release.append (statement.append ending)
  delta shimClosing
  simpa only [List.append_assoc, List.append_nil] using whole

/-- The unqualified names of a shim body, in the order of the text. -/
theorem unqualifiedNames_shimBody
    {plan : MethodPlan}
    (identifiers : ∀ name ∈ parameterNames plan, isIdentifier name = true)
    (typeInline : IsInline plan.names.qualified)
    (methodInline : IsInline plan.qualified)
    (marshalInline : IsInline plan.result.spellings.marshal) :
    unqualifiedNames (shimBody plan) =
      namesBefore plan ++ argumentNames plan.parameters (parameterNames plan) ++
        namesBehind plan := by
  have namesInline : ∀ name ∈ parameterNames plan, IsInline name :=
    fun name member => isInline_of_isIdentifier (identifiers name member)
  have opening := quote_not_mem_shimOpening typeInline marshalInline namesInline
  have call : Mentions "    makeBinaryUnoCall(iface, " (words ["makeBinaryUnoCall", "iface"]) :=
    Mentions.literal (by decide) (by decide)
  have comma : Mentions ([' '] ++ ", ") [] := Mentions.literal (by decide) (by decide)
  have slot :
      Mentions ((if plan.hasResult then "&result" else "0").toList ++ ", args, exception);" ++ ['\n'])
        ((if plan.hasResult then words ["result"] else []) ++ words ["args", "exception"]) := by
    cases plan.hasResult with
    | true => exact Mentions.literal (by decide) (by decide)
    | false => exact Mentions.literal (by decide) (by decide)
  have slotFree : '"' ∉ (if plan.hasResult then "&result" else "0").toList := by
    cases plan.hasResult <;> decide
  have split :
      shimBody plan =
        (shimOpening plan ++ "    makeBinaryUnoCall(iface, ") ++ '"' :: (plan.qualified ++
          '"' :: (", " ++ ((if plan.hasResult then "&result" else "0").toList ++
            ", args, exception);" ++ ['\n']) ++ shimClosing plan)) := by
    have quoted :
        ("    makeBinaryUnoCall(iface, \"" : Text) = "    makeBinaryUnoCall(iface, " ++ ['"'] := rfl
    have unquoted : ("\", " : Text) = ['"'] ++ ", " := rfl
    rw [shimBody]
    delta shimCall
    rw [quoted, unquoted]
    simp only [List.append_assoc, List.cons_append, List.nil_append]
  have whole :=
    ((mentions_shimOpening identifiers).append (call.append (comma.append (slot.append
      (mentions_shimClosing plan))))).whole
  rw [split, unqualifiedNames, withoutLiterals_of_literal, namesBehind]
  · have grouped :
        words ["args", "exception", "iface", "iface"] =
          words ["args", "exception"] ++ words ["iface", "iface"] := rfl
    rw [grouped]
    simpa only [List.append_assoc, List.nil_append, List.cons_append] using whole
  · rw [List.mem_append, not_or]
    exact ⟨opening, by decide⟩
  · exact methodInline.quote_not_mem
  · simp only [List.mem_append, not_or]
    exact ⟨⟨by decide, ⟨slotFree, by decide⟩, by decide⟩, quote_not_mem_shimClosing plan⟩

/-! ## What a shim body relies on -/

/-- The names of a shim body besides those of the parameters. -/
def ownNames (plan : MethodPlan) : List Text :=
  namesBefore plan ++
    (plan.parameters.flatMap fun value => words ["args"] ++ addressNames value) ++
    namesBehind plan

theorem argumentNames_perm
    {values : List PlannedValue}
    {names : List Text}
    (sameLength : names.length = values.length) :
    (argumentNames values names).Perm
      (names ++ values.flatMap fun value => words ["args"] ++ addressNames value) := by
  induction values generalizing names with
  | nil =>
      rw [List.length_nil, List.length_eq_zero_iff] at sameLength
      rw [sameLength]
      exact List.Perm.refl _
  | cons value rest induction =>
      cases names with
      | nil => exact absurd sameLength (by simp)
      | cons name others =>
          have remaining := induction (Nat.succ.inj sameLength)
          calc
            argumentNames (value :: rest) (name :: others)
                = (words ["args"] ++ addressNames value) ++
                    name :: argumentNames rest others := by
                  simp [argumentNames]
            _ ~ name :: ((words ["args"] ++ addressNames value) ++ argumentNames rest others) :=
                List.perm_middle
            _ ~ name :: ((words ["args"] ++ addressNames value) ++
                  (others ++ rest.flatMap fun value => words ["args"] ++ addressNames value)) :=
                (remaining.append_left _).cons name
            _ ~ name :: (others ++ ((words ["args"] ++ addressNames value) ++
                  rest.flatMap fun value => words ["args"] ++ addressNames value)) :=
                (List.perm_append_comm_assoc _ _ _).cons name

theorem unqualifiedNames_perm
    {plan : MethodPlan}
    (identifiers : ∀ name ∈ parameterNames plan, isIdentifier name = true)
    (typeInline : IsInline plan.names.qualified)
    (methodInline : IsInline plan.qualified)
    (marshalInline : IsInline plan.result.spellings.marshal) :
    (unqualifiedNames (shimBody plan)).Perm (parameterNames plan ++ ownNames plan) := by
  have sameLength : (parameterNames plan).length = plan.parameters.length := by
    simp [parameterNames]
  have arguments := argumentNames_perm sameLength
  rw [unqualifiedNames_shimBody identifiers typeInline methodInline marshalInline, ownNames,
    List.append_assoc, List.append_assoc (namesBefore plan)]
  refine ((arguments.append_right (namesBehind plan)).append_left (namesBefore plan)).trans ?_
  rw [List.append_assoc (parameterNames plan)]
  exact List.perm_append_comm_assoc _ _ _

theorem append_diff_cancel (left right : List Text) : (left ++ right).diff left = right := by
  induction left with
  | nil => rfl
  | cons name rest induction =>
      rw [List.cons_append, List.diff_cons, List.erase_cons_head, induction]

theorem reliedNames_perm
    {plan : MethodPlan}
    (mentioned : (unqualifiedNames (shimBody plan)).Perm (parameterNames plan ++ ownNames plan)) :
    (reliedNames plan).Perm (ownNames plan) := by
  have removed := mentioned.diff_right (parameterNames plan)
  rwa [append_diff_cancel] at removed

/-- A name of a shim body that is neither a parameter nor reserved: the type of the interface, or
the constant that a returned string is made with. -/
def IsUnguarded (plan : MethodPlan) (name : Text) : Prop :=
  name ∈ plainNames plan.names.qualified ∨
    (plan.result.category = .string ∧ name = "SAL_NO_ACQUIRE")

/-- The names that a shim body may use whatever its method is called and wherever it lives. -/
def coreNames : List Text :=
  words
    ["ref", "static_cast", "rIface", "uno_Interface", "iface", "g_cpp2uno", "result", "void", "args",
      "const_cast", "rtl_uString", "makeBinaryUnoCall", "exception", "return", "new", "sal_Bool",
      "sal_Int8", "sal_Int16", "sal_Int32", "sal_Int64", "sal_uInt16", "sal_uInt32", "sal_uInt64",
      "sal_Unicode", "float", "double"]

/-- Whether a literal is reserved is a question about the literals of the tables. -/
theorem toList_mem_words_iff
    {literal : String}
    {literals : List String} :
    literal.toList ∈ words literals ↔ literal ∈ literals := by
  rw [words, List.mem_map_of_injective fun _ _ => String.toList_inj.1]

theorem reserved_of_mem_coreNames : ∀ name ∈ coreNames, name ∈ reservedNames := by
  simp only [coreNames, words, List.forall_mem_map]
  simp only [reservedNames, shimLocals, keywords, operatorNames, usedNames, List.mem_append,
    toList_mem_words_iff]
  decide +kernel

theorem core_of_mem_marshal
    {plan : MethodPlan}
    {type : TypeName}
    (settles : plan.result.Settles [] type)
    (supported : plan.result.isSupported = true)
    (present : plan.hasResult = true) :
    ∀ name ∈ plainNames plan.result.spellings.marshal, name ∈ coreNames := by
  rcases settles.spelling_cases supported .marshal with
    ⟨void, -⟩ | ⟨-, spelled⟩ | ⟨primitive, spelled⟩
  · have category : plan.result.category = .void :=
      Except.ok.inj (settles.classified.symm.trans void)
    simp [MethodPlan.hasResult, category] at present
  · rw [show plan.result.spellings.marshal = _ from spelled]
    decide
  · have table :
        ∀ primitive ∈ TypeName.primitiveNames,
          ∀ name ∈ plainNames ((TypeName.primitive? primitive).getD ⟨[], []⟩).native,
            name ∈ coreNames := by
      decide
    rw [show plan.result.spellings.marshal = _ from spelled]
    exact table type.text (TypeName.mem_primitiveNames_of_category primitive)

/-- The reserved names cover a shim body except for the unguarded names. -/
theorem reserved_or_isUnguarded_of_mem_ownNames
    {plan : MethodPlan}
    {type : TypeName}
    (settles : plan.result.Settles [] type)
    (supported : plan.result.isSupported = true) :
    ∀ name ∈ ownNames plan, name ∈ reservedNames ∨ IsUnguarded plan name := by
  have core {names : List Text} (listed : ∀ name ∈ names, name ∈ coreNames) :
      ∀ name ∈ names, name ∈ reservedNames ∨ IsUnguarded plan name :=
    fun name member => .inl (reserved_of_mem_coreNames name (listed name member))
  have type :
      ∀ name ∈ plainNames plan.names.qualified,
        name ∈ reservedNames ∨ IsUnguarded plan name :=
    fun name member => .inr (.inl member)
  have slot : ∀ name ∈ slotNames plan, name ∈ coreNames := by
    rw [slotNames]
    split
    · rename_i present
      rw [List.forall_mem_append]
      exact ⟨core_of_mem_marshal settles supported present, by decide⟩
    · decide
  have arguments :
      ∀ name ∈ plan.parameters.flatMap fun value => words ["args"] ++ addressNames value,
        name ∈ coreNames := by
    rw [List.forall_mem_flatMap]
    intro value _
    rw [List.forall_mem_append, addressNames]
    refine ⟨by decide, ?_⟩
    split <;> decide
  have returned :
      ∀ name ∈ returnNames plan, name ∈ reservedNames ∨ IsUnguarded plan name := by
    rw [returnNames]
    cases category : plan.result.category with
    | string =>
        have listed :
            ∀ name ∈ words ["return", "new", "result", "SAL_NO_ACQUIRE"],
              name ∈ coreNames ∨ name = "SAL_NO_ACQUIRE" := by
          decide
        intro name member
        exact (listed name member).imp (reserved_of_mem_coreNames name)
          fun same => .inr ⟨category, same⟩
    | primitive => exact core (by decide)
    | void => exact core (by decide)
    | aggregate => exact core (by decide)
  have passed :
      ∀ name ∈ (if plan.hasResult then words ["result"] else []), name ∈ coreNames := by
    split <;> decide
  rw [ownNames, namesBefore, namesBehind]
  simp only [List.forall_mem_append, and_assoc]
  exact
    ⟨type, core (by decide), type, core (by decide), type, core slot, core (by decide),
      core arguments, core (by decide), core passed, core (by decide), returned⟩

theorem mem_ownNames_of_isUnguarded
    {plan : MethodPlan}
    {name : Text}
    (unguarded : IsUnguarded plan name) :
    name ∈ ownNames plan := by
  rcases unguarded with isType | ⟨string, rfl⟩
  · simp [ownNames, namesBefore, isType]
  · have returned : ("SAL_NO_ACQUIRE" : Text) ∈ returnNames plan := by
      rw [returnNames, string]
      decide
    simp only [ownNames, namesBehind, List.mem_append]
    exact .inr (.inr returned)

end Native

/-- The type of an interface is an unqualified name only in the root module. -/
theorem Names.mem_plainNames_qualified_iff
    (options : NamingOptions)
    {entity : Entity}
    (checked : entity.check = .ok ())
    (name : Text) :
    name ∈ Text.plainNames (Names.ofEntity options entity).qualified ↔
      entity.module.isRoot = true ∧ name = entity.name := by
  have names :
      Text.plainNames (Names.ofEntity options entity).qualified =
        if false = false ∧ entity.path.segments.length = 1 then entity.path.segments else [] :=
    Text.namesFrom_scoped (Entity.hasIdentifiers_path checked) false
  rw [names, ModulePath.isRoot, List.isEmpty_iff]
  by_cases root : entity.module.segments = []
  · simp [Entity.path, ModulePath.child, root]
  · simp [Entity.path, ModulePath.child, root]

namespace Emission

theorem parameterNames_eq_shimParameterNames
    {plan : MethodPlan}
    {names : Names}
    {method : Method}
    (settles : plan.Settles names method) :
    Native.parameterNames plan = shimParameterNames method := by
  rw [Native.parameterNames, shimParameterNames, MethodPlan.map_name_eq settles.parameters]

/-- The parameters of a planned shim, counted in its body. -/
theorem unqualifiedNames_perm_of_settles
    (options : NamingOptions)
    {entity : Entity}
    {method : Method}
    {plan : MethodPlan}
    (checked : entity.check = .ok ())
    (named : isIdentifier method.name = true)
    (parametersNamed : ∀ parameter ∈ method.parameters, isIdentifier parameter.name = true)
    (settles : plan.Settles (Names.ofEntity options entity) method) :
    (Text.unqualifiedNames (Native.shimBody plan)).Perm
      (Native.parameterNames plan ++ Native.ownNames plan) := by
  have path := Entity.hasIdentifiers_path checked
  apply Native.unqualifiedNames_perm
  · intro name member
    refine Native.isIdentifier_of_mem_parameterNames (fun value valueMember => ?_) member
    obtain ⟨parameter, parameterMember, settled⟩ :=
      exists_of_mem_right settles.parameters valueMember
    rw [settled.sameName]
    exact parametersNamed parameter parameterMember
  · rw [settles.sameNames]
    exact ModulePath.isInline_join_segments path (by decide)
  · rw [settles.qualified, Names.qualifiedMethod, Text.isInline_append, Text.isInline_append]
    exact ⟨⟨ModulePath.isInline_join_segments path (by decide), by decide⟩,
      isInline_of_isIdentifier named⟩
  · exact settles.result.isInline_spelling .marshal

/--
The body of a shim mentions every parameter once as itself.  No parameter captures a name that the
body relies on, exactly when none is `SAL_NO_ACQUIRE` in a shim that returns a string, and none is
called like the interface when the interface lives in the root module.
-/
theorem parameterNames_capture_iff
    (options : NamingOptions)
    (entity : Entity)
    (method : Method)
    (plan : MethodPlan)
    (checked : entity.check = .ok ())
    (interface : entity.tag = .known .interface)
    (declared : method ∈ entity.methods?.getD [])
    (planned : MethodPlan.ofMethod (Names.ofEntity options entity) method = .ok plan)
    (supported : plan.isSupported = true) :
    Native.methodShim plan = Native.methodSignature plan ++ '\n' :: Native.shimBody plan ∧
      (Text.unqualifiedNames (Native.shimBody plan)).Perm
        (Native.parameterNames plan ++ Native.reliedNames plan) ∧
      ((∀ name ∈ Native.parameterNames plan, name ∉ Native.reliedNames plan) ↔
        (method.returns.category = .ok .string →
            ("SAL_NO_ACQUIRE" : Text) ∉ shimParameterNames method) ∧
          (entity.module.isRoot = true → entity.name ∉ shimParameterNames method)) := by
  have settles := MethodPlan.settles_of_ofMethod planned
  have identifiers := Entity.isIdentifier_of_mem_methods checked interface declared
  have mentioned :=
    unqualifiedNames_perm_of_settles options checked identifiers.1 identifiers.2 settles
  have relied := Native.reliedNames_perm mentioned
  have sameParameters := parameterNames_eq_shimParameterNames settles
  have resultSupported : plan.result.isSupported = true := by
    rw [MethodPlan.isSupported_eq_all, List.all_cons, Bool.and_eq_true] at supported
    exact supported.1
  have covered :=
    Native.reserved_or_isUnguarded_of_mem_ownNames settles.result resultSupported
  have returnsString :
      plan.result.category = .string ↔ method.returns.category = .ok .string := by
    rw [settles.result.classified, Except.ok.injEq]
  have isType (name : Text) :
      name ∈ Text.plainNames plan.names.qualified ↔
        entity.module.isRoot = true ∧ name = entity.name := by
    rw [settles.sameNames]
    exact Names.mem_plainNames_qualified_iff options checked name
  refine ⟨Native.methodShim_eq_append_shimBody supported,
    mentioned.trans (relied.symm.append_left _), ?_⟩
  simp only [relied.mem_iff]
  constructor
  · intro free
    refine ⟨fun string captured => ?_, fun root captured => ?_⟩
    · exact free _ (sameParameters ▸ captured)
        (Native.mem_ownNames_of_isUnguarded (.inr ⟨returnsString.2 string, rfl⟩))
    · exact free _ (sameParameters ▸ captured)
        (Native.mem_ownNames_of_isUnguarded (.inl ((isType _).2 ⟨root, rfl⟩)))
  · rintro ⟨constantFree, typeFree⟩ name parameter relies
    rcases covered name relies with reserved | typeName | ⟨string, rfl⟩
    · exact FreshName.not_mem_of_mem_chooseAll parameter reserved
    · obtain ⟨root, rfl⟩ := (isType name).1 typeName
      exact typeFree root (sameParameters ▸ parameter)
    · exact constantFree (returnsString.1 string) (sameParameters ▸ parameter)

/-- An interface whose one method takes a string and returns one. -/
def widgetInterface (module : ModulePath) (parameter : Text) : Entity :=
  ⟨"Widget", module, .known .interface, some [⟨"rename", .string, [⟨parameter, .string⟩]⟩],
    none, none⟩

/-- The method of `widgetInterface` can be planned and called. -/
theorem exists_plan_rename
    (names : Names)
    (parameter : Text) :
    ∃ plan : MethodPlan,
      MethodPlan.ofMethod names ⟨"rename", .string, [⟨parameter, .string⟩]⟩ = .ok plan ∧
        plan.isSupported = true := by
  have sound :
      Position.firstFlawed?
        (Position.ofMethod ⟨"rename", .string, [⟨parameter, .string⟩]⟩) = none := by
    simp [Position.firstFlawed?, Position.ofMethod, Position.flaw?, TypeName.category_string]
  have distinct :
      (([⟨parameter, .string⟩] : List Field).map Field.name).Nodup := List.nodup_singleton _
  obtain ⟨plan, planned⟩ := (MethodPlan.settlesInOrder_ofMethod names distinct).succeeds sound
  refine ⟨plan, planned, ?_⟩
  rw [(MethodPlan.settles_of_ofMethod planned).isSupported_eq]
  simp [Method.hasAggregate, Method.types, TypeName.category_string, Except.toOption]

/-- A parameter that is called like a local of the shim is renamed, and captures nothing. -/
theorem parameterNames_capture_result :
    ∃ plan : MethodPlan,
      MethodPlan.ofMethod (Names.ofEntity .default (widgetInterface ⟨["a"]⟩ "result"))
          ⟨"rename", .string, [⟨"result", .string⟩]⟩ = .ok plan ∧
        Native.parameterNames plan = ["result_"] ∧
        ∀ name ∈ Native.parameterNames plan, name ∉ Native.reliedNames plan := by
  obtain ⟨plan, planned, supported⟩ :=
    exists_plan_rename (Names.ofEntity .default (widgetInterface ⟨["a"]⟩ "result")) "result"
  have names :
      shimParameterNames ⟨"rename", .string, [⟨"result", .string⟩]⟩ = ["result_"] := by
    decide +kernel
  have exactly :=
    (parameterNames_capture_iff .default (widgetInterface ⟨["a"]⟩ "result")
      ⟨"rename", .string, [⟨"result", .string⟩]⟩ plan rfl rfl (List.mem_singleton_self _)
      planned supported).2.2
  refine ⟨plan, planned, ?_, exactly.2 ⟨fun _ => ?_, fun _ => ?_⟩⟩
  · rw [parameterNames_eq_shimParameterNames (MethodPlan.settles_of_ofMethod planned), names]
  · rw [names]
    decide
  · rw [names]
    decide

/-- A checked interface has a method that can be called, and the parameter of its shim captures a
name that the body relies on. -/
def HasCapture
    (module : ModulePath)
    (parameter : Text) : Prop :=
  (widgetInterface module parameter).check = .ok () ∧
    ∃ plan : MethodPlan,
      MethodPlan.ofMethod (Names.ofEntity .default (widgetInterface module parameter))
          ⟨"rename", .string, [⟨parameter, .string⟩]⟩ = .ok plan ∧
        plan.isSupported = true ∧
        parameter ∈ Native.parameterNames plan ∧
        parameter ∈ Native.reliedNames plan

theorem hasCapture_of_unreserved
    {module : ModulePath}
    {parameter : Text}
    (checked : (widgetInterface module parameter).check = .ok ())
    (kept : parameter ∈ shimParameterNames ⟨"rename", .string, [⟨parameter, .string⟩]⟩)
    (unguarded :
      (module.isRoot = true ∧ parameter = "Widget") ∨ parameter = "SAL_NO_ACQUIRE") :
    HasCapture module parameter := by
  obtain ⟨plan, planned, supported⟩ :=
    exists_plan_rename (Names.ofEntity .default (widgetInterface module parameter)) parameter
  have settles := MethodPlan.settles_of_ofMethod planned
  have identifiers :=
    Entity.isIdentifier_of_mem_methods checked rfl (List.mem_singleton_self _)
  have relied := Native.reliedNames_perm
    (unqualifiedNames_perm_of_settles .default checked identifiers.1 identifiers.2 settles)
  refine ⟨checked, plan, planned, supported, ?_, ?_⟩
  · rw [parameterNames_eq_shimParameterNames settles]
    exact kept
  · rw [relied.mem_iff]
    apply Native.mem_ownNames_of_isUnguarded
    refine unguarded.imp (fun inRoot => ?_) fun constant => ⟨?_, constant⟩
    · rw [settles.sameNames]
      exact (Names.mem_plainNames_qualified_iff .default checked parameter).2 inRoot
    · exact Except.ok.inj (settles.result.classified.symm.trans TypeName.category_string)

/-- A parameter called `SAL_NO_ACQUIRE` captures the constant, and one that is called like its
interface in the root module captures the type. -/
theorem hasCapture_constant_and_type :
    HasCapture ⟨["a"]⟩ "SAL_NO_ACQUIRE" ∧ HasCapture ⟨[]⟩ "Widget" := by
  have constantFree : ("SAL_NO_ACQUIRE" : Text) ∉ Native.reservedNames := by
    simp only [Native.reservedNames, Native.shimLocals, Native.keywords, Native.operatorNames,
      Native.usedNames, List.mem_append, Native.toList_mem_words_iff]
    simp
  have typeFree : ("Widget" : Text) ∉ Native.reservedNames := by
    simp only [Native.reservedNames, Native.shimLocals, Native.keywords, Native.operatorNames,
      Native.usedNames, List.mem_append, Native.toList_mem_words_iff]
    simp
  constructor
  · exact hasCapture_of_unreserved rfl
      (FreshName.mem_chooseAll_of_not_mem '_' (List.mem_singleton_self _) constantFree) (.inr rfl)
  · exact hasCapture_of_unreserved rfl
      (FreshName.mem_chooseAll_of_not_mem '_' (List.mem_singleton_self _) typeFree)
      (.inl ⟨rfl, rfl⟩)

end Emission

end UnoBindgen
