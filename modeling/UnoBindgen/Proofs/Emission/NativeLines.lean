import UnoBindgen.Native
import UnoBindgen.Proofs.Emission.Inline
import UnoBindgen.Proofs.FreshName

/-!
# The exported signatures of the C++ texts

In the generated header and source a line `extern "C"` stands before every signature and nowhere
else.  The comments about aggregate types may break in the middle of a type name, but they have no
double quote; the one quoted line inside a shim is indented.

A definition that starts with a literal is opened with `delta`: deriving an equation for it would
evaluate the literal.
-/

namespace UnoBindgen.Native

open Text

/-- The line before an exported signature. -/
def externLine : Text := "extern \"C\""

/-- Whether a line is the one before an exported signature. -/
def isExternLine (line : Text) : Bool :=
  line == externLine

/-- The parameters of a shim behind the two that every shim has. -/
def parameterList (types names : List Text) : Text :=
  (List.zipWith (fun type name => (", " : Text) ++ type ++ " " ++ name) types names).flatten

/-- The line of a shim signature, from the spelled types and the names of its parameters. -/
def signature (result symbol : Text) (types names : List Text) : Text :=
  result ++ " " ++ symbol ++ "(void * rIface, uno_Any ** exception" ++
    parameterList types names ++ ")"

/-- The line of the signature that a plan asks for. -/
def signatureLine (plan : MethodPlan) : Text :=
  signature plan.result.spellings.declaration plan.symbol
    (plan.parameters.map fun value => value.spellings.declaration) (parameterNames plan)

/-- What a plan contributes: its signature with an ending, if the method can be called. -/
def signatureEntries (ending : Text) (plan : MethodPlan) : List (Text × Option Text) :=
  if plan.isSupported then [(externLine, some (signatureLine plan ++ ending))] else []

theorem methodSignature_eq (plan : MethodPlan) :
    methodSignature plan = externLine ++ ['\n'] ++ signatureLine plan := by
  have parameters :
      parameterList (plan.parameters.map fun value => value.spellings.declaration)
          (parameterNames plan) =
        ((List.zipWith
          (fun (value : PlannedValue) (name : Text) => value.spellings.declaration ++ " " ++ name)
          plan.parameters (parameterNames plan)).map ((", " : Text) ++ ·)).flatten := by
    rw [parameterList, List.map_zipWith, List.zipWith_map_left]
    simp
  have announced : ("extern \"C\"\n" : Text) = externLine ++ ['\n'] := rfl
  rw [methodSignature, signatureLine, signature, parameters]
  delta externC
  rw [join_cons_eq_append_flatten, announced]
  simp

theorem isInline_parameterList
    {types names : List Text}
    (typesInline : ∀ type ∈ types, IsInline type)
    (namesInline : ∀ name ∈ names, IsInline name) :
    IsInline (parameterList types names) := by
  induction types generalizing names with
  | nil => exact fun character member => by simp [parameterList] at member
  | cons type rest induction =>
      cases names with
      | nil => exact fun character member => by simp [parameterList] at member
      | cons name others =>
          rw [List.forall_mem_cons] at typesInline namesInline
          have remaining := induction typesInline.2 namesInline.2
          rw [parameterList, List.zipWith_cons_cons, List.flatten_cons]
          simp only [isInline_append]
          exact ⟨⟨⟨⟨by decide, typesInline.1⟩, by decide⟩, namesInline.1⟩, remaining⟩

theorem quote_mem_of_isExternLine
    (line : Text)
    (passes : isExternLine line = true) :
    '"' ∈ line := by
  rw [beq_iff_eq.1 passes]
  decide

theorem isExternLine_eq_false_of_parenthesis
    {line : Text}
    (member : '(' ∈ line) :
    isExternLine line = false := by
  rw [isExternLine, beq_eq_false_iff_ne]
  rintro rfl
  exact absurd member (by decide)

theorem parenthesis_mem_signatureLine (plan : MethodPlan) : '(' ∈ signatureLine plan := by
  simp [signatureLine, signature]

/-- A line with another first letter shows nothing. -/
theorem shows_line
    {line : Text}
    (whole : '\n' ∉ line)
    (head : line.head? ≠ some 'e') :
    Shows isExternLine (line ++ ['\n']) [] := by
  apply Shows.line whole
  rw [isExternLine, beq_eq_false_iff_ne]
  rintro rfl
  exact head rfl

theorem shows_headerOpen
    {guard : Text}
    (whole : '\n' ∉ guard) :
    Shows isExternLine (headerOpen guard) [] := by
  have split :
      headerOpen guard =
        (("#ifndef " : Text) ++ guard ++ ['\n']) ++ (("#define " : Text) ++ guard ++ ['\n']) ++
          ['\n'] := by
    delta headerOpen
    simp
  rw [split]
  refine ((shows_line ?_ ?_).append (shows_line ?_ ?_)).append (Shows.blank (by decide))
  all_goals simp [whole]

theorem shows_headerClose
    {guard : Text}
    (whole : '\n' ∉ guard) :
    Shows isExternLine (headerClose guard) [] := by
  delta headerClose
  refine shows_line ?_ ?_
  all_goals simp [whole]

theorem includeLocal_eq (path : Text) :
    includeLocal path = (("#include \"" : Text) ++ path ++ "\"") ++ ['\n'] := by
  delta includeLocal
  simp

theorem includeSystem_eq (path : Text) :
    includeSystem path = (("#include <" : Text) ++ path ++ ">") ++ ['\n'] := by
  delta includeSystem
  simp

theorem shows_includeLocal
    {path : Text}
    (whole : '\n' ∉ path) :
    Shows isExternLine (includeLocal path) [] := by
  rw [includeLocal_eq]
  refine shows_line ?_ ?_
  all_goals simp [whole]

theorem shows_includeSystem
    {path : Text}
    (whole : '\n' ∉ path) :
    Shows isExternLine (includeSystem path) [] := by
  rw [includeSystem_eq]
  refine shows_line ?_ ?_
  all_goals simp [whole]

/-! ## Names in shims -/

theorem isInline_of_mem_parameterNames
    {plan : MethodPlan}
    (inline : plan.IsInline)
    {name : Text}
    (member : name ∈ parameterNames plan) :
    IsInline name := by
  refine FreshName.isInline_of_mem_chooseAll (by decide) ?_ member
  intro original originalMember
  obtain ⟨value, valueMember, rfl⟩ := List.mem_map.1 originalMember
  exact isInline_of_isIdentifier (inline.parameters value valueMember)

theorem lineFeed_not_mem_signatureLine
    {plan : MethodPlan}
    (inline : plan.IsInline) :
    '\n' ∉ signatureLine plan := by
  have result := (inline.spellings plan.result List.mem_cons_self .declaration).lineFeed_not_mem
  have parameters :
      IsInline
        (parameterList (plan.parameters.map fun value => value.spellings.declaration)
          (parameterNames plan)) := by
    apply isInline_parameterList
    · intro type member
      obtain ⟨value, valueMember, rfl⟩ := List.mem_map.1 member
      exact inline.spellings value (List.mem_cons_of_mem plan.result valueMember) .declaration
    · exact fun name member => isInline_of_mem_parameterNames inline member
  rw [Spellings.on] at result
  simp [signatureLine, signature, result, inline.symbol, parameters.lineFeed_not_mem]

theorem shows_placeholder
    {plan : MethodPlan}
    (inline : plan.IsInline) :
    Shows isExternLine (placeholder plan) [] := by
  apply inline.shows_comments quote_mem_of_isExternLine
  intro type typeFree
  have qualifiedFree := inline.qualified.quote_not_mem
  delta unsupportedLine
  simp [typeFree, qualifiedFree]

theorem shows_methodSignature
    {plan : MethodPlan}
    (inline : plan.IsInline)
    {ending : Text}
    (whole : '\n' ∉ ending) :
    Shows isExternLine (methodSignature plan ++ ending ++ ['\n'])
      [(externLine, some (signatureLine plan ++ ending))] := by
  rw [methodSignature_eq, List.append_assoc _ (signatureLine plan) ending]
  apply Shows.marked
  · decide
  · decide
  · simp [lineFeed_not_mem_signatureLine inline, whole]
  · exact isExternLine_eq_false_of_parenthesis
      (List.mem_append_left ending (parenthesis_mem_signatureLine plan))

theorem shows_methodDeclaration
    {plan : MethodPlan}
    (inline : plan.IsInline) :
    Shows isExternLine (methodDeclaration plan) (signatureEntries [';'] plan) := by
  rw [methodDeclaration, signatureEntries]
  split
  · have ending : (";\n\n" : Text) = [';'] ++ ['\n'] ++ ['\n'] := rfl
    rw [ending, ← List.append_assoc, ← List.append_assoc]
    exact (shows_methodSignature inline (by decide)).append
      (Shows.blank (by decide))
  · exact shows_placeholder inline

/-! ## Bodies of shims -/

theorem quote_not_mem_ofNat (number : Nat) : '"' ∉ Text.ofNat number := by
  intro member
  have digit := Nat.isDigit_of_mem_toDigits (by decide) (by decide) member
  exact absurd digit (by decide)

theorem argumentLines_cons
    (index : Nat)
    (value : PlannedValue)
    (values : List PlannedValue)
    (name : Text)
    (names : List Text) :
    argumentLines index (value :: values) (name :: names) =
      ("    args[" : Text) ++ Text.ofNat index ++ "] = " ++ argumentAddress value name ++
        ";\n" ++ argumentLines (index + 1) values names := rfl

theorem quote_not_mem_argumentLines
    {values : List PlannedValue}
    {names : List Text}
    (namesInline : ∀ name ∈ names, IsInline name)
    (index : Nat) :
    '"' ∉ argumentLines index values names := by
  induction values generalizing names index with
  | nil => exact List.not_mem_nil
  | cons value rest induction =>
      cases names with
      | nil => exact List.not_mem_nil
      | cons name others =>
          rw [List.forall_mem_cons] at namesInline
          have remaining := induction namesInline.2 (index + 1)
          have nameFree := namesInline.1.quote_not_mem
          have address : '"' ∉ argumentAddress value name := by
            rw [argumentAddress]
            split
            · simp [nameFree]
            · simp [nameFree]
          rw [argumentLines_cons]
          simp [quote_not_mem_ofNat, address, remaining]

theorem quote_not_mem_argumentArray
    {plan : MethodPlan}
    (namesInline : ∀ name ∈ parameterNames plan, IsInline name) :
    '"' ∉ argumentArray plan := by
  have filled : '"' ∉ argumentLines 0 plan.parameters (parameterNames plan) :=
    quote_not_mem_argumentLines namesInline 0
  rw [argumentArray]
  split
  · decide
  · simp [quote_not_mem_ofNat, filled]

/-- The lines of a shim body before the call. -/
def shimOpening (plan : MethodPlan) : Text :=
  let reference := Names.referenceType plan.names.qualified
  ("\x7b\n    " : Text) ++ reference ++ " * ref = static_cast< " ++ reference ++
    " * >(rIface);\n" ++
  "    uno_Interface * iface = static_cast< uno_Interface * >(\n" ++
  "        g_cpp2uno.mapInterface(ref->get(), cppu::UnoType< " ++ plan.names.qualified ++
    " >::get()));\n\n" ++
  (if plan.hasResult then
    "    " ++ plan.result.spellings.marshal ++ " result = 0;\n"
  else
    []) ++
  argumentArray plan ++ "\n"

/-- The line of the call. -/
def shimCall (plan : MethodPlan) : Text :=
  ("    makeBinaryUnoCall(iface, \"" : Text) ++ plan.qualified ++ "\", " ++
    (if plan.hasResult then "&result" else "0") ++ ", args, exception);"

/-- The lines of a shim body behind the call. -/
def shimClosing (plan : MethodPlan) : Text :=
  ("    iface->release(iface);\n" : Text) ++ returnStatement plan ++ "\x7d\n\n"

theorem methodShim_eq
    {plan : MethodPlan}
    (supported : plan.isSupported = true) :
    methodShim plan =
      (methodSignature plan ++ [] ++ ['\n']) ++ shimOpening plan ++ (shimCall plan ++ ['\n']) ++
        shimClosing plan := by
  have opening : ("\n\x7b\n" : Text) = ['\n'] ++ "\x7b\n" := rfl
  have body : ("\x7b\n    " : Text) = "\x7b\n" ++ "    " := rfl
  have call :
      ("\n    makeBinaryUnoCall(iface, \"" : Text) =
        "\n" ++ "    makeBinaryUnoCall(iface, \"" := by simp
  have closing : (", args, exception);\n" : Text) = ", args, exception);" ++ ['\n'] := by simp
  rw [methodShim, if_pos supported]
  delta shimOpening shimCall shimClosing
  rw [opening, body, call, closing]
  simp only [List.append_assoc, List.append_nil]

theorem quote_not_mem_shimOpening
    {plan : MethodPlan}
    (qualifiedInline : IsInline plan.names.qualified)
    (marshalInline : IsInline plan.result.spellings.marshal)
    (namesInline : ∀ name ∈ parameterNames plan, IsInline name) :
    '"' ∉ shimOpening plan := by
  have qualified := qualifiedInline.quote_not_mem
  have reference : '"' ∉ Names.referenceType plan.names.qualified := by
    delta Names.referenceType
    simp [qualified]
  have slot :
      '"' ∉
        (if plan.hasResult then
          ("    " : Text) ++ plan.result.spellings.marshal ++ " result = 0;\n"
        else
          []) := by
    split
    · simp [marshalInline.quote_not_mem]
    · exact List.not_mem_nil
  have arguments := quote_not_mem_argumentArray namesInline
  delta shimOpening
  simp only [List.mem_append, not_or, qualified, reference, slot, arguments,
    not_false_eq_true, and_true]
  decide

theorem shows_shimOpening
    {plan : MethodPlan}
    (inline : plan.IsInline) :
    Shows isExternLine (shimOpening plan) [] := by
  apply Shows.unmarked quote_mem_of_isExternLine
  · delta shimOpening
    rw [List.getLast?_append]
    rfl
  · exact quote_not_mem_shimOpening inline.names.qualified
      (inline.spellings plan.result List.mem_cons_self .marshal)
      (fun name member => isInline_of_mem_parameterNames inline member)

theorem lineFeed_not_mem_shimCall
    {plan : MethodPlan}
    (inline : plan.IsInline) :
    '\n' ∉ shimCall plan := by
  have qualified := inline.qualified.lineFeed_not_mem
  have slot : '\n' ∉ (if plan.hasResult then "&result" else "0").toList := by
    split <;> decide
  delta shimCall
  simp [qualified, slot]

/-- The call is quoted but indented. -/
theorem shows_shimCall
    {plan : MethodPlan}
    (inline : plan.IsInline) :
    Shows isExternLine (shimCall plan ++ ['\n']) [] := by
  apply shows_line (lineFeed_not_mem_shimCall inline)
  delta shimCall
  simp

theorem quote_not_mem_shimClosing (plan : MethodPlan) : '"' ∉ shimClosing plan := by
  have statement : '"' ∉ returnStatement plan := by
    rw [returnStatement]
    split <;> decide
  delta shimClosing
  simp [statement]

theorem shows_shimClosing (plan : MethodPlan) :
    Shows isExternLine (shimClosing plan) [] := by
  apply Shows.unmarked quote_mem_of_isExternLine
  · delta shimClosing
    rw [List.getLast?_append]
    rfl
  · exact quote_not_mem_shimClosing plan

theorem shows_methodShim
    {plan : MethodPlan}
    (inline : plan.IsInline) :
    Shows isExternLine (methodShim plan) (signatureEntries [] plan) := by
  rw [signatureEntries]
  split
  · rename_i supported
    rw [methodShim_eq supported]
    exact (((shows_methodSignature inline (by decide)).append (shows_shimOpening inline)).append
      (shows_shimCall inline)).append (shows_shimClosing plan)
  · rename_i unsupported
    rw [methodShim, if_neg unsupported]
    exact shows_placeholder inline

end UnoBindgen.Native
