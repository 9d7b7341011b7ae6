import UnoBindgen.Proofs.Naming.Capture
import UnoBindgen.Proofs.Text.Numeral

/-!
# The argument array of a shim

The binary call receives its arguments through an array of addresses.  A shim declares that array
and fills it line by line, and the names in those lines must be those of its signature, although
the two are rendered apart.

`readAssignment?` reads such a line back: the place that is filled, the name whose address is taken,
and whether the address is that of its string data.  The main theorem states how the parameters are
named, for any names at all, and that the array of a shim with identifiers for names is filled place
by place with the parameters of its signature.
-/

namespace UnoBindgen

namespace Native

open Text

/-! ## Reading the lines of the array -/

/-- The identifier between an opening, and a mark with a closing behind it. -/
def enclosed? (opening : Text) (mark : Char) (closing text : Text) : Option Text := do
  let rest ← text.dropInitial? opening
  let (name, behind) ← rest.cutAt? mark
  if isIdentifier name = true ∧ behind = closing then some name else none

theorem enclosed?_eq_some_iff
    {opening : Text}
    {mark : Char}
    (outside : Identifier.isFollowing mark = false)
    {closing text name : Text} :
    enclosed? opening mark closing text = some name ↔
      isIdentifier name = true ∧ text = opening ++ name ++ mark :: closing := by
  constructor
  · intro read
    obtain ⟨rest, dropped, behindOpening⟩ := Option.bind_eq_some_iff.1 read
    obtain ⟨⟨before, behind⟩, cut, tested⟩ := Option.bind_eq_some_iff.1 behindOpening
    obtain ⟨⟨identifier, rfl⟩, same⟩ := Option.ite_none_right_eq_some.1 tested
    obtain rfl := Option.some.inj same
    refine ⟨identifier, ?_⟩
    rw [eq_append_of_dropInitial? dropped, eq_append_of_cutAt? cut, List.append_assoc]
  · rintro ⟨identifier, rfl⟩
    have whole : mark ∉ name := not_mem_of_isIdentifier identifier outside
    rw [enclosed?, List.append_assoc, dropInitial?_append, Option.bind_eq_bind, Option.bind_some,
      cutAt?_append whole]
    simp [identifier]

/-- A line that fills a place of the argument array with the address of a parameter, or with that
of the data behind it. -/
structure Assignment where
  index : Nat
  name : Text
  throughData : Bool
  deriving DecidableEq, Repr

/-- The name that an address with its semicolon is taken of, and whether it is the address of the
data. -/
def readAddress? (text : Text) : Option (Text × Bool) :=
  ((enclosed? "&" ';' [] text).map fun name => (name, false)) <|>
    ((enclosed? "const_cast< rtl_uString ** >(&" '-' ">pData);" text).map fun name => (name, true))

/-- Read a line that fills a place of the argument array. -/
def readAssignment? (line : Text) : Option Assignment := do
  let rest ← line.dropInitial? "    args["
  let (numeral, behind) ← rest.cutAt? ']'
  let index ← natural? 10 numeral
  let address ← behind.dropInitial? " = "
  let (name, throughData) ← readAddress? address
  return ⟨index, name, throughData⟩

theorem readAddress?_argumentAddress
    (value : PlannedValue)
    {name : Text}
    (identifier : isIdentifier name = true) :
    readAddress? (argumentAddress value name ++ [';']) =
      some (name, decide (value.category = .string)) := by
  rw [argumentAddress, readAddress?]
  split
  · rename_i string
    have shape :
        ("const_cast< rtl_uString ** >(&" : Text) ++ name ++ "->pData)" ++ [';'] =
          "const_cast< rtl_uString ** >(&" ++ name ++ '-' :: ">pData);" := by
      simp
    have data := (enclosed?_eq_some_iff (by decide)).2 ⟨identifier, shape⟩
    rw [data]
    simp [string, enclosed?, dropInitial?]
  · rename_i other
    have plain : enclosed? "&" ';' [] (("&" : Text) ++ name ++ [';']) = some name :=
      (enclosed?_eq_some_iff (by decide)).2 ⟨identifier, rfl⟩
    rw [plain]
    simp [other]

/-- The line that fills a place is read back. -/
theorem readAssignment?_line
    (index : Nat)
    (value : PlannedValue)
    {name : Text}
    (identifier : isIdentifier name = true) :
    readAssignment?
        (("    args[" : Text) ++ Text.ofNat index ++ "] = " ++ argumentAddress value name ++
          [';']) =
      some ⟨index, name, decide (value.category = .string)⟩ := by
  have shape :
      ("    args[" : Text) ++ Text.ofNat index ++ "] = " ++ argumentAddress value name ++ [';'] =
        "    args[" ++
          (Text.ofNat index ++ ']' :: (" = " ++ (argumentAddress value name ++ [';']))) := by
    simp
  have whole : ']' ∉ Text.ofNat index := not_mem_ofNat (by decide) index
  rw [shape, readAssignment?, dropInitial?_append, Option.bind_eq_bind, Option.bind_some,
    cutAt?_append whole, Option.bind_eq_bind, Option.bind_some]
  simp only [natural?_ofNat, dropInitial?_append, readAddress?_argumentAddress value identifier,
    Option.bind_eq_bind, Option.bind_some, Option.pure_def]

/-! ## Lines that fill no place -/

/-- Every line that fills a place ends in the name that it takes the address of. -/
theorem exists_name_of_readAssignment?
    {line : Text}
    {assignment : Assignment}
    (read : readAssignment? line = some assignment) :
    isIdentifier assignment.name = true ∧
      ((∃ before : Text, line = before ++ '&' :: assignment.name ++ [';']) ∨
        ∃ before : Text, line = before ++ "->pData);") := by
  obtain ⟨rest, opened, read⟩ := Option.bind_eq_some_iff.1 read
  obtain ⟨⟨numeral, behind⟩, cut, read⟩ := Option.bind_eq_some_iff.1 read
  obtain ⟨index, counted, read⟩ := Option.bind_eq_some_iff.1 read
  obtain ⟨address, assigned, read⟩ := Option.bind_eq_some_iff.1 read
  obtain ⟨⟨name, throughData⟩, addressed, same⟩ := Option.bind_eq_some_iff.1 read
  obtain rfl := Option.some.inj same
  have split : line = "    args[" ++ (numeral ++ ']' :: (" = " ++ address)) := by
    rw [eq_append_of_dropInitial? opened, eq_append_of_cutAt? cut,
      eq_append_of_dropInitial? assigned]
  rcases (Option.orElse_eq_some ..).1 addressed with plain | ⟨-, data⟩
  · obtain ⟨found, enclosed, same⟩ := Option.map_eq_some_iff.1 plain
    obtain ⟨rfl, rfl⟩ := Prod.mk.inj same
    obtain ⟨identifier, rfl⟩ := (enclosed?_eq_some_iff (by decide)).1 enclosed
    exact ⟨identifier, Or.inl ⟨"    args[" ++ (numeral ++ ']' :: " = "), by rw [split]; simp⟩⟩
  · obtain ⟨found, enclosed, same⟩ := Option.map_eq_some_iff.1 data
    obtain ⟨rfl, rfl⟩ := Prod.mk.inj same
    obtain ⟨identifier, rfl⟩ := (enclosed?_eq_some_iff (by decide)).1 enclosed
    refine ⟨identifier, Or.inr ⟨"    args[" ++ (numeral ++ ']' :: (" = " ++
      ("const_cast< rtl_uString ** >(&" ++ found))), by rw [split]; simp⟩⟩

theorem readAssignment?_of_parenthesis (before : Text) :
    readAssignment? (before ++ [')']) = none := by
  cases read : readAssignment? (before ++ [')']) with
  | none => rfl
  | some assignment =>
      rcases (exists_name_of_readAssignment? read).2 with ⟨other, same⟩ | ⟨other, same⟩
      all_goals
        have backwards := congrArg List.reverse same
        simp at backwards

/-- The slot of the result is initialised with a number, which is no address. -/
theorem readAssignment?_of_slot (before : Text) :
    readAssignment? (before ++ " result = 0;") = none := by
  cases read : readAssignment? (before ++ " result = 0;") with
  | none => rfl
  | some assignment =>
      obtain ⟨identifier, shape⟩ := exists_name_of_readAssignment? read
      have noBlank : ' ' ∉ assignment.name.reverse := by
        rw [List.mem_reverse]
        exact not_mem_of_isIdentifier identifier (by decide)
      rcases shape with ⟨other, same⟩ | ⟨other, same⟩
      · -- backwards, the zero would be the whole name or be followed by more of it
        have backwards := congrArg List.reverse same
        match reversed : assignment.name.reverse with
        | [] => simp [reversed] at backwards
        | [_] => simp [reversed] at backwards
        | _ :: second :: _ =>
            simp [reversed] at backwards noBlank
            exact absurd backwards.2.1 noBlank.2.1
      · have backwards := congrArg List.reverse same
        simp at backwards

/-! ## The lines of a shim -/

/-- The line that declares the argument array. -/
def arrayDeclaration : Nat → Text
  | 0 => "    void ** args = 0;"
  | count + 1 => "    void * args[" ++ Text.ofNat (count + 1) ++ "];"

/-- The line that fills a place of the argument array. -/
def fillLine (index : Nat) (value : PlannedValue) (name : Text) : Text :=
  "    args[" ++ Text.ofNat index ++ "] = " ++ argumentAddress value name ++ [';']

/-- The lines that fill the argument array, from a given index on. -/
def fillLines (start : Nat) (values : List PlannedValue) (names : List Text) : List Text :=
  ((values.zip names).zipIdx start).map fun ((value, name), index) => fillLine index value name

theorem argumentLines_eq_unlines
    (start : Nat)
    (values : List PlannedValue)
    (names : List Text) :
    argumentLines start values names = unlines (fillLines start values names) := by
  induction values generalizing start names with
  | nil => rfl
  | cons value others induction =>
      cases names with
      | nil => rfl
      | cons name rest =>
          have ending : (";\n" : Text) = [';'] ++ ['\n'] := rfl
          have first :
              fillLines start (value :: others) (name :: rest) =
                fillLine start value name :: fillLines (start + 1) others rest := rfl
          rw [argumentLines_cons, induction, first, unlines_cons, ending]
          delta fillLine
          simp only [List.append_assoc, List.cons_append, List.nil_append]

theorem argumentArray_eq_unlines (plan : MethodPlan) :
    argumentArray plan =
      unlines
        (arrayDeclaration plan.parameters.length ::
          fillLines 0 plan.parameters (parameterNames plan)) := by
  rw [argumentArray, unlines_cons, argumentLines_eq_unlines]
  cases plan.parameters with
  | nil => rfl
  | cons value others =>
      have ending : ("];\n" : Text) = "];" ++ ['\n'] := rfl
      rw [List.length_cons, ending]
      delta arrayDeclaration
      simp

/-- The lines between the signature of a shim and its argument array. -/
def linesBeforeArray (plan : MethodPlan) : List Text :=
  let reference := Names.referenceType plan.names.qualified
  ("\x7b" : Text) ::
  (("    " : Text) ++ reference ++ " * ref = static_cast< " ++ reference ++ " * >(rIface);") ::
  ("    uno_Interface * iface = static_cast< uno_Interface * >(" : Text) ::
  (("        g_cpp2uno.mapInterface(ref->get(), cppu::UnoType< " : Text) ++
    plan.names.qualified ++ " >::get()));") ::
  [] ::
  if plan.hasResult then
    [("    " : Text) ++ plan.result.spellings.marshal ++ " result = 0;"]
  else
    []

/-- The lines that return the result of the call. -/
def returnLines : Category → List Text
  | .string => [[], "    return new rtl::OUString(result, SAL_NO_ACQUIRE);"]
  | .primitive => [[], "    return result;"]
  | _ => []

/-- The lines of a shim behind its argument array. -/
def linesBehindArray (plan : MethodPlan) : List Text :=
  [] :: shimCall plan :: ("    iface->release(iface);" : Text) ::
    (returnLines plan.result.category ++ [("\x7d" : Text), []])

theorem shimOpening_eq_unlines (plan : MethodPlan) :
    shimOpening plan = unlines (linesBeforeArray plan) ++ argumentArray plan ++ ['\n'] := by
  have brace : ("\x7b\n    " : Text) = "\x7b" ++ '\n' :: "    " := by simp
  have reference : (" * >(rIface);\n" : Text) = " * >(rIface);" ++ ['\n'] := by simp
  have interface :
      ("    uno_Interface * iface = static_cast< uno_Interface * >(\n" : Text) =
        "    uno_Interface * iface = static_cast< uno_Interface * >(" ++ ['\n'] := by simp
  have mapped : (" >::get()));\n\n" : Text) = " >::get()));" ++ '\n' :: ['\n'] := by simp
  have slot : (" result = 0;\n" : Text) = " result = 0;" ++ ['\n'] := by simp
  have blank : ("\n" : Text) = ['\n'] := rfl
  delta shimOpening linesBeforeArray
  rw [brace, reference, interface, mapped, slot, blank]
  simp only [unlines_cons, List.append_assoc, List.cons_append, List.nil_append]
  split
  · simp [unlines]
  · simp [unlines]

theorem returnStatement_eq_unlines (plan : MethodPlan) :
    returnStatement plan = unlines (returnLines plan.result.category) := by
  rw [returnStatement]
  cases plan.result.category <;> simp [returnLines, unlines]

theorem shimClosing_eq_unlines (plan : MethodPlan) :
    '\n' :: (shimCall plan ++ '\n' :: shimClosing plan) = unlines (linesBehindArray plan) := by
  have released :
      ("    iface->release(iface);\n" : Text) = "    iface->release(iface);" ++ ['\n'] := by simp
  have closed : unlines [("\x7d" : Text), []] = "\x7d\n\n" := rfl
  delta shimClosing
  rw [linesBehindArray, unlines_cons, unlines_cons, unlines_cons, unlines_append,
    returnStatement_eq_unlines, released, closed]
  simp

theorem methodShim_eq_unlines
    {plan : MethodPlan}
    (supported : plan.isSupported = true) :
    methodShim plan =
      unlines
        (externLine :: signatureLine plan ::
          (linesBeforeArray plan ++
            (arrayDeclaration plan.parameters.length ::
              fillLines 0 plan.parameters (parameterNames plan)) ++
            linesBehindArray plan)) := by
  rw [methodShim_eq supported, methodSignature_eq, shimOpening_eq_unlines, unlines_cons,
    unlines_cons, unlines_append, unlines_append, ← argumentArray_eq_unlines,
    ← shimClosing_eq_unlines]
  simp only [List.append_assoc, List.cons_append, List.nil_append]

/-! ## What the lines fill in -/

/-- What the argument array has to hold from a given index on: place by place, the parameter of
that place, and strings by their data. -/
def assignmentsFrom
    (start : Nat)
    (values : List PlannedValue)
    (names : List Text) : List Assignment :=
  ((values.zip names).zipIdx start).map fun ((value, name), index) =>
    ⟨index, name, decide (value.category = .string)⟩

theorem map_readAssignment?_fillLines
    {names : List Text}
    (identifiers : ∀ name ∈ names, isIdentifier name = true)
    (start : Nat)
    (values : List PlannedValue) :
    (fillLines start values names).map readAssignment? =
      (assignmentsFrom start values names).map some := by
  rw [fillLines, assignmentsFrom, List.map_map, List.map_map]
  apply List.map_congr_left
  rintro ⟨⟨value, name⟩, index⟩ member
  have named := (List.of_mem_zip (List.fst_mem_of_mem_zipIdx member)).2
  exact readAssignment?_line index value (identifiers name named)

theorem lineFeed_not_mem_of_mem_fillLines
    {names : List Text}
    (identifiers : ∀ name ∈ names, isIdentifier name = true)
    {start : Nat}
    {values : List PlannedValue}
    {line : Text}
    (member : line ∈ fillLines start values names) :
    '\n' ∉ line := by
  obtain ⟨⟨⟨value, name⟩, index⟩, place, rfl⟩ := List.mem_map.1 member
  have named := (List.of_mem_zip (List.fst_mem_of_mem_zipIdx place)).2
  have nameWhole : '\n' ∉ name := not_mem_of_isIdentifier (identifiers name named) (by decide)
  have indexWhole : '\n' ∉ Text.ofNat index := not_mem_ofNat (by decide) index
  have addressWhole : '\n' ∉ argumentAddress value name := by
    rw [argumentAddress]
    split <;> simp [nameWhole]
  delta fillLine
  simp [indexWhole, addressWhole]

theorem readAssignment?_of_start
    {line : Text}
    (start : line.dropInitial? "    args[" = none) :
    readAssignment? line = none := by
  rw [readAssignment?, start]
  rfl

theorem readAssignment?_linesBeforeArray
    (plan : MethodPlan) :
    ∀ line ∈ linesBeforeArray plan, readAssignment? line = none := by
  intro line member
  delta linesBeforeArray at member
  simp only [List.mem_cons] at member
  rcases member with rfl | rfl | rfl | rfl | rfl | slot
  · rfl
  · exact readAssignment?_of_start rfl
  · rfl
  · exact readAssignment?_of_start rfl
  · rfl
  · split at slot
    · rw [List.mem_singleton.1 slot]
      exact readAssignment?_of_slot _
    · exact absurd slot List.not_mem_nil

theorem readAssignment?_linesBehindArray
    (plan : MethodPlan) :
    ∀ line ∈ linesBehindArray plan, readAssignment? line = none := by
  intro line member
  rw [linesBehindArray] at member
  simp only [List.mem_cons, List.mem_append] at member
  rcases member with rfl | rfl | rfl | returned | rfl | rfl | nothing
  · rfl
  · exact readAssignment?_of_start rfl
  · rfl
  · revert line
    cases plan.result.category <;> decide
  · rfl
  · rfl
  · exact absurd nothing List.not_mem_nil

theorem lineFeed_not_mem_of_mem_linesBeforeArray
    {plan : MethodPlan}
    (inline : plan.IsInline)
    {line : Text}
    (member : line ∈ linesBeforeArray plan) :
    '\n' ∉ line := by
  have qualified := inline.names.qualified.lineFeed_not_mem
  have marshal : '\n' ∉ plan.result.spellings.marshal :=
    (inline.spellings plan.result List.mem_cons_self .marshal).lineFeed_not_mem
  have reference : '\n' ∉ Names.referenceType plan.names.qualified := by
    delta Names.referenceType
    simp [qualified]
  delta linesBeforeArray at member
  simp only [List.mem_cons] at member
  rcases member with rfl | rfl | rfl | rfl | rfl | slot
  · decide
  · simp [reference]
  · decide
  · simp [qualified]
  · exact List.not_mem_nil
  · split at slot
    · rw [List.mem_singleton.1 slot]
      simp [marshal]
    · exact absurd slot List.not_mem_nil

theorem lineFeed_not_mem_of_mem_linesBehindArray
    {plan : MethodPlan}
    (inline : plan.IsInline)
    {line : Text}
    (member : line ∈ linesBehindArray plan) :
    '\n' ∉ line := by
  rw [linesBehindArray] at member
  simp only [List.mem_cons, List.mem_append] at member
  rcases member with rfl | rfl | rfl | returned | rfl | rfl | nothing
  · exact List.not_mem_nil
  · exact lineFeed_not_mem_shimCall inline
  · decide
  · revert line
    cases plan.result.category <;> decide
  · decide
  · exact List.not_mem_nil
  · exact absurd nothing List.not_mem_nil

theorem lineFeed_not_mem_arrayDeclaration (count : Nat) : '\n' ∉ arrayDeclaration count := by
  cases count with
  | zero => decide
  | succ count =>
      have numeral : '\n' ∉ Text.ofNat (count + 1) := not_mem_ofNat (by decide) (count + 1)
      delta arrayDeclaration
      simp [numeral]

theorem readAssignment?_arrayDeclaration (count : Nat) :
    readAssignment? (arrayDeclaration count) = none := by
  cases count with
  | zero => rfl
  | succ count => exact readAssignment?_of_start rfl

/-- No other line of a shim reads like one that fills the array. -/
theorem readLines_methodShim
    {plan : MethodPlan}
    (inline : plan.IsInline)
    (supported : plan.isSupported = true) :
    readLines readAssignment? (methodShim plan) =
      assignmentsFrom 0 plan.parameters (parameterNames plan) := by
  have identifiers : ∀ name ∈ parameterNames plan, isIdentifier name = true :=
    fun name member => isIdentifier_of_mem_parameterNames inline.parameters member
  have filled := map_readAssignment?_fillLines identifiers 0 plan.parameters
  have whole :
      ∀ line ∈
        externLine :: signatureLine plan ::
          (linesBeforeArray plan ++
            (arrayDeclaration plan.parameters.length ::
              fillLines 0 plan.parameters (parameterNames plan)) ++
            linesBehindArray plan),
        '\n' ∉ line := by
    simp only [List.forall_mem_cons, List.forall_mem_append]
    exact ⟨by decide, lineFeed_not_mem_signatureLine inline,
      ⟨fun line => lineFeed_not_mem_of_mem_linesBeforeArray inline,
        lineFeed_not_mem_arrayDeclaration _,
        fun line => lineFeed_not_mem_of_mem_fillLines identifiers⟩,
      fun line => lineFeed_not_mem_of_mem_linesBehindArray inline⟩
  have exported : readAssignment? externLine = none := by rfl
  have signed : readAssignment? (signatureLine plan) = none := readAssignment?_of_parenthesis _
  have empty : readAssignment? [] = none := rfl
  have before : (linesBeforeArray plan).filterMap readAssignment? = [] :=
    List.filterMap_eq_nil_iff.2 (readAssignment?_linesBeforeArray plan)
  have behind : (linesBehindArray plan).filterMap readAssignment? = [] :=
    List.filterMap_eq_nil_iff.2 (readAssignment?_linesBehindArray plan)
  have array :
      (fillLines 0 plan.parameters (parameterNames plan)).filterMap readAssignment? =
        assignmentsFrom 0 plan.parameters (parameterNames plan) := by
    have picked := congrArg (List.filterMap id) filled
    simpa [List.filterMap_map] using picked
  rw [methodShim_eq_unlines supported, readLines_unlines empty whole]
  simp [List.filterMap_append, exported, signed, before, behind, array,
    readAssignment?_arrayDeclaration]

/-! ## Main theorem -/

/-- The names of the parameters are claimed in turn: a reserved name gets an underscore, and each
gets another one as long as it is reserved or taken. -/
theorem parameterNames_eq_claimAll (plan : MethodPlan) :
    parameterNames plan =
      FreshName.claimAll '_' reservedNames identifier []
        (plan.parameters.map PlannedValue.name) := by
  have starts (name : Text) :
      identifier name = if id name ∈ reservedNames then id name ++ ['_'] else id name := by
    simp only [identifier, List.contains_iff_mem]
    rfl
  rw [FreshName.claimAll_eq_chooseAll (List.Subset.refl _)
    (fun word reserved outside => absurd reserved outside) starts, List.map_id]
  rfl

/--
The parameters of a shim are named in turn, whatever the names of the method are: each keeps its
name, with the fewest underscores behind it that make it neither reserved nor the name of an earlier
parameter.  If the names are identifiers, the argument array of a shim has one place for each
parameter of its signature, and is filled place by place with the address of that parameter, which
is taken of the data of strings and only of them.  In a shim whose texts stay on their lines no
other line reads like one of these.
-/
theorem parameterNames_chosen_and_passed (plan : MethodPlan) :
    FreshName.ChosenInTurn '_' reservedNames (plan.parameters.map PlannedValue.name)
        (parameterNames plan) ∧
      (parameterNames plan).Nodup ∧
      (∀ name ∈ parameterNames plan, name ∉ reservedNames) ∧
      (plan.isSupported = true →
        (∀ value ∈ plan.parameters, isIdentifier value.name = true) →
          ∃ fill : List Text,
            methodShim plan =
                unlines
                  (externLine ::
                    signature plan.result.spellings.declaration plan.symbol
                      (plan.parameters.map fun value => value.spellings.declaration)
                      (parameterNames plan) ::
                    (linesBeforeArray plan ++
                      (arrayDeclaration plan.parameters.length :: fill) ++
                      linesBehindArray plan)) ∧
              (∀ line ∈ fill, '\n' ∉ line) ∧
              fill.map readAssignment? =
                (assignmentsFrom 0 plan.parameters (parameterNames plan)).map some ∧
              (plan.IsInline →
                readLines readAssignment? (methodShim plan) =
                  assignmentsFrom 0 plan.parameters (parameterNames plan))) := by
  refine ⟨FreshName.chosenInTurn_chooseAll '_' reservedNames _,
    FreshName.nodup_chooseAll '_' reservedNames _,
    fun name member => FreshName.not_mem_of_mem_chooseAll member, ?_⟩
  intro supported named
  have identifiers : ∀ name ∈ parameterNames plan, isIdentifier name = true :=
    fun name member => isIdentifier_of_mem_parameterNames named member
  exact ⟨fillLines 0 plan.parameters (parameterNames plan), methodShim_eq_unlines supported,
    fun line => lineFeed_not_mem_of_mem_fillLines identifiers,
    map_readAssignment?_fillLines identifiers 0 plan.parameters,
    fun inline => readLines_methodShim inline supported⟩

/-- A method of two strings, the first called like a local of the shim and the second like the
first with an underscore. -/
def swapMethod : Method :=
  ⟨"swap", .void, [⟨"result", .string⟩, ⟨"result_", .string⟩]⟩

/-- An interface with this method alone. -/
def swapInterface : Entity :=
  ⟨"Widget", ⟨["a"]⟩, .known .interface, some [swapMethod], none, none⟩

/-- Both names give way, and the array is filled with the addresses of their data. -/
theorem parameterNames_chosen_and_passed_swap :
    ∃ plan : MethodPlan,
      MethodPlan.ofMethod (Names.ofEntity .default swapInterface) swapMethod = .ok plan ∧
        plan.isSupported = true ∧
        (∀ value ∈ plan.parameters, isIdentifier value.name = true) ∧
        plan.IsInline ∧
        parameterNames plan = ["result_", "result__"] ∧
        readLines readAssignment? (methodShim plan) =
          [⟨0, "result_", true⟩, ⟨1, "result__", true⟩] := by
  have void : TypeName.void.category = .ok .void := TypeName.Matches.void.category_eq
  have sound : Position.firstFlawed? (Position.ofMethod swapMethod) = none := by
    simp [Position.firstFlawed?, Position.ofMethod, Position.flaw?, swapMethod, void,
      TypeName.category_string]
  obtain ⟨plan, planned⟩ :=
    (MethodPlan.settlesInOrder_ofMethod (Names.ofEntity .default swapInterface)
      (show (swapMethod.parameters.map Field.name).Nodup by decide)).succeeds sound
  have settles := MethodPlan.settles_of_ofMethod planned
  have supported : plan.isSupported = true := by
    rw [settles.isSupported_eq]
    simp [swapMethod, Method.hasAggregate, Method.types, void, TypeName.category_string,
      Except.toOption]
  have inline : plan.IsInline := by
    have singleLine : NamingOptions.default.IsSingleLine := by
      unfold NamingOptions.IsSingleLine
      decide
    have checked : swapInterface.check = .ok () := by decide +kernel
    exact settles.isInline (Names.isInline_ofEntity singleLine checked) (by decide) (by decide)
  have names : parameterNames plan = ["result_", "result__"] := by
    rw [parameterNames, MethodPlan.map_name_eq settles.parameters]
    decide +kernel
  obtain ⟨-, -, -, passed⟩ := parameterNames_chosen_and_passed plan
  obtain ⟨fill, -, -, -, read⟩ := passed supported inline.parameters
  refine ⟨plan, planned, supported, inline.parameters, inline, names, ?_⟩
  rw [read inline, names]
  obtain ⟨first, others, firstSettles, othersSettle, parameters⟩ :=
    List.forall₂_cons_left_iff.1 settles.parameters
  obtain ⟨second, none, secondSettles, noneSettle, rfl⟩ :=
    List.forall₂_cons_left_iff.1 othersSettle
  have firstString : first.category = .string :=
    Except.ok.inj (firstSettles.classified.symm.trans TypeName.category_string)
  have secondString : second.category = .string :=
    Except.ok.inj (secondSettles.classified.symm.trans TypeName.category_string)
  simp [parameters, assignmentsFrom, firstString, secondString]

end Native

end UnoBindgen
