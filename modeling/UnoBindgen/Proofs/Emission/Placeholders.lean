import UnoBindgen.Binding
import UnoBindgen.Native
import UnoBindgen.Proofs.Emission.Inline

/-!
# Placeholders and the lines of their comments

A method with an aggregate among its positions gets comments instead of a shim and an import.  A
comment ends in the name of the aggregate as the schema spells it, and the arguments of an
instantiated struct may be padded with any white space, line feeds included.

The main theorem states exactly when the placeholders are comments line by line: when no type of
the method is spelled over several lines.  A line break inside of a type name always leaves
something behind it that is no comment, because type names end in something visible and have no
character that a comment mark starts with.
-/

namespace UnoBindgen

/-! ## Commented texts -/

namespace Text

/-- Every line that is not empty starts with the comment mark. -/
def IsCommented (mark text : Text) : Prop :=
  ∀ line ∈ text.lines, line ≠ [] → line.startsWith mark = true

theorem isCommented_append_iff (mark before after : Text) :
    IsCommented mark (before ++ '\n' :: after) ↔
      IsCommented mark before ∧ IsCommented mark after := by
  rw [IsCommented, lines, splitAt_append, List.forall_mem_append]
  rfl

theorem isCommented_nil (mark : Text) : IsCommented mark [] := by
  intro line member nonempty
  exact (nonempty (List.mem_singleton.1 member)).elim

/-- A block of comments is commented when each of them is. -/
theorem isCommented_flatMap_iff
    {Item : Type}
    (mark : Text)
    (comment : Item → Text)
    (items : List Item) :
    IsCommented mark (items.flatMap (fun item => comment item ++ ['\n']) ++ ['\n']) ↔
      ∀ item ∈ items, IsCommented mark (comment item) := by
  induction items with
  | nil =>
      have empty := (isCommented_append_iff mark [] []).2
        ⟨isCommented_nil mark, isCommented_nil mark⟩
      exact ⟨fun _ item member => absurd member List.not_mem_nil, fun _ => empty⟩
  | cons item rest induction =>
      rw [List.flatMap_cons, List.append_assoc, List.append_assoc, List.singleton_append,
        isCommented_append_iff, induction, List.forall_mem_cons]

theorem isCommented_of_startsWith
    {mark text : Text}
    (whole : '\n' ∉ text)
    (marked : text.startsWith mark = true) :
    IsCommented mark text := by
  intro line member _
  rw [lines, splitAt_of_not_mem whole, List.mem_singleton] at member
  rw [member]
  exact marked

/-- What stands behind a line break is no comment if it is visible and has nothing of the mark. -/
theorem not_isCommented_of_isSolid
    {first : Char}
    {mark text : Text}
    (solid : IsSolid text)
    (unmarked : first ∉ text)
    (broken : '\n' ∈ text)
    (before : Text) :
    ¬ IsCommented (first :: mark) (before ++ text) := by
  intro commented
  obtain ⟨front, behind, rfl⟩ := List.append_of_mem broken
  obtain ⟨last, isLast, visible⟩ := solid.ends
  have lastMember : last ∈ behind := by
    rw [List.getLast?_append_of_ne_nil _ (List.cons_ne_nil _ _), List.getLast?_cons] at isLast
    cases found : behind.getLast? with
    | none =>
        -- Then the text would end in the line feed, which is white space.
        rw [found] at isLast
        obtain rfl : '\n' = last := by simpa using isLast
        exact absurd visible (by decide)
    | some other =>
        rw [found] at isLast
        obtain rfl : other = last := by simpa using isLast
        exact List.mem_of_getLast? found
  have inLines : last ∈ join ['\n'] (lines behind) := by
    rw [lines, join_splitAt]
    exact lastMember
  rw [← List.append_assoc, isCommented_append_iff] at commented
  rcases mem_join inLines with isBreak | ⟨line, lineMember, inLine⟩
  · rw [List.mem_singleton.1 isBreak] at visible
    exact absurd visible (by decide)
  · have marked := commented.2 line lineMember (List.ne_nil_of_mem inLine)
    obtain ⟨rest, rfl⟩ := List.isPrefixOf_iff_prefix.1 marked
    have inBehind : first ∈ join ['\n'] (lines behind) :=
      mem_join_of_mem ['\n'] lineMember (by simp)
    rw [lines, join_splitAt] at inBehind
    exact unmarked (by simp [inBehind])

/-- A comment that ends in a visible text is commented exactly when the text keeps to its line. -/
theorem isCommented_append_solid_iff
    {first : Char}
    {mark head : Text}
    (headWhole : '\n' ∉ head)
    (headMarked : head.startsWith (first :: mark) = true)
    {text : Text}
    (solid : IsSolid text)
    (unmarked : first ∉ text) :
    IsCommented (first :: mark) (head ++ text) ↔ '\n' ∉ text := by
  constructor
  · intro commented broken
    exact not_isCommented_of_isSolid solid unmarked broken head commented
  · intro whole
    apply isCommented_of_startsWith
    · simp [headWhole, whole]
    · obtain ⟨rest, rfl⟩ := List.isPrefixOf_iff_prefix.1 headMarked
      rw [startsWith, List.isPrefixOf_iff_prefix, List.append_assoc]
      exact List.prefix_append _ _

end Text

/-! ## The comments of a plan -/

/-- Only the aggregates of a method can be spelled over several lines. -/
theorem MethodPlan.Settles.forall_unsupported_iff
    {plan : MethodPlan}
    {names : Names}
    {method : Method}
    (settles : plan.Settles names method) :
    (∀ type ∈ plan.unsupported, '\n' ∉ type.text) ↔ ∀ type ∈ method.types, '\n' ∉ type.text := by
  rw [← settles.map_type_eq, List.forall_mem_map]
  constructor
  · intro whole value member
    by_cases supported : value.isSupported = true
    · exact TypeName.lineFeed_not_mem_of_category (settles.category_eq member)
        (bne_iff_ne.1 supported)
    · exact whole value.type
        ((plan.mem_unsupported_iff _).2 ⟨value, member, by simpa using supported, rfl⟩)
  · intro whole type member
    obtain ⟨value, valueMember, -, rfl⟩ := (plan.mem_unsupported_iff type).1 member
    exact whole value valueMember

/-- A block with one comment for each aggregate of the method, where the comments only differ in
the type that they end in. -/
theorem MethodPlan.Settles.isCommented_iff
    {plan : MethodPlan}
    {names : Names}
    {method : Method}
    (settles : plan.Settles names method)
    {first : Char}
    {mark head : Text}
    (headWhole : '\n' ∉ head)
    (headMarked : head.startsWith (first :: mark) = true)
    (outside : TypeName.isTypeCharacter first = false) :
    Text.IsCommented (first :: mark)
        ((Text.distinct (plan.unsupported.map TypeName.text)).flatMap
          (fun type => head ++ type ++ ['\n']) ++ ['\n']) ↔
      ∀ type ∈ method.types, '\n' ∉ type.text := by
  rw [Text.isCommented_flatMap_iff, ← settles.forall_unsupported_iff, Text.distinct]
  simp only [List.mem_eraseDups, List.forall_mem_map]
  refine forall₂_congr fun type member => ?_
  obtain ⟨value, valueMember, -, rfl⟩ := (plan.mem_unsupported_iff type).1 member
  have classified := settles.category_eq valueMember
  obtain ⟨clause, matched, -⟩ := TypeName.matches_of_category classified
  exact Text.isCommented_append_solid_iff headWhole headMarked matched.isSolid
    (TypeName.not_mem_of_category classified outside)

theorem lineFeed_not_mem_qualifiedMethod
    {options : NamingOptions}
    {entity : Entity}
    (checked : entity.check = .ok ())
    {method : Method}
    (named : isIdentifier method.name = true) :
    '\n' ∉ (Names.ofEntity options entity).qualifiedMethod method.name := by
  have path : Text.IsInline (Names.ofEntity options entity).fullName :=
    ModulePath.isInline_join_segments (Entity.hasIdentifiers_path checked) (by decide)
  have name := isInline_of_isIdentifier named
  rw [Names.qualifiedMethod]
  simp [path.lineFeed_not_mem, name.lineFeed_not_mem]

namespace Emission

/--
Every line of a placeholder that is not empty is a comment, in the C++ texts and in the Haskell
text, exactly when no type of the method has a line feed in its name.
-/
theorem placeholders_isCommented_iff
    (options : NamingOptions)
    (entity : Entity)
    (method : Method)
    (plan : MethodPlan)
    (checked : entity.check = .ok ())
    (interface : entity.tag = .known .interface)
    (declared : method ∈ entity.methods?.getD [])
    (planned : MethodPlan.ofMethod (Names.ofEntity options entity) method = .ok plan)
    (unsupported : plan.unsupported ≠ []) :
    (∀ text ∈ [Native.placeholder plan, Native.methodDeclaration plan, Native.methodShim plan],
      (Text.IsCommented "//" text ↔ ∀ type ∈ method.types, '\n' ∉ type.text)) ∧
    ∀ text ∈ [Binding.placeholder plan, Binding.foreignImport plan],
      (Text.IsCommented "--" text ↔ ∀ type ∈ method.types, '\n' ∉ type.text) := by
  have settles := MethodPlan.settles_of_ofMethod planned
  have named := (Entity.isIdentifier_of_mem_methods checked interface declared).1
  have qualified : '\n' ∉ plan.qualified := by
    rw [settles.qualified]
    exact lineFeed_not_mem_qualifiedMethod checked named
  have notCallable : ¬ plan.isSupported = true := by
    simpa [MethodPlan.isSupported] using unsupported
  have native :
      Text.IsCommented "//" (Native.placeholder plan) ↔
        ∀ type ∈ method.types, '\n' ∉ type.text :=
    settles.isCommented_iff (by simp [qualified]) rfl (by decide)
  have binding :
      Text.IsCommented "--" (Binding.placeholder plan) ↔
        ∀ type ∈ method.types, '\n' ∉ type.text :=
    settles.isCommented_iff (by simp [qualified]) rfl (by decide)
  have declaration : Native.methodDeclaration plan = Native.placeholder plan := if_neg notCallable
  have shim : Native.methodShim plan = Native.placeholder plan := if_neg notCallable
  have imported : Binding.foreignImport plan = Binding.placeholder plan := if_neg notCallable
  rw [declaration, shim, imported]
  simp only [List.forall_mem_cons, List.not_mem_nil, false_imp_iff, implies_true, and_true]
  exact ⟨⟨native, native, native⟩, binding, binding⟩

/-- A struct with two arguments, and white space in front of the second. -/
def pairType (padding : Text) : TypeName :=
  ⟨"b.Pair<long," ++ padding ++ "string>"⟩

/-- An interface whose only method returns such a struct. -/
def structInterface (padding : Text) : Entity :=
  ⟨"Widget", ⟨["a"]⟩, .known .interface, some [⟨"getPair", pairType padding, []⟩], none, none⟩

theorem category_pairType
    {padding : Text}
    (blank : Text.AllBlank padding) :
    (pairType padding).category = .ok .aggregate := by
  have opening : ("b.Pair<long," : Text) = "b.Pair" ++ '<' :: ("long" ++ [',']) := rfl
  have closing : ("string>" : Text) = "string" ++ ['>'] := rfl
  have spelled :
      (pairType padding).text =
        "b.Pair" ++ '<' ::
          (Text.join [',']
            ([⟨[], "long", [], .primitive⟩, ⟨padding, "string", [], .string⟩].map
              TypeName.Argument.text) ++ ['>']) := by
    delta pairType
    rw [opening, closing]
    simp [TypeName.Argument.text, Text.join]
  have matched : TypeName.Matches .instantiated (pairType padding).text := by
    rw [spelled]
    refine .instantiated ?_ (by simp) ?_ ?_ ?_
    · exact (isQualifiedIdentifier_iff_isDotted _).1 (by decide)
    · simp only [List.forall_mem_cons, List.not_mem_nil, false_imp_iff, implies_true, and_true]
      exact ⟨by simp [Text.AllBlank], blank, by simp [Text.AllBlank]⟩
    · simp only [List.forall_mem_cons, List.not_mem_nil, false_imp_iff, implies_true, and_true]
      exact ⟨.primitive (by decide), .string⟩
    · simp
  exact matched.category_eq

theorem exists_plan_getPair
    (options : NamingOptions)
    {padding : Text}
    (blank : Text.AllBlank padding) :
    ∃ plan,
      MethodPlan.ofMethod (Names.ofEntity options (structInterface padding))
          ⟨"getPair", pairType padding, []⟩ = .ok plan ∧
        plan.unsupported ≠ [] := by
  obtain ⟨result, resultPlanned, aggregate⟩ :=
    PlannedValue.exists_plan_of_category [] (category_pairType blank)
  simp only [MethodPlan.ofMethod, resultPlanned, MethodPlan.planParameters_nil]
  refine ⟨_, rfl, ?_⟩
  simp [MethodPlan.start, PlannedValue.isSupported, aggregate]

/-- A struct whose arguments are padded with a tab and a blank gets proper comments. -/
theorem placeholders_isCommented_tab :
    ∃ plan,
      MethodPlan.ofMethod (Names.ofEntity .default (structInterface "\t "))
          ⟨"getPair", pairType "\t ", []⟩ = .ok plan ∧
        plan.unsupported ≠ [] ∧
        Text.IsCommented "//" (Native.methodShim plan) ∧
        Text.IsCommented "--" (Binding.foreignImport plan) := by
  have blank : ("\t " : Text).all Text.isBlank = true := by decide
  obtain ⟨plan, planned, unsupported⟩ :=
    exists_plan_getPair .default (List.all_eq_true.1 blank)
  have exactly :=
    placeholders_isCommented_iff .default (structInterface "\t ") ⟨"getPair", pairType "\t ", []⟩
      plan rfl rfl List.mem_cons_self planned unsupported
  have whole :
      ∀ type ∈ Method.types ⟨"getPair", pairType "\t ", []⟩, '\n' ∉ type.text := by
    decide
  exact ⟨plan, planned, unsupported, (exactly.1 _ (by simp)).2 whole,
    (exactly.2 _ (by simp)).2 whole⟩

/-- With a line feed as the padding the second line of each placeholder is no comment. -/
theorem not_placeholders_isCommented_of_check :
    ¬ ∀ (options : NamingOptions) (entity : Entity) (method : Method) (plan : MethodPlan),
      entity.check = .ok () →
      entity.tag = .known .interface →
      method ∈ entity.methods?.getD [] →
      MethodPlan.ofMethod (Names.ofEntity options entity) method = .ok plan →
      plan.unsupported ≠ [] →
      (∀ text ∈ [Native.placeholder plan, Native.methodDeclaration plan, Native.methodShim plan],
        Text.IsCommented "//" text) ∧
      ∀ text ∈ [Binding.placeholder plan, Binding.foreignImport plan],
        Text.IsCommented "--" text := by
  intro always
  have blank : ("\n" : Text).all Text.isBlank = true := by decide
  obtain ⟨plan, planned, unsupported⟩ :=
    exists_plan_getPair .default (List.all_eq_true.1 blank)
  have commented :=
    (always .default (structInterface "\n") ⟨"getPair", pairType "\n", []⟩ plan rfl rfl
      List.mem_cons_self planned unsupported).1 (Native.placeholder plan) (by simp)
  have settles := MethodPlan.settles_of_ofMethod planned
  have qualified : '\n' ∉ plan.qualified := by
    rw [settles.qualified]
    decide
  have whole :=
    (settles.isCommented_iff (by simp [qualified]) rfl (by decide)).1 commented
  exact whole (pairType "\n") List.mem_cons_self (by decide)

end Emission

end UnoBindgen
