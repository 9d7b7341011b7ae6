import Mathlib
import UnoBindgen.Proofs.Emission.WrapperReading
import UnoBindgen.Proofs.Plan.Obstacles

/-!
# What the names of a wrapper denote

A wrapper binds one name for each parameter of its method, and one more for the marshaled form of
each string.  They are chosen one after the other, and none of them may hide another, a name that
the wrapper itself binds or calls, the method or its import.

The main theorem states that the bound names keep apart in this way, whatever the names of the
parameters are, and that the call of a wrapper receives each parameter at its own place exactly when
no argument of the head is the wildcard.  A parameter of that name keeps it, unless the method is
called like that itself.
-/

namespace UnoBindgen.Binding

open Text

/-! ## The bound names keep apart -/

theorem not_mem_of_mem_marshaledNames
    {values : List PlannedValue}
    {avoid : List Text}
    {marshaled : Text}
    (member : some marshaled ∈ marshaledNames avoid values) :
    marshaled ∉ avoid := by
  induction values generalizing avoid with
  | nil => simp [marshaledNames] at member
  | cons value rest induction =>
      rw [marshaledNames] at member
      split at member
      · rcases List.mem_cons.1 member with same | inRest
        · rw [Option.some.inj same]
          exact FreshName.choose_not_mem '\'' avoid _
        · exact fun avoided => induction inRest (List.mem_cons_of_mem _ avoided)
      · rcases List.mem_cons.1 member with same | inRest
        · exact absurd same (by simp)
        · exact induction inRest

theorem nodup_marshaledNames
    (avoid : List Text)
    (values : List PlannedValue) :
    ((marshaledNames avoid values).filterMap id).Nodup := by
  induction values generalizing avoid with
  | nil => exact List.nodup_nil
  | cons value rest induction =>
      rw [marshaledNames]
      split
      · simp only [List.filterMap_cons, id, List.nodup_cons]
        refine ⟨fun again => ?_, induction _⟩
        obtain ⟨-, member, rfl⟩ := List.mem_filterMap.1 again
        exact not_mem_of_mem_marshaledNames member List.mem_cons_self
      · simp only [List.filterMap_cons, id]
        exact induction avoid

theorem map_isSome_marshaledNames
    (avoid : List Text)
    (values : List PlannedValue) :
    (marshaledNames avoid values).map Option.isSome =
      values.map fun value => decide (value.category = .string) := by
  induction values generalizing avoid with
  | nil => rfl
  | cons value rest induction =>
      rw [marshaledNames]
      split
      · rename_i string
        simp [induction, string]
      · rename_i other
        simp [induction, other]

/-- The names of the arguments that a wrapper takes besides its first. -/
def boundArguments (plan : MethodPlan) : List Text :=
  (bindParameters plan).map BoundParameter.argument

/-- The names that a wrapper binds to marshaled strings. -/
def boundStrings (plan : MethodPlan) : List Text :=
  (bindParameters plan).filterMap BoundParameter.marshaled?

/-- The names that a wrapper binds for its parameters are chosen for them in order, with no prime
more than needed, and do not get in the way of each other or of anything else in the wrapper. -/
structure IsHygienic (plan : MethodPlan) : Prop where
  parameters : (bindParameters plan).map BoundParameter.value = plan.parameters
  inTurn :
    FreshName.ChosenInTurn '\'' (avoidedNames plan)
      (plan.parameters.map fun value => value.name.uncapitalize) (boundArguments plan)
  strings :
    ∀ parameter ∈ bindParameters plan,
      parameter.marshaled?.isSome ↔ parameter.value.category = .string
  distinct : (boundArguments plan ++ boundStrings plan).Nodup
  apart :
    ∀ name ∈ boundArguments plan ++ boundStrings plan,
      name ∉ wrapperLocals ∧ name ∉ reservedWords ∧
        name ≠ identifier plan.method ∧ name ≠ plan.importName

theorem boundArguments_eq_chooseAll (plan : MethodPlan) :
    boundArguments plan =
      FreshName.chooseAll '\'' (avoidedNames plan)
        (plan.parameters.map fun value => value.name.uncapitalize) :=
  map_argument_bindParameters plan

theorem quote_not_mem_of_reserved :
    ∀ word ∈ wrapperLocals ++ reservedWords, word ∉ wrapperLocals → '\'' ∉ word := by
  have unmarked : ∀ word ∈ reservedWords, '\'' ∉ word := by decide +kernel
  exact fun word reserved outside =>
    unmarked word ((List.mem_append.1 reserved).resolve_left outside)

/-- The names of the arguments are claimed in turn: a name that is reserved gets a prime, and each
gets another one as long as it is taken or bound by the wrappers. -/
theorem boundArguments_eq_claimAll (plan : MethodPlan) :
    boundArguments plan =
      FreshName.claimAll '\'' wrapperLocals identifier [identifier plan.method, plan.importName]
        (plan.parameters.map PlannedValue.name) := by
  have starts (name : Text) :
      identifier name =
        if name.uncapitalize ∈ wrapperLocals ++ reservedWords then name.uncapitalize ++ ['\'']
        else name.uncapitalize := by
    simp only [identifier, Bool.or_eq_true, List.contains_iff_mem, List.mem_append]
    rfl
  rw [FreshName.claimAll_eq_chooseAll (List.subset_append_left _ _) quote_not_mem_of_reserved starts,
    List.map_map]
  exact boundArguments_eq_chooseAll plan

/-- Claim the names of the marshaled strings in turn. -/
def claimStrings : List Text → List PlannedValue → List (Option Text)
  | _, [] => []
  | taken, value :: rest =>
    if value.category = .string then
      let claimed :=
        FreshName.markUntilFree '\'' (taken ++ wrapperLocals) (marshaledIdentifier value.name)
      some claimed :: claimStrings (claimed :: taken) rest
    else
      none :: claimStrings taken rest

theorem marshaledIdentifier_not_reserved (name : Text) :
    marshaledIdentifier name ∉ wrapperLocals ++ reservedWords := by
  have otherwise :
      ∀ word ∈ wrapperLocals ++ reservedWords, word.startsWith "hs" = false := by
    decide +kernel
  intro reserved
  have starts : (marshaledIdentifier name).startsWith "hs" = true :=
    List.isPrefixOf_iff_prefix.2 (List.prefix_append _ _)
  exact absurd (starts.symm.trans (otherwise _ reserved)) (by simp)

theorem marshaledNames_eq_claimStrings
    (taken : List Text)
    (values : List PlannedValue) :
    marshaledNames (taken ++ (wrapperLocals ++ reservedWords)) values =
      claimStrings taken values := by
  induction values generalizing taken with
  | nil => rfl
  | cons value rest induction =>
      rw [marshaledNames, claimStrings,
        FreshName.markUntilFree_eq_choose_of_reserved (List.subset_append_left _ _)
          quote_not_mem_of_reserved taken (.inr (marshaledIdentifier_not_reserved value.name))]
      split
      · exact congrArg (List.cons _) (induction (_ :: taken))
      · exact congrArg (List.cons _) (induction taken)

/-- The names of the marshaled strings are claimed behind those of the arguments. -/
theorem map_marshaled_eq_claimStrings (plan : MethodPlan) :
    (bindParameters plan).map BoundParameter.marshaled? =
      claimStrings (boundArguments plan ++ [identifier plan.method, plan.importName])
        plan.parameters := by
  rw [← marshaledNames_eq_claimStrings, List.append_assoc]
  exact map_marshaled_bindParameters plan

theorem boundStrings_eq_filterMap (plan : MethodPlan) :
    boundStrings plan =
      (marshaledNames (boundArguments plan ++ avoidedNames plan) plan.parameters).filterMap id := by
  rw [boundArguments, ← map_marshaled_bindParameters, List.filterMap_map]
  rfl

theorem not_mem_avoided_of_mem
    {plan : MethodPlan}
    {name : Text}
    (member : name ∈ boundArguments plan ++ boundStrings plan) :
    name ∉ avoidedNames plan := by
  rcases List.mem_append.1 member with inArguments | inMarshaled
  · rw [boundArguments_eq_chooseAll] at inArguments
    exact FreshName.not_mem_of_mem_chooseAll inArguments
  · rw [boundStrings_eq_filterMap] at inMarshaled
    obtain ⟨-, chosen, rfl⟩ := List.mem_filterMap.1 inMarshaled
    have free := not_mem_of_mem_marshaledNames chosen
    exact fun avoided => free (List.mem_append_right _ avoided)

theorem isHygienic (plan : MethodPlan) : IsHygienic plan := by
  refine
    { parameters := map_value_bindParameters plan
      inTurn := ?_
      strings := ?_
      distinct := ?_
      apart := ?_ }
  · rw [boundArguments_eq_chooseAll]
    exact FreshName.chosenInTurn_chooseAll '\'' (avoidedNames plan) _
  · have sides :
        (bindParameters plan).map (fun parameter => parameter.marshaled?.isSome) =
          (bindParameters plan).map fun parameter =>
            decide (parameter.value.category = .string) := by
      have values := map_value_bindParameters plan
      have tests := congrArg (List.map Option.isSome) (map_marshaled_bindParameters plan)
      rw [map_isSome_marshaledNames, List.map_map] at tests
      conv at tests => rhs; rw [← values, List.map_map]
      exact tests
    intro parameter member
    rw [List.map_inj_left.1 sides parameter member, decide_eq_true_eq]
  · rw [List.nodup_append]
    refine ⟨?_, ?_, ?_⟩
    · rw [boundArguments_eq_chooseAll]
      exact FreshName.nodup_chooseAll '\'' (avoidedNames plan) _
    · rw [boundStrings_eq_filterMap]
      exact nodup_marshaledNames _ _
    · rintro argument argumentMember name nameMember rfl
      rw [boundStrings_eq_filterMap] at nameMember
      obtain ⟨-, chosen, rfl⟩ := List.mem_filterMap.1 nameMember
      exact not_mem_of_mem_marshaledNames chosen (List.mem_append_left _ argumentMember)
  · intro name member
    have free := not_mem_avoided_of_mem member
    simp only [avoidedNames, List.mem_cons, List.mem_append, not_or] at free
    exact ⟨free.2.2.1, free.2.2.2, free.1, free.2.1⟩

/-! ## The scope of a head -/

theorem foldl_bind
    {entries : List (Text × Nat)}
    (proper : ∀ entry ∈ entries, entry.1 ≠ "_")
    (scope : Scope) :
    entries.foldl (fun scope (name, index) => scope.bind name (.argument index)) scope =
      (entries.map fun (name, index) => (name, Meaning.argument index)).reverse ++ scope := by
  induction entries generalizing scope with
  | nil => rfl
  | cons entry rest induction =>
      obtain ⟨name, index⟩ := entry
      rw [List.forall_mem_cons] at proper
      rw [List.foldl_cons, induction proper.2]
      simp [Scope.bind_of_ne scope proper.1]

theorem headScope_eq
    {names : List Text}
    (proper : ∀ name ∈ names, name ≠ "_") :
    headScope names =
      (names.zipIdx.map fun (name, index) => (name, Meaning.argument index)).reverse := by
  rw [headScope, foldl_bind fun entry member => proper entry.1 (List.fst_mem_of_mem_zipIdx member),
    List.append_nil]

/-- The head is read up to its equals sign, which is no argument. -/
theorem takeWhile_headWords
    {plan : MethodPlan}
    (named : ∀ value ∈ plan.parameters, isIdentifier value.name = true) :
    (headWords plan).tail.takeWhile (· ≠ ("=" : Text)) = ("a" : Text) :: boundArguments plan := by
  have noSign : ∀ argument ∈ boundArguments plan, argument ≠ ("=" : Text) := by
    intro argument member same
    obtain ⟨parameter, parameterMember, rfl⟩ := List.mem_map.1 member
    obtain ⟨value, valueMember, count, marked⟩ := exists_marked_argument parameterMember
    have free :=
      not_mem_marked (isIdentifier_uncapitalize (named value valueMember)) count
        (show Identifier.isFollowing '=' = false by decide) (by decide)
    rw [← marked, same] at free
    exact free (by decide)
  rw [headWords, List.tail_cons, ← boundArguments, List.takeWhile_cons_of_pos (by decide),
    List.takeWhile_append_of_pos (by simpa using noSign)]
  simp [words]

/-! ## The lines of a wrapper, one after the other -/

theorem readCall?_binding
    {scope : Scope}
    {line : List Text}
    {manner : Manner}
    {name function operand : Text}
    (read : readStep? line = some (.binding manner name function operand))
    {caller given : Meaning}
    (calls : scope.meaning? function = some caller)
    (gives : scope.meaning? operand = some given)
    (proper : name ≠ "_")
    (rest : List (List Text)) :
    readCall? scope (line :: rest) =
      readCall? ((name, .obtained manner caller given) :: scope) rest := by
  rw [readCall?, read]
  simp only [calls, gives, Scope.bind_of_ne scope proper]

/-- A binding that can be followed does not use the wildcard. -/
theorem exists_of_readCall?_binding
    {scope : Scope}
    {line : List Text}
    {manner : Manner}
    {name function operand : Text}
    (read : readStep? line = some (.binding manner name function operand))
    {rest : List (List Text)}
    {call : Call}
    (followed : readCall? scope (line :: rest) = some call) :
    operand ≠ "_" ∧ ∃ inner : Scope, readCall? inner rest = some call := by
  rw [readCall?, read] at followed
  cases calls : scope.meaning? function with
  | none => simp [calls] at followed
  | some caller =>
      cases gives : scope.meaning? operand with
      | none => simp [calls, gives] at followed
      | some given =>
          simp only [calls, gives] at followed
          exact ⟨Scope.ne_of_meaning? gives, _, followed⟩

theorem readStep?_interfaceWords :
    readStep? interfaceWords = some (.binding .result "iface" "getInterface" "a") := by
  decide

theorem readStep?_slotWords :
    readStep? slotWords = some (.binding .handed "exceptionPtr" "with" "nullPtr") := by
  decide

theorem readStep?_marshalWords
    {parameter : BoundParameter}
    {marshaled : Text}
    (present : parameter.marshaled? = some marshaled) :
    ∃ line,
      marshalWords? parameter = some line ∧
        readStep? line = some (.binding .handed marshaled "withOUString" parameter.argument) := by
  refine ⟨_, by rw [marshalWords?, present, Option.map_some], ?_⟩
  simp [readStep?]

theorem readStep?_callWords
    {plan : MethodPlan}
    (hasWords : HasWords plan) :
    readStep? (callWords plan) =
      some
        (.call plan.importName
          ("iface" :: "exceptionPtr" :: (bindParameters plan).map BoundParameter.passed)) := by
  rw [callWords, hasWords.importName]
  split
  · simp [readStep?, words, Names.importName]
  · simp [readStep?, Names.importName]

/-! ## Marshaled strings -/

/-- What the line that marshals a parameter binds. -/
def marshaledBinding? (entry : BoundParameter × Nat) : Option (Text × Meaning) :=
  entry.1.marshaled?.map fun marshaled =>
    (marshaled, .obtained .handed (.outer "withOUString") (.argument entry.2))

/-- Following the marshaling lines binds the marshaled strings and nothing else. -/
theorem readCall?_marshaling
    {entries : List (BoundParameter × Nat)}
    {scope : Scope}
    (distinct :
      ((entries.filterMap fun entry => entry.1.marshaled?) ++ scope.map Prod.fst).Nodup)
    (known : ∀ entry ∈ entries, (entry.1.argument, Meaning.argument entry.2) ∈ scope)
    (proper :
      ∀ entry ∈ entries, entry.1.argument ≠ "_" ∧ ∀ name ∈ entry.1.marshaled?, name ≠ "_")
    (free :
      ("withOUString" : Text) ∉
        (entries.filterMap fun entry => entry.1.marshaled?) ++ scope.map Prod.fst)
    (rest : List (List Text)) :
    readCall? scope ((entries.filterMap fun entry => marshalWords? entry.1) ++ rest) =
      readCall? ((entries.filterMap marshaledBinding?).reverse ++ scope) rest := by
  induction entries generalizing scope with
  | nil => rfl
  | cons entry others induction =>
      rw [List.forall_mem_cons] at known proper
      cases present : entry.1.marshaled? with
      | none =>
          have unread : marshalWords? entry.1 = none := by rw [marshalWords?, present]; rfl
          have unbound : marshaledBinding? entry = none := by rw [marshaledBinding?, present]; rfl
          simp only [List.filterMap_cons, present] at distinct free
          simp only [List.filterMap_cons, unread, unbound]
          exact induction distinct known.2 proper.2 free
      | some marshaled =>
          obtain ⟨line, unfolded, read⟩ := readStep?_marshalWords present
          have bound :
              marshaledBinding? entry =
                some (marshaled,
                  .obtained .handed (.outer "withOUString") (.argument entry.2)) := by
            rw [marshaledBinding?, present]
            rfl
          simp only [List.filterMap_cons, present, List.cons_append] at distinct free
          have inner := List.nodup_cons.1 distinct
          rw [List.mem_cons, not_or] at free
          have calls : scope.meaning? "withOUString" = some (.outer "withOUString") :=
            Scope.meaning?_of_not_mem (fun listed => free.2 (List.mem_append_right _ listed))
              (by decide)
          have gives : scope.meaning? entry.1.argument = some (.argument entry.2) :=
            Scope.meaning?_of_mem (List.nodup_append.1 inner.2).2.1 known.1 proper.1.1
          simp only [List.filterMap_cons, unfolded, bound, List.cons_append]
          rw [readCall?_binding read calls gives (proper.1.2 marshaled present), List.reverse_cons,
            List.append_assoc, List.singleton_append]
          -- the next line is read with this name bound
          refine induction ?_ ?_ proper.2 ?_
          · rw [List.map_cons]
            exact List.perm_middle.nodup_iff.2 distinct
          · exact fun other member => List.mem_cons_of_mem _ (known.2 other member)
          · rw [List.map_cons, List.mem_append, List.mem_cons]
            rintro (listed | same | listed)
            · exact free.2 (List.mem_append_left _ listed)
            · exact free.1 same
            · exact free.2 (List.mem_append_right _ listed)

/-! ## The scope of the call -/

/-- The parameters of a wrapper with their places in the head, where the instance is first. -/
def places (plan : MethodPlan) : List (BoundParameter × Nat) :=
  (bindParameters plan).zipIdx 1

/-- The scope behind the line that obtains the interface. -/
def openingScope (plan : MethodPlan) : Scope :=
  ("iface", .obtained .result (.outer "getInterface") (.argument 0)) ::
    ((("a" : Text) :: boundArguments plan).zipIdx.map fun (name, index) =>
      (name, Meaning.argument index)).reverse

/-- The scope of the call. -/
def callScope (plan : MethodPlan) : Scope :=
  ("exceptionPtr", .obtained .handed (.outer "with") (.outer "nullPtr")) ::
    (((places plan).filterMap marshaledBinding?).reverse ++ openingScope plan)

theorem filterMap_places
    {Item : Type}
    (plan : MethodPlan)
    (item? : BoundParameter → Option Item) :
    ((places plan).filterMap fun place => item? place.1) =
      (bindParameters plan).filterMap item? := by
  have parameters : (places plan).map Prod.fst = bindParameters plan :=
    List.zipIdx_map_fst 1 (bindParameters plan)
  conv => rhs; rw [← parameters, List.filterMap_map]
  rfl

theorem map_fst_openingScope (plan : MethodPlan) :
    (openingScope plan).map Prod.fst =
      ("iface" : Text) :: (("a" : Text) :: boundArguments plan).reverse := by
  have names :
      ((("a" : Text) :: boundArguments plan).zipIdx.map fun (name, index) =>
        (name, Meaning.argument index)).map Prod.fst = ("a" : Text) :: boundArguments plan := by
    rw [List.map_map]
    exact List.zipIdx_map_fst 0 _
  rw [openingScope, List.map_cons, List.map_reverse, names]

theorem map_fst_callScope_perm_strings (plan : MethodPlan) :
    ((callScope plan).map Prod.fst).Perm
      (("exceptionPtr" : Text) ::
        (((places plan).filterMap fun place => place.1.marshaled?) ++
          (openingScope plan).map Prod.fst)) := by
  have strings :
      ((places plan).filterMap marshaledBinding?).map Prod.fst =
        (places plan).filterMap fun place => place.1.marshaled? := by
    rw [List.map_filterMap]
    congr 1
    funext place
    rw [marshaledBinding?]
    cases place.1.marshaled? <;> rfl
  rw [callScope, List.map_cons, List.map_append, List.map_reverse, strings]
  exact ((List.reverse_perm _).append_right _).cons _

theorem map_fst_callScope_perm (plan : MethodPlan) :
    ((callScope plan).map Prod.fst).Perm
      (words ["exceptionPtr", "iface", "a"] ++ (boundArguments plan ++ boundStrings plan)) := by
  refine (map_fst_callScope_perm_strings plan).trans ?_
  rw [filterMap_places plan BoundParameter.marshaled?, ← boundStrings, map_fst_openingScope,
    List.perm_iff_count]
  intro name
  simp only [words, List.map_cons, List.map_nil, List.cons_append, List.nil_append,
    List.count_cons, List.count_append, List.count_reverse]
  omega

theorem nodup_callScope (plan : MethodPlan) : ((callScope plan).map Prod.fst).Nodup := by
  have hygienic := isHygienic plan
  rw [(map_fst_callScope_perm plan).nodup_iff, List.nodup_append]
  refine ⟨by decide, hygienic.distinct, ?_⟩
  rintro name fixed other bound rfl
  have all : ∀ word ∈ words ["exceptionPtr", "iface", "a"], word ∈ wrapperLocals := by decide
  exact (hygienic.apart name bound).1 (all name fixed)

/-- What a wrapper calls, besides the import, is none of its own names. -/
theorem not_mem_callScope
    (plan : MethodPlan)
    {name : Text}
    (listed : name ∈ wrapperLocals)
    (other : name ∉ words ["exceptionPtr", "iface", "a"]) :
    name ∉ (callScope plan).map Prod.fst := by
  rw [(map_fst_callScope_perm plan).mem_iff, List.mem_append, not_or]
  exact ⟨other, fun bound => ((isHygienic plan).apart name bound).1 listed⟩

theorem importName_not_mem_callScope
    {plan : MethodPlan}
    (hasWords : HasWords plan) :
    plan.importName ∉ (callScope plan).map Prod.fst := by
  rw [(map_fst_callScope_perm plan).mem_iff, List.mem_append, not_or]
  refine ⟨?_, fun bound => ((isHygienic plan).apart _ bound).2.2.2 rfl⟩
  have heads : ∀ word ∈ words ["exceptionPtr", "iface", "a"], word.head? ≠ some 'c' := by decide
  intro fixed
  refine heads _ fixed ?_
  rw [hasWords.importName]
  rfl

variable {plan : MethodPlan}

/-- On the way to the call, a name that is bound means what it was bound to. -/
theorem meaning?_of_mem_suffix
    {scope : Scope}
    (suffix : scope <:+ callScope plan)
    {name : Text}
    {meaning : Meaning}
    (bound : (name, meaning) ∈ scope)
    (proper : name ≠ "_") :
    scope.meaning? name = some meaning :=
  Scope.meaning?_of_mem ((suffix.sublist.map Prod.fst).nodup (nodup_callScope plan)) bound proper

theorem meaning?_of_not_mem_suffix
    {scope : Scope}
    (suffix : scope <:+ callScope plan)
    {name : Text}
    (free : name ∉ (callScope plan).map Prod.fst)
    (proper : name ≠ "_") :
    scope.meaning? name = some (.outer name) :=
  Scope.meaning?_of_not_mem (fun bound => free ((suffix.sublist.map Prod.fst).subset bound)) proper

/-- Every argument is in scope, at its place. -/
theorem mem_openingScope_of_mem_places
    {place : BoundParameter × Nat}
    (member : place ∈ places plan) :
    (place.1.argument, Meaning.argument place.2) ∈ openingScope plan := by
  refine List.mem_cons_of_mem _ (List.mem_reverse.2 ?_)
  refine List.mem_map.2 ⟨(place.1.argument, place.2), ?_, rfl⟩
  rw [List.zipIdx_cons, boundArguments, List.zipIdx_map]
  exact List.mem_cons_of_mem _ (List.mem_map.2 ⟨place, member, rfl⟩)

/-! ## What the call receives -/

theorem mapM_map_eq_some
    {Item Name Value : Type}
    {find? : Name → Option Value}
    {name : Item → Name}
    {value : Item → Value}
    {items : List Item}
    (found : ∀ item ∈ items, find? (name item) = some (value item)) :
    (items.map name).mapM find? = some (items.map value) := by
  induction items with
  | nil => rfl
  | cons item others induction =>
      rw [List.forall_mem_cons] at found
      rw [List.map_cons, List.mapM_cons, found.1, induction found.2]
      rfl

theorem exists_of_mapM_eq_some
    {Name Value : Type}
    {find? : Name → Option Value}
    {names : List Name}
    {values : List Value}
    (found : names.mapM find? = some values)
    {name : Name}
    (member : name ∈ names) :
    ∃ value, find? name = some value := by
  induction names generalizing values with
  | nil => exact absurd member List.not_mem_nil
  | cons first others induction =>
      rw [List.mapM_cons] at found
      obtain ⟨value, firstFound, behind⟩ := Option.bind_eq_some_iff.1 found
      obtain ⟨rest, othersFound, -⟩ := Option.bind_eq_some_iff.1 behind
      rcases List.mem_cons.1 member with rfl | inOthers
      · exact ⟨value, firstFound⟩
      · exact induction othersFound inOthers

/-- What the call should receive for a parameter at a place of the head. -/
def intended (value : PlannedValue) (index : Nat) : Meaning :=
  if value.category = .string then
    .obtained .handed (.outer "withOUString") (.argument index)
  else
    .argument index

theorem operands_intendedCall (plan : MethodPlan) :
    (intendedCall plan).operands =
      .obtained .result (.outer "getInterface") (.argument 0) ::
      .obtained .handed (.outer "with") (.outer "nullPtr") ::
      (places plan).map fun place => intended place.1.value place.2 := by
  have parameters :
      plan.parameters.zipIdx 1 = (places plan).map (Prod.map BoundParameter.value id) := by
    rw [places, ← List.zipIdx_map, map_value_bindParameters]
  rw [intendedCall, parameters, List.map_map]
  rfl

/-- The name that is passed for a parameter means that parameter, or its marshaled form. -/
theorem meaning?_passed
    (hasWords : HasWords plan)
    (proper : ∀ argument ∈ boundArguments plan, argument ≠ "_")
    {place : BoundParameter × Nat}
    (member : place ∈ places plan) :
    (callScope plan).meaning? place.1.passed = some (intended place.1.value place.2) := by
  have bound : place.1 ∈ bindParameters plan := List.fst_mem_of_mem_zipIdx member
  have strings := (isHygienic plan).strings place.1 bound
  rw [BoundParameter.passed, intended]
  cases present : place.1.marshaled? with
  | none =>
      have other : ¬ place.1.value.category = .string := by
        rw [← strings, present]
        simp
      rw [if_neg other, Option.getD_none]
      refine meaning?_of_mem_suffix (List.suffix_refl _) ?_
        (proper _ (List.mem_map_of_mem bound))
      exact List.mem_cons_of_mem _
        (List.mem_append_right _ (mem_openingScope_of_mem_places member))
  | some marshaled =>
      have string : place.1.value.category = .string := by
        rw [← strings, present]
        rfl
      rw [if_pos string, Option.getD_some]
      refine meaning?_of_mem_suffix (List.suffix_refl _) ?_ ?_
      · refine List.mem_cons_of_mem _ (List.mem_append_left _ (List.mem_reverse.2 ?_))
        exact List.mem_filterMap.2 ⟨place, member, by rw [marshaledBinding?, present]; rfl⟩
      · rintro rfl
        exact absurd (isVariable_marshaled hasWords.parameters bound present) (by decide)

/-- On the way to the call, what a wrapper calls besides the import comes from outside. -/
theorem meaning?_outer
    {scope : Scope}
    (suffix : scope <:+ callScope plan)
    {name : Text}
    (listed : name ∈ wrapperLocals)
    (other : name ∉ words ["exceptionPtr", "iface", "a"]) :
    scope.meaning? name = some (.outer name) := by
  refine meaning?_of_not_mem_suffix suffix (not_mem_callScope plan listed other) ?_
  rintro rfl
  exact absurd listed (by decide)

/-- The lines up to the call open its scope. -/
theorem readCall?_opening
    (hasWords : HasWords plan)
    (proper : ∀ argument ∈ boundArguments plan, argument ≠ "_")
    (rest : List (List Text)) :
    readCall? (headScope ((headWords plan).tail.takeWhile (· ≠ ("=" : Text))))
        (interfaceWords :: ((bindParameters plan).filterMap marshalWords? ++ slotWords :: rest)) =
      readCall? (callScope plan) rest := by
  have headProper : ∀ name ∈ ("a" : Text) :: boundArguments plan, name ≠ ("_" : Text) := by
    rw [List.forall_mem_cons]
    exact ⟨by decide, proper⟩
  have headed :
      headScope ((headWords plan).tail.takeWhile (· ≠ ("=" : Text))) =
        (openingScope plan).tail := by
    rw [takeWhile_headWords hasWords.parameters, headScope_eq headProper]
    rfl
  have marshaled :
      ((places plan).filterMap marshaledBinding?).reverse ++ openingScope plan <:+
        callScope plan :=
    List.suffix_cons _ _
  have opened : openingScope plan <:+ callScope plan :=
    (List.suffix_append _ _).trans marshaled
  have head : (openingScope plan).tail <:+ callScope plan :=
    (List.tail_suffix _).trans opened
  have instanceGiven : (("a" : Text), Meaning.argument 0) ∈ (openingScope plan).tail := by
    refine List.mem_reverse.2 (List.mem_map.2 ⟨("a", 0), ?_, rfl⟩)
    rw [List.zipIdx_cons]
    exact List.mem_cons_self
  have bound : ∀ place ∈ places plan, place.1 ∈ bindParameters plan :=
    fun place member => List.fst_mem_of_mem_zipIdx member
  have names := map_fst_callScope_perm_strings plan
  rw [headed,
    readCall?_binding readStep?_interfaceWords (meaning?_outer head (by decide) (by decide))
      (meaning?_of_mem_suffix head instanceGiven (by decide)) (by decide),
    ← filterMap_places plan marshalWords?]
  change readCall? (openingScope plan) _ = _
  rw [readCall?_marshaling ?_ (fun place => mem_openingScope_of_mem_places) ?_ ?_,
    readCall?_binding readStep?_slotWords (meaning?_outer marshaled (by decide) (by decide))
      (meaning?_outer marshaled (by decide) (by decide)) (by decide)]
  · rfl
  · exact (List.nodup_cons.1 (names.nodup_iff.1 (nodup_callScope plan))).2
  · intro place member
    refine ⟨proper _ (List.mem_map_of_mem (bound place member)), ?_⟩
    rintro name present rfl
    exact absurd (isVariable_marshaled hasWords.parameters (bound place member) present)
      (by decide)
  · intro listed
    exact not_mem_callScope plan (by decide) (by decide)
      (names.mem_iff.2 (List.mem_cons_of_mem _ listed))

/-- A wrapper without a wildcard among its arguments passes everything as intended. -/
theorem readWrapper?_classMethod
    (hasWords : HasWords plan)
    (supported : plan.isSupported = true)
    (proper : ∀ argument ∈ boundArguments plan, argument ≠ "_") :
    readWrapper? (classMethod plan) = some (intendedCall plan) := by
  obtain ⟨typing, rest, split⟩ := exists_map_wordsOf_lines hasWords supported
  have calls : (callScope plan).meaning? plan.importName = some (.outer plan.importName) := by
    refine meaning?_of_not_mem_suffix (List.suffix_refl _)
      (importName_not_mem_callScope hasWords) ?_
    rw [hasWords.importName]
    exact fun same => absurd (congrArg List.head? same) (by simp [Names.importName])
  have interface :
      (callScope plan).meaning? "iface" =
        some (.obtained .result (.outer "getInterface") (.argument 0)) :=
    meaning?_of_mem_suffix (List.suffix_refl _)
      (List.mem_cons_of_mem _ (List.mem_append_right _ List.mem_cons_self)) (by decide)
  have slot :
      (callScope plan).meaning? "exceptionPtr" =
        some (.obtained .handed (.outer "with") (.outer "nullPtr")) :=
    meaning?_of_mem_suffix (List.suffix_refl _) List.mem_cons_self (by decide)
  have parameters : (places plan).map (fun place => place.1) = bindParameters plan :=
    List.zipIdx_map_fst 1 (bindParameters plan)
  have passed :
      ((bindParameters plan).map BoundParameter.passed).mapM (callScope plan).meaning? =
        some ((places plan).map fun place => intended place.1.value place.2) := by
    rw [← parameters, List.map_map]
    exact mapM_map_eq_some fun place => meaning?_passed hasWords proper
  have read :
      readWrapper? (classMethod plan) = readCall? (callScope plan) (callWords plan :: rest) := by
    rw [readWrapper?, split]
    exact readCall?_opening hasWords proper _
  rw [read, readCall?, readStep?_callWords hasWords]
  simp only [calls, interface, slot, passed, List.mapM_cons, Option.bind_eq_bind,
    Option.bind_some, Option.pure_def]
  rw [← operands_intendedCall]
  rfl

/-! ## Wildcards -/

/-- A wrapper that can be followed up to its call has no wildcard among its arguments. -/
theorem ne_wildcard_of_readCall?
    (hasWords : HasWords plan)
    {parameters : List BoundParameter}
    {scope : Scope}
    {rest : List (List Text)}
    {call : Call}
    (followed :
      readCall? scope (parameters.filterMap marshalWords? ++ slotWords :: callWords plan :: rest) =
        some call) :
    (∀ parameter ∈ parameters, parameter.marshaled?.isSome → parameter.argument ≠ "_") ∧
      ∀ parameter ∈ bindParameters plan, parameter.passed ≠ "_" := by
  induction parameters generalizing scope with
  | nil =>
      refine ⟨by simp, ?_⟩
      obtain ⟨-, inner, followed⟩ := exists_of_readCall?_binding readStep?_slotWords followed
      rw [readCall?, readStep?_callWords hasWords] at followed
      obtain ⟨caller, -, behind⟩ := Option.bind_eq_some_iff.1 followed
      obtain ⟨given, found, -⟩ := Option.bind_eq_some_iff.1 behind
      intro parameter member
      have operand : parameter.passed ∈ (bindParameters plan).map BoundParameter.passed :=
        List.mem_map_of_mem member
      obtain ⟨meaning, means⟩ :=
        exists_of_mapM_eq_some found (List.mem_cons_of_mem _ (List.mem_cons_of_mem _ operand))
      exact Scope.ne_of_meaning? means
  | cons parameter others induction =>
      rw [List.forall_mem_cons]
      cases present : parameter.marshaled? with
      | none =>
          have unread : marshalWords? parameter = none := by rw [marshalWords?, present]; rfl
          rw [List.filterMap_cons_none unread] at followed
          obtain ⟨strings, passed⟩ := induction followed
          exact ⟨⟨by simp, strings⟩, passed⟩
      | some marshaled =>
          obtain ⟨line, unfolded, read⟩ := readStep?_marshalWords present
          rw [List.filterMap_cons_some unfolded, List.cons_append] at followed
          obtain ⟨proper, inner, followed⟩ := exists_of_readCall?_binding read followed
          obtain ⟨strings, passed⟩ := induction followed
          exact ⟨⟨fun _ => proper, strings⟩, passed⟩

/-- A wrapper passes its parameters as intended exactly if no argument is the wildcard. -/
theorem readWrapper?_eq_some_iff
    (hasWords : HasWords plan)
    (supported : plan.isSupported = true) :
    readWrapper? (classMethod plan) = some (intendedCall plan) ↔
      ∀ argument ∈ boundArguments plan, argument ≠ "_" := by
  constructor
  · intro read argument member
    obtain ⟨parameter, bound, rfl⟩ := List.mem_map.1 member
    obtain ⟨typing, rest, split⟩ := exists_map_wordsOf_lines hasWords supported
    rw [readWrapper?, split] at read
    obtain ⟨-, inner, followed⟩ := exists_of_readCall?_binding readStep?_interfaceWords read
    obtain ⟨strings, passed⟩ := ne_wildcard_of_readCall? hasWords followed
    cases present : parameter.marshaled? with
    | none =>
        have direct := passed parameter bound
        rwa [BoundParameter.passed, present, Option.getD_none] at direct
    | some marshaled => exact strings parameter bound (by simp [present])
  · exact readWrapper?_classMethod hasWords supported

/-- The wildcard stays an argument unless the method takes that name. -/
theorem forall_boundArguments_ne_wildcard_iff
    (hasWords : HasWords plan) :
    (∀ argument ∈ boundArguments plan, argument ≠ "_") ↔
      (plan.method ≠ "_" → ∀ value ∈ plan.parameters, value.name ≠ "_") := by
  rw [boundArguments_eq_chooseAll]
  constructor
  · intro proper notWildcard value member wildcard
    have small : ("_" : Text) ∈ plan.parameters.map fun value => value.name.uncapitalize :=
      List.mem_map.2 ⟨value, member, by rw [wildcard]; decide⟩
    have free := wildcard_not_mem_avoidedNames hasWords.method hasWords.importName notWildcard
    exact proper _ (FreshName.mem_chooseAll_of_not_mem '\'' small free) rfl
  · rintro apart argument member rfl
    obtain ⟨small, smallMember, count, same⟩ := FreshName.exists_marked_of_mem_chooseAll member
    obtain ⟨value, valueMember, rfl⟩ := List.mem_map.1 smallMember
    have named := hasWords.parameters value valueMember
    have wildcard : value.name = "_" :=
      (Text.uncapitalize_eq_wildcard_iff named).1 (eq_of_marked_eq_wildcard named same.symm)
    refine apart (fun taken => ?_) value valueMember wildcard
    -- the method comes first and has taken the wildcard
    refine FreshName.not_mem_of_mem_chooseAll member ?_
    rw [avoidedNames, taken]
    exact List.mem_cons_self

/-! ## Main theorem -/

/--
The names that the wrapper of a planned method binds are chosen in order with as few primes as
possible, and keep apart from each other and from everything else in the wrapper.  If the method can
be called, then the call of its shim receives the interface, a slot for an exception and each
parameter at its own place, strings in their marshaled form, exactly if no parameter is called `_`;
the method itself may take that name first.
-/
theorem bound_apart_and_passed_in_place
    (names : Names)
    (method : Method)
    (plan : MethodPlan)
    (planned : MethodPlan.ofMethod names method = .ok plan)
    (named : isIdentifier method.name = true)
    (parametersNamed : ∀ parameter ∈ method.parameters, isIdentifier parameter.name = true) :
    IsHygienic plan ∧
      (plan.isSupported = true →
        (readWrapper? (classMethod plan) = some (intendedCall plan) ↔
          (method.name ≠ "_" → ∀ parameter ∈ method.parameters, parameter.name ≠ "_"))) := by
  have settles := MethodPlan.settles_of_ofMethod planned
  have hasWords := hasWords_of_settles settles named parametersNamed
  refine ⟨isHygienic plan, fun supported => ?_⟩
  rw [readWrapper?_eq_some_iff hasWords supported, forall_boundArguments_ne_wildcard_iff hasWords,
    settles.sameMethod]
  refine imp_congr_right fun _ => ?_
  exact forall_mem_iff_of_forall₂ settles.parameters fun value _ parameter settled => by
    rw [settled.sameName]

/-- A method that takes two strings. -/
def labelMethod (first second : Text) : Method :=
  ⟨"setLabel", .void, [⟨first, .string⟩, ⟨second, .string⟩]⟩

theorem exists_plan_labelMethod
    (names : Names)
    {first second : Text}
    (distinct : first ≠ second) :
    ∃ plan,
      MethodPlan.ofMethod names (labelMethod first second) = .ok plan ∧
        plan.isSupported = true := by
  have void : TypeName.void.category = .ok .void := TypeName.Matches.void.category_eq
  have returns : (labelMethod first second).returns = .void := rfl
  have parameters :
      (labelMethod first second).parameters = [⟨first, .string⟩, ⟨second, .string⟩] := rfl
  have passable : TypeName.string.IsPassable := ⟨.string, TypeName.category_string, by decide⟩
  have plannable : (labelMethod first second).IsPlannable := by
    refine ⟨⟨.void, by rw [returns, void]⟩, by simp [parameters, distinct], ?_⟩
    rw [parameters]
    simp [passable]
  obtain ⟨plan, planned⟩ := (MethodPlan.exists_ofMethod_iff names _).2 plannable
  refine ⟨plan, planned, ?_⟩
  rw [(MethodPlan.settles_of_ofMethod planned).isSupported_eq]
  simp [returns, parameters, Method.hasAggregate, Method.types, void, TypeName.category_string,
    Except.toOption]

/-- A parameter that is called like the marshaled form of another is still told from it. -/
theorem passed_in_place_beside_marshaled_name :
    ∃ plan,
      MethodPlan.ofMethod (Names.derive .default ⟨["a"]⟩ "Widget")
          (labelMethod "label" "hsLabel") = .ok plan ∧
        IsHygienic plan ∧
        readWrapper? (classMethod plan) = some (intendedCall plan) := by
  obtain ⟨plan, planned, supported⟩ :=
    exists_plan_labelMethod (Names.derive .default ⟨["a"]⟩ "Widget")
      (show ("label" : Text) ≠ "hsLabel" by decide)
  have exactly :=
    bound_apart_and_passed_in_place _ _ plan planned (by decide) (by decide)
  exact ⟨plan, planned, exactly.1, (exactly.2 supported).2 fun _ => by decide⟩

/-- A parameter that is called like the wildcard does not reach the call, although the method can be
called. -/
theorem not_passed_in_place_wildcard :
    ∃ plan,
      MethodPlan.ofMethod (Names.derive .default ⟨["a"]⟩ "Widget")
          (labelMethod "label" "_") = .ok plan ∧
        plan.isSupported = true ∧
        readWrapper? (classMethod plan) ≠ some (intendedCall plan) := by
  obtain ⟨plan, planned, supported⟩ :=
    exists_plan_labelMethod (Names.derive .default ⟨["a"]⟩ "Widget")
      (show ("label" : Text) ≠ "_" by decide)
  have settles := MethodPlan.settles_of_ofMethod planned
  have hasWords : HasWords plan := hasWords_of_settles settles (by decide) (by decide)
  refine ⟨plan, planned, supported, ?_⟩
  rw [ne_eq, readWrapper?_eq_some_iff hasWords supported,
    forall_boundArguments_ne_wildcard_iff hasWords, settles.sameMethod]
  intro proper
  have sameNames := MethodPlan.map_name_eq settles.parameters
  have wildcard : ("_" : Text) ∈ plan.parameters.map PlannedValue.name := by
    rw [sameNames]
    decide
  obtain ⟨value, member, same⟩ := List.mem_map.1 wildcard
  exact proper (by decide) value member same

end UnoBindgen.Binding
