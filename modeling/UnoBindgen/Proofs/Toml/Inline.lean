import UnoBindgen.Proofs.Toml.Fractions
import UnoBindgen.Proofs.Toml.Sameness
import UnoBindgen.Proofs.Toml.Texts

/-!
# Values printed on one line are read back

A sound value is read back from its one line with its moments in their usual spelling.  Arrays and
tables in braces follow by induction over the value: the items of an array end where a comma or the
closing bracket stands, and so do the entries of a table.
-/

namespace UnoBindgen.Toml

/-! ## Characters that layout does not take -/

/-- Whether a character is no blank, no line break, and starts no comment. -/
def IsSolid (character : Char) : Prop :=
  Text.isSpacing character = false ∧ character ∉ ['\n', '\r', '#']

instance (character : Char) : Decidable (IsSolid character) :=
  inferInstanceAs (Decidable (_ ∧ _))

/-- Whether a text holds nothing but blanks. -/
def IsBlank (text : Text) : Prop :=
  ∀ character ∈ text, Text.isSpacing character = true

theorem dropSpacing_append
    {blanks : Text}
    (blank : IsBlank blanks)
    {first : Char}
    (solid : IsSolid first)
    (rest : Text) :
    dropSpacing (blanks ++ first :: rest) = first :: rest := by
  rw [dropSpacing, List.dropWhile_append_of_pos blank]
  exact dropSpacing_cons_of_not solid.1 rest

theorem dropLayout_append
    {blanks : Text}
    (blank : IsBlank blanks)
    {first : Char}
    (solid : IsSolid first)
    (steps : Nat)
    (rest : Text) :
    dropLayout (steps + 1) (blanks ++ first :: rest) = .ok (first :: rest) := by
  have others := solid.2
  simp only [List.mem_cons, List.not_mem_nil, or_false, not_or] at others
  rw [dropLayout, dropSpacing_append blank solid]
  split <;> simp_all

theorem isBlank_nil : IsBlank [] := by
  simp [IsBlank]

theorem isBlank_singleton : IsBlank [' '] := by
  simp [IsBlank, Text.isSpacing]

/-- The characters that a printed value starts with. -/
def startsValue (character : Char) : Bool :=
  ['"', '\'', '[', '\x7b'].contains character || isAtomCharacter character

/-- No printed value starts with a character that layout takes or that closes an array. -/
theorem ne_of_startsValue
    {character : Char}
    (starts : startsValue character = true)
    (other : Char)
    (notStart : startsValue other = false) :
    character ≠ other := by
  rintro rfl
  rw [starts] at notStart
  exact Bool.noConfusion notStart

theorem isSolid_of_startsValue
    {character : Char}
    (starts : startsValue character = true) :
    IsSolid character := by
  have other := ne_of_startsValue starts
  refine ⟨?_, ?_⟩
  · simp [Text.isSpacing, other ' ' rfl, other '\t' rfl]
  · simp [other '\n' rfl, other '\r' rfl, other '#' rfl]

theorem EndsValue.isUnquoted
    {rest : Text}
    (ends : EndsValue rest) :
    IsUnquoted rest := by
  intro character head
  rcases ends character head with rfl | rfl | rfl | rfl <;> decide

/-! ## Values and what is read for them -/

/-- Whether a literal is read for a printed value, and means the value. -/
structure ReadsBack (value : Value) (literal : Literal) : Prop where
  means : literal.value = .ok value.respelled
  starts : ∃ first tail, printInline value = first :: tail ∧ startsValue first = true
  read :
    ∀ {steps rest}, (printInline value).length ≤ steps → EndsValue rest →
      readValue .established steps (printInline value ++ rest) = .ok (literal, rest)

theorem ne_nil_of_atom
    {word : Text}
    {literal : Literal}
    (meant : atom .established word = .ok literal) :
    word ≠ [] := by
  rintro rfl
  have nothing : atom .established [] = .error .unexpectedCharacter := by rfl
  rw [nothing] at meant
  exact absurd meant (by simp)

/-- A word is read for a value that it is printed as. -/
theorem ReadsBack.of_word
    {value : Value}
    {literal : Literal}
    (means : literal.value = .ok value.respelled)
    (characters : ∀ character ∈ printInline value, isAtomCharacter character = true)
    (meant : atom .established (printInline value) = .ok literal) :
    ReadsBack value literal where
  means := means
  starts := by
    obtain ⟨first, tail, shape⟩ := List.exists_cons_of_ne_nil (ne_nil_of_atom meant)
    have isAtom := characters first (shape ▸ List.mem_cons_self)
    exact ⟨first, tail, shape, by simp [startsValue, isAtom]⟩
  read := by
    intro steps rest enough ends
    obtain ⟨steps, rfl⟩ : ∃ fewer, steps = fewer + 1 :=
      Nat.exists_eq_succ_of_ne_zero fun none =>
        ne_nil_of_atom meant (List.eq_nil_of_length_eq_zero (by omega))
    exact readValue_append (ne_nil_of_atom meant) characters meant ends steps

theorem readsBack_text (content : Text) :
    ReadsBack (.text content) (.text content) where
  means := rfl
  starts := by
    rw [printInline, printText]
    split
    · exact ⟨_, _, rfl, rfl⟩
    · exact ⟨_, _, rfl, rfl⟩
  read := by
    intro steps rest enough ends
    have long : (printInline (.text content)).length ≠ 0 := by
      rw [printInline, printText]
      split <;> simp [printEscaped, printVerbatim]
    obtain ⟨steps, rfl⟩ : ∃ fewer, steps = fewer + 1 :=
      Nat.exists_eq_succ_of_ne_zero (by omega)
    have found := readText?_printText content ends.isUnquoted
    rw [printInline, readValue.eq_def]
    simp only [found]

/-- Every single value is read back. -/
theorem exists_readsBack_of_isSingle
    {value : Value}
    (single : value.isSingle = true)
    (proper : value.IsProper) :
    ∃ literal, ReadsBack value literal := by
  cases value with
  | text content => exact ⟨_, readsBack_text content⟩
  | integer value =>
      exact ⟨_, .of_word rfl (isAtomCharacter_of_mem_ofInt value) (atom_ofInt proper)⟩
  | fraction value =>
      obtain ⟨literal, meant, same⟩ := exists_atom_printFraction proper.1 proper.2
      have means : (Literal.fraction literal).value = .ok (Value.fraction value).respelled :=
        congrArg (fun canonical => Except.ok (Value.fraction canonical)) same
      exact ⟨_, .of_word means (isAtomCharacter_of_mem_printFraction value) meant⟩
  | infinity negative =>
      cases negative <;> exact ⟨_, .of_word rfl (List.all_eq_true.1 rfl) rfl⟩
  | notANumber => exact ⟨_, .of_word rfl (List.all_eq_true.1 rfl) rfl⟩
  | truth value => cases value <;> exact ⟨_, .of_word rfl (List.all_eq_true.1 rfl) rfl⟩
  | moment content =>
      have usual := isUsualMoment_printMoment ((isMoment_iff content).1 proper)
      refine ⟨_, .of_word rfl (fun character member => ?_) (atom_of_isUsualMoment usual)⟩
      have isUsual := usual.characters character member
      rw [isUsualCharacter, Bool.and_eq_true] at isUsual
      exact isUsual.1
  | array items => simp [Value.isSingle] at single
  | table entries => simp [Value.isSingle] at single

/-! ## Arrays -/

theorem printInlineItems_eq_map (items : List Value) :
    printInlineItems items = items.map printInline := by
  induction items with
  | nil => rfl
  | cons item rest induction => rw [printInlineItems, induction, List.map_cons]

theorem length_join_cons
    (part : Text)
    {rest : List Text}
    (nonempty : rest ≠ []) :
    (Text.join [',', ' '] (part :: rest)).length =
      part.length + 2 + (Text.join [',', ' '] rest).length := by
  rw [Text.join_cons _ _ nonempty, List.length_append, List.length_append]
  rfl

theorem itemValues_of_forall₂
    {items : List Value}
    {literals : List Literal}
    (readBack : List.Forall₂ ReadsBack items literals) :
    itemValues literals = .ok (items.map Value.respelled) := by
  induction readBack with
  | nil => rfl
  | cons first others induction => 
      rw [itemValues, first.means, induction]
      rfl

/-- An item is read, and then what its end says: more items behind a comma, or none. -/
theorem readItems_append
    {item : Value}
    {literal : Literal}
    (readBack : ReadsBack item literal)
    {steps : Nat}
    (enough : (printInline item).length ≤ steps)
    {blanks : Text}
    (blank : IsBlank blanks)
    {mark : Char}
    (ends : mark = ',' ∨ mark = ']')
    (rest : Text) :
    readItems .established (steps + 1) (blanks ++ (printInline item ++ mark :: rest)) =
      if mark = ',' then do
        let (items, rest) ← readItems .established steps rest
        return (literal :: items, rest)
      else
        .ok ([literal], rest) := by
  have endsValue : EndsValue (mark :: rest) := by
    rcases ends with rfl | rfl <;> simp [EndsValue]
  have solid : IsSolid mark := by
    rcases ends with rfl | rfl <;> decide
  have read := readBack.read enough endsValue
  have next := dropLayout_append isBlank_nil solid
  obtain ⟨first, tail, printed, starts⟩ := readBack.starts
  have start := dropLayout_append blank (isSolid_of_startsValue starts)
  have notClosing := ne_of_startsValue starts ']' rfl
  simp only [printed, List.cons_append, List.nil_append] at read next ⊢
  rcases ends with rfl | rfl <;>
    simp [readItems, start, read, next, notClosing, bind, Except.bind, pure, Except.pure]

/-- The items of an array are read up to its closing bracket, with or without a blank in front. -/
theorem readItems_join
    {items : List Value}
    {literals : List Literal}
    (readBack : List.Forall₂ ReadsBack items literals)
    {steps : Nat}
    (enough : (Text.join [',', ' '] (items.map printInline)).length < steps)
    {blanks : Text}
    (blank : IsBlank blanks)
    (rest : Text) :
    readItems .established steps
        (blanks ++ (Text.join [',', ' '] (items.map printInline) ++ ']' :: rest)) =
      .ok (literals, rest) := by
  induction readBack generalizing steps blanks with
  | nil =>
      obtain ⟨steps, rfl⟩ : ∃ fewer, steps = fewer + 1 :=
        Nat.exists_eq_succ_of_ne_zero (by omega)
      have start := dropLayout_append blank (by decide : IsSolid ']')
      simp [readItems, start, bind, Except.bind, pure, Except.pure]
  | @cons item literal items literals first others induction =>
      obtain ⟨steps, rfl⟩ : ∃ fewer, steps = fewer + 1 :=
        Nat.exists_eq_succ_of_ne_zero (by omega)
      by_cases last : items = []
      · subst last
        obtain rfl := List.forall₂_nil_left_iff.1 others
        exact readItems_append first (Nat.le_of_lt_succ enough) blank (Or.inr rfl) rest
      · have more : items.map printInline ≠ [] := by simpa using last
        have length := length_join_cons (printInline item) more
        rw [List.map_cons] at enough ⊢
        rw [Text.join_cons _ _ more, List.append_assoc, List.append_assoc]
        have short : (Text.join [',', ' '] (items.map printInline)).length < steps := by omega
        have later := induction short isBlank_singleton
        refine (readItems_append first (by omega) blank (Or.inl rfl) _).trans ?_
        rw [if_pos rfl]
        exact congrArg (· >>= _) later

theorem ReadsBack.array
    {items : List Value}
    {literals : List Literal}
    (readBack : List.Forall₂ ReadsBack items literals) :
    ReadsBack (.array items) (.array literals) where
  means := by
    rw [Literal.value, itemValues_of_forall₂ readBack, Value.respelled, respelledItems_eq_map]
    rfl
  starts := ⟨_, _, rfl, rfl⟩
  read := by
    intro steps rest enough _
    obtain ⟨steps, rfl⟩ : ∃ fewer, steps = fewer + 1 :=
      Nat.exists_eq_succ_of_ne_zero (by rintro rfl; simp [printInline] at enough)
    have short : (Text.join [',', ' '] (items.map printInline)).length < steps := by
      simp only [printInline, printInlineItems_eq_map, List.length_append, List.length_cons,
        List.length_nil] at enough
      omega
    have read := readItems_join readBack short isBlank_nil rest
    rw [List.nil_append] at read
    rw [printInline, printInlineItems_eq_map, List.append_assoc, List.cons_append,
      List.singleton_append, readValue, read]
    · rfl

/-! ## Entries -/

/-- A key and its value on one line. -/
def printPair (entry : Text × Value) : Text :=
  printKeyPart entry.1 ++ " = " ++ printInline entry.2

theorem printPair_append
    (entry : Text × Value)
    (rest : Text) :
    printPair entry ++ rest =
      printKey [entry.1] ++ ' ' :: '=' :: ' ' :: (printInline entry.2 ++ rest) := by
  simp [printPair]

theorem length_printPair (entry : Text × Value) :
    (printPair entry).length = (printKeyPart entry.1).length + 3 + (printInline entry.2).length := by
  rw [printPair, List.length_append, List.length_append]
  rfl

/-- Whether a written entry has the key of an entry and is read for its value. -/
def PairReadsBack (entry : Text × Value) (written : KeyPath × Literal) : Prop :=
  written.1 = [entry.1] ∧ ReadsBack entry.2 written.2

theorem exists_printPair (entry : Text × Value) :
    ∃ first tail, printPair entry = first :: tail ∧ startsKey first = true := by
  obtain ⟨first, tail, printed, starts⟩ := exists_printKeyPart entry.1
  exact ⟨first, tail ++ " = " ++ printInline entry.2, by rw [printPair, printed]; rfl, starts⟩

theorem isSolid_of_startsKey
    {character : Char}
    (starts : startsKey character = true) :
    IsSolid character := by
  refine ⟨isSpacing_of_startsKey starts, fun member => ?_⟩
  simp only [List.mem_cons, List.not_mem_nil, or_false] at member
  rcases member with rfl | rfl | rfl <;> exact absurd starts (by decide)

/-- The key of a printed entry is read up to the equality sign. -/
theorem readKey_printPair
    (entry : Text × Value)
    (steps : Nat)
    (rest : Text) :
    readKey .established (steps + 1) (printPair entry ++ rest) =
      .ok ([entry.1], '=' :: ' ' :: (printInline entry.2 ++ rest)) := by
  have ends : EndsKey (' ' :: '=' :: ' ' :: (printInline entry.2 ++ rest)) := ⟨_, Or.inl rfl⟩
  rw [printPair_append, readKey_printKey (List.cons_ne_nil _ _) (by simp) ends]
  rfl

/-- Behind the equality sign stands the value. -/
theorem ReadsBack.dropSpacing_printInline
    {value : Value}
    {literal : Literal}
    (readBack : ReadsBack value literal)
    (rest : Text) :
    dropSpacing (' ' :: (printInline value ++ rest)) = printInline value ++ rest := by
  obtain ⟨first, tail, printed, starts⟩ := readBack.starts
  rw [printed]
  exact dropSpacing_append isBlank_singleton (isSolid_of_startsValue starts) (tail ++ rest)

/-- An entry is read, and then what its end says: more entries behind a comma, or none. -/
theorem readEntries_append
    {entry : Text × Value}
    {written : KeyPath × Literal}
    (readBack : PairReadsBack entry written)
    {steps : Nat}
    (enough : (printPair entry).length ≤ steps)
    {blanks : Text}
    (blank : IsBlank blanks)
    (isFirst : Bool)
    {mark : Char}
    (ends : mark = ',' ∨ mark = '\x7d')
    (rest : Text) :
    readEntries .established (steps + 1) isFirst (blanks ++ (printPair entry ++ mark :: rest)) =
      if mark = ',' then do
        let (entries, rest) ← readEntries .established steps false rest
        return (written :: entries, rest)
      else
        .ok ([written], rest) := by
  obtain ⟨path, literal⟩ := written
  obtain ⟨rfl, valueReadBack⟩ := readBack
  have short : (printInline entry.2).length ≤ steps := by
    rw [length_printPair] at enough
    omega
  have endsValue : EndsValue (mark :: rest) := by
    rcases ends with rfl | rfl <;> simp [EndsValue]
  have solid : IsSolid mark := by
    rcases ends with rfl | rfl <;> decide
  have read := valueReadBack.read short endsValue
  have value := valueReadBack.dropSpacing_printInline (mark :: rest)
  have next := dropSpacing_append isBlank_nil solid
  have key := readKey_printPair entry
  obtain ⟨first, tail, printed, starts⟩ := exists_printPair entry
  have start := dropSpacing_append blank (isSolid_of_startsKey starts)
  have notClosing : first ≠ '\x7d' := by
    rintro rfl
    exact absurd starts (by decide)
  simp only [printed, List.cons_append, List.nil_append] at key next ⊢
  rcases ends with rfl | rfl <;>
    simp [readEntries, dropInlineLayout, start, key, value, read, next, notClosing, bind,
      Except.bind, pure, Except.pure]

/-- The entries of a table that has any are read up to its closing brace, with or without a blank in
front. -/
theorem readEntries_join
    {entries : Table}
    {written : List (KeyPath × Literal)}
    (readBack : List.Forall₂ PairReadsBack entries written)
    (nonempty : entries ≠ [])
    {steps : Nat}
    (enough : (Text.join [',', ' '] (entries.map printPair)).length < steps)
    {blanks : Text}
    (blank : IsBlank blanks)
    (isFirst : Bool)
    (rest : Text) :
    readEntries .established steps isFirst
        (blanks ++ (Text.join [',', ' '] (entries.map printPair) ++ '\x7d' :: rest)) =
      .ok (written, rest) := by
  induction readBack generalizing steps blanks isFirst with
  | nil => exact absurd rfl nonempty
  | @cons entry written entries others first tail induction =>
      obtain ⟨steps, rfl⟩ : ∃ fewer, steps = fewer + 1 :=
        Nat.exists_eq_succ_of_ne_zero (by omega)
      by_cases last : entries = []
      · subst last
        obtain rfl := List.forall₂_nil_left_iff.1 tail
        exact readEntries_append first (Nat.le_of_lt_succ enough) blank isFirst (Or.inr rfl) rest
      · have more : entries.map printPair ≠ [] := by simpa using last
        have length := length_join_cons (printPair entry) more
        rw [List.map_cons] at enough ⊢
        rw [Text.join_cons _ _ more, List.append_assoc, List.append_assoc]
        have short : (Text.join [',', ' '] (entries.map printPair)).length < steps := by omega
        have later := induction last short isBlank_singleton false
        refine (readEntries_append first (by omega) blank isFirst (Or.inl rfl) _).trans ?_
        rw [if_pos rfl]
        exact congrArg (· >>= _) later

theorem printInlineEntries_eq_map (entries : Table) :
    printInlineEntries entries = entries.map printPair := by
  induction entries with
  | nil => rfl
  | cons entry rest induction =>
      obtain ⟨key, value⟩ := entry
      rw [printInlineEntries, induction]
      rfl

/-- A draft for a key that is not there comes last. -/
theorem putDraft_of_not_mem
    {drafts : Drafts}
    {key : Text}
    (fresh : key ∉ drafts.map Prod.fst)
    (draft : Draft) :
    putDraft drafts key draft = drafts ++ [(key, draft)] := by
  have absent : (drafts.any fun entry => entry.1 == key) = false := by
    rw [List.any_eq_false]
    intro entry member same
    exact fresh (List.mem_map.2 ⟨entry, member, beq_iff_eq.1 same⟩)
  rw [putDraft, absent]
  rfl

theorem putEntry_of_not_mem
    {drafts : Drafts}
    {key : Text}
    (fresh : key ∉ drafts.map Prod.fst)
    (value : Value) :
    putEntry value [key] drafts = .ok (drafts ++ [(key, .value value)]) := by
  rw [putEntry, (lookup_eq_none_iff_not_mem drafts key).2 fresh, putDraft_of_not_mem fresh]

/-- The draft of a plain entry. -/
def entryDraft (entry : Text × Value) : Text × Draft :=
  (entry.1, .value entry.2.respelled)

@[simp]
theorem fst_entryDraft (entry : Text × Value) :
    (entryDraft entry).1 = entry.1 := rfl

@[simp]
theorem map_fst_map_entryDraft (entries : Table) :
    (entries.map entryDraft).map Prod.fst = entries.map Prod.fst := by
  rw [List.map_map]
  rfl

theorem finishDrafts_map_entryDraft (entries : Table) :
    finishDrafts (entries.map entryDraft) = respelledEntries entries := by
  rw [finishDrafts_eq_map, List.map_map, respelledEntries_eq_map]
  rfl

theorem entryDrafts_of_forall₂
    {entries : Table}
    {written : List (KeyPath × Literal)}
    (readBack : List.Forall₂ PairReadsBack entries written)
    {drafts : Drafts}
    (distinct : (drafts.map Prod.fst ++ entries.map Prod.fst).Nodup) :
    entryDrafts drafts written = .ok (drafts ++ entries.map entryDraft) := by
  induction readBack generalizing drafts with
  | nil => simp [entryDrafts]
  | @cons entry written entries others first tail induction =>
      obtain ⟨path, literal⟩ := written
      obtain ⟨rfl, valueReadBack⟩ := first
      have fresh : entry.1 ∉ drafts.map Prod.fst := fun member =>
        (List.nodup_append.1 distinct).2.2 _ member _ List.mem_cons_self rfl
      have laterDistinct :
          ((drafts ++ [entryDraft entry]).map Prod.fst ++ entries.map Prod.fst).Nodup := by
        simpa [List.append_assoc] using distinct
      have later := induction laterDistinct
      rw [List.append_assoc] at later
      have put := putEntry_of_not_mem fresh entry.2.respelled
      rw [entryDrafts, valueReadBack.means]
      simp only [bind, Except.bind, put]
      exact later

theorem exists_pairReadsBack
    {entry : Text × Value}
    (readBack : ∃ literal, ReadsBack entry.2 literal) :
    ∃ written, PairReadsBack entry written := by
  obtain ⟨literal, readBack⟩ := readBack
  exact ⟨([entry.1], literal), rfl, readBack⟩

theorem ReadsBack.table
    {entries : Table}
    (distinct : (entries.map Prod.fst).Nodup)
    {written : List (KeyPath × Literal)}
    (readBack : List.Forall₂ PairReadsBack entries written) :
    ReadsBack (.table entries) (.inlineTable written) where
  means := by
    have drafts : entryDrafts [] written = .ok ([] ++ entries.map entryDraft) :=
      entryDrafts_of_forall₂ readBack (by simpa using distinct)
    rw [Literal.value, drafts, List.nil_append]
    exact congrArg (fun entries => Except.ok (Value.table entries)) (finishDrafts_map_entryDraft _)
  starts := ⟨_, _, rfl, rfl⟩
  read := by
    intro steps rest enough _
    obtain ⟨steps, rfl⟩ : ∃ fewer, steps = fewer + 1 :=
      Nat.exists_eq_succ_of_ne_zero (by rintro rfl; simp [printInline] at enough)
    have short : (Text.join [',', ' '] (entries.map printPair)).length < steps := by
      simp only [printInline, printInlineEntries_eq_map, List.length_append, List.length_cons,
        List.length_nil] at enough
      omega
    have read :
        readEntries .established steps true
            (Text.join [',', ' '] (entries.map printPair) ++ '\x7d' :: rest) =
          .ok (written, rest) := by
      by_cases empty : entries = []
      · subst empty
        obtain rfl := List.forall₂_nil_left_iff.1 readBack
        obtain ⟨steps, rfl⟩ : ∃ fewer, steps = fewer + 1 :=
          Nat.exists_eq_succ_of_ne_zero (by omega)
        have start := dropSpacing_append isBlank_nil (by decide : IsSolid '\x7d') rest
        rw [List.nil_append] at start
        simp [readEntries, dropInlineLayout, start, bind, Except.bind, pure, Except.pure]
      · exact readEntries_join readBack empty short isBlank_nil true rest
    rw [printInline, printInlineEntries_eq_map, List.append_assoc, List.cons_append,
      List.singleton_append, readValue, read]
    rfl

/-! ## All values -/

/-- A sound value is read back. -/
theorem exists_readsBack
    {value : Value}
    (sound : value.IsSound) :
    ∃ literal, ReadsBack value literal := by
  induction value using Value.partInduction with
  | single value single =>
      exact exists_readsBack_of_isSingle single (sound value (mem_parts_self value))
  | array items induction =>
      rw [Value.isSound_array_iff] at sound
      obtain ⟨literals, readBack⟩ := exists_forall₂_of_forall fun item member =>
        induction item member (sound item member)
      exact ⟨_, .array readBack⟩
  | table entries induction =>
      obtain ⟨written, readBack⟩ := exists_forall₂_of_forall fun entry member =>
        exists_pairReadsBack (induction entry member (sound.of_mem member))
      exact ⟨_, .table sound.nodup readBack⟩

end UnoBindgen.Toml
