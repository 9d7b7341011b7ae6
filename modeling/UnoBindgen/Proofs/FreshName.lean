import Mathlib.Data.List.Nodup
import Mathlib.Data.List.Perm.Subperm
import Mathlib.Order.Bounds.Basic
import UnoBindgen.FreshName
import UnoBindgen.Proofs.Text.Lines

/-!
# Fresh names are marked names

A chosen name is the wished one with some marks behind it, and every name gets exactly one choice.
The search for the number of marks always ends at a free name, so the chosen names are none of the
avoided ones and differ from each other; a name that is free already gets no mark.  No name has
more marks than it needs: `ChosenInTurn` says so for each name and those chosen before it.  Putting
marks behind a name one at a time until it is free makes the same choice.
-/

namespace UnoBindgen.FreshName

@[simp]
theorem length_chooseAll
    (mark : Char)
    (avoid names : List Text) :
    (chooseAll mark avoid names).length = names.length := by
  induction names generalizing avoid with
  | nil => rfl
  | cons name rest induction => simp [chooseAll, induction]

theorem exists_marked_of_mem_chooseAll
    {mark : Char}
    {avoid names : List Text}
    {chosen : Text}
    (member : chosen ∈ chooseAll mark avoid names) :
    ∃ name ∈ names, ∃ count, chosen = marked mark name count := by
  induction names generalizing avoid with
  | nil => simp [chooseAll] at member
  | cons name rest induction =>
      rw [chooseAll] at member
      rcases List.mem_cons.1 member with rfl | inRest
      · exact ⟨name, List.mem_cons_self, leastMarks mark avoid name, rfl⟩
      · obtain ⟨other, otherMember, count, same⟩ := induction inRest
        exact ⟨other, List.mem_cons_of_mem name otherMember, count, same⟩

theorem isInline_marked
    {mark : Char}
    (markInline : Text.IsInline [mark])
    {name : Text}
    (nameInline : Text.IsInline name)
    (count : Nat) :
    Text.IsInline (marked mark name count) := by
  refine (Text.isInline_append name _).2 ⟨nameInline, ?_⟩
  intro character member
  rw [List.eq_of_mem_replicate member]
  exact markInline mark (List.mem_singleton_self mark)

/-- Choosing fresh names keeps them on their line. -/
theorem isInline_of_mem_chooseAll
    {mark : Char}
    (markInline : Text.IsInline [mark])
    {avoid names : List Text}
    (namesInline : ∀ name ∈ names, Text.IsInline name)
    {chosen : Text}
    (member : chosen ∈ chooseAll mark avoid names) :
    Text.IsInline chosen := by
  obtain ⟨name, nameMember, count, rfl⟩ := exists_marked_of_mem_chooseAll member
  exact isInline_marked markInline (namesInline name nameMember) count

/-! ## Chosen names are free -/

theorem marked_injective (mark : Char) (name : Text) :
    Function.Injective (marked mark name) := by
  intro left right same
  have lengths := congrArg List.length same
  simpa [marked] using lengths

/-- The avoided names cannot be all of the candidates, which are one more and all different. -/
theorem exists_free
    (mark : Char)
    (avoid : List Text)
    (name : Text) :
    ∃ count ∈ List.range (avoid.length + 1), marked mark name count ∉ avoid := by
  by_contra allAvoided
  push Not at allAvoided
  have distinct : ((List.range (avoid.length + 1)).map (marked mark name)).Nodup :=
    List.nodup_range.map (marked_injective mark name)
  have covered : (List.range (avoid.length + 1)).map (marked mark name) ⊆ avoid := by
    intro candidate member
    obtain ⟨count, listed, rfl⟩ := List.mem_map.1 member
    exact allAvoided count listed
  have bound := (List.subperm_of_subset distinct covered).length_le
  rw [List.length_map, List.length_range] at bound
  omega

/-- The search finds the least number of marks that makes a name free. -/
theorem isLeast_leastMarks
    (mark : Char)
    (avoid : List Text)
    (name : Text) :
    IsLeast {count | marked mark name count ∉ avoid} (leastMarks mark avoid name) := by
  obtain ⟨count, listed, free⟩ := exists_free mark avoid name
  rw [leastMarks]
  cases found :
      (List.range (avoid.length + 1)).find? fun count =>
        !avoid.contains (marked mark name count) with
  | none =>
      have avoided := List.find?_eq_none.1 found count listed
      simp [free] at avoided
  | some least =>
      obtain ⟨leastFree, -, fewerTaken⟩ := List.find?_range_eq_some.1 found
      refine ⟨by simpa using leastFree, fun other otherFree => ?_⟩
      by_contra fewer
      have taken := fewerTaken other (Nat.lt_of_not_le fewer)
      exact otherFree (by simpa using taken)

/-- A chosen name is free. -/
theorem choose_not_mem
    (mark : Char)
    (avoid : List Text)
    (name : Text) :
    choose mark avoid name ∉ avoid :=
  (isLeast_leastMarks mark avoid name).1

/-- A free name needs no mark. -/
theorem choose_of_not_mem
    (mark : Char)
    {avoid : List Text}
    {name : Text}
    (free : name ∉ avoid) :
    choose mark avoid name = name := by
  have unmarked : marked mark name 0 = name := List.append_nil name
  have least : leastMarks mark avoid name ≤ 0 :=
    (isLeast_leastMarks mark avoid name).2 (by simpa [unmarked] using free)
  rw [choose, Nat.le_zero.1 least, unmarked]

theorem not_mem_of_mem_chooseAll
    {mark : Char}
    {avoid names : List Text}
    {chosen : Text}
    (member : chosen ∈ chooseAll mark avoid names) :
    chosen ∉ avoid := by
  induction names generalizing avoid with
  | nil => simp [chooseAll] at member
  | cons name rest induction =>
      rw [chooseAll] at member
      rcases List.mem_cons.1 member with rfl | inRest
      · exact choose_not_mem mark avoid name
      · exact fun avoided => induction inRest (List.mem_cons_of_mem _ avoided)

/-- Names that are chosen one after the other differ from each other. -/
theorem nodup_chooseAll
    (mark : Char)
    (avoid names : List Text) :
    (chooseAll mark avoid names).Nodup := by
  induction names generalizing avoid with
  | nil => exact List.nodup_nil
  | cons name rest induction =>
      rw [chooseAll, List.nodup_cons]
      exact ⟨fun again => not_mem_of_mem_chooseAll again List.mem_cons_self, induction _⟩

/-- A name that is free at the start is chosen, for itself or for an earlier name. -/
theorem mem_chooseAll_of_not_mem
    (mark : Char)
    {avoid names : List Text}
    {name : Text}
    (member : name ∈ names)
    (free : name ∉ avoid) :
    name ∈ chooseAll mark avoid names := by
  induction names generalizing avoid with
  | nil => exact absurd member List.not_mem_nil
  | cons first rest induction =>
      rw [chooseAll, List.mem_cons]
      by_cases taken : name = choose mark avoid first
      · exact Or.inl taken
      · refine Or.inr (induction ?_ ?_)
        · rcases List.mem_cons.1 member with rfl | inRest
          · exact absurd (choose_of_not_mem mark free).symm taken
          · exact inRest
        · simp [taken, free]

/-! ## One mark at a time -/

@[simp]
theorem marked_concat (mark : Char) (name : Text) (count : Nat) :
    marked mark (name ++ [mark]) count = marked mark name (count + 1) := by
  rw [marked, marked, List.append_assoc, List.replicate_succ]
  rfl

/-- Whether the marked names are avoided is all that a choice depends on. -/
theorem choose_congr
    {mark : Char}
    {avoid others : List Text}
    {name : Text}
    (same : ∀ count, marked mark name count ∈ avoid ↔ marked mark name count ∈ others) :
    choose mark avoid name = choose mark others name := by
  have least := isLeast_leastMarks mark avoid name
  simp only [same] at least
  rw [choose, choose, least.unique (isLeast_leastMarks mark others name)]

/-- A name that is avoided gets the marks that it gets with one mark already behind it. -/
theorem choose_of_mem
    (mark : Char)
    {avoid : List Text}
    {name : Text}
    (taken : name ∈ avoid) :
    choose mark avoid name = choose mark avoid (name ++ [mark]) := by
  obtain ⟨free, fewest⟩ := isLeast_leastMarks mark avoid (name ++ [mark])
  have least :
      IsLeast {count | marked mark name count ∉ avoid}
        (leastMarks mark avoid (name ++ [mark]) + 1) := by
    refine ⟨by simpa using free, fun count countFree => ?_⟩
    cases count with
    | zero => exact absurd taken (by simpa [marked] using countFree)
    | succ count => exact Nat.succ_le_succ (fewest (by simpa using countFree))
  rw [choose, choose, (isLeast_leastMarks mark avoid name).unique least, marked_concat]

/-- Put marks behind a name, one at a time, until it is free.  This ends because no avoided name is
longer than all of them together. -/
def markUntilFree (mark : Char) (avoid : List Text) (name : Text) : Text :=
  if avoid.contains name then markUntilFree mark avoid (name ++ [mark]) else name
termination_by avoid.flatten.length + 1 - name.length
decreasing_by
  rename_i taken
  have bound := (List.sublist_flatten_of_mem (List.contains_iff_mem.1 taken)).length_le
  rw [List.length_append, List.length_singleton]
  omega

/-- Marking a name until it is free is to choose the fewest marks. -/
theorem markUntilFree_eq_choose
    (mark : Char)
    (avoid : List Text)
    (name : Text) :
    markUntilFree mark avoid name = choose mark avoid name := by
  induction name using markUntilFree.induct mark avoid with
  | case1 name taken induction =>
      rw [markUntilFree, if_pos taken, induction,
        choose_of_mem mark (List.contains_iff_mem.1 taken)]
  | case2 name free =>
      rw [markUntilFree, if_neg free,
        choose_of_not_mem mark (mt List.contains_iff_mem.2 free)]

/-- Claim a name for each of the wished ones in turn.  It starts as what `first` makes of the wish,
and is marked until it is neither taken nor one of the names that are kept away from. -/
def claimAll (mark : Char) (kept : List Text) (first : Text → Text) :
    List Text → List Text → List Text
  | _, [] => []
  | taken, name :: rest =>
    let claimed := markUntilFree mark (taken ++ kept) (first name)
    claimed :: claimAll mark kept first (claimed :: taken) rest

section Claims

variable
    {mark : Char}
    {reserved kept : List Text}
    (keptReserved : kept ⊆ reserved)
    (unmarked : ∀ word ∈ reserved, word ∉ kept → mark ∉ word)

include keptReserved unmarked

/-- A name with a mark is no reserved word without one, so these need not be kept away from. -/
theorem markUntilFree_eq_choose_of_reserved
    (taken : List Text)
    {name : Text}
    (free : mark ∈ name ∨ name ∉ reserved) :
    markUntilFree mark (taken ++ kept) name = choose mark (taken ++ reserved) name := by
  rw [markUntilFree_eq_choose]
  refine choose_congr fun count => ?_
  have markedFree : mark ∈ marked mark name count ∨ marked mark name count ∉ reserved := by
    cases count with
    | zero => simpa [marked] using free
    | succ count => exact .inl (by simp [marked])
  simp only [List.mem_append]
  refine or_congr_right ⟨fun member => keptReserved member, fun member => ?_⟩
  by_contra outside
  rcases markedFree with marks | unreserved
  · exact unmarked _ member outside marks
  · exact unreserved member

/-- Names that are claimed in turn, each with a mark from the start if it is reserved, are those
that are chosen in turn. -/
theorem claimAll_eq_chooseAll
    {first small : Text → Text}
    (starts :
      ∀ name, first name = if small name ∈ reserved then small name ++ [mark] else small name)
    (taken names : List Text) :
    claimAll mark kept first taken names =
      chooseAll mark (taken ++ reserved) (names.map small) := by
  induction names generalizing taken with
  | nil => rfl
  | cons name rest induction =>
      have claimed :
          markUntilFree mark (taken ++ kept) (first name) =
            choose mark (taken ++ reserved) (small name) := by
        rw [starts]
        split
        · rename_i isReserved
          rw [choose_of_mem mark (List.mem_append_right taken isReserved)]
          exact markUntilFree_eq_choose_of_reserved keptReserved unmarked taken (.inl (by simp))
        · rename_i unreserved
          exact markUntilFree_eq_choose_of_reserved keptReserved unmarked taken (.inr unreserved)
      rw [List.map_cons, chooseAll, claimAll, claimed]
      exact congrArg (List.cons _) (induction (_ :: taken))

end Claims

/-! ## No mark more than needed -/

/-- Names chosen in turn: each is the wished one with the fewest marks that make it none of the
names to avoid and none of the names chosen before it. -/
structure ChosenInTurn (mark : Char) (avoid wished chosen : List Text) : Prop where
  sameLength : chosen.length = wished.length
  fewest :
    ∀ (index : Nat) (name : Text),
      wished[index]? = some name →
        ∃ count,
          chosen[index]? = some (marked mark name count) ∧
            IsLeast
              {number |
                marked mark name number ∉ avoid ∧
                  marked mark name number ∉ chosen.take index}
              count

theorem chosenInTurn_chooseAll
    (mark : Char)
    (avoid names : List Text) :
    ChosenInTurn mark avoid names (chooseAll mark avoid names) := by
  induction names generalizing avoid with
  | nil => exact ⟨rfl, fun index name found => by simp at found⟩
  | cons first rest induction =>
      refine ⟨length_chooseAll mark avoid (first :: rest), ?_⟩
      intro index name found
      cases index with
      | zero =>
          obtain rfl : first = name := by simpa using found
          exact ⟨leastMarks mark avoid first, rfl,
            by simpa using isLeast_leastMarks mark avoid first⟩
      | succ index =>
          rw [List.getElem?_cons_succ] at found
          obtain ⟨count, chosen, least⟩ := (induction _).fewest index name found
          refine ⟨count, chosen, ?_⟩
          -- the name chosen first is avoided from then on
          convert least using 3
          simp only [chooseAll, List.take_succ_cons, List.mem_cons, not_or]
          tauto

end UnoBindgen.FreshName
