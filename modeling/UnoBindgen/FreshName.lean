import UnoBindgen.Text.Basic

/-!
# Fresh names

A name that must not be used is made different by a mark at its end, repeated as often as needed
and no more.  Among the names with zero up to `avoid.length` marks at least one is free, because
they are all different; so the search is bounded by the number of names to avoid.
-/

namespace UnoBindgen.FreshName

/-- A name with a number of marks at its end. -/
def marked (mark : Char) (name : Text) (count : Nat) : Text :=
  name ++ List.replicate count mark

/-- The least number of marks that makes a name different from all names to avoid. -/
def leastMarks (mark : Char) (avoid : List Text) (name : Text) : Nat :=
  ((List.range (avoid.length + 1)).find? fun count =>
    !avoid.contains (marked mark name count)).getD 0

/-- The name with the fewest marks that is none of the names to avoid. -/
def choose (mark : Char) (avoid : List Text) (name : Text) : Text :=
  marked mark name (leastMarks mark avoid name)

/-- Choose fresh names one after the other, each also different from those chosen before. -/
def chooseAll (mark : Char) (avoid : List Text) : List Text → List Text
  | [] => []
  | name :: rest =>
    let chosen := choose mark avoid name
    chosen :: chooseAll mark (chosen :: avoid) rest

end UnoBindgen.FreshName
