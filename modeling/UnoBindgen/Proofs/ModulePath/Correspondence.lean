import UnoBindgen.Proofs.ModulePath.Memory

/-!
# Paths and names correspond

Paths of identifiers and their dotted names correspond one to one, and the comparison of paths
agrees with the comparison of their names.  A path goes down to a child and up to its parent
without being changed by it, whatever slices look into the arrays of the segments.
-/

namespace UnoBindgen.ModulePath

/--
A text is read as a path exactly when it is empty or a dotted sequence of identifiers, and what is
read has the text as its name; every path of identifiers is read back from its name.  Two paths are
equal when they have the same segments, and for paths of identifiers this is seen from their dotted
names, from their slash paths and from their qualified namespaces.  A child lies right below its
path, and every path but the root is the child of its parent.

In memory, the child of a path shows the child, and every path that was there before, the parent of
the child among them, shows what it showed.  So does a program that makes children and parents,
takes copies of segments and writes into the copies: its paths are those it would have if paths
were values.
-/
theorem parse_name_inverse :
    (∀ dotted : Text,
      (∃ path, parse dotted = .ok path) ↔ dotted = [] ∨ isQualifiedIdentifier dotted = true) ∧
    (∀ (dotted : Text) (path : ModulePath), parse dotted = .ok path → path.name = dotted) ∧
    (∀ path : ModulePath, path.HasIdentifiers → parse path.name = .ok path) ∧
    (∀ left right : ModulePath, left.equals right = true ↔ left = right) ∧
    (∀ left right : ModulePath, left.HasIdentifiers → right.HasIdentifiers →
      (left.equals right = true ↔ left.name = right.name) ∧
      (left.equals right = true ↔ left.slashPath = right.slashPath) ∧
      (left.equals right = true ↔ left.qualifiedNamespace = right.qualifiedNamespace)) ∧
    (∀ (path : ModulePath) (segment : Text),
      (path.child segment).parent = path ∧ (path.child segment).lastName = segment) ∧
    (∀ path : ModulePath, path.isRoot = false → path.parent.child path.lastName = path) ∧
    (∀ (memory : Memory) (path : Slice) (segment : Text), memory.Holds path →
      (memory.child path segment).2.path (memory.child path segment).1 =
          (memory.path path).child segment ∧
        ∀ earlier, memory.Holds earlier →
          (memory.child path segment).2.path earlier = memory.path earlier) ∧
    (∀ (table : PathTable) (operations : List PathOperation), table.IsSound →
      (operations.foldl PathTable.perform table).shown =
          operations.foldl (fun paths operation => operation.onPaths paths) table.shown ∧
        table.shown <+: (operations.foldl PathTable.perform table).shown) := by
  refine ⟨exists_parse_iff, ?_, ?_, equals_iff, ?_, ?_, ?_, ?_, ?_⟩
  · exact fun dotted path parsed => ((parse_eq_ok_iff dotted path).1 parsed).2
  · exact fun path identifiers => (parse_eq_ok_iff path.name path).2 ⟨identifiers, rfl⟩
  · intro left right leftIdentifiers rightIdentifiers
    rw [equals_iff]
    exact ⟨eq_iff_name_eq leftIdentifiers rightIdentifiers,
      eq_iff_slashPath_eq leftIdentifiers rightIdentifiers,
      eq_iff_qualifiedNamespace_eq leftIdentifiers rightIdentifiers⟩
  · exact fun path segment => ⟨parent_child path segment, lastName_child path segment⟩
  · exact fun path inner => child_parent_lastName inner
  · intro memory path segment held
    have makes := Memory.makes_child held segment
    exact ⟨makes.shows, fun earlier heldBefore => (makes.keeps heldBefore).2⟩
  · intro table operations sound
    have shown := (sound.performAll operations).2
    exact ⟨shown, shown ▸ PathTable.prefix_foldl_onPaths operations table.shown⟩

/-- A path of three segments, its name, and a path that differs from it in how two names are
divided by an underscore.  Two children of one path do not disturb each other, and neither does a
write into a copy of its segments. -/
theorem parse_name_inverse_star :
    (⟨["com", "sun", "star"]⟩ : ModulePath).HasIdentifiers ∧
      parse "com.sun.star" = .ok ⟨["com", "sun", "star"]⟩ ∧
      (⟨["com", "sun", "star"]⟩ : ModulePath).qualifiedNamespace ≠
        (⟨["com", "sun_star"]⟩ : ModulePath).qualifiedNamespace ∧
      (⟨["com", "sun"]⟩ : ModulePath).child "star" = ⟨["com", "sun", "star"]⟩ ∧
      ([.child 0 "X", .child 0 "Y", .segments 0, .assign 0 0 "changed"].foldl PathTable.perform
        (PathTable.ofPath ⟨["a", "b"]⟩)).shown =
          [⟨["a", "b"]⟩, ⟨["a", "b", "X"]⟩, ⟨["a", "b", "Y"]⟩] := by
  have identifiers : (⟨["com", "sun", "star"]⟩ : ModulePath).HasIdentifiers := by
    unfold HasIdentifiers
    decide
  have divided : (⟨["com", "sun_star"]⟩ : ModulePath).HasIdentifiers := by
    unfold HasIdentifiers
    decide
  have read := PathTable.isSound_ofPath ⟨["a", "b"]⟩
  obtain ⟨-, -, readBack, same, apart, -, upAndDown, -, programs⟩ := parse_name_inverse
  refine ⟨identifiers, readBack ⟨["com", "sun", "star"]⟩ identifiers, ?_,
    upAndDown ⟨["com", "sun", "star"]⟩ rfl, ?_⟩
  · intro namespaces
    have equal := (same _ _).1 ((apart _ _ identifiers divided).2.2.2 namespaces)
    exact absurd equal (by decide)
  · rw [(programs _ _ read.1).1, read.2]
    rfl

end UnoBindgen.ModulePath
