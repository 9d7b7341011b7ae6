import UnoBindgen.Entity

/-!
# The registry of entities

A registry holds entities whose full names, symbol stems and header guards are all different, in
the order in which they were given.  Distinct names may still share a stem (`a.b_c.X` and
`a.b.c.X`) or a guard (`a.X` and `a.x`), and their generated files would then clash.
-/

namespace UnoBindgen

/-- Entities that can be generated side by side, in their given order. -/
structure Registry where
  entities : List Entity
  deriving DecidableEq, Repr

namespace Registry

/-- The registry without entities. -/
def empty : Registry := ⟨[]⟩

/-- How an entity clashes with the earlier ones, if it does.  Equal names are reported before
equal stems, and those before equal guards. -/
def clash? (earlier : List Entity) (entity : Entity) : Option Fault :=
  let name := entity.fullName
  let stem := entity.path.flattened
  let guard := entity.path.headerGuard
  if earlier.any fun other => other.fullName == name then
    some (.invalidSchema ("duplicate entity " ++ name))
  else
    match earlier.find? fun other => other.path.flattened == stem with
    | some other =>
      some (.hinted "rename one of them; module paths are joined with '_' in C symbols"
        (.invalidSchema
          ("entities " ++ other.fullName ++ " and " ++ name ++ " share the symbol stem " ++ stem)))
    | none =>
      match earlier.find? fun other => other.path.headerGuard == guard with
      | some other =>
        some (.invalidSchema
          ("entities " ++ other.fullName ++ " and " ++ name ++ " share the header guard " ++
            guard))
      | none => none

/-- The first clash in a list that follows the `earlier` entities. -/
def firstClash? (earlier : List Entity) : List Entity → Option Fault
  | [] => none
  | entity :: rest =>
    match clash? earlier entity with
    | some fault => some fault
    | none => firstClash? (earlier ++ [entity]) rest

/-- Register entities, or report the first that clashes with an earlier one. -/
def ofEntities (entities : List Entity) : Except Fault Registry :=
  match firstClash? [] entities with
  | some fault => .error fault
  | none => .ok ⟨entities⟩

/-- The entity with the given full name. -/
def find? (registry : Registry) (fullName : Text) : Option Entity :=
  registry.entities.find? fun entity => entity.fullName == fullName

/-- The number of entities. -/
def size (registry : Registry) : Nat :=
  registry.entities.length

/-- The full names in the order of the entities. -/
def fullNames (registry : Registry) : List Text :=
  registry.entities.map Entity.fullName

/-- The full names, sorted. -/
def sortedNames (registry : Registry) : List Text :=
  Text.sort registry.fullNames

end Registry

end UnoBindgen
