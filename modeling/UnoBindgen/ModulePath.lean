import UnoBindgen.Fault
import UnoBindgen.Identifier
import UnoBindgen.Text.Casing
import UnoBindgen.Text.Quoted

/-!
# Module paths

A module path lists the modules around an entity, outermost first.  The empty path is the root
module.  The views of a path (dotted name, slash path, qualified namespace, header guard, flat
stem) are joins of its segments; `ModulePath.parse` reads the dotted name back.
-/

namespace UnoBindgen

/-- A sequence of module segments, outermost first. -/
structure ModulePath where
  segments : List Text
  deriving DecidableEq, Repr

namespace ModulePath

/-- The module outside of all others. -/
def root : ModulePath := ⟨[]⟩

/-- Why a segment of a dotted name is refused, if it is. -/
def segmentFault? (dotted segment : Text) : Option Fault :=
  if segment = [] then
    some (.invalidSchema ("module path " ++ dotted.quote ++ " has an empty segment"))
  else if isIdentifier segment then
    none
  else
    some (.invalidSchema
      ("module path " ++ dotted.quote ++ ": segment " ++ segment.quote ++
        " is not an identifier"))

/-- Read a dotted name.  The empty name is the root; the first segment that is not an identifier
is reported. -/
def parse (dotted : Text) : Except Fault ModulePath :=
  if dotted = [] then
    .ok root
  else
    let segments := dotted.splitAt '.'
    match segments.findSome? (segmentFault? dotted) with
    | some fault => .error fault
    | none => .ok ⟨segments⟩

/-- Whether the path is the root. -/
def isRoot (path : ModulePath) : Bool :=
  path.segments.isEmpty

/-- The path of a module, or of an entity, inside the module. -/
def child (path : ModulePath) (segment : Text) : ModulePath :=
  ⟨path.segments ++ [segment]⟩

/-- The enclosing module; the root encloses itself. -/
def parent (path : ModulePath) : ModulePath :=
  ⟨path.segments.dropLast⟩

/-- Whether two paths have the same segments: as many of them, and the same ones place by place. -/
def equals (path other : ModulePath) : Bool :=
  if path.segments.length ≠ other.segments.length then
    false
  else
    (List.range path.segments.length).all fun position =>
      path.segments[position]? == other.segments[position]?

/-- The innermost segment, or nothing for the root. -/
def lastName (path : ModulePath) : Text :=
  path.segments.getLastD []

/-- The segments with their first letters capitalized. -/
def capitalizedSegments (path : ModulePath) : List Text :=
  path.segments.map Text.capitalize

/-- The dotted name, such as `com.sun.star`. -/
def name (path : ModulePath) : Text :=
  Text.join "." path.segments

/-- The dotted name of the capitalized segments, such as `Com.Sun.Star`. -/
def capitalizedName (path : ModulePath) : Text :=
  Text.join "." path.capitalizedSegments

/-- The slash path, such as `com/sun/star`. -/
def slashPath (path : ModulePath) : Text :=
  Text.join "/" path.segments

/-- The slash path of the capitalized segments, such as `Com/Sun/Star`. -/
def capitalizedSlashPath (path : ModulePath) : Text :=
  Text.join "/" path.capitalizedSegments

/-- The qualified C++ name, such as `com::sun::star`. -/
def qualifiedNamespace (path : ModulePath) : Text :=
  Text.join "::" path.segments

/-- The stem of C symbols, such as `com_sun_star`. -/
def flattened (path : ModulePath) : Text :=
  Text.join "_" path.segments

/-- The upper-case stem, such as `COM_SUN_STAR`. -/
def headerGuard (path : ModulePath) : Text :=
  path.flattened.toUpper

end ModulePath

end UnoBindgen
