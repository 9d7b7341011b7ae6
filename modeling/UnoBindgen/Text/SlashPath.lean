import UnoBindgen.Text.Basic

/-!
# Slash-separated paths

Paths are texts whose segments are divided by slashes.  Cleaning a path resolves `.`, `..` and
repeated slashes by looking at the text alone: it never asks a file system.
-/

namespace UnoBindgen.Text.SlashPath

/-- Add a segment to the reversed list of the segments kept so far.  At the root, and only
there, a step upwards leads nowhere. -/
def pushSegment (rooted : Bool) (kept : List Text) (segment : Text) : List Text :=
  if segment = [] ∨ segment = ['.'] then
    kept
  else if segment = ['.', '.'] then
    match kept with
    | [] => if rooted then [] else [segment]
    | last :: earlier => if last = ['.', '.'] then segment :: kept else earlier
  else
    segment :: kept

/-- The segments left after resolving `.`, `..` and empty segments. -/
def resolveSegments (rooted : Bool) (segments : List Text) : List Text :=
  (segments.foldl (pushSegment rooted) []).reverse

/-- Whether a path starts at the root. -/
def isRooted (path : Text) : Bool :=
  path.startsWith ['/']

/-- The segments of the cleaned path. -/
def segments (path : Text) : List Text :=
  resolveSegments (isRooted path) (path.splitAt '/')

/-- The path with the given segments, starting at the root or not. -/
def ofSegments (rooted : Bool) (segments : List Text) : Text :=
  if rooted then
    '/' :: Text.join ['/'] segments
  else
    match segments with
    | [] => ['.']
    | _ => Text.join ['/'] segments

/-- The shortest path that names the same place. -/
def clean (path : Text) : Text :=
  ofSegments (isRooted path) (segments path)

/-- Join the non-empty parts with slashes and clean the result; without any such part the result
is empty. -/
def join (parts : List Text) : Text :=
  match parts.filter fun part => !part.isEmpty with
  | [] => []
  | kept => clean (Text.join ['/'] kept)

/-- The last segment of a path as written, behind its last slash. -/
def lastPart (path : Text) : Text :=
  (path.reverse.takeWhile (· != '/')).reverse

/-- The part of the last segment from its last dot on, or nothing when it has no dot. -/
def extension (path : Text) : Text :=
  let last := lastPart path
  if last.any (· == '.') then
    '.' :: (last.reverse.takeWhile (· != '.')).reverse
  else
    []

/-- The cleaned path of everything before the last slash. -/
def directory (path : Text) : Text :=
  clean ((path.reverse.dropWhile (· != '/')).reverse)

/-- What is left of two lists of segments behind their common start. -/
def dropCommon : List Text → List Text → List Text × List Text
  | first :: base, other :: target =>
    if first = other then dropCommon base target else (first :: base, other :: target)
  | base, target => (base, target)

/-- The path that leads from a base to a target, by their texts alone.  It is not known from a base
that starts at the root to a target that does not, nor the other way round, nor from a base that
climbs higher than the target. -/
def relative? (base target : Text) : Option Text :=
  let (upwards, way) := dropCommon (segments base) (segments target)
  if isRooted base ≠ isRooted target ∨ upwards.head? = some ['.', '.'] then
    none
  else
    some (ofSegments false (List.replicate upwards.length ['.', '.'] ++ way))

end UnoBindgen.Text.SlashPath
