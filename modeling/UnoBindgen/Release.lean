import UnoBindgen.Text.Basic

/-!
# Release information

What a build of the program knows about itself, and the lines that show it.
-/

namespace UnoBindgen

/-- The build of the program. -/
structure Release where
  version : Text
  commit : Text
  built : Text
  toolchain : Text
  platform : Text
  deriving DecidableEq, Repr

namespace Release

/-- The version of a build that was not tagged. -/
def untagged : Text := "dev"

/-- An untagged build of unknown origin on the given platform. -/
def development (toolchain platform : Text) : Release :=
  ⟨untagged, "dev", "unknown", toolchain, platform⟩

/-- The line that describes the build. -/
def description (release : Release) : Text :=
  "hsuno " ++ release.version ++ " (commit " ++ release.commit ++ ", built " ++
    release.built ++ ")"

/-- The first bytes of a text in UTF-8.  Each byte of a character that does not fit becomes a
replacement character. -/
def firstBytes : Nat → Text → Text
  | _, [] => []
  | available, character :: rest =>
    if character.utf8Size ≤ available then
      character :: firstBytes (available - character.utf8Size) rest
    else
      List.replicate available '\uFFFD'

/-- The first seven bytes of the commit. -/
def shortCommit (release : Release) : Text :=
  firstBytes 7 release.commit

/-- How the program introduces itself. -/
def userAgent (release : Release) : Text :=
  if release.version = untagged then
    "hsuno/dev+" ++ release.shortCommit
  else
    "hsuno/" ++ release.version

end Release

end UnoBindgen
