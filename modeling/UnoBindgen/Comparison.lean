import UnoBindgen.FileStore
import UnoBindgen.Naming

/-!
# Comparing generated trees

A tree is up to date when a fresh generation gives the same files.  Files of other kinds next to
the generated ones, as their extensions tell, do not count.
-/

namespace UnoBindgen

/-- How an existing tree differs from a fresh one. -/
structure Comparison where
  /-- Files of both trees whose contents differ. -/
  differences : List Text
  /-- Files of the fresh tree only. -/
  missing : List Text
  /-- Files of the existing tree only that look generated. -/
  stale : List Text
  deriving DecidableEq, Repr

namespace Comparison

/-- Whether the trees agree. -/
def isUpToDate (comparison : Comparison) : Bool :=
  comparison.differences.isEmpty && comparison.missing.isEmpty && comparison.stale.isEmpty

/-- The fault of a tree that is out of date, with the number of files of each kind. -/
def fault? (comparison : Comparison) : Option Fault :=
  if comparison.isUpToDate then
    none
  else
    some (.detailed
      (Text.ofNat comparison.differences.length ++ " changed, " ++
        Text.ofNat comparison.missing.length ++ " missing, " ++
        Text.ofNat comparison.stale.length ++ " stale")
      (.ofCondition .outOfDate))

/-- Whether the extension of a file is one of generated files. -/
def looksGenerated (options : NamingOptions) (relative : Text) : Bool :=
  let extension := Text.SlashPath.extension relative
  extension == options.headerExtension || extension == options.sourceExtension ||
    extension == options.bindingExtension

/-- Read a file of a tree. -/
def readFile (store : FileStore) (root relative : Text) : Except Fault Text :=
  let path := Text.SlashPath.join [root, relative]
  match store.read path with
  | .ok content => .ok content
  | .error fault => .error (.within ("failed to read " ++ path) fault)

/-- Whether a file has different contents in two trees. -/
def differs (store : FileStore) (fresh existing relative : Text) : Except Fault Bool := do
  let left ← readFile store fresh relative
  let right ← readFile store existing relative
  return left != right

/-- The files of a list that have different contents in two trees. -/
def differing (store : FileStore) (fresh existing : Text) :
    List Text → Except Fault (List Text)
  | [] => .ok []
  | relative :: rest => do
    let different ← differs store fresh existing relative
    let others ← differing store fresh existing rest
    return if different then relative :: others else others

/-- The files of a list by their paths relative to a root. -/
def relativeTo (root : Text) (paths : List Text) : Except Fault (List Text) :=
  paths.mapM fun path =>
    match Text.SlashPath.relative? root path with
    | some relative => .ok relative
    | none => .error (.external ("Rel: can't make " ++ path ++ " relative to " ++ root) false)

/-- The files of a tree.  A tree whose root is not there has none. -/
def filesOf (store : FileStore) (root : Text) : Except Fault (List Text) :=
  match store.contains root with
  | .ok false => .ok []
  | _ =>
    match store.walk root >>= relativeTo root with
    | .ok files => .ok files
    | .error fault => .error (.within ("failed to list " ++ root) fault)

/-- Compare a fresh tree with an existing one. -/
def ofTrees (store : FileStore) (fresh existing : Text) (options : NamingOptions) :
    Except Fault Comparison := do
  let freshFiles ← filesOf store fresh
  let existingFiles ← filesOf store existing
  let differences ←
    differing store fresh existing (freshFiles.filter fun file => existingFiles.contains file)
  return {
    differences := Text.sort differences
    missing := Text.sort (freshFiles.filter fun file => !existingFiles.contains file)
    stale :=
      Text.sort
        (existingFiles.filter fun file =>
          !freshFiles.contains file && looksGenerated options file) }

end Comparison

end UnoBindgen
