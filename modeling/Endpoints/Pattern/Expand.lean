import Endpoints.File.Access

/-! # Files that a pattern stands for

As the name of files, a pattern is compared with a file system directory by directory: every part of
it between slashes stands for one name, and `**` for any number of directories. `PathPattern.parse`
reads such a pattern and `PathPattern.expand` finds the paths.
-/

namespace Endpoints

/-- A part of a pattern between slashes. -/
inductive PatternStep where
  | name (text : String)
  | pattern (pattern : Pattern)
  | directories
deriving DecidableEq, Repr

/-- A pattern for paths. -/
structure PathPattern where
  start : Path
  steps : List PatternStep
  directoriesOnly : Bool
deriving DecidableEq, Repr

namespace PatternStep

/-- The step for a pattern between slashes. -/
def ofPattern (p : Pattern) : PatternStep :=
  if p.isRecursive then directories
  else
    match p.literal? with
    | some text => name text
    | none => pattern p

def accepts : PatternStep → String → Bool
  | name text, found => text == found
  | pattern p, found => p.accepts found
  | directories, _ => true

/-- The marks for a directory itself and the one around it, as far as a step accepts them. It has to
start with a dot. -/
def marks : PatternStep → List String
  | pattern p => if p.parts.head? == some (.char '.') then [".", ".."].filter p.accepts else []
  | _ => []

/-- Repeated steps for any number of directories are one. -/
def merge : List PatternStep → List PatternStep
  | directories :: directories :: steps => merge (directories :: steps)
  | step :: steps => step :: merge steps
  | [] => []

end PatternStep

namespace PathPattern

/-- The texts between slashes. A slash at the end has nothing behind it. -/
def pieces (cs : List Char) : List String :=
  let pieces := (Text.splitOn '/' cs).map String.ofList
  if pieces.getLast? == some "" then pieces.dropLast else pieces

/-- Reads a pattern. First it has to be correct as a whole, then every part of it. -/
def parse (text : String) : Except PatternError PathPattern := do
  let _ ← Pattern.parse text
  let cs := text.toList
  let isAbsolute := cs.head? == some '/'
  let inner := if isAbsolute then cs.drop 1 else cs
  let pieces := if inner.isEmpty then [""] else pieces inner
  let patterns ← pieces.mapM Pattern.parse
  return {
    start := ⟨if isAbsolute then "/" else "."⟩
    steps := PatternStep.merge (patterns.map .ofPattern)
    directoriesOnly := cs.getLast? == some '/' }

/-- The greatest number of directories inside each other that are searched. The paths of file
systems are not that long. -/
def maxNesting : Nat := 4096

variable {m : Type → Type} [Monad m]

/-- The path of an entry of a directory. In the working directory it is just the name. -/
def entryPath (directory : Path) (name : String) : Path :=
  if directory.isHere then ⟨name⟩ else directory.join name

/-- A path at the end of a pattern. -/
def found (files : Files m) (directoriesOnly : Bool) (p : Path) : m (List Path) := do
  if directoriesOnly then
    return if ← files.isDirectory p then [p] else []
  else
    return [p]

mutual

/-- The paths for some steps inside a directory. -/
def inside (files : Files m) (directoriesOnly : Bool) :
    (fuel : Nat) → List PatternStep → Path → m (List Path)
  | 0, _, _ => return []
  | _, [], p => found files directoriesOnly p
  | fuel + 1, step :: steps, p =>
    match step with
    | .name text => do
      let next := entryPath p text
      let isThere ←
        if text == "." || text == ".." then files.isDirectory p
        else Option.isSome <$> files.kind? next
      if isThere then inside files directoriesOnly fuel steps next else return []
    | step => do
      if ← files.isDirectory p then
        let marked ←
          step.marks.mapM fun mark => inside files directoriesOnly fuel steps (p.join mark)
        let names ← files.names p
        let below ← names.mapM fun name =>
          visit files directoriesOnly fuel (step :: steps) (entryPath p name) name
        return marked.flatten ++ below.flatten
      else
        return []

/-- The paths for some steps, the first of which stands for the entry `name` at the path. -/
def visit (files : Files m) (directoriesOnly : Bool) :
    (fuel : Nat) → List PatternStep → Path → String → m (List Path)
  | 0, _, _, _ => return []
  | _, [], _, _ => return []
  | fuel + 1, .directories :: steps, p, name => do
    if ← files.isDirectory p then
      let own ←
        if steps.isEmpty then pure [p]
        else visit files directoriesOnly fuel steps p name
      return own ++ (← inside files directoriesOnly fuel (.directories :: steps) p)
    else
      visit files directoriesOnly fuel steps p name
  | fuel + 1, step :: steps, p, name =>
    if step.accepts name then inside files directoriesOnly fuel steps p else return []

end

/-- The paths that a pattern stands for. -/
def expand (files : Files m) (pattern : PathPattern) : m (List Path) :=
  inside files pattern.directoriesOnly (2 * (pattern.steps.length + maxNesting)) pattern.steps
    pattern.start

end PathPattern

end Endpoints
