import Endpoints.Pattern.Expand
import Endpoints.Project.Run

/-! # Finding source files

The entry patterns of a project stand for files and directories. A file that an entry stands for is
taken as it is; of a directory, the source files in it and below it are taken. Ignored files are
left out unless they are allowed.

`Entries.scan` does this for any language of patterns and any way to go through a file system, which
`Search` gives. `Files.search` is the one for the patterns of `Pattern` and the files of `Files`.
-/

namespace Endpoints

/-! ## What a search uses -/

/-- The patterns and the access to a file system that a search for source files uses. Patterns have
the type `P`. A path that can not be reached is reported by a message. -/
structure Search (m : Type → Type) (P : Type) where
  compile : String → Except PatternError P
  accepts : P → Path → Bool
  /-- The paths that the pattern of a text stands for. -/
  glob : String → Except PatternError (m (List (Except String Path)))
  isFile : Path → m Bool
  /-- The path itself and all paths below it, each before those below it. A path that is not wanted
  is left out with all paths below it. -/
  walk : (wanted : Path → Bool) → Path → m (List (Except String Path))

/-! ## Files that are left out -/

section Filter

variable {P : Type}

/-- Whether a file is accepted by one of the patterns, seen from the root or by its whole path. -/
def isListed (accepts : P → Path → Bool) (root : Path) (patterns : List P) (p : Path) : Bool :=
  patterns.any fun pattern => accepts pattern (root.relativeTo p) || accepts pattern p

/-- Whether a file is left out: it is ignored and not allowed. -/
def isFilteredOut (accepts : P → Path → Bool) (root : Path) (ignore allow : List P) (p : Path) :
    Bool :=
  if isListed accepts root ignore p then !isListed accepts root allow p else false

/-- The patterns of some texts. -/
def compilePatterns (compile : String → Except PatternError P) (texts : List String) :
    Except Error (List P) :=
  texts.mapM fun text =>
    match compile text with
    | .ok pattern => .ok pattern
    | .error e => .error (Fault.pattern text e)

end Filter

/-- The files that have been found, each of them once. -/
structure Found where
  /-- The files in the order in which they were found. -/
  files : List Path
  /-- The files again, by their parts. -/
  seen : List (List PathPart)

/-- Adds a file that has not been seen. -/
def Found.add (found : Found) (p : Path) : Found :=
  if found.seen.contains p.parts then found
  else { files := found.files ++ [p], seen := p.parts :: found.seen }

/-! ## Directories -/

/-- Whether a name is that of a source file. Files with declarations only do not count. -/
def isSourceName (name : String) : Bool :=
  name.endsWith ".ts" && !name.endsWith ".d.ts"

/-- Whether an entry of a directory is passed over. -/
def isSkippedName (name : String) : Bool :=
  name.startsWith "." || name == "node_modules"

namespace Search

variable {m : Type → Type} [Monad m] {P : Type}

/-- Whether a path below a directory is wanted. The directory itself always is. -/
def wants (directory p : Path) : Bool :=
  p.parts == directory.parts || !isSkippedName (p.name?.getD p.text)

/-- The source files among the paths of a walk. Paths that can not be reached are reported. -/
def sources (search : Search m P) : List (Except String Path) → Run m (List Path)
  | [] => return []
  | .ok p :: items => do
    let isSource := (← Run.lift (search.isFile p)) && isSourceName (p.name?.getD "")
    let rest ← search.sources items
    return if isSource then p :: rest else rest
  | .error message :: items => do
    Run.warn [.inaccessible message]
    search.sources items

/-- The source files that a path stands for: the file itself, or those below the directory. -/
def expand (search : Search m P) (p : Path) : Run m (List Path) := do
  if ← Run.lift (search.isFile p) then
    return [p]
  else
    search.sources (← Run.lift (search.walk (wants p) p))

/-- Adds the files that one path of an entry stands for, unless they are left out. The number of
files counts those that are left out, too. -/
def addPath (search : Search m P) (isOut : Path → Bool) :
    Found × Nat → Except String Path → Run m (Found × Nat)
  | (found, matched), .ok p => do
    let files ← search.expand p
    return ((files.filter (!isOut ·)).foldl Found.add found, matched + files.length)
  | (found, matched), .error message => do
    Run.warn [.inaccessible message]
    return (found, matched)

/-- Adds the files of an entry pattern. An entry without source files is reported. -/
def addEntry (search : Search m P) (root : Path) (isOut : Path → Bool) (found : Found)
    (entryText : String) : Run m Found :=
  match search.glob (root.join entryText).text with
  | .error e => throw (Error.ofFault (.pattern entryText e))
  | .ok expansion => do
    let (found, matched) ←
      (← Run.lift expansion).foldlM (search.addPath isOut) (found, 0)
    if matched = 0 then Run.warn [.unmatchedEntry entryText]
    return found

end Search

/-! ## Entries -/

/-- The entry patterns of a project with the patterns of ignored and allowed files. -/
structure Entries where
  root : Path
  entries : List String
  ignore : List String
  allow : List String

namespace Entries

variable {m : Type → Type} [Monad m] {P : Type}

/-- The source files of a project, in the order in which they are found. -/
def collect (search : Search m P) (e : Entries) : Run m Found := do
  let ignore ← Run.ofExcept (compilePatterns search.compile e.ignore)
  let allow ← Run.ofExcept (compilePatterns search.compile e.allow)
  let isOut := isFilteredOut search.accepts e.root ignore allow
  e.entries.foldlM (search.addEntry e.root isOut) ⟨[], []⟩

/-- The source files of a project, in order. -/
def scan (search : Search m P) (e : Entries) : Run m (List Path) := do
  let found ← e.collect search
  return found.files.mergeSort fun p q => !(q.key < p.key)

end Entries

/-! ## Searching through files -/

namespace Files

variable {m : Type → Type} [Monad m]

/-- A path, followed by the paths `below` it if it leads to a directory; nothing if it is not
wanted. -/
def walkFrom (wanted : Path → Bool) (below : Path → m (List (Except String Path))) (p : Path)
    (isDirectory : Bool) : m (List (Except String Path)) := do
  if !wanted p then
    return []
  else if isDirectory then
    return .ok p :: (← below p)
  else
    return [.ok p]

/-- The wanted paths inside a directory, those inside each other directory right after it. -/
def walkInside (files : Files m) (wanted : Path → Bool) :
    (depth : Nat) → Path → m (List (Except String Path))
  | 0, _ => return []
  | depth + 1, directory => do
    let found ← (← files.names directory).mapM fun name => do
      let p := directory.join name
      walkFrom wanted (files.walkInside wanted depth) p (← files.isDirectory p)
    return found.flatten

/-- The path and the wanted paths below it. -/
def walk (files : Files m) (wanted : Path → Bool) (p : Path) : m (List (Except String Path)) := do
  match ← files.kind? p with
  | none =>
    return [.error ("IO error for operation on " ++ p.text ++ ": " ++ FileFault.missing.message)]
  | some kind =>
    walkFrom wanted (files.walkInside wanted PathPattern.maxNesting) p (kind == .directory)

/-- The search through files by patterns. -/
def search (files : Files m) : Search m Pattern where
  compile := Pattern.parse
  accepts pattern p := pattern.accepts p.text
  glob text := (PathPattern.parse text).map fun pattern => do
    return (← pattern.expand files).map .ok
  isFile := files.isFile
  walk := files.walk

end Files

/-- The source files of a project in a file system. -/
def Entries.discover {m : Type → Type} [Monad m] (files : Files m) (e : Entries) :
    Run m (List Path) :=
  e.scan files.search

end Endpoints
