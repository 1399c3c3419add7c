import Endpoints.File.Access

/-! # File systems in memory

A `Disk` is a tree of files and directories with a working directory. `Disk.files` gives access to
it as to any other file system.
-/

namespace Endpoints

/-- Files and directories. -/
inductive FileTree where
  /-- A file. It has no text if its bytes are not UTF-8. -/
  | file (text : Option String)
  | directory (entries : List (String × FileTree))
deriving Inhabited

namespace FileTree

/-- Nothing but a directory. -/
def empty : FileTree := directory []

def kind : FileTree → FileKind
  | file _ => .file
  | directory _ => .directory

/-- The entries of a tree; a file has none. -/
def entries : FileTree → List (String × FileTree)
  | file _ => []
  | directory entries => entries

/-- What stands at the end of some names. -/
def find? (tree : FileTree) : List String → Option FileTree
  | [] => some tree
  | name :: names => (lookupEntry name tree.entries).bind (·.find? names)

/-- Puts a tree at the end of some names. Directories on the way are made, and entries stay in
order. -/
def put (new : FileTree) : List String → FileTree → FileTree
  | [], _ => new
  | name :: names, tree =>
    let inner := (lookupEntry name tree.entries).getD empty
    directory (insertEntry name (new.put names inner) tree.entries)

end FileTree

/-- A file system with a working directory. -/
structure Disk where
  root : FileTree
  /-- The names that lead to the working directory. -/
  here : List String

namespace Disk

/-- Follows the texts between slashes from a directory. Names are kept last one first. -/
def follow (disk : Disk) (start : List String) : List String → Except FileFault (List String)
  | [] => .ok start
  | piece :: pieces =>
    match disk.root.find? start.reverse with
    | some (.directory _) =>
      if piece.isEmpty || piece == "." then disk.follow start pieces
      else if piece == ".." then disk.follow (start.drop 1) pieces
      else
        let next := piece :: start
        if (disk.root.find? next.reverse).isSome then disk.follow next pieces else .error .missing
    | some (.file _) => .error .notDirectory
    | none => .error .missing

/-- Where a path starts, names last one first. -/
def start (disk : Disk) (p : Path) : List String :=
  if p.isAbsolute then [] else disk.here.reverse

/-- The names that a path stands for, last one first. -/
def locate (disk : Disk) (p : Path) : Except FileFault (List String) :=
  if p.text.isEmpty then .error .missing else disk.follow (disk.start p) p.pieces

/-- What a path leads to. -/
def find (disk : Disk) (p : Path) : Except FileFault FileTree := do
  match disk.root.find? (← disk.locate p).reverse with
  | some tree => return tree
  | none => throw .missing

/-- The directory in which the last piece of a path stands, and that piece. -/
def locateLast (disk : Disk) (p : Path) : Except FileFault (List String × String) := do
  match p.pieces.reverse.dropWhile (·.isEmpty) with
  | [] => throw (if p.text.isEmpty then .missing else .isDirectory)
  | piece :: outer =>
    let directory ← disk.follow (disk.start p) outer.reverse
    match disk.root.find? directory.reverse with
    | some (.directory _) => return (directory, piece)
    | some (.file _) => throw .notDirectory
    | none => throw .missing

/-- The disk after a directory was made. -/
def makeDirectory (disk : Disk) (p : Path) : Except FileFault Disk := do
  let (directory, piece) ← disk.locateLast p
  let names := (piece :: directory).reverse
  if piece == "." || piece == ".." || (disk.root.find? names).isSome then throw .alreadyThere
  return { disk with root := FileTree.empty.put names disk.root }

/-- The disk after a file was written. -/
def write (disk : Disk) (p : Path) (text : String) : Except FileFault Disk := do
  let (directory, piece) ← disk.locateLast p
  let names := (piece :: directory).reverse
  let isDirectory := (disk.root.find? names).any (·.kind == .directory)
  if piece == "." || piece == ".." || isDirectory || p.text.toList.getLast? == some '/' then
    throw .isDirectory
  return { disk with root := (FileTree.file (some text)).put names disk.root }

def read (disk : Disk) (p : Path) : Except FileFault String := do
  match ← disk.find p with
  | .file (some text) => return text
  | .file none => throw .notText
  | .directory _ => throw .isDirectory

/-- Takes over a new disk, if there is one. -/
def become : Except FileFault Disk → StateM Disk (Except FileFault Unit)
  | .ok disk => do
    set disk
    return .ok ()
  | .error fault => return .error fault

/-- Access to the disk that is the state. -/
def files : Files (StateM Disk) where
  kind? p := return ((← get).find p).toOption.map (·.kind)
  names p := return (((← get).find p).toOption.map fun tree => tree.entries.map (·.1)).getD []
  read p := return (← get).read p
  makeDirectory p := do become ((← get).makeDirectory p)
  write p text := do become ((← get).write p text)

end Disk

end Endpoints
