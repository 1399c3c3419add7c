import Endpoints.Program.Basic
import Endpoints.Program.Declaration

/-! # Index of declarations

All named declarations of a program, looked up by name. A declaration directly inside a namespace is
visible by its own name and by its qualified name, a declaration deeper inside by its qualified name
only. The index is a table of declarations with a map from names to positions in it, and a walk
through the statements fills both.
-/

namespace Endpoints

/-- A declaration and where it stands. -/
structure Located where
  declaration : Declaration
  /-- The name with those of the namespaces around it. -/
  qualifiedName : String
  file : String
  /-- The number of namespaces around it. -/
  depth : Nat

namespace Located

/-- File and line. -/
def location (d : Located) : String :=
  d.file ++ ":" ++ toString d.declaration.line

/-- The names under which the declaration is visible. -/
def names (d : Located) : List String :=
  let name := d.declaration.name
  (if d.depth ≤ 1 then [name] else []) ++ (if d.qualifiedName = name then [] else [d.qualifiedName])

end Located

/-- The named declarations of a program, looked up by name. -/
structure Index where
  /-- All declarations, in the order in which they are met. -/
  declarations : List Located
  /-- The positions of the declarations that a name stands for. -/
  byName : Dict (List Nat)
  /-- The classes that may be controllers, with their files. -/
  classes : List (ClassDecl × String)

namespace Index

def empty : Index := ⟨[], .empty, []⟩

/-- A name inside a namespace. -/
def qualify (outer : Option String) (name : String) : String :=
  match outer with
  | some outer => outer ++ "." ++ name
  | none => name

/-- The positions that a name stands for. -/
def positions (index : Index) (name : String) : List Nat :=
  (index.byName.get? name).getD []

/-- Adds a position to those of a name. -/
def enter (index : Index) (name : String) (position : Nat) : Index :=
  { index with byName := index.byName.insert name (index.positions name ++ [position]) }

/-- Adds a declaration at the end of the table. Its own name leads to it at a depth of at most one
namespace; its qualified name does so too if it is another one. -/
def add (file : String) (outer : Option String) (depth : Nat) (index : Index)
    (declaration : Declaration) : Index :=
  let name := declaration.name
  let qualifiedName := qualify outer name
  let position := index.declarations.length
  let index := if depth ≤ 1 then index.enter name position else index
  let index := if qualifiedName ≠ name then index.enter qualifiedName position else index
  { index with
    declarations := index.declarations ++ [{ declaration, qualifiedName, file, depth }] }

/-- Adds a class to the classes that may be controllers, unless it is too deep. -/
def addClass (file : String) (depth : Nat) (index : Index) (d : ClassDecl) : Index :=
  if depth ≤ 1 then { index with classes := index.classes ++ [(d, file)] } else index

mutual

/-- Adds the declarations of a statement, `depth` namespaces being around it, together named
`outer`. -/
def addStatement (file : String) (outer : Option String) (depth : Nat) (index : Index) :
    Statement → Index
  | .classDecl d => (index.addClass file depth d).add file outer depth (.ofClass d)
  | .interfaceDecl d => index.add file outer depth (.ofInterface d)
  | .aliasDecl d => index.add file outer depth (.ofAlias d)
  | .enumDecl d => index.add file outer depth (.ofEnum d)
  | .namespaceDecl name _ statements =>
    addStatements file (some (qualify outer name)) (depth + 1) index statements

def addStatements (file : String) (outer : Option String) (depth : Nat) (index : Index) :
    List Statement → Index
  | [] => index
  | statement :: statements =>
    addStatements file outer depth (addStatement file outer depth index statement) statements

end

def ofProgram (program : Program) : Index :=
  program.foldl (fun index file => index.addStatements file.path none 0 file.content.statements)
    empty

/-- The declarations visible under a name. -/
def find (index : Index) (name : String) : List Located :=
  (index.positions name).filterMap (index.declarations[·]?)

end Index

end Endpoints
