import Endpoints.Program.Index

/-! # How deep resolution can go

A type is resolved part by part, and a named type by way of its declaration. Both are bounded: named
types are constructed inside each other at most `Index.levels` deep, a chain of inheritance holds
each declaration at most once, and every such step makes a type higher by no more than what the
program itself contains. `Index.bound` puts these numbers together.
-/

namespace Endpoints

mutual

/-- The number of levels of a type expression. A reference counts for two, as it may be replaced by
a union of literals. -/
def TypeExpr.height : TypeExpr → Nat
  | .reference _ arguments => typesHeight arguments + 2
  | .array element => element.height + 1
  | .tuple elements => typesHeight elements + 1
  | .union members => typesHeight members + 1
  | .intersection members => typesHeight members + 1
  | .object members => membersHeight members + 1
  | .keyword _ | .literal _ | .unsupported _ => 0

def typesHeight : List TypeExpr → Nat
  | [] => 0
  | type :: types => max type.height (typesHeight types)

def typeHeight? : Option TypeExpr → Nat
  | some type => type.height
  | none => 0

def TypeMember.height : TypeMember → Nat
  | .property _ type _ _ _ => typeHeight? type
  | .method _ => 0
  | .index _ _ valueType => valueType.height

def membersHeight : List TypeMember → Nat
  | [] => 0
  | member :: members => max member.height (membersHeight members)

end

/-- The sum of a measure over a list. -/
def total (measure : α → Nat) : List α → Nat
  | [] => 0
  | item :: items => measure item + total measure items

/-- The number of levels of all type expressions of a declaration together. -/
def Declaration.height (d : Declaration) : Nat :=
  let parameters := total (fun p => typeHeight? p.default) d.typeParameters
  let heritage := total (·.height) d.heritage
  let members := total (fun m => typeHeight? m.type) d.members
  let indexes := total (fun i => i.valueType.height) d.indexSignatures
  let target := match d with
    | .ofAlias a => a.type.height
    | _ => 0
  parameters + heritage + members + indexes + target

/-- The number of levels of all type expressions of a program together. -/
def Index.height (index : Index) : Nat :=
  total (fun d => d.declaration.height) index.declarations

/-- The greatest number of declarations in a chain of inheritance, and one more. -/
def Index.maxChain (index : Index) : Nat :=
  index.declarations.length + 1

/-- More than the greatest number of named types that are constructed inside each other. At most
`maxDepth` of them are under construction at once. An enum that has the name of one of them ends its
construction, but every enum does so only once. -/
def Index.levels (index : Index) : Nat :=
  (maxDepth + 1) * (index.declarations.length + 1)

/-- A bound for the depth to which a type is resolved. -/
def Index.bound (index : Index) (type : TypeExpr) : Nat :=
  (index.levels + 1) * (type.height + index.levels * (index.maxChain * index.height) + 1)

end Endpoints
