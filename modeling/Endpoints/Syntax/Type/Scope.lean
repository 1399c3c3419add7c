import Endpoints.Dict
import Endpoints.Syntax.Type

/-! # Type parameters

A `Scope` says what type parameters stand for. `TypeExpr.substitute` puts their bindings in place of
references to them.
-/

namespace Endpoints

/-- The types that type parameters stand for. -/
abbrev Scope := Dict TypeExpr

mutual

/-- Replaces references to type parameters by what they stand for. A reference with type arguments
is never one. -/
def TypeExpr.substitute (scope : Scope) : TypeExpr → TypeExpr
  | .reference name arguments =>
    match arguments with
    | [] => (scope.get? name).getD (.reference name [])
    | first :: rest => .reference name (first.substitute scope :: substituteList scope rest)
  | .array element => .array (element.substitute scope)
  | .tuple elements => .tuple (substituteList scope elements)
  | .union members => .union (substituteList scope members)
  | .intersection members => .intersection (substituteList scope members)
  | .object members => .object (substituteMembers scope members)
  | .keyword word => .keyword word
  | .literal value => .literal value
  | .unsupported text => .unsupported text

def substituteList (scope : Scope) : List TypeExpr → List TypeExpr
  | [] => []
  | type :: types => type.substitute scope :: substituteList scope types

def TypeMember.substitute (scope : Scope) : TypeMember → TypeMember
  | .property name type optional readonly doc =>
    .property name (substitute? scope type) optional readonly doc
  | .method name => .method name
  | .index keyName keyType valueType =>
    .index keyName (keyType.substitute scope) (valueType.substitute scope)

def substitute? (scope : Scope) : Option TypeExpr → Option TypeExpr
  | some type => some (type.substitute scope)
  | none => none

def substituteMembers (scope : Scope) : List TypeMember → List TypeMember
  | [] => []
  | member :: members => member.substitute scope :: substituteMembers scope members

end

namespace Scope

/-- What a parameter without argument stands for: its default, in which the parameters before it may
occur. -/
def defaultOf (scope : Scope) (parameter : TypeParameter) : TypeExpr :=
  match parameter.default with
  | some type => type.substitute scope
  | none => .keyword .unknown

/-- Binds parameters to arguments one by one, in addition to a scope. -/
def extend (scope : Scope) : List TypeParameter → List TypeExpr → Scope
  | [], _ => scope
  | parameter :: parameters, [] =>
    extend (scope.insert parameter.name (defaultOf scope parameter)) parameters []
  | parameter :: parameters, argument :: arguments =>
    extend (scope.insert parameter.name argument) parameters arguments

/-- The scope of a declaration with type parameters that is used with these arguments. -/
def bind (parameters : List TypeParameter) (arguments : List TypeExpr) : Scope :=
  extend .empty parameters arguments

/-- The scope in which every parameter stands for its constraint. -/
def ofConstraints (parameters : List TypeParameter) : Scope :=
  .ofList (parameters.map fun parameter =>
    (parameter.name, parameter.constraint.getD (.keyword .unknown)))

end Scope

end Endpoints
