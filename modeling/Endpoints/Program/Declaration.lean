import Endpoints.Syntax.Declaration

/-! # Named declarations

Classes, interfaces, type aliases and enums as named types: their type parameters, their members and
what they inherit from.
-/

namespace Endpoints

/-- A declaration that gives a name to a type. -/
inductive Declaration where
  | ofClass (declaration : ClassDecl)
  | ofInterface (declaration : InterfaceDecl)
  | ofAlias (declaration : AliasDecl)
  | ofEnum (declaration : EnumDecl)

/-- A member that can be a property of a schema. -/
structure Member where
  name : String
  type : Option TypeExpr
  optional : Bool
  initializer : Option Expr
  doc : Option DocComment
  decorators : List Decorator

namespace TypeMember

def member? : TypeMember → Option Member
  | property name type optional _ doc =>
    some { name, type, optional, initializer := none, doc, decorators := [] }
  | _ => none

def indexSignature? : TypeMember → Option IndexSignature
  | index keyName keyType valueType => some { keyName, keyType, valueType }
  | _ => none

end TypeMember

namespace ClassMember

/-- The public property that a constructor parameter declares. -/
def ofParameter? (p : ParameterDecl) : Option Member :=
  if p.propertyVisibility = some .publicMember then
    some { name := p.name, type := p.type, optional := p.optional, initializer := p.initializer
           doc := none, decorators := p.decorators }
  else
    none

/-- The public properties of instances that a class member declares. -/
def properties : ClassMember → List Member
  | property p =>
    if !p.isStatic && p.visibility = .publicMember then
      [{ name := p.name, type := p.type, optional := p.optional, initializer := p.initializer
         doc := p.doc, decorators := p.decorators }]
    else
      []
  | constructor parameters => parameters.filterMap ofParameter?
  | _ => []

def indexSignature? : ClassMember → Option IndexSignature
  | index signature => some signature
  | _ => none

end ClassMember

namespace Declaration

/-- The name, without the namespaces around it. -/
def name : Declaration → String
  | ofClass d => d.name
  | ofInterface d => d.name
  | ofAlias d => d.name
  | ofEnum d => d.name

def line : Declaration → Nat
  | ofClass d => d.line
  | ofInterface d => d.line
  | ofAlias d => d.line
  | ofEnum d => d.line

def doc : Declaration → Option DocComment
  | ofClass d => d.doc
  | ofInterface d => d.doc
  | ofAlias d => d.doc
  | ofEnum d => d.doc

def typeParameters : Declaration → List TypeParameter
  | ofClass d => d.typeParameters
  | ofInterface d => d.typeParameters
  | ofAlias d => d.typeParameters
  | ofEnum _ => []

/-- Whether the declaration describes an object by its members. -/
def isStructural : Declaration → Bool
  | ofClass _ | ofInterface _ => true
  | ofAlias d => match d.type with
    | .object _ => true
    | _ => false
  | ofEnum _ => false

/-- The types whose members the declaration inherits, in order. -/
def heritage : Declaration → List TypeExpr
  | ofClass d => d.superclass.toList ++ d.interfaces
  | ofInterface d => d.parents
  | ofAlias _ | ofEnum _ => []

/-- The members of an alias of an object type. -/
def aliasMembers (d : AliasDecl) : List TypeMember :=
  match d.type with
  | .object members => members
  | _ => []

/-- The declaration's own properties, in order. -/
def members : Declaration → List Member
  | ofClass d => d.members.flatMap (·.properties)
  | ofInterface d => d.members.filterMap (·.member?)
  | ofAlias d => (aliasMembers d).filterMap (·.member?)
  | ofEnum _ => []

/-- The declaration's own index signatures, in order. -/
def indexSignatures : Declaration → List IndexSignature
  | ofClass d => d.members.filterMap (·.indexSignature?)
  | ofInterface d => d.members.filterMap (·.indexSignature?)
  | ofAlias d => (aliasMembers d).filterMap (·.indexSignature?)
  | ofEnum _ => []

/-- The decorators of a class; other declarations have none. -/
def decorators : Declaration → List Decorator
  | ofClass d => d.decorators
  | _ => []

end Declaration

/-- The values of the members of an enum, by their names. A member without initializer is one more
than the number before it, in words of 64 bits, or its own name if no number stands before it.
`next` is the number for the next member. -/
def EnumMember.values (next : Option Int) : List EnumMember → List (String × Json)
  | [] => []
  | member :: members =>
    let value := match member.initializer, next with
      | some e, _ => e.toJson
      | none, some n => .int n
      | none, none => .string member.name
    (member.name, value) :: values (value.asInt?.map (Word.succSigned 64)) members

/-- The members of an enum with their values. -/
def EnumDecl.values (d : EnumDecl) : List (String × Json) :=
  EnumMember.values (some 0) d.members

end Endpoints
