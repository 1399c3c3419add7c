import Endpoints.Syntax.Expr

/-! # Declarations

The declarations of a source file that can carry metadata: classes, interfaces, type aliases, enums
and the namespaces around them.
-/

namespace Endpoints

/-- A decorator `@name<types>(arguments)`. -/
structure Decorator where
  /-- The name, dotted where it is a member (`Api.Get`). -/
  name : String
  arguments : List Expr
  typeArguments : List TypeExpr
  line : Nat

/-- The last part of a decorator's name. -/
def Decorator.simpleName (d : Decorator) : String :=
  String.ofList ((Text.splitOn '.' d.name.toList).getLast?.getD [])

/-- Who may see a member. -/
inductive Visibility where
  | publicMember | protectedMember | privateMember
deriving DecidableEq, Repr

structure PropertyDecl where
  name : String
  decorators : List Decorator
  type : Option TypeExpr
  optional : Bool
  readonly : Bool
  isStatic : Bool
  visibility : Visibility
  initializer : Option Expr
  doc : Option DocComment

/-- A parameter of a method or constructor. -/
structure ParameterDecl where
  name : String
  decorators : List Decorator
  type : Option TypeExpr
  optional : Bool
  rest : Bool
  initializer : Option Expr
  /-- Set for a constructor parameter that declares a property. -/
  propertyVisibility : Option Visibility
  readonly : Bool

/-- A method of a class. -/
structure MethodDecl where
  name : String
  decorators : List Decorator
  typeParameters : List TypeParameter
  parameters : List ParameterDecl
  returnType : Option TypeExpr
  isStatic : Bool
  isAsync : Bool
  visibility : Visibility
  /-- Whether the body has a `return` with a value. -/
  returnsValue : Bool
  doc : Option DocComment
  line : Nat

inductive ClassMember where
  | property (declaration : PropertyDecl)
  | method (declaration : MethodDecl)
  | constructor (parameters : List ParameterDecl)
  | index (signature : IndexSignature)

structure ClassDecl where
  name : String
  decorators : List Decorator
  typeParameters : List TypeParameter
  /-- The class after `extends`. -/
  superclass : Option TypeExpr
  /-- The types after `implements`. -/
  interfaces : List TypeExpr
  members : List ClassMember
  doc : Option DocComment
  line : Nat
  isAbstract : Bool

structure InterfaceDecl where
  name : String
  typeParameters : List TypeParameter
  /-- The types after `extends`. -/
  parents : List TypeExpr
  members : List TypeMember
  doc : Option DocComment
  line : Nat

structure AliasDecl where
  name : String
  typeParameters : List TypeParameter
  type : TypeExpr
  doc : Option DocComment
  line : Nat

structure EnumMember where
  name : String
  initializer : Option Expr
  doc : Option DocComment

structure EnumDecl where
  name : String
  members : List EnumMember
  isConst : Bool
  doc : Option DocComment
  line : Nat

/-- A statement of a source file. Statements of other kinds are not kept. -/
inductive Statement where
  | classDecl (declaration : ClassDecl)
  | interfaceDecl (declaration : InterfaceDecl)
  | aliasDecl (declaration : AliasDecl)
  | enumDecl (declaration : EnumDecl)
  | namespaceDecl (name : String) (line : Nat) (statements : List Statement)

/-- The declarations of a source file, in order, and the modules that it imports. -/
structure SourceFile where
  statements : List Statement
  imports : List String

end Endpoints
