import Endpoints.Decorator.Mapping
import Endpoints.Syntax.Declaration

/-! # Finding roles on declarations

`Mapping.find?` looks for a role among the decorators of a declaration. The result is the first
representation of the role that is there, with all decorators of that name; its details are read by
the rules of the representation.
-/

namespace Endpoints

/-- What a rule selects among the arguments of a decorator. -/
inductive Argument where
  | expr (value : Expr)
  | exprs (values : List Expr)
  | type (value : TypeExpr)
  | types (values : List TypeExpr)

/-- A role found on a declaration. -/
structure RoleMatch where
  representation : Representation
  /-- The decorators of that representation, at least one. -/
  instances : List Decorator

/-- A literal as the text of a detail; numbers count by their text. -/
def Expr.literalText? : Expr → Option String
  | .string text | .number text => some text
  | _ => none

/-- The list, unless it is empty. -/
def nonEmpty? (items : List α) : Option (List α) :=
  if items.isEmpty then none else some items

/-- `nonEmpty?` gives nothing but the list itself. -/
theorem nonEmpty?_eq_some {items found : List α} (h : nonEmpty? items = some found) :
    found = items := by
  unfold nonEmpty? at h
  split at h
  · cases h
  · exact (Option.some.inj h).symm

namespace Rule

/-- The arguments that a rule takes. -/
def select? (rule : Rule) (d : Decorator) : Option Argument :=
  match rule.slot, rule.pick with
  | .value, .one position => d.arguments[position]?.map .expr
  | .value, .all => (nonEmpty? d.arguments).map .exprs
  | .type, .one position => d.typeArguments[position]?.map .type
  | .type, .all => (nonEmpty? d.typeArguments).map .types

/-- The argument that a rule reads; nothing if it is missing. -/
def read? (rule : Rule) (d : Decorator) : Option Argument :=
  match rule.field, rule.select? d with
  | some field, some (.expr (.object entries)) => ((Expr.object entries).field? field).map .expr
  | _, argument => argument

end Rule

/-- Whether a decorator has a name, in full or as its last part. -/
def Decorator.isNamed (d : Decorator) (name : String) : Bool :=
  d.name == name || d.simpleName == name

namespace RoleMatch

/-- A detail on one decorator. -/
def value? (m : RoleMatch) (d : Decorator) (detail : Detail) : Option Argument :=
  (m.representation.rule detail).read? d

/-- A detail on the first decorator. -/
def first? (m : RoleMatch) (detail : Detail) : Option Argument :=
  m.instances.head?.bind (m.value? · detail)

/-- A detail as a text. -/
def textOf? (m : RoleMatch) (d : Decorator) (detail : Detail) : Option String :=
  match m.value? d detail with
  | some (.expr value) => value.literalText?
  | some (.exprs values) => values.head?.bind (·.literalText?)
  | _ => none

/-- A detail on the first decorator as a text. -/
def text? (m : RoleMatch) (detail : Detail) : Option String :=
  m.instances.head?.bind (m.textOf? · detail)

/-- The texts of an expression; those of the items of a list. -/
def exprTexts : Expr → List String
  | .array items => items.filterMap (·.literalText?)
  | other => other.literalText?.toList

/-- A detail as a list of texts. -/
def textsOf (m : RoleMatch) (d : Decorator) (detail : Detail) : List String :=
  match m.value? d detail with
  | some (.expr value) => exprTexts value
  | some (.exprs values) => values.flatMap exprTexts
  | _ => []

/-- A detail on all decorators as a list of texts. -/
def allTexts (m : RoleMatch) (detail : Detail) : List String :=
  m.instances.flatMap (m.textsOf · detail)

/-- A detail as a type expression; a name given as a value is read as a type. -/
def typeOf? (m : RoleMatch) (d : Decorator) (detail : Detail) : Option TypeExpr :=
  match m.value? d detail with
  | some (.type value) => some value
  | some (.types values) => values.head?
  | some (.expr value) => value.asType?
  | some (.exprs values) => values.head?.bind (·.asType?)
  | none => none

/-- A detail as a JSON value. -/
def jsonOf? (m : RoleMatch) (d : Decorator) (detail : Detail) : Option Json :=
  match m.value? d detail with
  | some (.expr value) => some value.toJson
  | some (.exprs values) => some (.array (values.map (·.toJson)))
  | _ => none

end RoleMatch

namespace Mapping

/-- The match of a representation among decorators. -/
def matchOf? (decorators : List Decorator) (representation : Representation) : Option RoleMatch :=
  (nonEmpty? (decorators.filter (·.isNamed representation.name))).map (⟨representation, ·⟩)

/-- A role among decorators: the first representation that is there. -/
def find? (mapping : Mapping) (decorators : List Decorator) (role : Role) : Option RoleMatch :=
  (mapping.representations role).findSome? (matchOf? decorators)

/-- Whether a role is among decorators. -/
def has (mapping : Mapping) (decorators : List Decorator) (role : Role) : Bool :=
  (mapping.find? decorators role).isSome

end Mapping

end Endpoints
