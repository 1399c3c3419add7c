import Endpoints.Resolution.Step

/-! # Resolving types

`Resolver.resolve` gives the schema of a type expression and enters the named types that it needs
into the context.
-/

namespace Endpoints.Resolver

/-- The schema of a type whose parts lie at most `bound` levels deep. -/
def resolveWithin (r : Resolver) : (bound : Nat) → Parts Resolve
  | 0 => fun _ _ => .fail (.unsupportedType .unbounded)
  | bound + 1 => r.step (r.resolveWithin bound)

/-- The schema of a type. -/
def resolve (r : Resolver) (type : TypeExpr) (hints : Hints) : Resolve Schema :=
  r.resolveWithin (r.index.bound type) type hints

/-- The constraints that the documentation of an alias gives. -/
def aliasValidators (r : Resolver) : TypeExpr → Validators
  | .reference name _ =>
    match r.index.find name with
    | [located] =>
      match located.declaration with
      | .ofAlias d => Validator.ofDoc d.doc
      | _ => .empty
    | _ => .empty
  | _ => .empty

end Endpoints.Resolver
