import Endpoints.Proofs.Refusal
import Endpoints.Proofs.Rules
import Endpoints.Proofs.Substitution

/-!
# Constraints of method type parameters

The type parameters of a method stand for their constraints. The constraints are put in place of the
parameters once, as they are written: a parameter that a constraint mentions is not replaced in
turn. It stays behind as a plain name, and if nothing is declared under this name, resolution
refuses it, although the parameter has a constraint of its own.
-/

namespace Endpoints

open Resolve

/-- A parameter stays behind exactly if the constraint of one that the type mentions mentions it. -/
theorem Scope.mem_plainNames_ofConstraints {parameters : List TypeParameter}
    (h : (parameters.map (·.name)).Nodup) {q : TypeParameter} (hq : q ∈ parameters)
    (type : TypeExpr) :
    q.name ∈ (type.substitute (ofConstraints parameters)).plainNames ↔
      ∃ p ∈ parameters, p.name ∈ type.plainNames ∧
        ∃ constraint, p.constraint = some constraint ∧ q.name ∈ constraint.plainNames := by
  rw [TypeExpr.plainNames_substitute, List.mem_flatMap]
  constructor
  · rintro ⟨name, hname, hmem⟩
    rw [namesFor] at hmem
    cases hbound : (ofConstraints parameters).get? name with
    | none =>
      -- A name that stays is not the name of a parameter.
      rw [hbound] at hmem
      obtain rfl := List.mem_singleton.1 hmem
      rw [(get?_ofConstraints h).2 ⟨q, hq, rfl, rfl⟩] at hbound
      cases hbound
    | some bound =>
      rw [hbound] at hmem
      obtain ⟨p, hp, rfl, rfl⟩ := (get?_ofConstraints h).1 hbound
      refine ⟨p, hp, hname, ?_⟩
      cases hconstraint : p.constraint with
      | none => simp [constraintOf, hconstraint, TypeExpr.plainNames] at hmem
      | some constraint => exact ⟨constraint, rfl, by simpa [constraintOf, hconstraint] using hmem⟩
  · rintro ⟨p, hp, hname, constraint, hconstraint, hmem⟩
    refine ⟨p.name, hname, ?_⟩
    rw [namesFor, (get?_ofConstraints h).2 ⟨p, hp, rfl, rfl⟩]
    simpa [constraintOf, hconstraint] using hmem

/-! ## Names that stand for nothing -/

namespace Resolver

/-- The library types that can be used without type arguments. -/
def plainLibraryNames : List String :=
  ["Date", "Buffer", "ArrayBuffer", "Uint8Array", "Readable", "ReadableStream", "Blob", "File",
    "Express.Multer.File", "Object"]

private theorem library_plain (parts : Parts Resolve) {name : String} (h : name ∉ plainLibraryNames)
    (hints : Hints) : library parts name [] hints = Resolve.fail (.unresolvableType name) := by
  simp only [plainLibraryNames, List.mem_cons, List.not_mem_nil, or_false, not_or] at h
  unfold library
  split <;> simp_all

/-- A plain name stands for nothing: it is not declared, and it is no member of an enum and no
library type. -/
structure Unknown (r : Resolver) (name : String) : Prop where
  undeclared : r.index.find name = []
  noMember : r.enumMember? name = none
  noLibrary : name ∉ plainLibraryNames

variable {r : Resolver} {name : String}

theorem Unknown.resolve (h : r.Unknown name) (hints : Hints) :
    r.resolve (.named name) hints = Resolve.fail (.unresolvableType name) := by
  rw [resolve_eq_step]
  change r.reference r.resolve name [] hints = _
  simp only [reference, h.undeclared, h.noMember]
  exact library_plain _ h.noLibrary hints

end Resolver

/-- The plain name is what is resolved first in the type. -/
inductive TypeExpr.LedBy (name : String) : TypeExpr → Prop
  | plain : LedBy name (.named name)
  | array {element : TypeExpr} : LedBy name element → LedBy name (.array element)
  | tuple {first : TypeExpr} {rest : List TypeExpr} : LedBy name first →
      LedBy name (.tuple (first :: rest))
  | union {first : TypeExpr} {rest : List TypeExpr} : LedBy name first →
      LedBy name (.union (first :: rest))
  | intersection {first : TypeExpr} {rest : List TypeExpr} : LedBy name first →
      LedBy name (.intersection (first :: rest))

section

open Resolver

variable {r : Resolver} {name : String} {s : Session}

private theorem run_resolveAll_of_error {parts : Parts Resolve} {first : TypeExpr}
    {rest : List TypeExpr}
    {hints : Hints} {e : Error} (h : (parts first hints).run s = (.error e, s)) :
    (resolveAll parts (first :: rest) hints).run s = (.error e, s) := by
  rw [resolveAll, List.mapM_cons]
  exact run_bind_of_error h

/-- A type is refused for the name that is resolved first in it, before anything else happens. -/
theorem TypeExpr.LedBy.resolve {type : TypeExpr} (h : type.LedBy name) (hname : r.Unknown name)
    (hints : Hints) :
    (r.resolve type hints).run s = (.error (.ofFault (.unresolvableType name)), s) := by
  -- Induction on how the name leads the type. In each case the led part is resolved first.
  induction h generalizing hints with
  | plain =>
    rw [hname.resolve]
    rfl
  | array _ ih =>
    rw [resolve_eq_step]
    exact run_bind_of_error (ih hints)
  | tuple _ ih =>
    rw [resolve_eq_step]
    exact run_bind_of_error (run_resolveAll_of_error (ih hints))
  | union _ ih =>
    rw [resolve_eq_step]
    exact run_bind_of_error (run_resolveAll_of_error (ih hints))
  | intersection _ ih =>
    rw [resolve_eq_step]
    exact run_bind_of_error (run_resolveAll_of_error (ih .none))

/-- An endpoint fails if its type is refused. -/
private theorem Resolver.endpoint?_of_returnType {m : MethodDecl} {type : TypeExpr} {verb : Verb}
    {found : RoleMatch} {e : Error} {t : Session} (hverb : r.verb? m = .ok (some (verb, found)))
    (htype : m.returnType = some type)
    (hrun : (r.resolve (type.substitute (.ofConstraints m.typeParameters)) .none).run s =
      (.error e, t)) (controller path : String) :
    (r.endpoint? controller path m).run s =
      (.error (e.inside (.method controller m.name)), t) := by
  refine run_inside_error.2 ⟨e, ?_, rfl⟩
  rw [hverb, run_bind_of_ok (run_ofExcept_ok _ s)]
  -- The result is resolved before the parameters, and its failure ends both.
  refine run_bind_of_error ?_
  refine run_bind_of_error ?_
  rw [returnSchema, htype]
  exact hrun

end

/-- A method whose type parameters have different names. After its constraints are put in place of
the parameters in one of its types, a parameter stays behind exactly if the constraint of one that
the type mentions mentions it; so none does if no constraint mentions a parameter. A name that
resolution then finds to stand for nothing is one that the type leads to. And a parameter that stays
behind is refused where it is resolved first in the type, so that no endpoint comes of a method that
returns such a type, whatever the constraint of this parameter is. -/
theorem parameters_stay_in_constraints (r : Resolver) (m : MethodDecl)
    (hnames : (m.typeParameters.map (·.name)).Nodup) :
    let scope := Scope.ofConstraints m.typeParameters
    (∀ type : TypeExpr, ∀ q ∈ m.typeParameters, q.name ∈ (type.substitute scope).plainNames ↔
      ∃ p ∈ m.typeParameters, p.name ∈ type.plainNames ∧
        ∃ constraint, p.constraint = some constraint ∧ q.name ∈ constraint.plainNames) ∧
    (∀ (type : TypeExpr) hints s e t name,
      (r.resolve (type.substitute scope) hints).run s = (.error e, t) →
      e.fault = .unresolvableType name →
      ∃ arguments, r.Reaches [type.substitute scope] (.reference name arguments) ∧
        r.index.find name = [] ∧ r.enumMember? name = none) ∧
    (∀ type : TypeExpr, ∀ q ∈ m.typeParameters, (type.substitute scope).LedBy q.name →
      r.Unknown q.name →
      (∀ hints s, (r.resolve (type.substitute scope) hints).run s =
        (.error (.ofFault (.unresolvableType q.name)), s)) ∧
      (m.returnType = some type → (∃ found, r.verb? m = .ok (some found)) →
        ∀ controller path s, (r.endpoint? controller path m).run s =
          (.error ⟨[.method controller m.name], .unresolvableType q.name⟩, s))) := by
  intro scope
  refine ⟨fun type q hq => Scope.mem_plainNames_ofConstraints hnames hq type, ?_, ?_⟩
  -- An unresolvable name is one that the type reaches.
  · intro type hints s e t name hrun hfault
    exact (Resolver.resolve_raised hrun).2 name hfault
  · intro type q _ hled hunknown
    refine ⟨fun hints s => hled.resolve hunknown hints, ?_⟩
    -- The return type of an endpoint is resolved first, so nothing else can fail before it.
    rintro htype ⟨⟨verb, found⟩, hverb⟩ controller path s
    exact Resolver.endpoint?_of_returnType hverb htype (hled.resolve hunknown .none) controller path

/-- The method `x<T extends U, U extends string>(): T` of a program that declares nothing else: `U`
stays behind, and is refused. -/
theorem constraint_of_constraint_refused :
    let r : Resolver := ⟨.ofProgram [], Mapping.ofSettings .default⟩
    let m : MethodDecl :=
      { name := "x", decorators := [⟨"Get", [], [], 1⟩]
        typeParameters := [⟨"T", some (.named "U"), none⟩, ⟨"U", some (.keyword .string), none⟩]
        parameters := [], returnType := some (.named "T"), isStatic := false, isAsync := false
        visibility := .publicMember, returnsValue := false, doc := none, line := 1 }
    "U" ∈ ((TypeExpr.named "T").substitute (.ofConstraints m.typeParameters)).plainNames ∧
      (r.endpoint? "A" "a" m).run .empty =
        (.error ⟨[.method "A" "x"], .unresolvableType "U"⟩, .empty) := by
  intro r m
  have hnames : (m.typeParameters.map (·.name)).Nodup := by decide
  -- The constraint of the first parameter takes its place, and its own parameter stays.
  have hsubstituted :
      (TypeExpr.named "T").substitute (.ofConstraints m.typeParameters) = .named "U" := rfl
  have hunknown : r.Unknown "U" := ⟨rfl, by decide +kernel, by decide⟩
  -- The decorator makes the method an endpoint.
  have hverb : ∃ found, r.verb? m = .ok (some found) := by
    obtain ⟨found, hfound, hsome⟩ := Except.exists_ok_of_toOption
      (show (r.verb? m).toOption.map (·.isSome) = some true by decide +kernel)
    obtain ⟨one, rfl⟩ := Option.isSome_iff_exists.1 hsome
    exact ⟨one, hfound⟩
  obtain ⟨hstays, -, hrefused⟩ := parameters_stay_in_constraints r m hnames
  have hU : (⟨"U", some (.keyword .string), none⟩ : TypeParameter) ∈ m.typeParameters := by
    simp [m]
  obtain ⟨-, hendpoint⟩ := hrefused (.named "T") _ hU (hsubstituted ▸ .plain) hunknown
  refine ⟨(hstays (.named "T") _ hU).2 ?_, hendpoint rfl hverb "A" "a" .empty⟩
  exact ⟨⟨"T", some (.named "U"), none⟩, by simp [m], by decide, .named "U", rfl, by decide⟩

end Endpoints
