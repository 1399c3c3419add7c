import Endpoints.Proofs.Binding
import Endpoints.Proofs.History

/-!
# Scopes one after the other

A type argument is passed on: a declaration that is used with it uses other declarations in turn, as
its parents or in its members, and their arguments mention its type parameters. Each declaration is
read in a scope of its own, made from arguments in which the parameters of the declaration around it
have been replaced. Here this is compared with a single substitution at the end of the chain.
-/

namespace Endpoints

/-! ## Composed scopes -/

namespace Scope

/-- The scope of a substitution in `first` and then in `second`. -/
def andThen (first second : Scope) : Scope :=
  first.entries.foldr (fun entry scope => scope.insert entry.1 (entry.2.substitute second)) second

/-- `andThen` gives the types of the first scope substituted, then those of the second. -/
private theorem get?_andThen (first second : Scope) (name : String) :
    (first.andThen second).get? name =
      ((first.get? name).map (·.substitute second)).or (second.get? name) := by
  change _ = ((lookupEntry name first.entries).map _).or _
  unfold andThen
  -- Entry by entry, where the first entry of a name counts.
  induction first.entries with
  | nil => rfl
  | cons entry entries ih =>
    rw [List.foldr_cons, Dict.get?_insert, ih, lookupEntry]
    by_cases h : name = entry.1 <;> simp [h]

private theorem typeFor_andThen (first second : Scope) (name : String) :
    (first.andThen second).typeFor name = (first.typeFor name).substitute second := by
  rw [typeFor, typeFor, get?_andThen]
  cases first.get? name with
  | none => rfl
  | some type => rfl

end Scope

theorem TypeExpr.substitute_substitute (first second : Scope) (type : TypeExpr) :
    (type.substitute first).substitute second = type.substitute (first.andThen second) :=
  type.substitute_substitute_of fun name _ => (Scope.typeFor_andThen first second name).symm

/-! ## Declarations inside each other -/

/-- A declaration with type parameters and the arguments with which it is used. -/
structure Application where
  parameters : List TypeParameter
  arguments : List TypeExpr

namespace Application

/-- The scope of the declaration, with the arguments as they are written. -/
def scope (a : Application) : Scope := .bind a.parameters a.arguments

/-- The scope of the declaration where it is used inside another one, whose scope is `outer`. -/
def within (a : Application) (outer : Scope) : Scope :=
  .bind a.parameters (substituteList outer a.arguments)

/-- A name in a type of the declaration or in one of its defaults is one of its parameters or means
the same in the scope around it as everywhere; and defaults only mention earlier parameters. -/
structure Apart (a : Application) (outer : Scope) (type : TypeExpr) : Prop where
  defaults : DefaultsLookBack a.parameters
  free : ∀ name ∈ type.plainNames ++ a.parameters.flatMap (·.defaultNames),
    name ∈ a.parameters.map (·.name) ∨ outer.get? name = none

end Application

namespace Scope

variable {outer inner passed : Scope} {parameters : List TypeParameter}

/-- A second substitution matters only for what the first binds, if it finds no other name. -/
private theorem substitute_of_passed {type : TypeExpr}
    (hpassed : ∀ name, passed.get? name = (inner.get? name).map (·.substitute outer))
    (hfree : ∀ name ∈ type.plainNames, (inner.get? name).isSome ∨ outer.get? name = none) :
    type.substitute passed = (type.substitute inner).substitute outer := by
  refine (type.substitute_substitute_of fun name hname => ?_).symm
  rw [typeFor, typeFor, hpassed]
  cases hinner : inner.get? name with
  | some bound => rfl
  | none =>
    -- The name stays, and `outer` does not replace it either.
    have hnone := (hfree name hname).resolve_left (by simp [hinner])
    exact typeFor_of_none hnone

/-- The same for a default: what it mentions is bound, or `outer` does not know it. -/
private theorem defaultOf_of_passed {p : TypeParameter}
    (hpassed : ∀ name, passed.get? name = (inner.get? name).map (·.substitute outer))
    (hfree : ∀ name ∈ p.defaultNames, (inner.get? name).isSome ∨ outer.get? name = none) :
    passed.defaultOf p = (inner.defaultOf p).substitute outer := by
  unfold TypeParameter.defaultNames at hfree
  unfold defaultOf
  cases hdefault : p.default with
  | none => rfl
  | some type =>
    rw [hdefault] at hfree
    exact substitute_of_passed hpassed hfree

/-- Arguments can be replaced before they are bound or after. -/
private theorem get?_extend_substituteList
    (hpassed : ∀ name, passed.get? name = (inner.get? name).map (·.substitute outer))
    (hdefaults : DefaultsLookBack parameters)
    (hfree : ∀ p ∈ parameters, ∀ name ∈ p.defaultNames,
      (inner.get? name).isSome ∨ name ∈ parameters.map (·.name) ∨ outer.get? name = none)
    (arguments : List TypeExpr) (name : String) :
    (passed.extend parameters (substituteList outer arguments)).get? name =
      ((inner.extend parameters arguments).get? name).map (·.substitute outer) := by
  -- Parameter by parameter: each is bound to an argument or, behind the last of them, to its
  -- default.
  induction parameters generalizing inner passed arguments with
  | nil => exact hpassed name
  | cons p parameters ih =>
    obtain ⟨hlook, hdefaults⟩ := hdefaults
    -- Both conditions go on to the later parameters, whatever the first one is bound to.
    have hinsert (type : TypeExpr) (name : String) :
        Dict.get? (passed.insert p.name (type.substitute outer)) name =
          (Dict.get? (inner.insert p.name type) name).map (·.substitute outer) := by
      by_cases h : name = p.name <;> simp [h, hpassed]
    have hlater (type : TypeExpr) : ∀ q ∈ parameters, ∀ name ∈ q.defaultNames,
        (Dict.get? (inner.insert p.name type) name).isSome ∨
          name ∈ parameters.map (·.name) ∨ outer.get? name = none := by
      intro q hq name hname
      by_cases h : name = p.name
      · simp [h]
      · simpa [h] using hfree q (List.mem_cons_of_mem _ hq) name hname
    cases arguments with
    | cons argument arguments => exact ih (hinsert argument) hdefaults (hlater argument) arguments
    | nil =>
      -- A default mentions no later parameter, so its names are bound already or not known outside.
      have hdefault : passed.defaultOf p = (inner.defaultOf p).substitute outer := by
        refine defaultOf_of_passed hpassed fun name hname => ?_
        rcases hfree p List.mem_cons_self name hname with hbound | hparameter | hnone
        · exact .inl hbound
        · obtain ⟨q, hq, rfl⟩ := List.mem_map.1 hparameter
          exact absurd hname (hlook q hq)
        · exact .inr hnone
      change (extend (passed.insert p.name (passed.defaultOf p)) parameters
        (substituteList outer [])).get? name = _
      rw [hdefault]
      exact ih (hinsert _) hdefaults (hlater _) []

end Scope

namespace Application

variable {a : Application} {outer : Scope} {type : TypeExpr}

private theorem get?_within (hdefaults : DefaultsLookBack a.parameters)
    (hfree : ∀ p ∈ a.parameters, ∀ name ∈ p.defaultNames,
      name ∈ a.parameters.map (·.name) ∨ outer.get? name = none) (name : String) :
    (a.within outer).get? name = (a.scope.get? name).map (·.substitute outer) := by
  unfold within scope Scope.bind
  refine Scope.get?_extend_substituteList (fun _ => rfl) hdefaults ?_ a.arguments name
  exact fun p hp name hname => .inr (hfree p hp name hname)

theorem Apart.substitute_within (h : a.Apart outer type) :
    type.substitute (a.within outer) = (type.substitute a.scope).substitute outer := by
  have hdefaults : ∀ p ∈ a.parameters, ∀ name ∈ p.defaultNames,
      name ∈ a.parameters.map (·.name) ∨ outer.get? name = none := fun p hp name hname =>
    h.free name (List.mem_append_right _ (List.mem_flatMap.2 ⟨p, hp, hname⟩))
  refine Scope.substitute_of_passed (get?_within h.defaults hdefaults) fun name hname => ?_
  refine (h.free name (List.mem_append_left _ hname)).imp_left fun hparameter => ?_
  exact Scope.isSome_get?_extend (.inr hparameter)

end Application

/-! ## Chains of declarations -/

namespace Scope

/-- The scope of a declaration that is used inside others, the innermost first, of which the
outermost one is used in the scope `outer`. -/
def passed (outer : Scope) (chain : List Application) : Scope :=
  chain.foldr (fun a scope => a.within scope) outer

/-- The scopes of the declarations composed, with the arguments as they are written. -/
def composed (outer : Scope) (chain : List Application) : Scope :=
  chain.foldr (fun a scope => a.scope.andThen scope) outer

end Scope

/-- What the type has become at each declaration stands apart from the scope around it. -/
def TypeExpr.ApartAlong (outer : Scope) : List Application → TypeExpr → Prop
  | [], _ => True
  | a :: chain, type =>
    a.Apart (outer.passed chain) type ∧ ApartAlong outer chain (type.substitute a.scope)

/-- Arguments that are passed on from declaration to declaration give the type that one substitution
gives. -/
theorem TypeExpr.ApartAlong.substitute_passed {outer : Scope} {chain : List Application}
    {type : TypeExpr} (h : type.ApartAlong outer chain) :
    type.substitute (outer.passed chain) = type.substitute (outer.composed chain) := by
  -- From the innermost declaration outwards.
  induction chain generalizing type with
  | nil => rfl
  | cons a chain ih =>
    obtain ⟨hfirst, hchain⟩ := h
    calc type.substitute (a.within (outer.passed chain))
      _ = (type.substitute a.scope).substitute (outer.passed chain) := hfirst.substitute_within
      _ = (type.substitute a.scope).substitute (outer.composed chain) := ih hchain
      _ = type.substitute (a.scope.andThen (outer.composed chain)) :=
        TypeExpr.substitute_substitute _ _ _

/-! ## Parents -/

private theorem TypeExpr.substitute_reference {scope : Scope} {name : String}
    {arguments : List TypeExpr} (h : arguments = [] → scope.get? name = none) :
    (TypeExpr.reference name arguments).substitute scope =
      .reference name (substituteList scope arguments) := by
  cases arguments with
  | nil => exact Scope.typeFor_of_none (h rfl)
  | cons argument rest => rfl

/-- A parent with members is read in the scope of its use inside the declaration. -/
private theorem Resolver.inheritedShape_within {r : Resolver} {name : String}
    {arguments : List TypeExpr} {located : Located} {outer : Scope} {visited : List String}
    (hfind : r.index.find name = [located]) (hmembers : located.declaration.isStructural = true)
    (hvisited : located.qualifiedName ∉ visited) (hname : arguments = [] → outer.get? name = none)
    (parts : Parts Resolve) (structural : Located → Scope → Resolve ObjectShape) :
    r.inheritedShape parts structural visited
      ((TypeExpr.reference name arguments).substitute outer) =
        structural located (Application.within ⟨located.declaration.typeParameters, arguments⟩
          outer) := by
  rw [TypeExpr.substitute_reference hname]
  simp only [inheritedShape, hfind]
  rw [if_pos hmembers, if_neg (mt List.contains_iff_mem.1 hvisited)]
  rfl

/-- A substitution in one scope and then in another one is a substitution in the composed scope,
where a name that the first scope binds stands for its type after the second substitution, and any
other name for what it stands for in the second scope. So arguments that are passed on along a chain
of declarations, each with its own scope, give the type that one substitution gives, if no
declaration mentions a name that is no parameter of its own but bound around it. And this is how
arguments are passed on to parents. -/
theorem substitutions_compose (first second : Scope) :
    (∀ name, (first.andThen second).get? name =
      ((first.get? name).map (·.substitute second)).or (second.get? name)) ∧
    (∀ type : TypeExpr,
      (type.substitute first).substitute second = type.substitute (first.andThen second)) ∧
    (∀ (chain : List Application) (type : TypeExpr), type.ApartAlong second chain →
      type.substitute (second.passed chain) = type.substitute (second.composed chain)) ∧
    (∀ (r : Resolver) name arguments located visited, r.index.find name = [located] →
      located.declaration.isStructural = true → located.qualifiedName ∉ visited →
      (arguments = [] → second.get? name = none) → ∀ (parts : Parts Resolve) structural,
        r.inheritedShape parts structural visited
          ((TypeExpr.reference name arguments).substitute second) =
            structural located (second.passed [⟨located.declaration.typeParameters, arguments⟩])) :=
  ⟨Scope.get?_andThen first second, TypeExpr.substitute_substitute first second,
    fun _ _ h => h.substitute_passed,
    fun _ _ _ _ _ hfind hmembers hvisited hname parts structural =>
      Resolver.inheritedShape_within hfind hmembers hvisited hname parts structural⟩

/-- The property `x: V` of `C<V>`, where `B<U>` extends `C<U[]>` and `A<T>` extends `B<T>`: in
`A<string>` it is an array of texts. -/
theorem argument_passed_to_grandparent :
    let r := Resolver.ofText ("interface C<V> { x: V }\n" ++
      "interface B<U> extends C<U[]> { }\ninterface A<T> extends B<T> { }")
    let outer := Scope.bind [⟨"T", none, none⟩] [.keyword .string]
    let chain : List Application := [⟨[⟨"V", none, none⟩], [.array (.named "U")]⟩,
      ⟨[⟨"U", none, none⟩], [.named "T"]⟩]
    (TypeExpr.named "V").substitute (outer.passed chain) = .array (.keyword .string) ∧
      (TypeExpr.named "V").substitute (outer.composed chain) = .array (.keyword .string) ∧
      ((TypeExpr.named "U").substitute (.bind [⟨"U", none, none⟩] [.named "T"])).substitute outer =
        .keyword .string ∧
      ∃ located, r.index.find "B" = [located] ∧ ∀ structural,
        r.inheritedShape r.resolve structural ["A"]
          ((TypeExpr.reference "B" [.named "T"]).substitute outer) =
            structural located (.bind located.declaration.typeParameters [.keyword .string]) := by
  intro r outer chain
  have hfacts : (r.index.find "B").length = 1 ∧ ∀ d ∈ r.index.find "B",
      d.declaration.isStructural = true ∧ d.qualifiedName ∉ ["A"] := by decide +kernel
  obtain ⟨hlength, hdeclared⟩ := hfacts
  obtain ⟨located, hfind⟩ := List.length_eq_one_iff.1 hlength
  obtain ⟨hmembers, hvisited⟩ := hdeclared located (by simp [hfind])
  have happart : (TypeExpr.named "V").ApartAlong outer chain :=
    ⟨⟨by decide, by decide⟩, ⟨by decide, by decide⟩, trivial⟩
  obtain ⟨-, hcompose, hpassed, hparents⟩ :=
    substitutions_compose (.bind [⟨"U", none, none⟩] [.named "T"]) outer
  refine ⟨rfl, (hpassed chain _ happart).symm, (hcompose _).trans rfl, located, hfind, ?_⟩
  exact hparents r "B" [.named "T"] located ["A"] hfind hmembers hvisited (by simp) r.resolve

end Endpoints
