import Endpoints.Proofs.Nodewise
import Endpoints.Proofs.Substitution

/-!
# Bound type parameters

A declaration with type parameters is used with arguments. The parameters are bound one after the
other: each to its argument, or to its default, in which the parameters before it are replaced, or
to `unknown`. So what holds of a bound default rests on the scope of the parameters before it, and
every statement here is one about a scope that is extended.
-/

namespace Endpoints

/-- The plain names of the default of a parameter. -/
def TypeParameter.defaultNames (p : TypeParameter) : List String := plainNames? p.default

/-- No default mentions its own parameter or a later one. -/
def DefaultsLookBack : List TypeParameter → Prop
  | [] => True
  | p :: later => (∀ q ∈ p :: later, q.name ∉ p.defaultNames) ∧ DefaultsLookBack later

instance decidableDefaultsLookBack : (ps : List TypeParameter) → Decidable (DefaultsLookBack ps)
  | [] => isTrue trivial
  | p :: later =>
    have := decidableDefaultsLookBack later
    inferInstanceAs (Decidable ((∀ q ∈ p :: later, q.name ∉ p.defaultNames) ∧ _))

namespace Scope

variable {scope : Scope} {p : TypeParameter} {parameters : List TypeParameter}
  {arguments : List TypeExpr} {name : String}

/-! ## What a parameter is bound to -/

theorem extend_cons (scope : Scope) (p : TypeParameter) (parameters : List TypeParameter)
    (arguments : List TypeExpr) :
    scope.extend (p :: parameters) arguments =
      extend (scope.insert p.name (arguments.head?.getD (scope.defaultOf p))) parameters
        arguments.tail := by
  cases arguments <;> rfl

/-- What is bound to a name that is no parameter stays bound to it. -/
private theorem get?_extend_of_not_mem (h : name ∉ parameters.map (·.name)) :
    (scope.extend parameters arguments).get? name = scope.get? name := by
  induction parameters generalizing scope arguments with
  | nil => rfl
  | cons p parameters ih =>
    rw [List.map_cons, List.mem_cons, not_or] at h
    obtain ⟨hp, hlater⟩ := h
    rw [extend_cons, ih hlater, Dict.get?_insert, if_neg hp]

theorem get?_extend_cons (h : p.name ∉ parameters.map (·.name)) :
    (scope.extend (p :: parameters) arguments).get? p.name =
      some (arguments.head?.getD (scope.defaultOf p)) := by
  rw [extend_cons, get?_extend_of_not_mem h, Dict.get?_insert, if_pos rfl]

/-- A name is bound afterwards if it was bound before or is a parameter. -/
theorem isSome_get?_extend (h : (scope.get? name).isSome ∨ name ∈ parameters.map (·.name)) :
    ((scope.extend parameters arguments).get? name).isSome := by
  induction parameters generalizing scope arguments with
  | nil => exact h.resolve_right List.not_mem_nil
  | cons p parameters ih =>
    rw [extend_cons]
    refine ih ?_
    -- The parameter itself is bound in this step; any other name is bound before it or after it.
    by_cases hp : name = p.name
    · simp [hp]
    · simpa [hp] using h

/-- Parameters are bound in two goes. -/
theorem extend_append (scope : Scope) (before after : List TypeParameter)
    (arguments : List TypeExpr) :
    scope.extend (before ++ after) arguments =
      (scope.extend before arguments).extend after (arguments.drop before.length) := by
  induction before generalizing scope arguments with
  | nil => rfl
  | cons p before ih =>
    rw [List.cons_append, extend_cons, ih, extend_cons, List.length_cons, List.drop_tail]

theorem get?_bind {before after : List TypeParameter} (h : p.name ∉ after.map (·.name)) :
    (bind (before ++ p :: after) arguments).get? p.name =
      some ((arguments[before.length]?).getD ((bind before arguments).defaultOf p)) := by
  rw [bind, extend_append, get?_extend_cons h, List.head?_drop]
  rfl

/-! ## Defaults as arguments -/

/-- What the parameters without argument are bound to can be given as further arguments, up to any
of them. -/
theorem extend_append_bound (h : (parameters.map (·.name)).Nodup) (scope : Scope)
    (arguments : List TypeExpr) (count : Nat) :
    scope.extend parameters (arguments ++ ((parameters.drop arguments.length).take count).filterMap
      fun p => (scope.extend parameters arguments).get? p.name) =
        scope.extend parameters arguments := by
  induction parameters generalizing scope arguments count with
  | nil => rfl
  | cons p parameters ih =>
    obtain ⟨hp, hlater⟩ := List.nodup_cons.1 h
    -- As long as there are arguments, both sides bind them alike.
    cases arguments with
    | cons argument arguments => exact ih hlater _ arguments count
    | nil =>
      cases count with
      | zero => simp
      | succ count =>
        -- The first argument that is added is the default itself, and the others are bound after
        -- it.
        have hbound : (scope.extend (p :: parameters) []).get? p.name =
            some (scope.defaultOf p) := get?_extend_cons hp
        rw [List.length_nil, List.drop_zero, List.take_succ_cons, List.filterMap_cons, hbound]
        exact ih hlater _ [] count

end Scope

/-! ## Parameters that are left -/

/-- None of the names is a plain name of the type. -/
def TypeExpr.Avoids (names : List String) (type : TypeExpr) : Prop :=
  ∀ name ∈ names, name ∉ type.plainNames

/-- A name is gone after a substitution if the scope binds it and does not bring it back. -/
private theorem TypeExpr.avoids_substitute {scope : Scope} {names : List String} {type : TypeExpr}
    (hbound : ∀ name ∈ names, name ∈ type.plainNames → (scope.get? name).isSome)
    (hscope : scope.Each (Avoids names)) : (type.substitute scope).Avoids names := by
  intro name hname hmem
  rw [plainNames_substitute, List.mem_flatMap] at hmem
  obtain ⟨other, hother, hmem⟩ := hmem
  rw [Scope.namesFor] at hmem
  cases hget : scope.get? other with
  | some bound =>
    rw [hget] at hmem
    exact hscope other bound hget name hname hmem
  | none =>
    -- The name stays because it is not bound.
    rw [hget] at hmem
    obtain rfl := List.mem_singleton.1 hmem
    have hsome := hbound name hname hother
    rw [hget] at hsome
    cases hsome

namespace Scope

variable {scope : Scope} {parameters : List TypeParameter} {arguments : List TypeExpr}
  {names : List String}

/-- A default avoids the names if the scope binds those that it mentions. -/
private theorem avoids_defaultOf {p : TypeParameter}
    (hbound : ∀ name ∈ names, name ∈ p.defaultNames → (scope.get? name).isSome)
    (hscope : scope.Each (TypeExpr.Avoids names)) : (scope.defaultOf p).Avoids names := by
  unfold TypeParameter.defaultNames at hbound
  unfold defaultOf
  cases hdefault : p.default with
  | none => exact fun name _ => List.not_mem_nil
  | some type =>
    rw [hdefault] at hbound
    exact TypeExpr.avoids_substitute hbound hscope

/-- The invariant of binding: the names are bound or to come, and no bound type mentions one. -/
private theorem each_avoids_extend
    (hbound : ∀ name ∈ names, (scope.get? name).isSome ∨ name ∈ parameters.map (·.name))
    (hscope : scope.Each (TypeExpr.Avoids names)) (hdefaults : DefaultsLookBack parameters)
    (harguments : ∀ argument ∈ arguments, argument.Avoids names) :
    (scope.extend parameters arguments).Each (TypeExpr.Avoids names) := by
  -- Induction on the parameters. Each step binds one more name, to a type that avoids all of them.
  induction parameters generalizing scope arguments with
  | nil => exact hscope
  | cons p parameters ih =>
    obtain ⟨hlook, hdefaults⟩ := hdefaults
    rw [extend_cons]
    refine ih ?_ (hscope.insert p.name ?_) hdefaults fun argument h =>
      harguments argument (List.mem_of_mem_tail h)
    · intro name hname
      by_cases hp : name = p.name
      · simp [hp]
      · simpa [hp] using hbound name hname
    · cases arguments with
      | cons argument arguments => exact harguments argument List.mem_cons_self
      | nil =>
        refine avoids_defaultOf (fun name hname hmem => ?_) hscope
        -- A name in the default is bound already, since the default does not mention later
        -- parameters.
        refine (hbound name hname).resolve_right fun hlater => ?_
        obtain ⟨q, hq, rfl⟩ := List.mem_map.1 hlater
        exact hlook q hq hmem

private theorem each_avoids_bind (hdefaults : DefaultsLookBack parameters)
    (harguments : ∀ argument ∈ arguments, argument.Avoids (parameters.map (·.name))) :
    (bind parameters arguments).Each (TypeExpr.Avoids (parameters.map (·.name))) :=
  each_avoids_extend (fun _ hname => .inr hname) each_empty hdefaults harguments

end Scope

/-- A declaration whose type parameters have different names, and defaults that mention, of the
parameters, only those before. It is used with any number of arguments, none of which mentions one
of the parameters. Then no parameter is left as a plain name in a type of the declaration. Each
parameter is bound to the argument in its place, or to its default in the scope of the parameters
before it; and the scope is the same if any number of these defaults are given as arguments. -/
theorem instantiation_leaves_no_parameter {parameters : List TypeParameter}
    {arguments : List TypeExpr} (hnames : (parameters.map (·.name)).Nodup)
    (hdefaults : DefaultsLookBack parameters)
    (harguments : ∀ argument ∈ arguments, argument.Avoids (parameters.map (·.name))) :
    let scope := Scope.bind parameters arguments
    (∀ type : TypeExpr, (type.substitute scope).Avoids (parameters.map (·.name))) ∧
    (∀ before p after, parameters = before ++ p :: after →
      scope.get? p.name =
        some ((arguments[before.length]?).getD ((Scope.bind before arguments).defaultOf p))) ∧
    ∀ count, Scope.bind parameters (arguments ++
      ((parameters.drop arguments.length).take count).filterMap fun p => scope.get? p.name) =
        scope := by
  intro scope
  refine ⟨fun type => ?_, ?_, Scope.extend_append_bound hnames .empty arguments⟩
  · refine TypeExpr.avoids_substitute (fun name hname _ => ?_)
      (Scope.each_avoids_bind hdefaults harguments)
    exact Scope.isSome_get?_extend (.inr hname)
  -- A name occurs once, so no later parameter is bound in its place.
  · rintro before p after rfl
    rw [List.map_append, List.map_cons] at hnames
    exact Scope.get?_bind (List.nodup_cons.1 (List.nodup_append'.1 hnames).2.1).1

/-- Parameters `T`, `U = T[]` and `V = Record<T, U>`, used with the argument `string` only: what the
defaults stand for is put together from each other. -/
theorem default_of_default_replaced :
    let parameters : List TypeParameter := [⟨"T", none, none⟩,
      ⟨"U", none, some (.array (.named "T"))⟩,
      ⟨"V", none, some (.reference "Record" [.named "T", .named "U"])⟩]
    let text : TypeExpr := .keyword .string
    let type : TypeExpr := .reference "Pair" [.named "V", .union [.named "U", .named "User"]]
    let scope := Scope.bind parameters [text]
    (type.substitute scope).plainNames = ["User"] ∧
      (type.substitute scope).Avoids ["T", "U", "V"] ∧
      scope.get? "V" = some (.reference "Record" [text, .array text]) ∧
      Scope.bind parameters [text, .array text, .reference "Record" [text, .array text]] =
        scope := by
  intro parameters text type scope
  have hnames : (parameters.map (·.name)).Nodup := by decide
  -- Each default mentions only parameters before its own.
  have hdefaults : DefaultsLookBack parameters := by decide
  have harguments : ∀ argument ∈ [text], argument.Avoids (parameters.map (·.name)) :=
    List.forall_mem_singleton.2 fun _ _ => List.not_mem_nil
  obtain ⟨hleft, hbound, hgiven⟩ :=
    instantiation_leaves_no_parameter hnames hdefaults harguments
  exact ⟨rfl, hleft type, hbound (parameters.take 2) _ [] rfl, hgiven 2⟩

end Endpoints
