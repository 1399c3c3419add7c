import Endpoints.Proofs.Session
import Endpoints.Resolution.Resolver

/-!
# Hints stay with the value

The hints of a type expression refine numbers and dates. They are handed on to the elements of
arrays and tuples, to the members of unions and through wrappers, and no further: where a type names
a declaration, the hints of that declaration count. So two runs with different hints go the same
way, step by step, and can only differ in the schema that they end with.
-/

namespace Endpoints

variable {α β : Type}

/-- From every session, both computations succeed and reach the same session, or both fail with the
same error in the same session. -/
def RunAlike (x y : Resolve α) : Prop :=
  ∀ s, (∃ a b t, x.run s = (.ok a, t) ∧ y.run s = (.ok b, t)) ∨
    ∃ e t, x.run s = (.error e, t) ∧ y.run s = (.error e, t)

namespace RunAlike

theorem refl (x : Resolve α) : RunAlike x x := by
  intro s
  rcases hx : x.run s with ⟨e | a, t⟩
  · exact .inr ⟨e, t, rfl, rfl⟩
  · exact .inl ⟨a, a, t, rfl, rfl⟩

theorem pure (a b : α) : RunAlike (Pure.pure a : Resolve α) (Pure.pure b) :=
  fun s => .inl ⟨a, b, s, rfl, rfl⟩

theorem bind {x y : Resolve α} {f g : α → Resolve β} (hx : RunAlike x y)
    (hf : ∀ a b, RunAlike (f a) (g b)) : RunAlike (x >>= f) (y >>= g) := by
  intro s
  rcases hx s with ⟨a, b, t, hrun, hrun'⟩ | ⟨e, t, hrun, hrun'⟩
  · rw [Resolve.run_bind_of_ok hrun, Resolve.run_bind_of_ok hrun']
    exact hf a b t
  · rw [Resolve.run_bind_of_error hrun, Resolve.run_bind_of_error hrun']
    exact .inr ⟨e, t, rfl, rfl⟩

theorem map {x y : Resolve α} (f : α → β) (h : RunAlike x y) :
    RunAlike (do return f (← x)) (do return f (← y)) :=
  h.bind fun a b => .pure (f a) (f b)

/-- Sequences over a list run alike if they do so for each item. -/
private theorem mapM {f g : α → Resolve β} {items : List α}
    (h : ∀ item, RunAlike (f item) (g item)) :
    RunAlike (items.mapM f) (items.mapM g) := by
  induction items with
  | nil => exact .pure [] []
  | cons item items ih =>
    rw [List.mapM_cons, List.mapM_cons]
    exact (h item).bind fun a b => ih.bind fun as bs => .pure (a :: as) (b :: bs)

end RunAlike

/-! ## Steps -/

private theorem Keyword.runAlike_schema (word : Keyword) (hints hints' : Hints) :
    RunAlike (Resolve.ofExcept (word.schema hints)) (Resolve.ofExcept (word.schema hints')) := by
  cases word with
  | number => exact .pure _ _
  | _ => exact .refl _

namespace Resolver

variable {parts : Parts Resolve} {hints hints' : Hints}
  (h : ∀ part, RunAlike (parts part hints) (parts part hints'))
include h

private theorem runAlike_resolveAll (types : List TypeExpr) :
    RunAlike (resolveAll parts types hints) (resolveAll parts types hints') :=
  .mapM h

private theorem runAlike_union (members : List TypeExpr) :
    RunAlike (union parts members hints) (union parts members hints') :=
  (runAlike_resolveAll h members).bind fun _ _ => (RunAlike.refl Resolve.context).bind fun _ _ =>
    .pure _ _

private theorem runAlike_library (name : String) (arguments : List TypeExpr) :
    RunAlike (library parts name arguments hints) (library parts name arguments hints') := by
  unfold library
  split
  case h_1 | h_2 => exact h _
  case h_3 | h_4 | h_5 => exact (h _).map Schema.array
  case h_6 => exact .pure _ _
  all_goals exact .refl _

/-- A reference runs alike under two hints if its parts do. -/
private theorem runAlike_reference (r : Resolver) (name : String) (arguments : List TypeExpr) :
    RunAlike (r.reference parts name arguments hints)
      (r.reference parts name arguments hints') := by
  unfold reference
  split
  · -- A declaration is resolved with its own hints.
    exact .refl _
  · split
    · exact .refl _
    · exact runAlike_library h name arguments
  · exact .refl _

/-- A step runs alike under two hints if its parts do. -/
theorem runAlike_step (r : Resolver) (type : TypeExpr) :
    RunAlike (r.step parts type hints) (r.step parts type hints') := by
  unfold step
  cases type with
  | keyword word => exact word.runAlike_schema hints hints'
  | array element => exact (h element).map Schema.array
  | tuple elements => exact (runAlike_resolveAll h elements).map _
  | union members => exact runAlike_union h members
  | reference name arguments => exact runAlike_reference h r name arguments
  -- The members of an intersection and of an object get hints of their own, or none.
  | literal | intersection | object | unsupported => exact .refl _

omit h in
theorem runAlike_resolveWithin (r : Resolver) (bound : Nat) (type : TypeExpr)
    (hints hints' : Hints) :
    RunAlike (r.resolveWithin bound type hints) (r.resolveWithin bound type hints') := by
  induction bound generalizing type with
  | zero => exact .refl _
  | succ bound ih => exact runAlike_step ih r type

end Resolver

/-- Hints never leak: whatever the hints, a type is resolved with success or with the same error,
and leaves the same session, with its context and its warnings. Only the schema may differ. -/
theorem hints_change_only_the_value (r : Resolver) (type : TypeExpr) (hints hints' : Hints)
    (s : Session) :
    let (outcome, t) := (r.resolve type hints).run s
    let (outcome', t') := (r.resolve type hints').run s
    (outcome.isOk ↔ outcome'.isOk) ∧ (∀ e, outcome = .error e ↔ outcome' = .error e) ∧ t = t' := by
  have halike := r.runAlike_resolveWithin (r.index.bound type) type hints hints' s
  rcases halike with ⟨a, b, t, hrun, hrun'⟩ | ⟨e, t, hrun, hrun'⟩ <;>
    simp [Resolver.resolve, hrun, hrun', Except.isOk, Except.toBool]

end Endpoints
