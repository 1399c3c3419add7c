import Endpoints.Endpoint.Annotation
import Mathlib.Data.List.Count

/-!
# Security requirements

A class or method says by decorators which schemes protect it, or that none does. In the metadata an
empty list of requirements stands for the latter. But a decorator whose scheme can not be read gives
no requirement, so the list is also empty where the schemes of all decorators are of that sort.
-/

namespace Endpoints

/-- Whether an argument names a scheme: an object literal does, which gives scopes to schemes, and
so does a text or a number, also as the first of several arguments. -/
def Argument.namesScheme : Argument → Bool
  | .expr (.object _) | .expr (.string _) | .expr (.number _) => true
  | .exprs (.string _ :: _) | .exprs (.number _ :: _) => true
  | _ => false

/-- Whether a decorator names a scheme, by the rule of its representation. -/
def RoleMatch.namesScheme (found : RoleMatch) (d : Decorator) : Bool :=
  (found.value? d .name).any (·.namesScheme)

namespace Resolver

/-- A decorator gives a requirement exactly if it names a scheme. -/
theorem isSome_requirement? (found : RoleMatch) (d : Decorator) :
    (requirement? found d).isSome = found.namesScheme d := by
  unfold requirement? RoleMatch.textOf? RoleMatch.namesScheme
  rcases found.value? d .name with _ | argument
  · rfl
  -- One case for each form of an argument, and for a literal one for each form of it.
  · rcases argument with value | values | value | values
    · cases value <;> rfl
    · rcases values with _ | ⟨value, values⟩
      · rfl
      · cases value <;> rfl
    · rfl
    · rfl

/-- Every decorator that names a scheme gives one requirement. -/
private theorem length_filterMap_requirement? (found : RoleMatch) (decorators : List Decorator) :
    (decorators.filterMap (requirement? found)).length = decorators.countP found.namesScheme := by
  induction decorators with
  | nil => rfl
  | cons d decorators ih =>
    have hd := isSome_requirement? found d
    cases hrequirement : requirement? found d with
    | none =>
      rw [hrequirement] at hd
      simp [hrequirement, ← hd, ih]
    | some requirement =>
      rw [hrequirement] at hd
      simp [hrequirement, ← hd, ih]

end Resolver

/-- The list of requirements is empty exactly if it is said that there are none, or if there are
decorators for them but none of these names a scheme. Apart from the former, it has one requirement
for each decorator that names one. -/
theorem no_requirements_iff (r : Resolver) (decorators : List Decorator) :
    (r.security? decorators = some [] ↔ r.mapping.has decorators .noSecurity = true ∨
      ∃ found, r.mapping.find? decorators .security = some found ∧
        ∀ d ∈ found.instances, found.namesScheme d = false) ∧
    (r.mapping.has decorators .noSecurity = false →
      (r.security? decorators).map (·.length) =
        (r.mapping.find? decorators .security).map fun found =>
          found.instances.countP found.namesScheme) := by
  unfold Resolver.security?
  -- A class or method that is said to have none has none, whatever its other decorators are.
  by_cases hno : r.mapping.has decorators .noSecurity = true
  · simp [hno]
  · simp only [hno, Bool.false_eq_true, if_false, false_or, Option.map_eq_some_iff, Option.map_map]
    refine ⟨exists_congr fun found => and_congr_right fun _ => ?_, fun _ => ?_⟩
    · rw [← List.length_eq_zero_iff, Resolver.length_filterMap_requirement?, List.countP_eq_zero]
      simp
    · congr 1
      funext found
      exact Resolver.length_filterMap_requirement? found found.instances

/-- A class that is protected by a scheme which it does not name by a literal: its requirements are
those of a class that is said to have none. -/
theorem unnamed_scheme_leaves_none :
    let program : Program :=
      (ProgramFile.parse "keys.ts" "@Security(JWT) class Keys { }").toOption.toList
    let r : Resolver := ⟨.ofProgram program, Mapping.ofSettings .default⟩
    ∃ c file, r.index.classes = [(c, file)] ∧ r.mapping.has c.decorators .noSecurity = false ∧
      r.mapping.has c.decorators .security = true ∧ r.security? c.decorators = some [] ∧
      ∃ found, r.mapping.find? c.decorators .security = some found ∧
        ∀ d ∈ found.instances, found.namesScheme d = false := by
  intro program r
  have hfacts : (r.index.classes.map fun entry => (r.mapping.has entry.1.decorators .noSecurity,
      r.mapping.has entry.1.decorators .security,
      (r.security? entry.1.decorators).map (·.length))) = [(false, true, some 0)] := by
    decide +kernel
  obtain ⟨⟨c, file⟩, hclasses, hfacts⟩ := List.map_eq_singleton_iff.1 hfacts
  obtain ⟨hno, hfacts⟩ := Prod.mk.inj hfacts
  obtain ⟨hsecurity, hlength⟩ := Prod.mk.inj hfacts
  obtain ⟨requirements, hrequirements, hlength⟩ := Option.map_eq_some_iff.1 hlength
  rw [List.length_eq_zero_iff.1 hlength] at hrequirements
  refine ⟨c, file, hclasses, hno, hsecurity, hrequirements, ?_⟩
  -- There are no requirements although security is asked for, so no scheme is named.
  have hempty := (no_requirements_iff r c.decorators).1.1 hrequirements
  exact hempty.resolve_left (by simp [hno])

end Endpoints
