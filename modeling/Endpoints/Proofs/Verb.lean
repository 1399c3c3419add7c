import Endpoints.Proofs.Match
import Endpoints.Proofs.Overload

/-!
# The verb of a method

A method may carry the decorator of one verb only. Generation looks for each verb by itself and
counts the verbs that it finds, not the decorators. The two counts differ in two ways: a verb that
is expressed by several decorators is found once, and a decorator can express several verbs, where
the settings give it to their roles.
-/

namespace Endpoints

namespace Resolver

variable (r : Resolver) (m : MethodDecl)

/-- The decorators of a method that express a verb, by any representation of its role. -/
def verbDecorators : List Decorator :=
  m.decorators.filter fun d => Role.verbs.any fun entry => r.mapping.expresses entry.1 d

/-- The verbs that decorators of a method express, with their roles. -/
def verbRoles : List (Role × Verb) :=
  Role.verbs.filter fun entry => r.mapping.has m.decorators entry.1

/-- What is found for a verb. -/
def verbMatch? (entry : Role × Verb) : Option (Verb × RoleMatch) :=
  (r.mapping.find? m.decorators entry.1).map (entry.2, ·)

/-- What is found for all verbs, in their order. -/
def verbMatches : List (Verb × RoleMatch) :=
  Role.verbs.filterMap (r.verbMatch? m)

private theorem verb?_eq : r.verb? m = match r.verbMatches m with
    | [] => .ok none
    | [one] => .ok (some one)
    | many => .error (.ambiguousVerb m.name (many.map (·.2.representation.name))) :=
  rfl

theorem verb?_eq_none : r.verb? m = .ok none ↔ r.verbMatches m = [] := by
  rw [verb?_eq]
  rcases r.verbMatches m with _ | ⟨one, _ | ⟨other, rest⟩⟩ <;> simp

theorem verb?_eq_some {found : Verb × RoleMatch} :
    r.verb? m = .ok (some found) ↔ r.verbMatches m = [found] := by
  rw [verb?_eq]
  rcases r.verbMatches m with _ | ⟨one, _ | ⟨other, rest⟩⟩ <;> simp

private theorem verb?_eq_error {fault : Fault} : r.verb? m = .error fault ↔
    2 ≤ (r.verbMatches m).length ∧
      fault = .ambiguousVerb m.name ((r.verbMatches m).map (·.2.representation.name)) := by
  rw [verb?_eq]
  rcases r.verbMatches m with _ | ⟨one, _ | ⟨other, rest⟩⟩ <;> simp [eq_comm]

private theorem isSome_verbMatch? (entry : Role × Verb) :
    (r.verbMatch? m entry).isSome = r.mapping.has m.decorators entry.1 := by
  rw [verbMatch?, Option.isSome_map, Mapping.has]

/-- Something is found for the verbs that are there, and only for them. -/
theorem verbMatches_eq : r.verbMatches m = (r.verbRoles m).filterMap (r.verbMatch? m) := by
  rw [verbMatches, verbRoles, List.filterMap_filter]
  congr 1
  funext entry
  have hsome := r.isSome_verbMatch? m entry
  by_cases hhas : r.mapping.has m.decorators entry.1 = true
  · rw [if_pos hhas]
  · rw [if_neg hhas]
    rw [← hsome, Bool.not_eq_true, Option.isSome_eq_false_iff, Option.isNone_iff_eq_none] at hhas
    exact hhas

/-- As much is found as there are verbs. -/
theorem length_verbMatches : (r.verbMatches m).length = (r.verbRoles m).length := by
  have hall : ∀ entry ∈ r.verbRoles m, (r.verbMatch? m entry).isSome := by
    intro entry hentry
    rw [isSome_verbMatch?]
    exact (List.mem_filter.1 hentry).2
  rw [verbMatches_eq]
  -- A list keeps its length if something is found for each of its items.
  generalize r.verbRoles m = roles at hall ⊢
  induction roles with
  | nil => rfl
  | cons entry entries ih =>
    obtain ⟨hfirst, hrest⟩ := List.forall_mem_cons.1 hall
    obtain ⟨found, hfound⟩ := Option.isSome_iff_exists.1 hfirst
    rw [List.filterMap_cons_some hfound, List.length_cons, List.length_cons, ih hrest]

/-- No verb is there exactly if no decorator expresses one. -/
theorem verbRoles_eq_nil : r.verbRoles m = [] ↔ r.verbDecorators m = [] := by
  simp only [verbRoles, verbDecorators, List.filter_eq_nil_iff, Mapping.has_eq_any,
    List.any_eq_true]
  constructor
  · rintro hnone d hd ⟨entry, hentry, hexpresses⟩
    exact hnone entry hentry ⟨d, hd, hexpresses⟩
  · rintro hnone entry hentry ⟨d, hd, hexpresses⟩
    exact hnone d hd ⟨entry, hentry, hexpresses⟩

/-- One verb alone is found exactly if it alone is there, and by its role. -/
theorem verbMatches_eq_singleton {verb : Verb} {found : RoleMatch} :
    r.verbMatches m = [(verb, found)] ↔ ∃ role, r.verbRoles m = [(role, verb)] ∧
      r.mapping.find? m.decorators role = some found := by
  constructor
  · intro hone
    -- There are as many matches as roles.
    have hlength := r.length_verbMatches m
    rw [hone] at hlength
    obtain ⟨⟨role, other⟩, hroles⟩ := List.length_eq_one_iff.1 hlength.symm
    rw [verbMatches_eq, hroles, List.filterMap_cons, List.filterMap_nil] at hone
    cases hfind : r.mapping.find? m.decorators role with
    | none => simp [verbMatch?, hfind] at hone
    | some match_ =>
      simp only [verbMatch?, hfind, Option.map_some, List.cons.injEq, Prod.mk.injEq,
        and_true] at hone
      obtain ⟨rfl, rfl⟩ := hone
      exact ⟨role, hroles, hfind⟩
  · rintro ⟨role, hroles, hfind⟩
    rw [verbMatches_eq, hroles]
    simp [verbMatch?, hfind]

/-- The outcome for a method is what a count of its verb decorators gives: no verb if there is none,
a verb if there is one, and the error if there are more. -/
def VerbByDecorators : Prop :=
  (r.verb? m = .ok none ↔ (r.verbDecorators m).length = 0) ∧
  ((∃ found, r.verb? m = .ok (some found)) ↔ (r.verbDecorators m).length = 1) ∧
  ((∃ names, r.verb? m = .error (.ambiguousVerb m.name names)) ↔ 2 ≤ (r.verbDecorators m).length)

/-- Where the two counts are one together, they decide alike: neither is zero without the other. -/
theorem verbByDecorators_iff : r.VerbByDecorators m ↔
    ((r.verbRoles m).length = 1 ↔ (r.verbDecorators m).length = 1) := by
  have hnil := r.verbRoles_eq_nil m
  have hsome : (∃ found, r.verb? m = .ok (some found)) ↔ (r.verbRoles m).length = 1 := by
    simp only [verb?_eq_some, ← length_verbMatches, List.length_eq_one_iff]
  have herror : (∃ names, r.verb? m = .error (.ambiguousVerb m.name names)) ↔
      2 ≤ (r.verbRoles m).length := by
    rw [← length_verbMatches]
    constructor
    · rintro ⟨names, hnames⟩
      exact ((r.verb?_eq_error m).1 hnames).1
    · intro hmany
      exact ⟨_, (r.verb?_eq_error m).2 ⟨hmany, rfl⟩⟩
  -- What is left is a matter of two numbers, of which neither is zero without the other.
  rw [VerbByDecorators, hsome, herror, verb?_eq_none, ← List.length_eq_zero_iff,
    length_verbMatches]
  rw [← List.length_eq_zero_iff, ← List.length_eq_zero_iff] at hnil
  omega

end Resolver

/-- A method has no verb exactly if no decorator expresses one; it has a verb exactly if that is the
only one which its decorators express, be it several times; and it is refused, with the names of
what was found for each verb, exactly if they express two or more. So the outcome is that of a count
of decorators exactly if one verb alone is expressed where one decorator alone expresses any. -/
theorem verbs_counted_by_role (r : Resolver) (m : MethodDecl) :
    (r.verb? m = .ok none ↔ r.verbDecorators m = []) ∧
    (∀ verb found, r.verb? m = .ok (some (verb, found)) ↔ ∃ role,
      r.verbRoles m = [(role, verb)] ∧ r.mapping.find? m.decorators role = some found) ∧
    (∀ fault, r.verb? m = .error fault ↔ 2 ≤ (r.verbRoles m).length ∧ fault = .ambiguousVerb m.name
      ((r.verbMatches m).map (·.2.representation.name))) ∧
    (r.VerbByDecorators m ↔
      ((r.verbRoles m).length = 1 ↔ (r.verbDecorators m).length = 1)) := by
  refine ⟨?_, fun verb found => ?_, fun fault => ?_, r.verbByDecorators_iff m⟩
  · rw [r.verb?_eq_none, ← r.verbRoles_eq_nil, ← List.length_eq_zero_iff, r.length_verbMatches,
      List.length_eq_zero_iff]
  · rw [r.verb?_eq_some, r.verbMatches_eq_singleton]
  · rw [r.verb?_eq_error, r.length_verbMatches]

/-- A method with two decorators of one verb. It has that verb, with the path of the first. -/
theorem repeated_get_accepted :
    let program : Program := (ProgramFile.parse "items.ts" ("@Route('items') class Items \x7b " ++
      "@Get('all') @Get('list') list(): string; \x7d")).toOption.toList
    let r : Resolver := ⟨.ofProgram program, Mapping.ofSettings .default⟩
    ∃ m verb found, r.index.classes.flatMap (·.1.methods) = [m] ∧
      (r.verbDecorators m).length = 2 ∧ r.verb? m = .ok (some (verb, found)) ∧
      (verb, (found.text? .path).getD "") = (.get, "all") ∧ ¬ r.VerbByDecorators m := by
  intro program r
  have hfacts : (r.index.classes.flatMap (·.1.methods)).map (fun m =>
      ((r.verbRoles m).length, (r.verbDecorators m).length,
        (r.verb? m).toOption.map (·.map fun found => (found.1, (found.2.text? .path).getD "")))) =
      [(1, 2, some (some (.get, "all")))] := by
    decide +kernel
  obtain ⟨m, hm, hfacts⟩ := exists_method hfacts
  obtain ⟨hroles, hfacts⟩ := Prod.mk.inj hfacts
  obtain ⟨hdecorators, hverb⟩ := Prod.mk.inj hfacts
  obtain ⟨found?, hverb, hfound⟩ := Except.exists_ok_of_toOption hverb
  obtain ⟨⟨verb, found⟩, rfl, hpath⟩ := Option.map_eq_some_iff.1 hfound
  refine ⟨m, verb, found, hm, hdecorators, hverb, hpath, fun hcount => ?_⟩
  -- Counting decorators would refuse the method, which has two of one role.
  have hone := (verbs_counted_by_role r m).2.2.2.1 hcount
  omega

end Endpoints
