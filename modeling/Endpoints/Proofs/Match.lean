import Endpoints.Decorator.Match
import Mathlib.Data.List.Basic

/-!
# Roles among decorators

A role is looked for by its representations, one after the other, and each representation by its
name among all decorators. So a role is there exactly if some decorator has the name of some
representation, but only the decorators of the first such representation are kept.

Where the settings do not override a role, its representations are those of the tables, whatever
dialects are active.
-/

namespace Endpoints

namespace Mapping

variable {mapping : Mapping} {decorators : List Decorator} {role : Role} {found : RoleMatch}

/-- Whether a decorator has the name of a representation of the role. -/
def expresses (mapping : Mapping) (role : Role) (d : Decorator) : Bool :=
  (mapping.representations role).any fun representation => d.isNamed representation.name

/-- `matchOf?` gives all decorators with the name of the representation, if there are any. -/
theorem matchOf?_eq_some {representation : Representation} :
    matchOf? decorators representation = some found ↔
      found = ⟨representation, decorators.filter (·.isNamed representation.name)⟩ ∧
        found.instances ≠ [] := by
  unfold matchOf? nonEmpty?
  -- No decorator of the name is no match.
  by_cases hnil : decorators.filter (·.isNamed representation.name) = []
  · simp only [hnil, List.isEmpty_nil, if_true, Option.map_none, reduceCtorEq, false_iff, not_and,
      not_not]
    rintro rfl
    rfl
  · simp only [List.isEmpty_iff, hnil, if_false, Option.map_some, Option.some.injEq]
    constructor
    · rintro rfl
      exact ⟨rfl, hnil⟩
    · rintro ⟨rfl, _⟩
      rfl

theorem find?_eq_some (h : mapping.find? decorators role = some found) :
    found.representation ∈ mapping.representations role ∧
      found.instances = decorators.filter (·.isNamed found.representation.name) ∧
        found.instances ≠ [] := by
  obtain ⟨representation, hmem, hmatch⟩ := List.exists_of_findSome?_eq_some h
  obtain ⟨rfl, hne⟩ := matchOf?_eq_some.1 hmatch
  exact ⟨hmem, rfl, hne⟩

/-- A role is there exactly if a decorator expresses it. -/
theorem has_eq_any (mapping : Mapping) (decorators : List Decorator) (role : Role) :
    mapping.has decorators role = decorators.any (mapping.expresses role) := by
  rw [Bool.eq_iff_iff, has, find?, List.findSome?_isSome_iff, List.any_eq_true]
  simp only [expresses, List.any_eq_true, Option.isSome_iff_exists, matchOf?_eq_some]
  constructor
  · rintro ⟨representation, hmem, _, rfl, hne⟩
    obtain ⟨d, hd⟩ := List.exists_mem_of_ne_nil _ hne
    obtain ⟨hd, hname⟩ := List.mem_filter.1 hd
    exact ⟨d, hd, representation, hmem, hname⟩
  · rintro ⟨d, hd, representation, hmem, hname⟩
    have hinstance : d ∈ decorators.filter (·.isNamed representation.name) :=
      List.mem_filter.2 ⟨hd, hname⟩
    exact ⟨representation, hmem, _, rfl, List.ne_nil_of_mem hinstance⟩

/-! ## The tables -/

/-- Merging tables brings in no representations but theirs. -/
private theorem mem_foldl_addNew {kept added : List Representation}
    {representation : Representation} (h : representation ∈ added.foldl addNew kept) :
    representation ∈ kept ∨ representation ∈ added := by
  induction added generalizing kept with
  | nil => exact .inl h
  | cons first added ih =>
    rw [List.foldl_cons] at h
    -- It is a later one, or it is there once the first one was added.
    rcases ih h with h | h
    · unfold addNew at h
      split at h
      · exact .inl h
      · rcases List.mem_append.1 h with h | h
        · exact .inl h
        · exact .inr (List.mem_singleton.1 h ▸ List.mem_cons_self)
    · exact .inr (List.mem_cons_of_mem _ h)

/-- The representations of a role are those that were chosen for it. -/
theorem representations_ofSettings (settings : MappingSettings) (role : Role) :
    (ofSettings settings).representations role = (chosen? settings role).getD [] := by
  have hfind (roles : List Role) :
      (roles.filterMap fun other => (chosen? settings other).map (other, ·)).find? (·.1 == role) =
        if role ∈ roles then (chosen? settings role).map (role, ·) else none := by
    induction roles with
    | nil => rfl
    | cons other roles ih =>
      rw [List.filterMap_cons]
      by_cases hother : other = role
      · subst hother
        -- Where nothing is chosen for the role, nothing is chosen at a second place either.
        cases hchosen : chosen? settings other with
        | none => simp [hchosen, ih]
        | some representations => simp
      · have hne : role ≠ other := fun heq => hother heq.symm
        cases chosen? settings other with
        | none => simp [ih, hne]
        | some representations => simp [ih, hother, hne]
  unfold representations RoleTable.lookup ofSettings
  rw [hfind, if_pos (Role.mem_all role)]
  cases chosen? settings role <;> rfl

/-- Unless the settings override the role, a match is one of the built-in table or of a dialect. -/
theorem mem_tables_of_find? {settings : MappingSettings}
    (hoverride : settings.overrides.find? (·.1 == role) = none)
    (h : (ofSettings settings).find? decorators role = some found) :
    found.representation ∈ RoleTable.builtin.lookup role ∨
      ∃ dialect : Dialect, found.representation ∈ dialect.table.lookup role := by
  obtain ⟨hmem, -, -⟩ := find?_eq_some h
  have hmerged : found.representation ∈ merged (sources settings) role := by
    rw [representations_ofSettings, chosen?, hoverride] at hmem
    dsimp only at hmem
    split at hmem
    · exact absurd hmem List.not_mem_nil
    · exact hmem
  rcases mem_foldl_addNew hmerged with hnil | htables
  · exact absurd hnil List.not_mem_nil
  · obtain ⟨⟨table, inclusion⟩, hsource, hlookup⟩ := List.mem_flatMap.1 htables
    -- The sources are the built-in table and those of the active dialects.
    rcases List.mem_cons.1 (List.mem_of_mem_filter hsource) with heq | hactive
    · obtain ⟨rfl, -⟩ := Prod.mk.inj heq
      exact .inl hlookup
    · obtain ⟨⟨dialect, _⟩, -, heq⟩ := List.mem_map.1 hactive
      obtain ⟨rfl, -⟩ := Prod.mk.inj heq
      exact .inr ⟨dialect, hlookup⟩

end Mapping

end Endpoints
