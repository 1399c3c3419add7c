import Endpoints.Proofs.Match
import Endpoints.Proofs.TextParts

/-!
# Recognizing roles

Which decorators express a role is put together from several sources: a list of its own that
overrides all others, or else the built-in table and the tables of the active dialects, as far as
each of them includes the role. Where two tables name the same decorator, the second one is dropped.
This does not matter for the search, which goes by names: it ends at the first representation, in
the order of the sources, whose name is that of a decorator.
-/

namespace Endpoints

/-! ## Names of decorators -/

/-- The part is what follows the last dot of a name, or the whole name if it has none. -/
def IsLastPart (name part : String) : Prop :=
  '.' ∉ part.toList ∧ (name = part ∨ ∃ qualifier, name = qualifier ++ "." ++ part)

namespace Decorator

variable {d : Decorator} {name : String}

/-- `Decorator.simpleName` gives what follows the last dot. -/
private theorem simpleName_eq_of_isLastPart (h : IsLastPart d.name name) : d.simpleName = name := by
  obtain ⟨hdot, hname | ⟨qualifier, hname⟩⟩ := h
  · rw [simpleName, hname, Text.splitOn_of_not_mem hdot]
    simp
  · have hparts : d.name.toList = qualifier.toList ++ '.' :: name.toList := by
      rw [hname]
      simp
    rw [simpleName, hparts, Text.splitOn_append_cons, Text.splitOn_of_not_mem hdot]
    simp

/-- `Decorator.simpleName` is the last part of the name, and nothing else is. -/
theorem simpleName_eq_iff : d.simpleName = name ↔ IsLastPart d.name name := by
  constructor
  · rintro rfl
    obtain ⟨last, hdot, hlast⟩ := Text.exists_last_part '.' d.name.toList
    have hpart : IsLastPart d.name (String.ofList last) := by
      refine ⟨by simpa using hdot, ?_⟩
      rcases hlast with hname | ⟨before, hname⟩
      · exact .inl (by rw [← hname, String.ofList_toList])
      · exact .inr ⟨String.ofList before, String.toList_inj.1 (by simp [hname])⟩
    rw [simpleName_eq_of_isLastPart hpart]
    exact hpart
  · exact simpleName_eq_of_isLastPart

/-- The decorator has the name, in full or as what follows its last dot. -/
def Bears (d : Decorator) (name : String) : Prop := d.name = name ∨ IsLastPart d.name name

theorem isNamed_iff : d.isNamed name = true ↔ d.Bears name := by
  rw [isNamed, Bool.or_eq_true, beq_iff_eq, beq_iff_eq, simpleName_eq_iff, Bears]

instance (d : Decorator) (name : String) : Decidable (d.Bears name) :=
  decidable_of_iff (d.isNamed name = true) isNamed_iff

private theorem any_isNamed {decorators : List Decorator} :
    decorators.any (·.isNamed name) = true ↔ ∃ d ∈ decorators, d.Bears name := by
  simp only [List.any_eq_true, isNamed_iff]

private theorem not_any_isNamed {decorators : List Decorator} :
    (!decorators.any (·.isNamed name)) = true ↔ ∀ d ∈ decorators, ¬ d.Bears name := by
  rw [Bool.not_eq_true', ← Bool.not_eq_true, any_isNamed]
  simp only [not_exists, not_and]

private theorem filter_isNamed (decorators : List Decorator) (name : String) :
    decorators.filter (·.isNamed name) = decorators.filter (·.Bears name) := by
  refine List.filter_congr fun d _ => ?_
  rw [Bool.eq_iff_iff, isNamed_iff, decide_eq_true_iff]

end Decorator

/-! ## Sources -/

/-- The choice makes a dialect active, with the roles that it contributes. -/
inductive DialectChoice.Activates : DialectChoice → Dialect → Inclusion → Prop where
  | all (dialect : Dialect) : Activates .all dialect .all
  | one (dialect : Dialect) : Activates (.one dialect) dialect .all
  | subset {dialects : List Dialect} {dialect : Dialect} (h : dialect ∈ dialects) :
      Activates (.subset dialects) dialect .all
  | perRole {dialects : List (Dialect × Inclusion)} {dialect : Dialect} {inclusion : Inclusion}
      (h : (dialect, inclusion) ∈ dialects) : Activates (.perRole dialects) dialect inclusion

/-- The dialects that a choice makes active, in the order in which their tables are asked. -/
def DialectChoice.listed : DialectChoice → List (Dialect × Inclusion)
  | .none => []
  | .all => [(.nest, .all), (.routingControllers, .all)]
  | .one dialect => [(dialect, .all)]
  | .subset dialects => dialects.map (·, .all)
  | .perRole dialects => dialects

private theorem DialectChoice.active_eq_listed (choice : DialectChoice) :
    choice.active = choice.listed := by
  cases choice <;> rfl

/-- A choice lists exactly the dialects that it activates. -/
private theorem DialectChoice.mem_listed {choice : DialectChoice} {dialect : Dialect}
    {inclusion : Inclusion} :
    (dialect, inclusion) ∈ choice.listed ↔ choice.Activates dialect inclusion := by
  constructor
  · intro h
    cases choice with
    | none => cases h
    | all =>
      -- There are two dialects, and both are listed with all roles.
      rcases List.mem_pair.1 h with ⟨⟨⟩⟩ | ⟨⟨⟩⟩
      · exact .all .nest
      · exact .all .routingControllers
    | one other =>
      cases List.mem_singleton.1 h
      exact .one dialect
    | subset dialects =>
      obtain ⟨_, hmem, ⟨⟩⟩ := List.mem_map.1 h
      exact .subset hmem
    | perRole dialects => exact .perRole h
  · intro h
    cases h with
    | all => cases dialect <;> decide
    | one => exact List.mem_singleton.2 rfl
    | subset hmem => exact List.mem_map.2 ⟨dialect, hmem, rfl⟩
    | perRole hmem => exact hmem

namespace MappingSettings

variable {settings : MappingSettings} {role : Role} {representation : Representation}

/-- The representations that override a role. -/
def overriding? (settings : MappingSettings) (role : Role) : Option (List Representation) :=
  (settings.overrides.find? (·.1 == role)).map (·.2)

/-- The representations of a role in a table that may leave the role out. -/
def fromTable (role : Role) (table : RoleTable) (inclusion : Inclusion) : List Representation :=
  if inclusion.includes role then table.lookup role else []

/-- The representations of a role in all its sources, with those that come again: what overrides it,
or else the built-in table and then the dialects that are `listed`. -/
def offered (settings : MappingSettings) (role : Role) : List Representation :=
  (settings.overriding? role).getD
    (fromTable role .builtin settings.builtin ++
      settings.dialects.listed.flatMap fun entry => fromTable role entry.1.table entry.2)

/-- A representation of a role stands in one of the sources of the role. -/
inductive Offers (settings : MappingSettings) (role : Role) (representation : Representation) :
    Prop where
  | ofOverride {representations : List Representation}
      (hoverride : settings.overriding? role = some representations)
      (hmem : representation ∈ representations) : Offers settings role representation
  | ofBuiltin (hoverride : settings.overriding? role = none)
      (hincludes : settings.builtin.includes role = true)
      (hmem : representation ∈ RoleTable.builtin.lookup role) : Offers settings role representation
  | ofDialect {dialect : Dialect} {inclusion : Inclusion}
      (hoverride : settings.overriding? role = none)
      (hactive : settings.dialects.Activates dialect inclusion)
      (hincludes : inclusion.includes role = true)
      (hmem : representation ∈ dialect.table.lookup role) : Offers settings role representation

private theorem mem_fromTable {table : RoleTable} {inclusion : Inclusion} :
    representation ∈ fromTable role table inclusion ↔
      inclusion.includes role = true ∧ representation ∈ table.lookup role := by
  by_cases hincludes : inclusion.includes role = true <;> simp [fromTable, hincludes]

/-- `MappingSettings.offered` lists what the sources offer. -/
private theorem mem_offered : representation ∈ settings.offered role ↔
    settings.Offers role representation := by
  unfold offered
  -- An override replaces the tables altogether.
  cases hoverride : settings.overriding? role with
  | some representations =>
    constructor
    · exact fun hmem => .ofOverride hoverride hmem
    · intro h
      cases h with
      | ofOverride hother hmem =>
        cases hoverride.symm.trans hother
        exact hmem
      | ofBuiltin hother => cases hoverride.symm.trans hother
      | ofDialect hother => cases hoverride.symm.trans hother
  | none =>
    rw [Option.getD_none, List.mem_append, mem_fromTable, List.mem_flatMap]
    constructor
    · rintro (⟨hincludes, hmem⟩ | ⟨⟨dialect, inclusion⟩, hactive, hmem⟩)
      · exact .ofBuiltin hoverride hincludes hmem
      · obtain ⟨hincludes, hmem⟩ := mem_fromTable.1 hmem
        exact .ofDialect hoverride (DialectChoice.mem_listed.1 hactive) hincludes hmem
    · intro h
      cases h with
      | ofOverride hother => cases hoverride.symm.trans hother
      | ofBuiltin _ hincludes hmem => exact .inl ⟨hincludes, hmem⟩
      | ofDialect _ hactive hincludes hmem =>
        exact .inr ⟨_, DialectChoice.mem_listed.2 hactive, mem_fromTable.2 ⟨hincludes, hmem⟩⟩

end MappingSettings

/-! ## The search -/

namespace Mapping

/-- A search by names passes over representations whose name came before. -/
theorem find?_foldl_addNew (p : String → Bool) (kept added : List Representation) :
    (added.foldl addNew kept).find? (p ·.name) = (kept ++ added).find? (p ·.name) := by
  induction added generalizing kept with
  | nil => simp
  | cons representation added ih =>
    rw [List.foldl_cons, ih]
    unfold addNew
    split
    · next hknown =>
      obtain ⟨same, hsame, hname⟩ := List.any_eq_true.1 hknown
      rw [beq_iff_eq] at hname
      rw [List.find?_append, List.find?_append, List.find?_cons]
      -- If the name is searched for, the search ends among those that are kept.
      cases hp : p representation.name with
      | false => rfl
      | true =>
        have hfound : (kept.find? (p ·.name)).isSome = true :=
          List.find?_isSome.2 ⟨same, hsame, by rw [hname, hp]⟩
        obtain ⟨found, hfound⟩ := Option.isSome_iff_exists.1 hfound
        rw [hfound]
        rfl
    · rw [List.append_assoc]
      rfl

/-- What the sources contribute to a role, one after the other, each name once. -/
private theorem merged_sources (settings : MappingSettings) (role : Role) :
    merged (sources settings) role =
      (MappingSettings.fromTable role .builtin settings.builtin ++
        settings.dialects.listed.flatMap fun entry =>
          MappingSettings.fromTable role entry.1.table entry.2).foldl addNew [] := by
  -- Filtering the tables and looking a role up is looking it up in the tables that include it.
  have hincluded (list : List (RoleTable × Inclusion)) :
      (list.filter fun source => source.2.includes role).flatMap
          (fun source => source.1.lookup role) =
        list.flatMap fun source => MappingSettings.fromTable role source.1 source.2 := by
    induction list with
    | nil => rfl
    | cons source list ih =>
      rw [List.flatMap_cons, ← ih, MappingSettings.fromTable, List.filter_cons]
      split <;> rfl
  rw [← DialectChoice.active_eq_listed,
    ← List.flatMap_map (fun entry : Dialect × Inclusion => (entry.1.table, entry.2))
    (fun source => MappingSettings.fromTable role source.1 source.2)]
  exact congrArg (·.foldl addNew []) (hincluded (sources settings))

/-- By names, the chosen representations are searched like all that the sources offer. -/
private theorem find?_representations (p : String → Bool) (settings : MappingSettings)
    (role : Role) :
    ((ofSettings settings).representations role).find? (p ·.name) =
      (settings.offered role).find? (p ·.name) := by
  rw [representations_ofSettings, chosen?, MappingSettings.offered, MappingSettings.overriding?]
  cases settings.overrides.find? (·.1 == role) with
  | some entry => rfl
  | none =>
    -- A role without any representations has no entry, which is as good as an empty one.
    have hentry (list : List Representation) :
        (if list.isEmpty then none else some list).getD [] = list := by
      cases list <;> rfl
    show ((if (merged (sources settings) role).isEmpty then none
      else some (merged (sources settings) role)).getD []).find? _ = _
    rw [hentry, merged_sources, find?_foldl_addNew]
    rfl

/-- `matchOf?` by whether a decorator has the name. -/
private theorem matchOf?_eq (decorators : List Decorator) (representation : Representation) :
    matchOf? decorators representation =
      if decorators.any (·.isNamed representation.name) then
        some ⟨representation, decorators.filter (·.isNamed representation.name)⟩
      else none := by
  rw [matchOf?, nonEmpty?]
  cases h : decorators.any (·.isNamed representation.name) with
  | false =>
    rw [List.any_eq_false] at h
    simp [List.filter_eq_nil_iff.2 h]
  -- A decorator of the name is an instance, so the match is not empty.
  | true =>
    obtain ⟨d, hd, hname⟩ := List.any_eq_true.1 h
    have hmem : d ∈ decorators.filter (·.isNamed representation.name) :=
      List.mem_filter.2 ⟨hd, hname⟩
    simp [List.ne_nil_of_mem hmem]

/-- A match is the first representation with the name of a decorator, and all decorators with this
name. -/
theorem find?_ofSettings (settings : MappingSettings) (decorators : List Decorator) (role : Role) :
    (ofSettings settings).find? decorators role =
      ((settings.offered role).find? fun representation =>
        decorators.any (·.isNamed representation.name)).map fun representation =>
          ⟨representation, decorators.filter (·.isNamed representation.name)⟩ := by
  rw [← find?_representations (fun name => decorators.any (·.isNamed name)), find?]
  induction (ofSettings settings).representations role with
  | nil => rfl
  | cons representation rest ih =>
    rw [List.findSome?_cons, List.find?_cons, matchOf?_eq, ih]
    cases decorators.any (·.isNamed representation.name) <;> rfl

end Mapping

/-- For all settings, roles and decorators. The role is found exactly if some decorator has, in full
or as what follows its last dot, the name of a representation that a source of the role offers:
those that override it, or else the built-in table and the active dialects, as far as they include
the role. A match is the first such representation, in the order of the sources, with all
decorators of its name, in their order. -/
theorem role_recognized_by_source (settings : MappingSettings) (role : Role)
    (decorators : List Decorator) :
    (((Mapping.ofSettings settings).find? decorators role).isSome = true ↔
      ∃ d ∈ decorators, ∃ representation, settings.Offers role representation ∧
        d.Bears representation.name) ∧
    ∀ found, (Mapping.ofSettings settings).find? decorators role = some found ↔
      (∃ before after, settings.offered role = before ++ found.representation :: after ∧
        ∀ earlier ∈ before, ∀ d ∈ decorators, ¬ d.Bears earlier.name) ∧
      (∃ d ∈ decorators, d.Bears found.representation.name) ∧
      found.instances = decorators.filter (·.Bears found.representation.name) := by
  rw [Mapping.find?_ofSettings]
  constructor
  · rw [Option.isSome_map, List.find?_isSome]
    simp only [Decorator.any_isNamed, MappingSettings.mem_offered]
    constructor
    · rintro ⟨representation, hoffers, d, hd, hbears⟩
      exact ⟨d, hd, representation, hoffers, hbears⟩
    · rintro ⟨d, hd, representation, hoffers, hbears⟩
      exact ⟨representation, hoffers, d, hd, hbears⟩
  · intro found
    obtain ⟨representation, instances⟩ := found
    rw [Option.map_eq_some_iff]
    -- What the search passed over are the representations that no decorator has the name of.
    simp only [List.find?_eq_some_iff_append, Decorator.any_isNamed, Decorator.not_any_isNamed,
      Decorator.filter_isNamed, RoleMatch.mk.injEq]
    constructor
    · rintro ⟨_, ⟨hbears, before, after, hoffered, hbefore⟩, rfl, rfl⟩
      exact ⟨⟨before, after, hoffered, hbefore⟩, hbears, rfl⟩
    · rintro ⟨⟨before, after, hoffered, hbefore⟩, hbears, hfilter⟩
      exact ⟨representation, ⟨hbears, before, after, hoffered, hbefore⟩, rfl, hfilter.symm⟩

example : ((Mapping.ofSettings ⟨.all, .subset [.routingControllers, .nest], []⟩).find?
      [⟨"Injectable", [], [], 1⟩, ⟨"api.Controller", [], [], 2⟩] .classPath).map
        (fun found => (found.representation.name, found.instances.map (·.line))) =
    some ("Controller", [2]) := by
  decide +kernel

end Endpoints
