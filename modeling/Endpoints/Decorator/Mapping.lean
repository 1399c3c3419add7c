import Endpoints.Decorator.Dialect

/-! # Mappings

A mapping says which decorators express each role in one run. It is put together from the built-in
table and the tables of the active dialects; a role that the settings override takes its decorators
from there only.
-/

namespace Endpoints

/-- The roles that a table contributes. -/
inductive Inclusion where
  | all
  | none
  /-- These roles only, in the order of the roles. -/
  | only (roles : List Role)
deriving DecidableEq, Repr

namespace Inclusion

def includes : Inclusion → Role → Bool
  | all, _ => true
  | none, _ => false
  | only roles, role => roles.contains role

/-- The inclusion of these roles only. -/
def ofRoles (roles : List Role) : Inclusion :=
  only (Role.all.filter roles.contains)

end Inclusion

/-- The dialects that are active. -/
inductive DialectChoice where
  | none
  | all
  | one (dialect : Dialect)
  | subset (dialects : List Dialect)
  /-- Dialects, in their order, each with the roles that it contributes. -/
  | perRole (dialects : List (Dialect × Inclusion))
deriving DecidableEq, Repr

namespace DialectChoice

/-- The active dialects in the order in which they contribute. -/
def active : DialectChoice → List (Dialect × Inclusion)
  | none => []
  | all => Dialect.all.map (·, .all)
  | one dialect => [(dialect, .all)]
  | subset dialects => dialects.map (·, .all)
  | perRole dialects => dialects

def isActive (choice : DialectChoice) (dialect : Dialect) : Bool :=
  choice.active.any (·.1 == dialect)

end DialectChoice

/-- What a mapping is made from. -/
structure MappingSettings where
  builtin : Inclusion
  dialects : DialectChoice
  /-- Representations that replace all others of their role, in the order of the roles. -/
  overrides : RoleTable
deriving DecidableEq, Repr

/-- The built-in decorators alone. -/
def MappingSettings.default : MappingSettings := ⟨.all, .none, []⟩

/-- The decorators of each role in one run. -/
structure Mapping where
  roles : RoleTable
deriving DecidableEq, Repr

namespace Mapping

/-- The representations of a role in the order in which they are looked for. -/
def representations (mapping : Mapping) (role : Role) : List Representation :=
  mapping.roles.lookup role

/-- Adds a representation unless there is one of the same name. -/
def addNew (merged : List Representation) (r : Representation) : List Representation :=
  if merged.any (·.name == r.name) then merged else merged ++ [r]

/-- The tables that contribute, in order. -/
def sources (settings : MappingSettings) : List (RoleTable × Inclusion) :=
  (.builtin, settings.builtin) :: settings.dialects.active.map fun (dialect, inclusion) =>
    (dialect.table, inclusion)

/-- The representations of a role in all tables that contribute to it; of those with one name the
first counts. -/
def merged (sources : List (RoleTable × Inclusion)) (role : Role) : List Representation :=
  let contributing := sources.filter fun (_, inclusion) => inclusion.includes role
  (contributing.flatMap fun (table, _) => table.lookup role).foldl addNew []

/-- The representations of a role: those that override it, or else the merged ones. A role without
any has no entry. -/
def chosen? (settings : MappingSettings) (role : Role) : Option (List Representation) :=
  match settings.overrides.find? (·.1 == role) with
  | some (_, representations) => some representations
  | none =>
    let merged := merged (sources settings) role
    if merged.isEmpty then none else some merged

/-- The mapping for given settings. -/
def ofSettings (settings : MappingSettings) : Mapping where
  roles := Role.all.filterMap fun role => (chosen? settings role).map (role, ·)

end Mapping

/-- Mappings that have been built, by their settings. -/
structure MappingCache where
  entries : List (MappingSettings × Mapping)

namespace MappingCache

def empty : MappingCache := ⟨[]⟩

/-- The mapping for given settings with its position in the cache. It is built if it is not there
yet. -/
def get (cache : MappingCache) (settings : MappingSettings) : Nat × Mapping × MappingCache :=
  match cache.entries.findIdx? (·.1 == settings), cache.entries.find? (·.1 == settings) with
  | some position, some (_, mapping) => (position, mapping, cache)
  | _, _ =>
    let mapping := Mapping.ofSettings settings
    (cache.entries.length, mapping, ⟨cache.entries ++ [(settings, mapping)]⟩)

end MappingCache

end Endpoints
