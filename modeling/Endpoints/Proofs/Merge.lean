import Endpoints.Proofs.FirstOccurrence
import Endpoints.Proofs.Shape

/-!
# Merged properties

A merge of shapes replaces properties in place. It is described by two views of a list of
properties: the names in their order, and the property that a name stands for. Names come in the
order in which they are introduced, and a name stands for the last property that has it. A list
without repeated names is known from the two views, so equal views are equal shapes.
-/

namespace Endpoints

/-- The property with another description. -/
def Property.describedBy (property : Property) (description : Option String) : Property :=
  { property with description }

@[simp]
theorem Property.describedBy_description (property : Property) :
    property.describedBy property.description = property := by
  cases property
  rfl

@[simp]
theorem Property.description_describedBy (property : Property) (description : Option String) :
    (property.describedBy description).description = description :=
  rfl

namespace ObjectShape

/-! ## Names and what they stand for -/

/-- The last property of a name. -/
def lastNamed? (properties : List Property) (name : String) : Option Property :=
  properties.reverse.find? (·.name = name)

/-- The last description among the properties of a name. -/
def lastDescription? (properties : List Property) (name : String) : Option String :=
  properties.reverse.findSome? fun property =>
    if property.name = name then property.description else none

/-- The names of properties, in their order. -/
def names (properties : List Property) : List String := properties.map (·.name)

variable (properties : List Property)

@[simp]
theorem names_append (others : List Property) :
    names (properties ++ others) = names properties ++ names others :=
  List.map_append

theorem lastNamed?_append (others : List Property) (name : String) :
    lastNamed? (properties ++ others) name =
      (lastNamed? others name).or (lastNamed? properties name) := by
  rw [lastNamed?, List.reverse_append, List.find?_append]
  rfl

theorem lastNamed?_singleton (property : Property) (name : String) :
    lastNamed? [property] name = if property.name = name then some property else none := by
  by_cases h : property.name = name <;> simp [lastNamed?, h]

theorem lastDescription?_append (others : List Property) (name : String) :
    lastDescription? (properties ++ others) name =
      (lastDescription? others name).or (lastDescription? properties name) := by
  rw [lastDescription?, List.reverse_append, List.findSome?_append]
  rfl

theorem lastDescription?_singleton (property : Property) (name : String) :
    lastDescription? [property] name =
      if property.name = name then property.description else none := by
  by_cases h : property.name = name <;> simp [lastDescription?, h]

theorem lastNamed?_eq_none_iff {properties : List Property} {name : String} :
    lastNamed? properties name = none ↔ name ∉ names properties := by
  simp only [lastNamed?, List.find?_eq_none, List.mem_reverse, decide_eq_true_eq, names,
    List.mem_map, not_exists, not_and]

theorem find?_eq_none_iff {properties : List Property} {name : String} :
    properties.find? (·.name = name) = none ↔ name ∉ names properties := by
  simp only [List.find?_eq_none, decide_eq_true_eq, names, List.mem_map, not_exists, not_and]

private theorem lastDescription?_of_not_mem {properties : List Property} {name : String}
    (h : name ∉ names properties) : lastDescription? properties name = none := by
  rw [lastDescription?, List.findSome?_eq_none_iff]
  intro property hp
  rw [if_neg]
  rintro rfl
  exact h (List.mem_map_of_mem (List.mem_reverse.1 hp))

/-- Where no name repeats, the first property of a name is the last one. -/
private theorem lastNamed?_of_nodup {properties : List Property} (h : (names properties).Nodup)
    (name : String) : lastNamed? properties name = properties.find? (·.name = name) := by
  induction properties with
  | nil => rfl
  | cons first rest ih =>
    have hrest := List.nodup_cons.1 h
    rw [← List.singleton_append, lastNamed?_append, lastNamed?_singleton, ih hrest.2,
      List.find?_append]
    by_cases hfirst : first.name = name
    -- The name does not occur behind the first property, so the first is also the last.
    · subst hfirst
      have hnone := find?_eq_none_iff.2 hrest.1
      rw [hnone]
      simp
    · simp [hfirst]

/-- Properties with different names are known from their names and from what the names stand
for. -/
theorem ext_of_find? {properties others : List Property} (hnodup : (names properties).Nodup)
    (hnames : names properties = names others)
    (hfind : ∀ name, properties.find? (·.name = name) = others.find? (·.name = name)) :
    properties = others := by
  induction properties generalizing others with
  | nil => exact (List.map_eq_nil_iff.1 hnames.symm).symm
  | cons first rest ih =>
    obtain _ | ⟨first', rest'⟩ := others
    · cases hnames
    obtain ⟨hname, htail⟩ : first.name = first'.name ∧ names rest = names rest' := by
      simpa [names] using hnames
    have hfirst : first = first' := by
      have h := hfind first.name
      rw [List.find?_cons_of_pos (by simp), List.find?_cons_of_pos (by simp [hname])] at h
      exact Option.some.inj h
    subst hfirst
    have hrest := List.nodup_cons.1 hnodup
    congr 1
    refine ih hrest.2 htail fun name => ?_
    by_cases h : first.name = name
    · -- The name of the first property does not come again.
      subst h
      rw [find?_eq_none_iff.2 hrest.1, find?_eq_none_iff.2 (htail ▸ hrest.1)]
    · simpa [List.find?_cons, h] using hfind name

/-! ## One property at a time -/

/-- `replace` adds the name of the property unless it is there. -/
private theorem names_replace (property : Property) :
    names (replace properties property) = addNew (names properties) property.name := by
  induction properties with
  | nil => simp [replace, names, addNew]
  | cons first rest ih =>
    rw [replace]
    by_cases h : first.name = property.name
    · rw [if_pos h, addNew_of_mem (by simp [names, h])]
      simp [names, h]
    · rw [if_neg h]
      change first.name :: names (replace rest property) = addNew (first.name :: names rest) _
      rw [ih]
      -- The name is not that of the first property, so it is new exactly if it is new in the rest.
      by_cases hrest : property.name ∈ names rest
      · rw [addNew_of_mem hrest, addNew_of_mem (List.mem_cons_of_mem _ hrest)]
      · have hnew : property.name ∉ first.name :: names rest := by
          simpa [hrest] using Ne.symm h
        rw [addNew_of_not_mem hrest, addNew_of_not_mem hnew, List.cons_append]

/-- `replace` puts the property under its name. -/
private theorem find?_replace (property : Property) (name : String) :
    (replace properties property).find? (·.name = name) =
      if property.name = name then some property else properties.find? (·.name = name) := by
  induction properties with
  | nil => by_cases h : property.name = name <;> simp [replace, h]
  | cons first rest ih =>
    rw [replace]
    by_cases h : first.name = property.name
    · rw [if_pos h]
      by_cases hname : property.name = name <;> simp [h, hname]
    · rw [if_neg h, List.find?_cons, List.find?_cons, ih]
      by_cases hfirst : first.name = name
      -- The first property is the one looked for and stays where it is.
      · have hother : property.name ≠ name := fun heq => h (hfirst.trans heq.symm)
        simp [hfirst, hother]
      · simp [hfirst]

/-- `addOwn` adds the name of the property unless it is there. -/
private theorem names_addOwn (own : Property) :
    names (addOwn properties own) = addNew (names properties) own.name := by
  rw [addOwn]
  split
  · rw [names_replace]
  · next hnone =>
    rw [addNew_of_not_mem (find?_eq_none_iff.1 hnone), names_append]
    rfl

/-- An own property is found under its name, with its description or else the one before. -/
private theorem find?_addOwn (own : Property) (name : String) :
    (addOwn properties own).find? (·.name = name) =
      if own.name = name then
        some (own.describedBy (own.description.or
          ((properties.find? (·.name = name)).bind (·.description))))
      else properties.find? (·.name = name) := by
  rw [addOwn]
  by_cases h : own.name = name
  · subst h
    split
    -- An inherited property of the name lends its description to the one that takes its place.
    · next inherited hfound =>
      rw [find?_replace, hfound, if_pos rfl, if_pos rfl]
      rfl
    · next hnone =>
      rw [List.find?_append, hnone]
      simp
  · split
    · rw [find?_replace, if_neg h, if_neg h]
    · rw [List.find?_append]
      simp [h]

/-! ## Several properties -/

private theorem names_foldl_replace (others properties : List Property) :
    names (others.foldl replace properties) = (names others).foldl addNew (names properties) := by
  induction others generalizing properties with
  | nil => rfl
  | cons other others ih =>
    rw [List.foldl_cons, ih, names_replace]
    rfl

/-- Replacing with many properties, the last one of a name counts. -/
private theorem find?_foldl_replace (others properties : List Property) (name : String) :
    (others.foldl replace properties).find? (·.name = name) =
      (lastNamed? others name).or (properties.find? (·.name = name)) := by
  induction others generalizing properties with
  | nil => rfl
  | cons other others ih =>
    rw [List.foldl_cons, ih, find?_replace, ← List.singleton_append, lastNamed?_append,
      lastNamed?_singleton]
    by_cases h : other.name = name <;> simp [h]

private theorem names_foldl_addOwn (own properties : List Property) :
    names (own.foldl addOwn properties) = (names own).foldl addNew (names properties) := by
  induction own generalizing properties with
  | nil => rfl
  | cons first own ih =>
    rw [List.foldl_cons, ih, names_addOwn]
    rfl

/-- The last own property of a name is found, with the last description that there is. -/
private theorem find?_foldl_addOwn (own properties : List Property) (name : String) :
    (own.foldl addOwn properties).find? (·.name = name) =
      ((lastNamed? own name).map fun last =>
        last.describedBy ((lastDescription? own name).or
          ((properties.find? (·.name = name)).bind (·.description)))).or
        (properties.find? (·.name = name)) := by
  -- From the end: the last own property meets what those before it have left.
  induction own using List.reverseRecOn with
  | nil => rfl
  | append_singleton own last ih =>
    rw [List.foldl_append, List.foldl_cons, List.foldl_nil, find?_addOwn, lastNamed?_append,
      lastNamed?_singleton, lastDescription?_append, lastDescription?_singleton, ih]
    by_cases h : last.name = name
    · -- The description before is that of the own properties before, or the inherited one.
      cases hbefore : lastNamed? own name with
      | none =>
        rw [lastDescription?_of_not_mem (lastNamed?_eq_none_iff.1 hbefore)]
        simp [h]
      | some before => simp [h, Option.or_assoc]
    · simp [h]

/-! ## Shapes -/

/-- The shape is what others are when merged from the first to the last. -/
structure Combines (shapes : List ObjectShape) (merged : ObjectShape) : Prop where
  /-- Names come in the order in which they are introduced, each of them once. -/
  order : names merged.properties = (names (shapes.flatMap (·.properties))).eraseDups
  /-- A name stands for the last property that has it. -/
  value (name : String) : merged.properties.find? (·.name = name) =
    lastNamed? (shapes.flatMap (·.properties)) name
  /-- The last schema of further properties is the one that counts. -/
  additional : merged.additional = (shapes.filterMap (·.additional)).getLast?

variable {shapes : List ObjectShape} {merged : ObjectShape}

theorem Combines.nodup (h : Combines shapes merged) : (names merged.properties).Nodup :=
  h.order ▸ nodup_eraseDups _

/-- There is at most one shape that others are when merged. -/
private theorem Combines.unique {merged' : ObjectShape} (h : Combines shapes merged)
    (h' : Combines shapes merged') : merged = merged' := by
  have hproperties : merged.properties = merged'.properties :=
    ext_of_find? h.nodup (h.order.trans h'.order.symm) fun name =>
      (h.value name).trans (h'.value name).symm
  have hadditional : merged.additional = merged'.additional :=
    h.additional.trans h'.additional.symm
  cases merged
  cases merged'
  simp_all

/-- The empty shape with others merged into it one after another. -/
theorem combines_foldl_inherit (shapes : List ObjectShape) :
    Combines shapes (shapes.foldl inherit empty) := by
  -- The last shape is the one that overrides the others, hence the induction from the end.
  induction shapes using List.reverseRecOn with
  | nil => exact ⟨rfl, fun _ => rfl, rfl⟩
  | append_singleton shapes last ih =>
    rw [List.foldl_append, List.foldl_cons, List.foldl_nil]
    constructor
    · rw [inherit, names_foldl_replace, ih.order, List.flatMap_append, names_append,
        ← foldl_addNew_nil, ← foldl_addNew_nil, List.foldl_append]
      simp
    · intro name
      rw [inherit, find?_foldl_replace, ih.value, List.flatMap_append, lastNamed?_append]
      simp
    · rw [inherit, ih.additional, List.filterMap_append, List.getLast?_append]
      cases h : last.additional <;> simp [h]

/-- A merged shape among those to be merged can be replaced by the shapes that it merges. -/
theorem Combines.splice {before after : List ObjectShape} {part : ObjectShape}
    (hpart : Combines shapes part) (h : Combines (before ++ part :: after) merged) :
    Combines (before ++ shapes ++ after) merged := by
  constructor
  · rw [h.order]
    simp only [List.flatMap_append, List.flatMap_cons, names_append, hpart.order,
      ← List.append_assoc, eraseDups_append_eraseDups_append]
  -- Each name occurs once in the merged part, so that its first occurrence is its last.
  · intro name
    rw [h.value]
    simp only [List.flatMap_append, List.flatMap_cons, lastNamed?_append,
      lastNamed?_of_nodup hpart.nodup, hpart.value, Option.or_assoc]
  · rw [h.additional]
    simp only [List.filterMap_append, List.filterMap_cons, List.getLast?_append]
    rw [← hpart.additional]
    cases part.additional <;> simp [List.getLast?_cons]

theorem foldl_inherit_splice (before shapes after : List ObjectShape) :
    (before ++ shapes.foldl inherit empty :: after).foldl inherit empty =
      (before ++ shapes ++ after).foldl inherit empty :=
  ((combines_foldl_inherit shapes).splice (combines_foldl_inherit _)).unique
    (combines_foldl_inherit _)

/-- The properties are what own ones make of those that parents have. -/
structure Inherits (parents : List (List Property)) (own properties : List Property) : Prop where
  nodup : (names properties).Nodup
  /-- A name is there exactly if a parent or an own property has it. -/
  present (name : String) : name ∈ names properties ↔
    (∃ parent ∈ parents, name ∈ names parent) ∨ name ∈ names own
  /-- Names come in the order in which they are introduced, those of parents first. -/
  order : names properties = (parents.flatMap names ++ names own).eraseDups
  /-- The last own property of a name counts. It takes the description that was there before if no
  own one has any. -/
  overridden (name : String) (last : Property) (hlast : lastNamed? own name = some last) :
    properties.find? (·.name = name) =
      some (last.describedBy ((lastDescription? own name).or
        ((lastNamed? parents.flatten name).bind (·.description))))
  /-- Without an own property, a name stands for that of the last parent that has it. -/
  inherited (name : String) (hown : name ∉ names own) :
    properties.find? (·.name = name) = lastNamed? parents.flatten name

/-- Own properties that `addOwn` adds to a merged shape. -/
theorem inherits_foldl_addOwn {parents : List ObjectShape} (h : Combines parents merged)
    (own : List Property) :
    Inherits (parents.map (·.properties)) own (own.foldl addOwn merged.properties) := by
  -- Merged shapes and concatenated lists of properties have the same names and last values.
  have hflatten : (parents.map (·.properties)).flatten = parents.flatMap (·.properties) :=
    List.flatMap_def.symm
  have hparents : names (parents.flatMap (·.properties)) =
      (parents.map (·.properties)).flatMap names := by
    rw [names, List.map_flatMap, List.flatMap_map]
    rfl
  -- The order settles three of the five parts: no name twice, which names, and where.
  have horder : names (own.foldl addOwn merged.properties) =
      ((parents.map (·.properties)).flatMap names ++ names own).eraseDups := by
    rw [names_foldl_addOwn, h.order, ← foldl_addNew_nil, ← foldl_addNew_nil, List.foldl_append,
      hparents]
  constructor
  · rw [horder]
    exact nodup_eraseDups _
  · intro name
    rw [horder, List.mem_eraseDups, List.mem_append, List.mem_flatMap]
  · exact horder
  · intro name last hlast
    rw [find?_foldl_addOwn, hlast, h.value, hflatten]
    rfl
  · intro name hown
    rw [find?_foldl_addOwn, lastNamed?_eq_none_iff.2 hown, h.value, hflatten]
    rfl

end ObjectShape

end Endpoints
