import Endpoints.Proofs.Merge
import Mathlib.Data.List.Forall2

/-!
# Grouped intersections

The members of an intersection may be grouped: by an intersection inside it, or by an alias that is
declared as one. The shape is that of the members themselves. An alias is followed through its
entry, which takes hops; as many are left for its target as the target needs by itself.
-/

namespace Endpoints

open ObjectShape

/-- Members with shapes are merged one after another. -/
private theorem mergeShapes_eq {follow : String → Except Fault ObjectShape} {types : List Schema}
    {shapes : List ObjectShape}
    (h : List.Forall₂ (fun type shape => type.shape follow = .ok shape) types shapes)
    (merged : ObjectShape) :
    mergeShapes follow merged types = .ok (shapes.foldl inherit merged) := by
  induction h generalizing merged with
  | nil => rfl
  | cons hfirst _ ih =>
    rw [mergeShapes, hfirst]
    exact ih _

namespace Context

variable {c : Context}

/-- The shapes of several schemas. -/
def Shapes (c : Context) (types : List Schema) (shapes : List ObjectShape) : Prop :=
  List.Forall₂ (fun type shape => c.shapeOf type = .ok shape) types shapes

variable {types : List Schema} {shapes : List ObjectShape}

private theorem shapeOf_intersection (h : c.Shapes types shapes) (nullable : Bool) :
    c.shapeOf ⟨.intersection types, nullable⟩ = .ok (shapes.foldl inherit .empty) :=
  mergeShapes_eq h .empty

/-- The shape of an alias is that of its target, though with one hop fewer. -/
private theorem shapeOf_typeAlias {name : String} {type : ReferenceType} {target : Schema}
    {format : Option String} {validators : Validators} {default : Option Json}
    {shape : ObjectShape} (hentry : c.reference? name = some type)
    (htype : type.shape = .typeAlias target format validators default)
    (htarget : c.shapeOf target = .ok shape) (nullable : Bool) :
    c.shapeOf ⟨.reference .typeAlias name, nullable⟩ = .ok shape := by
  -- One hop more than usual certainly leaves enough for the target.
  have hmore : c.shapeOfName (c.table.entries.length + 1 + 1) name = .ok shape := by
    rw [shapeOfName_succ, hentry]
    simp only [htype]
    exact htarget
  have hsettled : Settled (c.shapeOfName (c.table.entries.length + 1 + 1) name) := by
    intro other h
    rw [hmore] at h
    cases h
  change c.shapeOfName (c.table.entries.length + 1) name = .ok shape
  rw [hops_suffice hsettled, hmore]

/-- The schema stands for an intersection: it is one, or it is the handle of an alias whose target
stands for one. -/
inductive StandsFor (c : Context) : Schema → List Schema → Prop
  | nested (types : List Schema) (nullable : Bool) :
      StandsFor c ⟨.intersection types, nullable⟩ types
  | handle {name : String} {type : ReferenceType} {target : Schema} {format : Option String}
      {validators : Validators} {default : Option Json} {types : List Schema} (nullable : Bool)
      (hentry : c.reference? name = some type)
      (htype : type.shape = .typeAlias target format validators default)
      (htarget : StandsFor c target types) :
      StandsFor c ⟨.reference .typeAlias name, nullable⟩ types

theorem StandsFor.shapeOf {group : Schema} (hgroup : c.StandsFor group types)
    (h : c.Shapes types shapes) : c.shapeOf group = .ok (shapes.foldl inherit .empty) := by
  induction hgroup with
  | nested types nullable => exact shapeOf_intersection h nullable
  | handle nullable hentry htype _ ih => exact shapeOf_typeAlias hentry htype (ih h) nullable

/-- An intersection has the same shape with a group in it and with the members of the group in its
place. -/
theorem shapeOf_splice {group : Schema} {before after : List Schema}
    {shapesBefore shapesAfter : List ObjectShape} (hgroup : c.StandsFor group types)
    (hbefore : c.Shapes before shapesBefore) (h : c.Shapes types shapes)
    (hafter : c.Shapes after shapesAfter) (nullable : Bool) :
    c.shapeOf ⟨.intersection (before ++ group :: after), nullable⟩ =
      .ok ((shapesBefore ++ shapes ++ shapesAfter).foldl inherit .empty) := by
  have hgrouped : c.Shapes (before ++ group :: after)
      (shapesBefore ++ shapes.foldl inherit .empty :: shapesAfter) :=
    List.rel_append hbefore (.cons (hgroup.shapeOf h) hafter)
  rw [shapeOf_intersection hgrouped, foldl_inherit_splice]

end Context

/-- Three members of an intersection have one shape together, whether they stand side by side, the
first two are a group or the last two are. Its names are different and come in the order in which
the members introduce them. The last member that has a property of a name gives the property, and
the last one that describes further properties gives their schema. -/
theorem shape_of_grouped_members {c : Context} {a b d left right : Schema}
    {shapeA shapeB shapeD : ObjectShape} (ha : c.shapeOf a = .ok shapeA)
    (hb : c.shapeOf b = .ok shapeB) (hd : c.shapeOf d = .ok shapeD)
    (hleft : c.StandsFor left [a, b]) (hright : c.StandsFor right [b, d]) :
    ∃ merged : ObjectShape,
      (∀ nullable, c.shapeOf ⟨.intersection [a, b, d], nullable⟩ = .ok merged) ∧
      (∀ nullable, c.shapeOf ⟨.intersection [left, d], nullable⟩ = .ok merged) ∧
      (∀ nullable, c.shapeOf ⟨.intersection [a, right], nullable⟩ = .ok merged) ∧
      (names merged.properties).Nodup ∧
      names merged.properties =
        (names (shapeA.properties ++ shapeB.properties ++ shapeD.properties)).eraseDups ∧
      (∀ name, merged.properties.find? (·.name = name) =
        (lastNamed? shapeD.properties name).or
          ((lastNamed? shapeB.properties name).or (lastNamed? shapeA.properties name))) ∧
      merged.additional = shapeD.additional.or (shapeB.additional.or shapeA.additional) := by
  have hmerged := combines_foldl_inherit [shapeA, shapeB, shapeD]
  refine ⟨_, fun nullable => ?_, fun nullable => ?_, fun nullable => ?_, hmerged.nodup, ?_,
    fun name => ?_, ?_⟩
  · exact Context.shapeOf_intersection (.cons ha (.cons hb (.cons hd .nil))) nullable
  -- The group stands first, so nothing is merged before it.
  · have hnone : c.Shapes [] [] := .nil
    exact Context.shapeOf_splice hleft hnone (.cons ha (.cons hb .nil)) (.cons hd .nil) nullable
  · have hfirst : c.Shapes [a] [shapeA] := .cons ha .nil
    exact Context.shapeOf_splice hright hfirst (.cons hb (.cons hd .nil)) .nil nullable
  · rw [hmerged.order]
    simp
  · rw [hmerged.value]
    simp [lastNamed?_append, Option.or_assoc]
  · simp [inherit, ObjectShape.empty]

/-- An alias of an intersection next to a third member, and the second and third in a group. -/
theorem alias_merged_as_its_members :
    let text := Schema.ofKind (.scalar .string)
    let number := Schema.ofKind (.scalar .double)
    let user := Schema.ofKind (.object [.plain "id" text true, .plain "name" text true] none)
    let numbered := Schema.ofKind (.object [.plain "id" number false] none)
    let aged := Schema.ofKind (.object [.plain "age" number true, .plain "name" text false] none)
    let entry : ReferenceType := ⟨"Numbered", none, false, none,
      .typeAlias (.ofKind (.intersection [user, numbered])) none .empty none⟩
    let c : Context := { Context.empty with table := Dict.empty.insert "Numbered" entry }
    ∃ merged,
      c.shapeOf (.ofKind (.intersection [entry.handle, aged])) = .ok merged ∧
      c.shapeOf (.ofKind (.intersection [user, .ofKind (.intersection [numbered, aged])])) =
        .ok merged ∧
      names merged.properties = ["id", "name", "age"] ∧
      merged.properties.find? (·.name = "id") = some (.plain "id" number false) := by
  intro text number user numbered aged entry c
  have hentry : c.reference? "Numbered" = some entry := by simp [Context.reference?, c]
  -- The alias stands for its two members, on the left; on the right the last two are nested.
  obtain ⟨merged, -, hleft, hright, -, hnames, hvalue, -⟩ := shape_of_grouped_members (c := c)
    (a := user) (b := numbered) (d := aged) rfl rfl rfl
    (.handle false hentry rfl (.nested [user, numbered] false)) (.nested [numbered, aged] false)
  refine ⟨merged, hleft false, hright false, ?_, ?_⟩
  · rw [hnames]
    rfl
  · rw [hvalue]
    rfl

end Endpoints
