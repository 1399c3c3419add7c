import Endpoints.Resolution.Shape

/-!
# What holds of all schemas in a shape

Shapes are merged, changed and read from the table, but the types of their properties are only
copied on the way. So what holds of these in the end held of them before.
-/

namespace Endpoints

variable {P : Schema → Prop}

namespace ObjectShape

/-- The types of all properties, and the type of further ones, satisfy `P`. -/
structure Each (P : Schema → Prop) (shape : ObjectShape) : Prop where
  properties : ∀ property ∈ shape.properties, P property.type
  additional : ∀ schema ∈ shape.additional, P schema

variable {shape : ObjectShape}

theorem Each.imp {Q : Schema → Prop} (h : shape.Each P) (himp : ∀ schema, P schema → Q schema) :
    shape.Each Q :=
  ⟨fun property hp => himp _ (h.properties property hp),
    fun schema hs => himp _ (h.additional schema hs)⟩

theorem each_empty : empty.Each P := ⟨by simp [empty], by simp [empty]⟩

variable {properties : List Property}

/-- `replace` brings in no property but the given one. -/
private theorem mem_replace {property other : Property} (h : other ∈ replace properties property) :
    other = property ∨ other ∈ properties := by
  induction properties with
  | nil => simpa [replace] using h
  | cons first rest ih =>
    unfold replace at h
    -- The first property is replaced if it has the name, and kept otherwise.
    split at h
    · exact (List.mem_cons.1 h).imp id (List.mem_cons_of_mem _)
    · rcases List.mem_cons.1 h with rfl | h
      · exact .inr List.mem_cons_self
      · exact (ih h).imp id (List.mem_cons_of_mem _)

/-- Replacing with many properties brings in no others than these. -/
private theorem mem_foldl_replace {inherited : List Property} {other : Property}
    (h : other ∈ inherited.foldl replace properties) : other ∈ properties ∨ other ∈ inherited := by
  induction inherited generalizing properties with
  | nil => exact .inl h
  | cons property inherited ih =>
    rcases ih h with h | h
    · rcases mem_replace h with rfl | h
      · exact .inr List.mem_cons_self
      · exact .inl h
    · exact .inr (List.mem_cons_of_mem _ h)

/-- `ObjectShape.inherit` takes every type from one of the two shapes. -/
theorem each_inherit {other : ObjectShape} (h : shape.Each P) (ho : other.Each P) :
    (shape.inherit other).Each P := by
  refine ⟨fun property hp => ?_, fun schema hs => ?_⟩
  · rcases mem_foldl_replace hp with hp | hp
    · exact h.properties property hp
    · exact ho.properties property hp
  -- The type of further properties is that of the other shape if it has one.
  · rcases Option.or_eq_some_iff.1 hs with hs | ⟨_, hs⟩
    · exact ho.additional schema hs
    · exact h.additional schema hs

/-- An own property has the type it was declared with. -/
private theorem each_addOwn {own : Property} (h : ∀ property ∈ properties, P property.type)
    (ho : P own.type) : ∀ property ∈ addOwn properties own, P property.type := by
  intro property hp
  unfold addOwn at hp
  -- A property of this name is replaced; otherwise the own one goes to the end.
  split at hp
  · rcases mem_replace hp with rfl | hp
    · exact ho
    · exact h property hp
  · rcases List.mem_append.1 hp with hp | hp
    · exact h property hp
    · obtain rfl := List.mem_singleton.1 hp
      exact ho

/-- Own properties keep their types when they are added one by one. -/
theorem each_foldl_addOwn {own : List Property} (h : ∀ property ∈ properties, P property.type)
    (ho : ∀ property ∈ own, P property.type) :
    ∀ property ∈ own.foldl addOwn properties, P property.type := by
  induction own generalizing properties with
  | nil => exact h
  | cons first own ih =>
    exact ih (each_addOwn h (ho first List.mem_cons_self))
      fun property hp => ho property (List.mem_cons_of_mem _ hp)

theorem each_require {required : Bool} (h : shape.Each P) : (shape.require required).Each P := by
  refine ⟨fun property hp => ?_, h.additional⟩
  obtain ⟨original, ho, rfl⟩ := List.mem_map.1 hp
  exact h.properties original ho

end ObjectShape

/-! ## Shapes of schemas -/

/-- `P` passes from a schema to the schemas that its shape is read from. -/
structure Schema.Hereditary (P : Schema → Prop) : Prop where
  ofObject : ∀ {properties : List Property} {additional : Option Schema} {nullable : Bool},
    P ⟨.object properties additional, nullable⟩ → ObjectShape.Each P ⟨properties, additional⟩
  ofIntersection : ∀ {types : List Schema} {nullable : Bool},
    P ⟨.intersection types, nullable⟩ → ∀ type ∈ types, P type

section

variable {follow : String → Except Fault ObjectShape}

mutual

private theorem Schema.each_shape (hP : Schema.Hereditary P)
    (hfollow : ∀ name shape, follow name = .ok shape → shape.Each P) (schema : Schema)
    (hs : P schema) {shape : ObjectShape} (h : schema.shape follow = .ok shape) : shape.Each P := by
  match schema with
  | ⟨kind, nullable⟩ =>
    simp only [Schema.shape] at h
    exact kind.each_shape hP hfollow hs h

/-- `Schema.each_shape` by the kind: only objects, names and intersections have shapes. -/
private theorem Kind.each_shape (hP : Schema.Hereditary P)
    (hfollow : ∀ name shape, follow name = .ok shape → shape.Each P) (kind : Kind)
    {nullable : Bool} (hs : P ⟨kind, nullable⟩) {shape : ObjectShape}
    (h : kind.shape follow = .ok shape) : shape.Each P := by
  match kind with
  | .object properties additional =>
    simp only [Kind.shape, Except.ok.injEq] at h
    exact h ▸ hP.ofObject hs
  -- A handle is followed, and what it leads to is assumed to have the property.
  | .reference .object name => exact hfollow name shape (by simpa [Kind.shape] using h)
  | .reference .typeAlias name => exact hfollow name shape (by simpa [Kind.shape] using h)
  | .reference .enum name => simp [Kind.shape] at h
  | .intersection types =>
    simp only [Kind.shape] at h
    exact each_mergeShapes hP hfollow types (hP.ofIntersection hs) ObjectShape.each_empty h
  | .scalar _ | .array _ | .enum _ | .union _ => simp [Kind.shape] at h

/-- Along the members of an intersection, the merged shape keeps `P`. -/
private theorem each_mergeShapes (hP : Schema.Hereditary P)
    (hfollow : ∀ name shape, follow name = .ok shape → shape.Each P) (schemas : List Schema)
    (hs : ∀ schema ∈ schemas, P schema) {merged shape : ObjectShape} (hm : merged.Each P)
    (h : mergeShapes follow merged schemas = .ok shape) : shape.Each P := by
  match schemas with
  | [] =>
    simp only [mergeShapes, Except.ok.injEq] at h
    exact h ▸ hm
  | schema :: schemas =>
    simp only [mergeShapes, bind, Except.bind] at h
    cases hshape : schema.shape follow with
    | error e => simp [hshape] at h
    | ok first =>
      simp only [hshape] at h
      -- The property passes from the merged shape and from the first schema to their merge.
      have hfirst := schema.each_shape hP hfollow (hs schema List.mem_cons_self) hshape
      have hrest : ∀ other ∈ schemas, P other :=
        fun other ho => hs other (List.mem_cons_of_mem _ ho)
      exact each_mergeShapes hP hfollow schemas hrest (ObjectShape.each_inherit hm hfirst) h

end

end

/-! ## The table -/

/-- What a named type is made of satisfies `P`; an enum is made of no schemas. -/
def ReferenceType.Each (P : Schema → Prop) (type : ReferenceType) : Prop :=
  match type.shape with
  | .object properties additional => ObjectShape.Each P ⟨properties, additional⟩
  | .enum _ _ => True
  | .typeAlias target _ _ _ => P target

namespace Context

/-- What the finished types are made of satisfies `P`. -/
def Each (P : Schema → Prop) (c : Context) : Prop :=
  ∀ name type, c.reference? name = some type → type.Each P

variable {c : Context}

/-- The shape of a name, by the number of aliases that are followed. -/
private theorem each_shapeOfName (hP : Schema.Hereditary P) (hc : c.Each P) {hops : Nat}
    {name : String}
    {shape : ObjectShape} (h : c.shapeOfName hops name = .ok shape) : shape.Each P := by
  induction hops generalizing name shape with
  | zero => simp [shapeOfName] at h
  | succ hops ih =>
    unfold shapeOfName at h
    cases htype : c.reference? name with
    | none => simp [htype] at h
    | some type =>
      have heach := hc name type htype
      -- The table says `P` of the type, in the form that fits its shape.
      unfold ReferenceType.Each at heach
      simp only [htype] at h
      cases hshape : type.shape with
      | object properties additional =>
        simp only [hshape, Except.ok.injEq] at h heach
        exact h ▸ heach
      | typeAlias target format validators default =>
        simp only [hshape] at h heach
        exact target.each_shape hP (fun _ _ => ih) heach h
      | enum members memberNames => simp [hshape] at h

theorem each_shapeOf (hP : Schema.Hereditary P) (hc : c.Each P) {schema : Schema}
    {shape : ObjectShape} (hs : P schema) (h : c.shapeOf schema = .ok shape) : shape.Each P :=
  schema.each_shape hP (fun _ _ => each_shapeOfName hP hc) hs h

end Context

end Endpoints
