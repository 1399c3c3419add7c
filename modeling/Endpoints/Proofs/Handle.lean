import Endpoints.Proofs.Each
import Endpoints.Proofs.FirstOccurrence
import Endpoints.Resolution.Step
import Mathlib.Data.Set.Basic

/-!
# Handles in schemas

A schema refers to named types by handles: the sort of the type and its name. `Schema.handles`
collects the handles of a schema at any depth, and `Within` says that all of them lie in a set.
Every operation by which resolution builds a schema from parts keeps `Within`, so a set of handles
only has to be looked at where a handle is made.
-/

namespace Endpoints

/-- A reference to a named type, as it stands in a schema. -/
structure Handle where
  referent : Referent
  name : String
deriving DecidableEq, Repr

mutual

/-- The handles in a schema. -/
def Schema.handles : Schema → List Handle
  | ⟨kind, _⟩ => kind.handles

def Kind.handles : Kind → List Handle
  | .scalar _ => []
  | .enum _ => []
  | .array element => element.handles
  | .union types => schemasHandles types
  | .intersection types => schemasHandles types
  | .object properties additional => propertiesHandles properties ++ schemaHandles? additional
  | .reference referent name => [⟨referent, name⟩]

def schemasHandles : List Schema → List Handle
  | [] => []
  | schema :: schemas => schema.handles ++ schemasHandles schemas

def schemaHandles? : Option Schema → List Handle
  | some schema => schema.handles
  | none => []

def Property.handles : Property → List Handle
  | ⟨_, type, _, _, _, _, _, _, _⟩ => type.handles

def propertiesHandles : List Property → List Handle
  | [] => []
  | property :: properties => property.handles ++ propertiesHandles properties

end

def ReferenceShape.handles : ReferenceShape → List Handle
  | .object properties additional => propertiesHandles properties ++ schemaHandles? additional
  | .enum _ _ => []
  | .typeAlias target _ _ _ => target.handles

def ReferenceType.handles (type : ReferenceType) : List Handle :=
  type.shape.handles

private theorem schemasHandles_eq (schemas : List Schema) :
    schemasHandles schemas = schemas.flatMap Schema.handles := by
  induction schemas with
  | nil => rfl
  | cons schema schemas ih => simp only [schemasHandles, ih, List.flatMap_cons]

private theorem propertiesHandles_eq (properties : List Property) :
    propertiesHandles properties = properties.flatMap fun property => property.type.handles := by
  induction properties with
  | nil => rfl
  | cons property properties ih =>
    cases property
    simp only [propertiesHandles, ih, List.flatMap_cons, Property.handles]

/-! ## Sets of handles -/

/-- All handles in the schema lie in the set. -/
def Schema.Within (A : Set Handle) (schema : Schema) : Prop :=
  ∀ handle ∈ schema.handles, handle ∈ A

/-- All handles in the properties of a shape lie in the set. -/
abbrev ObjectShape.Within (A : Set Handle) (shape : ObjectShape) : Prop :=
  shape.Each (Schema.Within A)

/-- All handles in the reference type lie in the set. -/
def ReferenceType.Within (A : Set Handle) (type : ReferenceType) : Prop :=
  ∀ handle ∈ type.handles, handle ∈ A

variable {A B : Set Handle}

namespace Schema

@[simp] theorem within_ofScalar (scalar : Scalar) : (ofScalar scalar).Within A :=
  fun _ hhandle => absurd hhandle List.not_mem_nil

@[simp] theorem within_enum (members : List Json) : (enum members).Within A :=
  fun _ hhandle => absurd hhandle List.not_mem_nil

@[simp] theorem within_object : object.Within A := within_ofScalar _

@[simp] theorem within_null : null.Within A := within_enum _

@[simp] theorem within_array {element : Schema} : (array element).Within A ↔ element.Within A :=
  .rfl

@[simp] theorem within_reference {referent : Referent} {name : String} :
    (ofKind (.reference referent name)).Within A ↔ ⟨referent, name⟩ ∈ A :=
  List.forall_mem_singleton

private theorem forall_mem_schemasHandles {types : List Schema} :
    (∀ handle ∈ schemasHandles types, handle ∈ A) ↔ ∀ type ∈ types, type.Within A := by
  rw [schemasHandles_eq, List.forall_mem_flatMap]
  rfl

theorem within_union {types : List Schema} :
    (ofKind (.union types)).Within A ↔ ∀ type ∈ types, type.Within A :=
  forall_mem_schemasHandles

theorem within_intersection {types : List Schema} {nullable : Bool} :
    Within A ⟨.intersection types, nullable⟩ ↔ ∀ type ∈ types, type.Within A :=
  forall_mem_schemasHandles

/-- The handles of an object schema are those of its shape. -/
theorem within_properties {properties : List Property} {additional : Option Schema}
    {nullable : Bool} :
    Within A ⟨.object properties additional, nullable⟩ ↔
      ObjectShape.Within A ⟨properties, additional⟩ := by
  simp only [Within, handles, Kind.handles, propertiesHandles_eq, List.mem_append,
    List.mem_flatMap]
  constructor
  · intro h
    refine ⟨fun property hp handle hh => h handle (.inl ⟨property, hp, hh⟩), ?_⟩
    intro schema hs handle hh
    obtain rfl := Option.mem_def.1 hs
    exact h handle (.inr hh)
  -- Backwards, a handle stands in one of the properties or in the schema of the other keys.
  · rintro h handle (⟨property, hp, hh⟩ | hh)
    · exact h.properties property hp handle hh
    · cases additional with
      | none => simp [schemaHandles?] at hh
      | some schema => exact h.additional schema rfl handle hh

@[simp] theorem within_nullable {schema : Schema} {nullable : Bool} :
    Within A { schema with nullable } ↔ schema.Within A := by
  cases schema; rfl

theorem Within.mono {schema : Schema} (h : schema.Within A) (hAB : A ⊆ B) : schema.Within B :=
  fun handle hh => hAB (h handle hh)

theorem Within.inter {schema : Schema} (h : schema.Within A) (h' : schema.Within B) :
    schema.Within (A ∩ B) :=
  fun handle hhandle => ⟨h handle hhandle, h' handle hhandle⟩

theorem within_univ (schema : Schema) : schema.Within Set.univ := fun _ _ => trivial

end Schema

/-! ## Unions -/

variable {parts : UnionParts}

/-- The branches of a union are its members, none of them nullable. -/
theorem UnionParts.mem_foldl_add {schemas : List Schema} {branch : Schema}
    (h : branch ∈ (schemas.foldl UnionParts.add parts).branches) :
    branch ∈ parts.branches ∨ ∃ schema ∈ schemas, branch = { schema with nullable := false } := by
  induction schemas generalizing parts with
  | nil => exact .inl h
  | cons schema schemas ih =>
    -- The branch comes from a later schema or was there once the first one was added.
    rcases ih h with hb | ⟨other, ho, rfl⟩
    · unfold UnionParts.add addNew at hb
      split at hb
      · exact .inl hb
      · dsimp only at hb
        split at hb
        · exact .inl hb
        · rcases List.mem_append.1 hb with hb | hb
          · exact .inl hb
          · exact .inr ⟨schema, List.mem_cons_self, List.mem_singleton.1 hb⟩
    · exact .inr ⟨other, List.mem_cons_of_mem _ ho, rfl⟩

theorem UnionParts.foldl_add_within {schemas : List Schema}
    (h : ∀ branch ∈ parts.branches, branch.Within A) (hs : ∀ schema ∈ schemas, schema.Within A) :
    ∀ branch ∈ (schemas.foldl UnionParts.add parts).branches, branch.Within A := by
  intro branch hb
  rcases mem_foldl_add hb with hb | ⟨schema, hschema, rfl⟩
  · exact h branch hb
  · exact Schema.within_nullable.2 (hs schema hschema)

/-- `singleOrArray?` gives one of the branches. -/
theorem singleOrArray?_mem {branches : List Schema} {schema : Schema}
    (h : singleOrArray? branches = some schema) : schema ∈ branches := by
  unfold singleOrArray? at h
  split at h
  · split at h
    · simp_all
    · split at h <;> simp_all
  · exact nomatch h

/-- The schema of a union is one of its branches, an enum or an object, up to null. -/
theorem UnionParts.toSchema_cases (c : Context) (parts : UnionParts) :
    ∃ schema nullable, parts.toSchema c = { schema with nullable } ∧
      (schema ∈ parts.branches ∨ schema = .object ∨ ∃ members, schema = .enum members) := by
  -- Without branches it is the enum of `null`, with one it is that one; several may all be values.
  unfold UnionParts.toSchema
  split
  · exact ⟨.null, _, rfl, .inr (.inr ⟨_, rfl⟩)⟩
  · next branch hbranches => exact ⟨branch, _, rfl, .inl (hbranches ▸ List.mem_cons_self)⟩
  · refine ⟨_, _, rfl, ?_⟩
    split
    · exact .inr (.inr ⟨_, rfl⟩)
    · cases hs : singleOrArray? parts.branches with
      | none => exact .inr (.inl rfl)
      | some schema => exact .inl (singleOrArray?_mem hs)

theorem UnionParts.toSchema_within {c : Context} (h : ∀ branch ∈ parts.branches, branch.Within A) :
    (parts.toSchema c).Within A := by
  obtain ⟨schema, nullable, heq, hcases⟩ := parts.toSchema_cases c
  rw [heq, Schema.within_nullable]
  rcases hcases with hb | rfl | ⟨members, rfl⟩
  · exact h schema hb
  · exact Schema.within_object
  · exact Schema.within_enum members

/-! ## Shapes -/

namespace ObjectShape

variable {shape : ObjectShape}

theorem Within.mono (h : shape.Within A) (hAB : A ⊆ B) : shape.Within B :=
  h.imp fun _ hs => hs.mono hAB

theorem Within.inter (h : shape.Within A) (h' : shape.Within B) : shape.Within (A ∩ B) :=
  ⟨fun property hp => (h.properties property hp).inter (h'.properties property hp),
    fun schema hs => (h.additional schema hs).inter (h'.additional schema hs)⟩

theorem within_univ (shape : ObjectShape) : shape.Within Set.univ :=
  ⟨fun _ _ => Schema.within_univ _, fun _ _ => Schema.within_univ _⟩

theorem toSchema_within : shape.toSchema.Within A ↔ shape.Within A :=
  Schema.within_properties

end ObjectShape

theorem Schema.hereditary_within : Schema.Hereditary (Schema.Within A) where
  ofObject := Schema.within_properties.1
  ofIntersection := Schema.within_intersection.1

variable {type : ReferenceType}

theorem ReferenceType.Within.mono (h : type.Within A) (hAB : A ⊆ B) : type.Within B :=
  fun handle hh => hAB (h handle hh)

theorem ReferenceType.within_object {properties : List Property} {additional : Option Schema}
    (h : type.shape = .object properties additional) :
    type.Within A ↔ ObjectShape.Within A ⟨properties, additional⟩ := by
  have hschema : type.Within A ↔ Schema.Within A ⟨.object properties additional, false⟩ := by
    simp [Within, handles, h, ReferenceShape.handles, Schema.Within, Schema.handles, Kind.handles]
  exact hschema.trans Schema.within_properties

theorem ReferenceType.within_typeAlias {target : Schema} {format : Option String}
    {validators : Validators} {default : Option Json}
    (h : type.shape = .typeAlias target format validators default) :
    type.Within A ↔ target.Within A := by
  simp [Within, handles, h, ReferenceShape.handles, Schema.Within]

theorem ReferenceType.within_iff_each : type.Within A ↔ type.Each (Schema.Within A) := by
  unfold ReferenceType.Each
  cases hshape : type.shape with
  | object properties additional =>
    exact within_object hshape
  | typeAlias target format validators default => exact within_typeAlias hshape
  | enum members memberNames => simp [Within, handles, hshape, ReferenceShape.handles]

theorem Context.shapeOf_within {c : Context}
    (hc : ∀ name type, c.reference? name = some type → type.Within A) {schema : Schema}
    {shape : ObjectShape} (hs : schema.Within A) (h : c.shapeOf schema = .ok shape) :
    shape.Within A := by
  have heach : c.Each (Schema.Within A) := fun name type htype =>
    ReferenceType.within_iff_each.1 (hc name type htype)
  exact Context.each_shapeOf Schema.hereditary_within heach hs h

end Endpoints
