import Endpoints.Proofs.Handle

/-!
# How resolution forms schemas

Resolution forms schemas by few operations. A property of schemas that is closed under them is a
`Schema.Formation`; it holds of everything that a run gives, as far as it holds of the references.
One such property is to have all handles in a set.
-/

namespace Endpoints

/-! ## Items that differ -/

/-- No item is the same as one before it. -/
def Different {α : Type} [BEq α] (items : List α) : Prop :=
  items.Pairwise fun a b => (b == a) = false

theorem different_singleton {α : Type} [BEq α] (item : α) : Different [item] :=
  List.pairwise_singleton _ _

/-- `addNew` adds an item only if no equal one is there. -/
private theorem Different.addNew {α : Type} [BEq α] {items : List α} (h : Different items)
    (item : α) :
    Different (addNew items item) := by
  unfold Endpoints.addNew
  split
  · exact h
  · next hnew =>
    refine List.pairwise_append.2 ⟨h, List.pairwise_singleton _ _, fun a ha b hb => ?_⟩
    obtain rfl := List.mem_singleton.1 hb
    rw [List.contains_eq_any_beq, List.any_eq_true] at hnew
    exact Bool.eq_false_iff.2 fun heq => hnew ⟨a, ha, heq⟩

private theorem different_foldl_addNew {α : Type} [BEq α] (items : List α) :
    Different (items.foldl Endpoints.addNew []) :=
  List.foldlRecOn items _ List.Pairwise.nil fun _ h item _ => h.addNew item

/-! ## Operations -/

/-- `P` is closed under the operations by which resolution forms schemas. -/
structure Schema.Formation (P : Schema → Prop) : Prop extends Schema.Hereditary P where
  scalar : ∀ {scalar : Scalar}, scalar ≠ .any → scalar ≠ .byte → P (.ofScalar scalar)
  enum : ∀ {members : List Json}, Different members → P (.enum members)
  array : ∀ {element : Schema}, P element → P (.array element)
  tuple : ∀ {branches : List Schema}, 2 ≤ branches.length → Different branches →
    (∀ branch ∈ branches, P branch) → P (.array (.ofKind (.union branches)))
  intersection : ∀ {schemas : List Schema}, schemas ≠ [] → (∀ schema ∈ schemas, P schema) →
    P (intersectionSchema (schemas.flatMap intersectionMembers))
  shape : ∀ {shape : ObjectShape}, shape.Each P → P shape.toSchema
  nullable : ∀ {schema : Schema} {nullable : Bool}, P schema → P { schema with nullable }

namespace Schema.Formation

variable {P : Schema → Prop} (hP : Formation P)
include hP

theorem anyObject : P .object := hP.scalar (by decide) (by decide)

theorem single (value : Json) : P (.enum [value]) := hP.enum (different_singleton value)

private theorem numberFormat (format : NumberFormat) : P format.schema := by
  cases format <;> exact hP.scalar (by decide) (by decide)

/-- Keywords are scalars or the enum of `null`, if they have a schema at all. -/
theorem keyword {word : Keyword} {hints : Hints} {schema : Schema}
    (h : word.schema hints = .ok schema) : P schema := by
  cases word with
  | number => exact Except.ok.inj h ▸ hP.numberFormat _
  | null | undefined => exact Except.ok.inj h ▸ hP.single .null
  | never | symbol => exact nomatch h
  | _ => exact Except.ok.inj h ▸ hP.scalar (by decide) (by decide)

/-- The schema of an initializer is read off its form. -/
theorem initializer (value : Expr) (hints : Hints) : P (value.schema hints) := by
  unfold Expr.schema
  split
  · exact hP.scalar (by decide) (by decide)
  · exact hP.numberFormat _
  · exact hP.scalar (by decide) (by decide)
  · exact hP.array hP.anyObject
  · exact hP.anyObject

/-- A tuple is an array of its elements, which are listed once each. -/
theorem tupleSchema {schemas : List Schema} (h : ∀ schema ∈ schemas, P schema) :
    P (tupleSchema (schemas.foldl addNew [])) := by
  have hmem : ∀ schema ∈ schemas.foldl addNew [], P schema := fun schema hs =>
    h schema ((mem_foldl_addNew hs).resolve_left List.not_mem_nil)
  have hdifferent := different_foldl_addNew schemas
  -- Only the number of different elements matters from here on.
  generalize schemas.foldl addNew [] = branches at hmem hdifferent
  match branches with
  | [] => exact hP.array hP.anyObject
  | [schema] => exact hP.array (hmem schema List.mem_cons_self)
  | first :: second :: rest => exact hP.tuple (by simp) hdifferent hmem

/-- A record has a property for each key, or further properties. -/
theorem recordSchema {key value : Schema} (h : P value) : P (recordSchema key value) := by
  unfold Endpoints.recordSchema
  split
  · next members _ =>
    have heach : ObjectShape.Each P
        ⟨members.map fun member => .plain member.keyText value true, none⟩ := by
      refine ⟨fun property hp => ?_, by simp⟩
      obtain ⟨member, _, rfl⟩ := List.mem_map.1 hp
      exact h
    exact hP.shape heach
  · have heach : ObjectShape.Each P ⟨[], some value⟩ := ⟨by simp, by simpa using h⟩
    exact hP.shape heach

/-- A union is one of its branches, an enum of their values or any object. -/
theorem union {c : Context} {schemas : List Schema} (h : ∀ schema ∈ schemas, P schema) :
    P ((schemas.foldl UnionParts.add ⟨[], false⟩).toSchema c) := by
  have hmem : ∀ branch ∈ (schemas.foldl UnionParts.add ⟨[], false⟩).branches, P branch := by
    intro branch hb
    rcases UnionParts.mem_foldl_add hb with hb | ⟨schema, hs, rfl⟩
    · exact nomatch hb
    · exact hP.nullable (h schema hs)
  -- All that matters about the parts is that `P` holds of the branches.
  generalize schemas.foldl UnionParts.add ⟨[], false⟩ = parts at hmem
  unfold UnionParts.toSchema
  split
  · exact hP.single .null
  · next branch hbranches => exact hP.nullable (hmem branch (hbranches ▸ List.mem_cons_self))
  · refine hP.nullable ?_
    split
    · next members hmembers =>
      obtain ⟨values, _, rfl⟩ := Option.map_eq_some_iff.1 hmembers
      exact hP.enum (different_foldl_addNew _)
    · cases hsingle : singleOrArray? parts.branches with
      | none => exact hP.anyObject
      | some schema => exact hmem schema (singleOrArray?_mem hsingle)

end Schema.Formation

/-! ## Handles -/

/-- Opened intersections have the handles of the schema. -/
private theorem intersectionMembers_within {A : Set Handle} {schema member : Schema}
    (h : schema.Within A) (hm : member ∈ intersectionMembers schema) : member.Within A := by
  obtain ⟨kind, nullable⟩ := schema
  unfold intersectionMembers at hm
  split at hm
  · next types hkind _ =>
    subst hkind
    exact Schema.within_intersection.1 h member hm
  · obtain rfl := List.mem_singleton.1 hm
    exact h

/-- `intersectionSchema` has no handles but those of its members. -/
private theorem intersectionSchema_within {A : Set Handle} {schemas : List Schema}
    (h : ∀ schema ∈ schemas, schema.Within A) : (intersectionSchema schemas).Within A := by
  unfold intersectionSchema
  split
  · exact h _ List.mem_cons_self
  · exact Schema.within_intersection.2 h

namespace Schema

theorem within_intersectionSchema_nil {A : Set Handle} : (intersectionSchema []).Within A :=
  intersectionSchema_within fun _ h => nomatch h

/-- To have known handles is kept by every way to form a schema. -/
theorem formation_within (A : Set Handle) : Formation (Within A) where
  toHereditary := hereditary_within
  scalar _ _ := within_ofScalar _
  enum _ := within_enum _
  array := within_array.2
  tuple _ _ h := within_array.2 (within_union.2 h)
  intersection _ h := intersectionSchema_within fun member hm => by
    obtain ⟨schema, hs, hm⟩ := List.mem_flatMap.1 hm
    exact intersectionMembers_within (h schema hs) hm
  shape := ObjectShape.toSchema_within.2
  nullable := within_nullable.2

/-- What holds of the schemas that are formed where a set of handles is known. -/
structure Formed (V : Set Handle → Schema → Prop) : Prop where
  mono : ∀ {A B schema}, A ⊆ B → V A schema → V B schema
  formation : ∀ A, Formation (V A)

theorem formed_within : Formed Within := ⟨fun hAB h => h.mono hAB, formation_within⟩

end Schema

end Endpoints
