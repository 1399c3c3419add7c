import Endpoints.Proofs.History
import Endpoints.Proofs.Nodewise

/-!
# Canonical schemas

Schemas are formed in many ways and changed afterwards: null is taken away and given back,
intersections are flattened, properties are copied from one schema to another. What comes out has a
normal form nevertheless, at every depth.
-/

namespace Endpoints

open Resolver

/-! ## The normal form -/

/-- Whether the schema is an intersection that is not nullable. -/
def Schema.isIntersection (schema : Schema) : Bool :=
  match schema.kind, schema.nullable with
  | .intersection _, false => true
  | _, _ => false

/-- The normal form of schemas: the values of an enum differ; a union occurs only as what an array
holds, and it has two or more branches, which differ; an intersection has two or more members, of
which none is an intersection that could be flattened; and two of the scalars never occur. -/
inductive Schema.Canonical : Schema → Prop
  | scalar {scalar : Scalar} {nullable : Bool} : scalar ≠ .any → scalar ≠ .byte →
      Canonical ⟨.scalar scalar, nullable⟩
  | enum {members : List Json} {nullable : Bool} : Different members →
      Canonical ⟨.enum members, nullable⟩
  | array {element : Schema} {nullable : Bool} : element.Canonical →
      Canonical ⟨.array element, nullable⟩
  | arrayOfUnion {branches : List Schema} {nullable nullable' : Bool} : 2 ≤ branches.length →
      Different branches → (∀ branch ∈ branches, branch.Canonical) →
      Canonical ⟨.array ⟨.union branches, nullable⟩, nullable'⟩
  | intersection {types : List Schema} {nullable : Bool} : 2 ≤ types.length →
      (∀ type ∈ types, type.isIntersection = false) → (∀ type ∈ types, type.Canonical) →
      Canonical ⟨.intersection types, nullable⟩
  | object {properties : List Property} {additional : Option Schema} {nullable : Bool} :
      (∀ property ∈ properties, property.type.Canonical) →
      (∀ schema ∈ additional, schema.Canonical) →
      Canonical ⟨.object properties additional, nullable⟩
  | reference {referent : Referent} {name : String} {nullable : Bool} :
      Canonical ⟨.reference referent name, nullable⟩

/-- `intersectionMembers` opens intersections only, and none that is nullable. -/
private theorem intersectionMembers_eq (schema : Schema) :
    (schema.isIntersection = false ∧ intersectionMembers schema = [schema]) ∨
      ∃ types, schema = ⟨.intersection types, false⟩ ∧ intersectionMembers schema = types := by
  obtain ⟨kind, nullable⟩ := schema
  cases kind with
  | intersection types =>
    cases nullable with
    | true => exact .inl ⟨rfl, rfl⟩
    | false => exact .inr ⟨types, rfl, rfl⟩
  | _ => exact .inl ⟨rfl, rfl⟩

namespace Schema

/-- The normal form does not depend on whether null is allowed. -/
private theorem Canonical.nullable {schema : Schema} (h : schema.Canonical) (nullable : Bool) :
    Canonical { schema with nullable } := by
  cases h with
  | scalar hany hbyte => exact .scalar hany hbyte
  | enum hmembers => exact .enum hmembers
  | array helement => exact .array helement
  | arrayOfUnion hlength hdifferent hbranches => exact .arrayOfUnion hlength hdifferent hbranches
  | intersection hlength hflat htypes => exact .intersection hlength hflat htypes
  | object hproperties hadditional => exact .object hproperties hadditional
  | reference => exact .reference

/-- A canonical schema gives an intersection at least one member, and none to be flattened. -/
private theorem Canonical.intersectionMembers {schema : Schema} (h : schema.Canonical) :
    intersectionMembers schema ≠ [] ∧ ∀ member ∈ intersectionMembers schema,
      member.isIntersection = false ∧ member.Canonical := by
  rcases intersectionMembers_eq schema with ⟨hflat, heq⟩ | ⟨types, rfl, heq⟩
  · rw [heq]
    exact ⟨List.cons_ne_nil _ _, List.forall_mem_singleton.2 ⟨hflat, h⟩⟩
  · rw [heq]
    cases h with
    | intersection hlength hflat htypes =>
      refine ⟨?_, fun member hm => ⟨hflat member hm, htypes member hm⟩⟩
      rintro rfl
      exact absurd hlength (by decide)

/-- The intersection of canonical schemas is canonical, once nested intersections are flattened. -/
private theorem Canonical.intersectionSchema {schemas : List Schema} (hne : schemas ≠ [])
    (h : ∀ schema ∈ schemas, schema.Canonical) :
    (intersectionSchema (schemas.flatMap Endpoints.intersectionMembers)).Canonical := by
  have hmem : ∀ member ∈ schemas.flatMap Endpoints.intersectionMembers,
      member.isIntersection = false ∧ member.Canonical := by
    intro member hm
    obtain ⟨schema, hs, hm⟩ := List.mem_flatMap.1 hm
    exact (h schema hs).intersectionMembers.2 member hm
  -- No member at all is impossible, one member stands for itself, and more make an intersection.
  match hmembers : schemas.flatMap Endpoints.intersectionMembers with
  | [] =>
    obtain ⟨schema, hs⟩ := List.exists_mem_of_ne_nil schemas hne
    exact absurd (List.flatMap_eq_nil_iff.1 hmembers schema hs) (h schema hs).intersectionMembers.1
  | [member] => exact (hmem member (hmembers ▸ List.mem_cons_self)).2
  | first :: second :: rest =>
    rw [hmembers] at hmem
    exact .intersection (by simp) (fun type ht => (hmem type ht).1) fun type ht => (hmem type ht).2

/-- The operations of resolution keep the normal form. -/
theorem canonical_formation : Formation Canonical where
  -- What canonical schemas are made of is canonical.
  ofObject h := by
    cases h with
    | object hproperties hadditional => exact ⟨hproperties, hadditional⟩
  ofIntersection h := by
    cases h with
    | intersection _ _ htypes => exact htypes
  -- What the resolver makes of canonical schemas is canonical.
  scalar hany hbyte := .scalar hany hbyte
  enum hmembers := .enum hmembers
  array helement := .array helement
  tuple hlength hdifferent hbranches := .arrayOfUnion hlength hdifferent hbranches
  intersection hne h := .intersectionSchema hne h
  shape h := .object h.properties h.additional
  nullable h := h.nullable _

end Schema

/-! ## Runs -/

/-- If the entries of the table satisfy `P`, then they do so after the run, and its value satisfies
`Q`. -/
def Upholds {α : Type} (P : Schema → Prop) (Q : α → Prop) (x : Resolve α) : Prop :=
  ∀ s o t, x.run s = (o, t) → s.context.Each P → t.context.Each P ∧ ∀ a, o = .ok a → Q a

namespace Upholds

variable {P : Schema → Prop} {α β : Type} {Q : α → Prop} {R : β → Prop}

theorem pure {a : α} (h : Q a) : Upholds P Q (Pure.pure a) := by
  intro s o t hrun hs
  obtain ⟨rfl, rfl⟩ := Prod.mk.inj hrun
  exact ⟨hs, fun b hb => Except.ok.inj hb ▸ h⟩

/-- Sequences uphold `P` if their parts do, for each value of the first part. -/
theorem bind {x : Resolve α} {f : α → Resolve β} (hx : Upholds P Q x)
    (hf : ∀ a, Q a → Upholds P R (f a)) : Upholds P R (x >>= f) := by
  intro s o t hrun hs
  rcases hfirst : x.run s with ⟨e | a, u⟩
  · rw [Resolve.run_bind_of_error hfirst] at hrun
    obtain ⟨rfl, rfl⟩ := Prod.mk.inj hrun
    exact ⟨(hx s _ _ hfirst hs).1, fun b hb => nomatch hb⟩
  · rw [Resolve.run_bind_of_ok hfirst] at hrun
    obtain ⟨hu, ha⟩ := hx s _ _ hfirst hs
    exact hf a (ha a rfl) u o t hrun hu

/-- A weaker condition will do. -/
theorem mono {R : α → Prop} {x : Resolve α} (hx : Upholds P Q x) (hQ : ∀ a, Q a → R a) :
    Upholds P R x :=
  fun s o t hrun hs => ⟨(hx s o t hrun hs).1, fun a ha => hQ a ((hx s o t hrun hs).2 a ha)⟩

theorem fail {fault : Fault} : Upholds P Q (.fail fault) := by
  intro s o t hrun hs
  obtain ⟨rfl, rfl⟩ := Prod.mk.inj hrun
  exact ⟨hs, fun a ha => nomatch ha⟩

/-- A place is added to errors only. -/
theorem inside {place : Place} {x : Resolve α} (h : Upholds P Q x) :
    Upholds P Q (Resolve.inside place x) := by
  intro s o t hrun hs
  rw [Resolve.run_inside] at hrun
  rcases hx : x.run s with ⟨e | a, u⟩
  · rw [hx] at hrun
    obtain ⟨rfl, rfl⟩ := Prod.mk.inj hrun
    exact ⟨(h s _ _ hx hs).1, fun b hb => nomatch hb⟩
  · rw [hx] at hrun
    obtain ⟨rfl, rfl⟩ := Prod.mk.inj hrun
    exact h s _ _ hx hs

private theorem warn (warning : Warning) : Upholds P (fun _ => True) (Resolve.warn warning) := by
  intro s o t hrun hs
  obtain ⟨rfl, rfl⟩ := Prod.mk.inj hrun
  exact ⟨hs, fun _ _ => trivial⟩

private theorem context : Upholds P (fun _ => True) (Resolve.context : Resolve Context) := by
  intro s o t hrun hs
  obtain ⟨rfl, rfl⟩ := Prod.mk.inj hrun
  exact ⟨hs, fun _ _ => trivial⟩

/-- A shape that is read from the table satisfies what the table does. -/
theorem shapeOf (hP : Schema.Hereditary P) {schema : Schema} (h : P schema) :
    Upholds P (·.Each P) (Resolve.shapeOf schema) := by
  intro s o t hrun hs
  rw [Resolve.run_shapeOf] at hrun
  cases hshape : s.context.shapeOf schema with
  | error fault =>
    rw [hshape] at hrun
    obtain ⟨rfl, rfl⟩ := Prod.mk.inj hrun
    exact ⟨hs, fun a ha => nomatch ha⟩
  | ok shape =>
    rw [hshape] at hrun
    obtain ⟨rfl, rfl⟩ := Prod.mk.inj hrun
    exact ⟨hs, fun a ha => Except.ok.inj ha ▸ Context.each_shapeOf hP hs h hshape⟩

end Upholds

/-! ## Names -/

namespace Context.Each

variable {P : Schema → Prop} {c c' : Context}

private theorem of_reference? (h : c.Each P)
    (heq : ∀ name, c'.reference? name = c.reference? name) :
    c'.Each P :=
  fun name type htype => h name type (heq name ▸ htype)

theorem complete (h : c.Each P) {type : ReferenceType} (htype : type.Each P) :
    (c.complete type).Each P := by
  intro name found hfound
  rw [reference?_complete] at hfound
  split at hfound
  · exact Option.some.inj hfound ▸ htype
  · exact h name found hfound

end Context.Each

namespace Upholds

variable {P : Schema → Prop}
  (hreference : ∀ {referent : Referent} {name : String}, P (.ofKind (.reference referent name)))
include hreference

/-- The use of a name, if its entry is made of schemas with the property. -/
theorem useName {name origin : String} {referent : Referent} {construct : Resolve ReferenceType}
    (h : Upholds P (·.Each P) construct) :
    Upholds P P (Resolver.useName name origin referent construct) := by
  intro s o t hrun hs
  -- Claiming and starting a name change no entry of the table.
  have hclaimed {c : Context} (hclaim : s.context.claim name origin = .ok c) : c.Each P :=
    hs.of_reference? fun _ => Context.reference?_claim hclaim
  have hstarted {c : Context} (hclaim : s.context.claim name origin = .ok c) :
      (c.start name).Each P :=
    (hclaimed hclaim).of_reference? fun _ => Context.reference?_start
  cases Resolver.useOutcome_iff.1 hrun with
  | refused => exact ⟨hs, fun a ha => nomatch ha⟩
  | known hclaim => exact ⟨hclaimed hclaim, fun a ha => Except.ok.inj ha ▸ hreference⟩
  | deferred hclaim =>
    exact ⟨(hclaimed hclaim).of_reference? fun _ => rfl,
      fun a ha => Except.ok.inj ha ▸ hreference⟩
  | tooDeep hclaim => exact ⟨hclaimed hclaim, fun a ha => nomatch ha⟩
  -- Only here an entry is added, and the construction upholds the property of it.
  | built hclaim _ _ _ hconstruct =>
    obtain ⟨hu, htype⟩ := h _ _ _ hconstruct (hstarted hclaim)
    exact ⟨hu.complete (htype _ rfl), fun a ha => Except.ok.inj ha ▸ hreference⟩
  | failed hclaim _ _ _ hconstruct =>
    exact ⟨(h _ _ _ hconstruct (hstarted hclaim)).1, fun a ha => nomatch ha⟩

/-- The use of an enum, whose entry has no schemas. -/
theorem enumReference {located : Located} {d : EnumDecl} :
    Upholds P P (Resolver.enumReference located d) := by
  intro s o t hrun hs
  cases Resolver.enumOutcome_iff.1 hrun with
  | refused => exact ⟨hs, fun a ha => nomatch ha⟩
  | known hclaim =>
    exact ⟨hs.of_reference? fun _ => Context.reference?_claim hclaim,
      fun a ha => Except.ok.inj ha ▸ hreference⟩
  | built hclaim =>
    have hclaimed := hs.of_reference? fun _ => Context.reference?_claim hclaim
    exact ⟨hclaimed.complete trivial, fun a ha => Except.ok.inj ha ▸ hreference⟩

end Upholds

/-! ## Resolution -/

/-- The relation of `Upholds`, which is about one run only. -/
def upholdComposition {P : Schema → Prop} (hP : Schema.Formation P) :
    Composition Resolve Resolve where
  Rel A Q x _ := Upholds P (fun a => ∃ B, A ⊆ B ∧ Q B a) x
  rel_pure h := .pure ⟨_, subset_rfl, h⟩
  rel_bind hx hf := hx.bind fun a ⟨B, hB, ha⟩ =>
    (hf B hB a ha).mono fun _ ⟨D, hD, hb⟩ => ⟨D, hB.trans hD, hb⟩
  Value _ := P
  formed := ⟨fun _ h => h, fun _ => hP⟩

/-- The steps of resolution uphold what formation keeps. -/
theorem upholdSimulation {P : Schema → Prop} (hP : Schema.Formation P) (p q : Parts Resolve) :
    (upholdComposition hP).Simulation p q where
  rel_fail _ := .fail
  rel_inside := .inside
  rel_warn A warning := (Upholds.warn warning).mono fun _ _ => ⟨A, subset_rfl, trivial⟩
  rel_shapeOf A schema hs :=
    (Upholds.shapeOf hP.toHereditary hs).mono fun _ h => ⟨A, subset_rfl, h⟩
  rel_union A members hints h := by
    refine .bind ((upholdComposition hP).rel_resolveAll (A := A) h) fun schemas ⟨B, hB, _, hs⟩ => ?_
    exact .bind .context fun _ _ => .pure ⟨B, hB, hP.union hs⟩

/-- Resolution upholds the property in a region that has no intersection without members. -/
theorem Schema.Formation.resolveWithin {P : Schema → Prop} (hP : Formation P)
    (hreference : ∀ {referent : Referent} {name : String}, P (.ofKind (.reference referent name)))
    {r : Resolver} {E : Region r} (hE : ¬ E.Contains (.intersection [])) (bound : Nat)
    (type : TypeExpr) (hints : Hints) : Upholds P P (E.resolveWithin bound type hints) := by
  refine Upholds.mono ((upholdComposition hP).resolves_of_same (fun _ _ _ _ _ => trivial)
    (fun h => absurd h hE) (fun _ => upholdSimulation hP _ _) (fun _ _ _ => .fail) ?_ ?_ bound type
    ∅ hints) fun _ ⟨_, _, h⟩ => h
  · exact fun _ _ _ _ A => (Upholds.enumReference hreference).mono fun _ h => ⟨A, subset_rfl, h⟩
  · intro n i _ _ A hconstruct
    have hentry : Upholds P (·.Each P) (r.construct (E.resolveWithin n) i) :=
      Upholds.mono hconstruct fun _ ⟨_, _, h⟩ => h.each
    exact (Upholds.useName hreference hentry).mono fun _ h => ⟨A, subset_rfl, h⟩

/-! ## Types without empty intersections -/

mutual

/-- Whether every intersection in the type has members. -/
def TypeExpr.isProper : TypeExpr → Bool
  | .reference _ arguments => areProper arguments
  | .array element => element.isProper
  | .tuple elements => areProper elements
  | .union members => areProper members
  | .intersection members => !members.isEmpty && areProper members
  | .object members => membersProper members
  | .keyword _ | .literal _ | .unsupported _ => true

def areProper : List TypeExpr → Bool
  | [] => true
  | type :: types => type.isProper && areProper types

def isProper? : Option TypeExpr → Bool
  | some type => type.isProper
  | none => true

def TypeMember.isProper : TypeMember → Bool
  | .property _ type _ _ _ => isProper? type
  | .method _ => true
  | .index _ keyType valueType => keyType.isProper && valueType.isProper

def membersProper : List TypeMember → Bool
  | [] => true
  | member :: members => member.isProper && membersProper members

end

theorem areProper_iff {types : List TypeExpr} :
    areProper types = true ↔ ∀ type ∈ types, type.isProper = true := by
  induction types with
  | nil => simp [areProper]
  | cons type types ih => simp [areProper, ih]

theorem TypeMember.isProper_iff {member : TypeMember} :
    member.isProper = true ↔ ∀ type ∈ member.types, type.isProper = true := by
  cases member with
  | property name type optional readonly doc => cases type <;> simp [isProper, isProper?, types]
  | method name => simp [isProper, types]
  | index keyName keyType valueType => simp [isProper, types]

theorem membersProper_iff {members : List TypeMember} :
    membersProper members = true ↔
      ∀ member ∈ members, ∀ type ∈ member.types, type.isProper = true := by
  induction members with
  | nil => simp [membersProper]
  | cons member members ih => simp [membersProper, ih, TypeMember.isProper_iff]

/-- `TypeExpr.isProper` is a condition on each node of a type. -/
private theorem TypeExpr.nodewise_isProper :
    Nodewise (fun _ => True) (· ≠ 0) fun type => type.isProper = true where
  keyword _ := rfl
  reference := by simp [isProper, areProper_iff]
  array := by simp [isProper]
  tuple := by simp [isProper, areProper_iff]
  union := by simp [isProper, areProper_iff]
  intersection := by simp [isProper, areProper_iff]
  object := by simp [isProper, membersProper_iff]

/-! ## Resolution -/

namespace Resolver

variable {r : Resolver}

/-- Every intersection that a declaration writes has members. -/
def IsProper (r : Resolver) : Prop :=
  ∀ located ∈ r.index.declarations, ∀ type ∈ located.declaration.types, type.isProper = true

/-- Resolution of a proper type keeps a table canonical and gives a canonical schema. -/
private theorem IsProper.upholds (hr : r.IsProper) {type : TypeExpr} (htype : type.isProper = true)
    (hints : Hints) : Upholds Schema.Canonical Schema.Canonical (r.resolve type hints) := by
  -- The region of proper types has all their parts, and holds no empty intersection.
  let E : Region r := ⟨fun type => type.isProper = true⟩
  have hparts : E.HasParts := TypeExpr.nodewise_isProper.hasParts
    fun _ _ located hfind => hr located (mem_of_find hfind)
  have hempty : ¬ E.Contains (.intersection []) := by simp [E, TypeExpr.isProper]
  rw [Resolver.resolve, ← Region.resolveWithin_eq hparts _ htype]
  exact Schema.canonical_formation.resolveWithin .reference hempty _ type hints

/-- A history keeps a table canonical, and its outcomes are canonical. -/
private theorem IsProper.resolveEach (hr : r.IsProper) {s : Session}
    (hs : s.context.Each Schema.Canonical) {calls : List (TypeExpr × Hints)}
    (hcalls : ∀ call ∈ calls, call.1.isProper = true) :
    (r.resolveEach s calls).2.context.Each Schema.Canonical ∧
      ∀ schema, .ok schema ∈ (r.resolveEach s calls).1 → schema.Canonical := by
  -- Induction on the calls: each one starts from the table that the calls before it leave.
  induction calls generalizing s with
  | nil => exact ⟨hs, fun schema hmem => nomatch hmem⟩
  | cons call calls ih =>
    obtain ⟨hcall, hcalls⟩ := List.forall_mem_cons.1 hcalls
    rcases hrun : (r.resolve call.1 call.2).run s with ⟨o, t⟩
    obtain ⟨ht, houtcome⟩ := hr.upholds hcall call.2 s o t hrun hs
    obtain ⟨hu, houtcomes⟩ := ih ht hcalls
    simp only [Resolver.resolveEach, hrun]
    refine ⟨hu, fun schema hmem => ?_⟩
    rcases List.mem_cons.1 hmem with heq | hmem
    · exact houtcome schema heq.symm
    · exact houtcomes schema hmem

end Resolver

/-- Types are resolved to schemas in normal form, and so are the named types of the table made of
schemas in normal form, after any history that starts with an empty context. -/
theorem resolved_types_canonical (r : Resolver) (hr : r.IsProper)
    (calls : List (TypeExpr × Hints)) (hcalls : ∀ call ∈ calls, call.1.isProper = true) :
    (∀ schema, .ok schema ∈ (r.resolveEach .empty calls).1 → schema.Canonical) ∧
    ∀ name type, (r.resolveEach .empty calls).2.context.reference? name = some type →
      type.Each Schema.Canonical := by
  have hempty : Session.empty.context.Each Schema.Canonical := fun _ _ htype => nomatch htype
  obtain ⟨htable, houtcomes⟩ := hr.resolveEach hempty hcalls
  exact ⟨houtcomes, htable⟩

/-- An interface whose properties have a tuple with a repeat, an intersection of intersections, of
which one is nullable, and a union of literals with a repeat. -/
theorem box_of_numbers_canonical :
    let r := Resolver.ofText ("interface A { }\ninterface B { }\n" ++
      "interface Box<T> \x7b pair: [T, A, T]; all: (A & B | null) & (B & A); " ++
      "kind: 'x' | 'y' | 'x' \x7d")
    let calls := [(TypeExpr.reference "Box" [.keyword .number], Hints.none)]
    let c := (r.resolveEach .empty calls).2.context
    ∃ schema box, (r.resolveEach .empty calls).1 = [.ok schema] ∧ schema.Canonical ∧
      c.table.keys = ["A", "B", "BoxNumber"] ∧ c.reference? "BoxNumber" = some box ∧
      box.properties.map (·.type.display) = ["array of union", "intersection", "enum"] ∧
      box.Each Schema.Canonical := by
  intro r calls c
  have hfacts : (∀ located ∈ r.index.declarations, ∀ type ∈ located.declaration.types,
        type.isProper = true) ∧
      (r.resolveEach .empty calls).1.map (·.isOk) = [true] ∧
      c.table.keys = ["A", "B", "BoxNumber"] ∧
      ((c.reference? "BoxNumber").map fun box => box.properties.map (·.type.display)) =
        some ["array of union", "intersection", "enum"] := by
    decide +kernel
  obtain ⟨hr, houtcome, hkeys, hbox⟩ := hfacts
  -- The facts about this program are evaluated; that its schemas are canonical is the theorem.
  obtain ⟨houtcomes, htable⟩ := resolved_types_canonical r hr calls (by decide)
  obtain ⟨outcome, heq, hok⟩ := List.map_eq_singleton_iff.1 houtcome
  obtain ⟨box, hfound, hproperties⟩ := Option.map_eq_some_iff.1 hbox
  cases outcome with
  | error e => exact nomatch hok
  | ok schema =>
    exact ⟨schema, box, heq, houtcomes schema (heq ▸ List.mem_cons_self), hkeys, hfound,
      hproperties, htable _ box hfound⟩

end Endpoints
