import Endpoints.Proofs.Operation

/-!
# Enums that a type stands for

A type can stand for an enum: it names one, or it is put together so that nothing but the enum is
left. Its schema then shows the handle of that enum, and the enum has its entry at the end of the
run that resolves the type. This holds in every context that operations can make, also where handles
that lie deeper in a schema have no entries.
-/

namespace Endpoints

variable {α : Type} {name : String}

/-- The schema is a reference to the enum, or an intersection in which one stands. -/
inductive Schema.Shows : Schema → String → Prop
  | reference {name : String} {nullable : Bool} : Shows ⟨.reference .enum name, nullable⟩ name
  | intersection {types : List Schema} {nullable : Bool} {type : Schema} {name : String} :
      type ∈ types → Shows type name → Shows ⟨.intersection types, nullable⟩ name

namespace Schema

private theorem Shows.of_nullable {schema : Schema} {nullable : Bool}
    (h : Shows { schema with nullable } name) : schema.Shows name := by
  obtain ⟨kind, _⟩ := schema
  cases h with
  | reference => exact .reference
  | intersection hmem hshows => exact .intersection hmem hshows

/-- The schema stands for no enum. -/
def IsPlain (schema : Schema) : Prop := ∀ name, ¬ schema.Shows name

private theorem isPlain_ofScalar (scalar : Scalar) :
    (ofScalar scalar).IsPlain := fun _ h => nomatch h

private theorem isPlain_enum (members : List Json) : (enum members).IsPlain := fun _ h => nomatch h

private theorem isPlain_array (element : Schema) : (array element).IsPlain := fun _ h => nomatch h

private theorem isPlain_properties (properties : List Property) (additional : Option Schema) :
    (ofKind (.object properties additional)).IsPlain := fun _ h => nomatch h

private theorem isPlain_recordSchema (key value : Schema) : (recordSchema key value).IsPlain := by
  unfold recordSchema
  split <;> exact isPlain_properties _ _

private theorem isPlain_tupleSchema (schemas : List Schema) : (tupleSchema schemas).IsPlain := by
  unfold tupleSchema
  split <;> exact isPlain_array _

private theorem isPlain_numberFormat (format : NumberFormat) : format.schema.IsPlain := by
  cases format <;> exact isPlain_ofScalar _

private theorem isPlain_of_keyword {word : Keyword} {hints : Hints} {schema : Schema}
    (h : word.schema hints = .ok schema) : schema.IsPlain := by
  cases word with
  | number => exact Except.ok.inj h ▸ isPlain_numberFormat _
  | null | undefined => exact Except.ok.inj h ▸ isPlain_enum _
  | never | symbol => exact nomatch h
  | _ => exact Except.ok.inj h ▸ isPlain_ofScalar _

private theorem isPlain_reference {referent : Referent} (h : referent ≠ .enum) (name : String) :
    (ofKind (.reference referent name)).IsPlain := by
  rintro _ ⟨⟩
  exact h rfl

end Schema

/-- What a part of an intersection shows, the whole shows. -/
private theorem shows_intersectionMembers {schema member : Schema}
    (hm : member ∈ intersectionMembers schema) (h : member.Shows name) : schema.Shows name := by
  obtain ⟨kind, nullable⟩ := schema
  unfold intersectionMembers at hm
  split at hm
  · next types hkind hnullable =>
    obtain rfl : kind = _ := hkind
    exact .intersection hm h
  · exact List.mem_singleton.1 hm ▸ h

private theorem shows_intersectionSchema {schemas : List Schema}
    (h : (intersectionSchema schemas).Shows name) : ∃ schema ∈ schemas, schema.Shows name := by
  unfold intersectionSchema at h
  split at h
  · exact ⟨_, List.mem_cons_self, h⟩
  · cases h with
    | intersection hmem hshows => exact ⟨_, hmem, hshows⟩

namespace UnionParts

theorem shows_branch {schemas : List Schema} {branch : Schema}
    (hb : branch ∈ (schemas.foldl add ⟨[], false⟩).branches) (h : branch.Shows name) :
    ∃ schema ∈ schemas, schema.Shows name := by
  rcases mem_foldl_add hb with hb | ⟨schema, hschema, rfl⟩
  · exact nomatch hb
  · exact ⟨schema, hschema, h.of_nullable⟩

/-- What the schema of a union shows is shown by one of its branches. -/
private theorem shows_toSchema {c : Context} {parts : UnionParts}
    (h : (parts.toSchema c).Shows name) :
    ∃ branch ∈ parts.branches, branch.Shows name := by
  obtain ⟨schema, nullable, heq, hcases⟩ := parts.toSchema_cases c
  rw [heq] at h
  -- A union is one of its branches, or all of them are gone into a list of values or an object.
  rcases hcases with hb | rfl | ⟨members, rfl⟩
  · exact ⟨schema, hb, h.of_nullable⟩
  · exact absurd h.of_nullable (Schema.isPlain_ofScalar _ _)
  · exact absurd h.of_nullable (Schema.isPlain_enum _ _)

end UnionParts

/-! ## Entries at the end of a run -/

namespace Context

variable {c c' : Context}

/-- The enums that the schema stands for have entries. -/
def Lists (c : Context) (schema : Schema) : Prop :=
  ∀ name, schema.Shows name → (c.reference? name).isSome

theorem Lists.keeps {schema : Schema} (h : c.Lists schema) (hc : c.Keeps c') : c'.Lists schema :=
  fun name hname => hc.names name (h name hname)

end Context

/-- The values of the computation stand for no enum. -/
def YieldsPlain (x : Resolve Schema) : Prop := ∀ s v t, x.run s = (.ok v, t) → v.IsPlain

namespace YieldsPlain

theorem pure {schema : Schema} (h : schema.IsPlain) : YieldsPlain (Pure.pure schema) := by
  intro s v t hrun
  obtain ⟨hv, _⟩ := Prod.mk.inj hrun
  exact Except.ok.inj hv ▸ h

theorem bind {x : Resolve α} {f : α → Resolve Schema} (h : ∀ a, YieldsPlain (f a)) :
    YieldsPlain (x >>= f) := by
  intro s v t hrun
  obtain ⟨a, u, _, hrest⟩ := Resolve.run_bind_ok.1 hrun
  exact h a u v t hrest

theorem fail {fault : Fault} : YieldsPlain (.fail fault) := fun _ _ _ hrun => nomatch hrun

private theorem ofExcept {result : Except Fault Schema}
    (h : ∀ schema, result = .ok schema → schema.IsPlain) : YieldsPlain (.ofExcept result) := by
  cases result with
  | ok schema => exact .pure (h schema rfl)
  | error fault => exact .fail

theorem useName {origin : String} {referent : Referent} {construct : Resolve ReferenceType}
    (h : referent ≠ .enum) : YieldsPlain (Resolver.useName name origin referent construct) := by
  intro s v t hrun
  generalize ho : (Except.ok v : Except Error Schema) = o at hrun
  cases Resolver.useOutcome_iff.1 hrun with
  | refused | tooDeep | failed => exact nomatch ho
  | known | deferred | built => exact Except.ok.inj ho ▸ Schema.isPlain_reference h name

private theorem selectProperties (p : Parts Resolve) (name : String) (target keys : TypeExpr)
    (keep : Bool) : YieldsPlain (Resolver.selectProperties p name target keys keep) := by
  refine .bind fun shape => .bind fun schema => ?_
  split
  · exact .pure (Schema.isPlain_properties _ _)
  · exact .fail

end YieldsPlain

/-- The enums that the value of a run stands for have entries at its end. -/
def ListsEnums (x : Resolve Schema) : Prop :=
  ∀ s v t, x.run s = (.ok v, t) → s.context.Reachable → t.context.Lists v

private theorem YieldsPlain.listsEnums {x : Resolve Schema} (h : YieldsPlain x) : ListsEnums x :=
  fun s v t hrun _ name hname => absurd hname (h s v t hrun name)

/-- The use of an enum. The handle that it gets is that of an entry, under the entry's own name. -/
theorem ListsEnums.enumReference {located : Located} {d : EnumDecl} :
    ListsEnums (Resolver.enumReference located d) := by
  have hhandle {type : ReferenceType} {shown : String} (h : type.handle.Shows shown) :
      shown = type.name := by
    unfold ReferenceType.handle Schema.ofKind at h
    generalize type.shape.referent = referent at h
    cases h
    rfl
  intro s v t hrun hs shown hshown
  generalize ho : (Except.ok v : Except Error Schema) = o at hrun
  cases Resolver.enumOutcome_iff.1 hrun with
  | refused => exact nomatch ho
  | @known c type hclaim htype =>
    -- The entry that was found stands under its own name, as all entries do.
    obtain rfl := Except.ok.inj ho
    rw [hhandle hshown, (hs.claim hclaim).name_eq htype, htype]
    rfl
  | built hclaim hnone =>
    obtain rfl := Except.ok.inj ho
    simp [hhandle hshown]

/-- How parts are resolved so that the enums that they stand for have entries. -/
structure ListsParts (p : Parts Resolve) : Prop where
  lists : ∀ type hints, ListsEnums (p type hints)
  leads : ∀ type hints s v t, (p type hints).run s = (.ok v, t) → s.context.Leads t.context

namespace ListsParts

variable {p : Parts Resolve} (hp : ListsParts p)
include hp

/-- Types are resolved one after the other, and what the first have entered stays. -/
theorem resolveAll {types : List TypeExpr} {hints : Hints} {s t : Session} {schemas : List Schema}
    (hrun : (Resolver.resolveAll p types hints).run s = (.ok schemas, t))
    (hs : s.context.Reachable) :
    s.context.Leads t.context ∧ ∀ schema ∈ schemas, t.context.Lists schema := by
  induction types generalizing s schemas with
  | nil =>
    obtain ⟨hv, rfl⟩ := Prod.mk.inj hrun
    exact ⟨.refl, by simp [← Except.ok.inj hv]⟩
  | cons type types ih =>
    rw [Resolver.resolveAll, List.mapM_cons] at hrun
    obtain ⟨first, u, hfirst, hrun⟩ := Resolve.run_bind_ok.1 hrun
    obtain ⟨rest, u', hrest, hrun⟩ := Resolve.run_bind_ok.1 hrun
    obtain ⟨hv, rfl⟩ := Prod.mk.inj hrun
    -- The first type leads to a context in which the others are resolved.
    have hleads := hp.leads type hints s first u hfirst
    obtain ⟨hleads', hlists⟩ := ih hrest (hleads.reachable hs)
    refine ⟨hleads.trans hleads', fun schema hschema => ?_⟩
    rw [← Except.ok.inj hv] at hschema
    rcases List.mem_cons.1 hschema with rfl | hschema
    · exact (hp.lists type hints s schema u hfirst hs).keeps hleads'.keeps
    · exact hlists schema hschema

/-- A union shows what its members show. -/
private theorem union (members : List TypeExpr) (hints : Hints) :
    ListsEnums (Resolver.union p members hints) := by
  intro s v t hrun hs shown hshown
  obtain ⟨schemas, u, hfirst, hrest⟩ := Resolve.run_bind_ok.1 hrun
  obtain ⟨hv, rfl⟩ := Prod.mk.inj hrest
  rw [← Except.ok.inj hv] at hshown
  obtain ⟨branch, hb, hbranch⟩ := UnionParts.shows_toSchema hshown
  obtain ⟨schema, hschema, hshows⟩ := UnionParts.shows_branch hb hbranch
  exact (hp.resolveAll hfirst hs).2 schema hschema shown hshows

/-- So does an intersection. -/
private theorem intersection (members : List TypeExpr) :
    ListsEnums (Resolver.intersection p members) := by
  intro s v t hrun hs shown hshown
  obtain ⟨schemas, u, hfirst, hrest⟩ := Resolve.run_bind_ok.1 hrun
  obtain ⟨hv, rfl⟩ := Prod.mk.inj hrest
  rw [← Except.ok.inj hv] at hshown
  obtain ⟨member, hmember, hshows⟩ := shows_intersectionSchema hshown
  obtain ⟨schema, hschema, hmember⟩ := List.mem_flatMap.1 hmember
  have hlists := (hp.resolveAll hfirst hs).2 schema hschema
  exact hlists shown (shows_intersectionMembers hmember hshows)

/-- A declaration shows an enum if it is one, or an alias that is inlined. -/
private theorem declared (r : Resolver) (located : Located) (arguments : List TypeExpr) :
    ListsEnums (r.declared p located arguments) := by
  rw [Resolver.declared_eq]
  cases hd : located.declaration with
  | ofEnum d => exact .enumReference
  | ofAlias d =>
    dsimp only
    split
    · -- An alias that is inlined stands for its target.
      exact hp.lists _ _
    · refine (YieldsPlain.useName ?_).listsEnums
      simp [Instantiation.referent, Instantiation.of, hd, Declaration.referent]
  | ofClass d | ofInterface d =>
    refine (YieldsPlain.useName ?_).listsEnums
    simp [Instantiation.referent, Instantiation.of, hd, Declaration.referent]

/-- Of the library types only wrappers show what their argument shows. -/
private theorem library (name : String) (arguments : List TypeExpr) (hints : Hints) :
    ListsEnums (Resolver.library p name arguments hints) := by
  unfold Resolver.library
  split
  -- A wrapper stands for its argument.
  case h_1 | h_2 => exact hp.lists _ _
  all_goals refine YieldsPlain.listsEnums ?_
  case h_3 | h_4 | h_5 => exact .bind fun element => .pure (Schema.isPlain_array element)
  case h_16 =>
    exact .bind fun value => .bind fun key => .pure (Schema.isPlain_recordSchema key value)
  case h_17 | h_18 | h_19 => exact .bind fun shape => .pure (Schema.isPlain_properties _ _)
  case h_20 | h_21 => exact .selectProperties p _ _ _ _
  case h_22 => exact .fail
  all_goals exact .pure (Schema.isPlain_ofScalar _)

/-- A reference shows what its declaration or the library type shows; a member of an enum shows
nothing. -/
theorem reference (r : Resolver) (name : String) (arguments : List TypeExpr) (hints : Hints) :
    ListsEnums (r.reference p name arguments hints) := by
  unfold Resolver.reference
  split
  · exact hp.declared r _ _
  · split
    · next schema hmember =>
      obtain ⟨value, rfl⟩ := Resolver.enumMember?_eq hmember
      exact (YieldsPlain.pure (Schema.isPlain_enum [value])).listsEnums
    · exact hp.library name arguments hints
  · exact YieldsPlain.fail.listsEnums

/-- The enums that a type stands for have entries, if those of its parts have. -/
theorem step (r : Resolver) (type : TypeExpr) (hints : Hints) :
    ListsEnums (r.step p type hints) := by
  unfold Resolver.step
  -- One case for each form of types. Only the first three can show an enum.
  cases type with
  | union members => exact hp.union members hints
  | intersection members => exact hp.intersection members
  | reference name arguments => exact hp.reference r name arguments hints
  | keyword word => exact (YieldsPlain.ofExcept fun _ => Schema.isPlain_of_keyword).listsEnums
  | literal value => exact (YieldsPlain.pure (Schema.isPlain_enum _)).listsEnums
  | array element =>
    exact (YieldsPlain.bind fun schema => .pure (Schema.isPlain_array schema)).listsEnums
  | tuple elements =>
    exact (YieldsPlain.bind fun schemas => .pure (Schema.isPlain_tupleSchema _)).listsEnums
  | object members =>
    exact (YieldsPlain.bind fun _ => .bind fun _ =>
      .pure (Schema.isPlain_properties _ _)).listsEnums
  | unsupported text => exact YieldsPlain.fail.listsEnums

end ListsParts

theorem Resolver.resolveWithin_listsParts (r : Resolver) (bound : Nat) :
    ListsParts (r.resolveWithin bound) := by
  -- That parts proceed by steps is no part of the induction: it holds for every bound.
  induction bound with
  | zero => exact ⟨fun _ _ => YieldsPlain.fail.listsEnums, fun _ _ _ _ _ hrun => nomatch hrun⟩
  | succ bound ih =>
    refine ⟨fun type hints => ih.step r type hints, fun type hints s v t hrun => ?_⟩
    exact (r.resolveWithin_proceeds _ type ∅ hints s v t hrun).1

end Endpoints
