import Endpoints.Proofs.Bound

/-!
# Null in unions

A union sets null aside, and what it collapses to is decided by its other branches, each without its
own null. So null and undefined among the members can come in any number and at any place: they make
the union nullable, and neither its branches nor the context change.
-/

namespace Endpoints

/-! ## What a union gathers -/

namespace UnionParts

/-- The branches that schemas give, with repetitions: those that are not null, without their own
null. -/
def branchesOf (schemas : List Schema) : List Schema :=
  (schemas.filter (!·.isNull)).map fun schema => { schema with nullable := false }

/-- Whether one of the schemas is null or allows it. -/
def anyNull (schemas : List Schema) : Bool :=
  schemas.any fun schema => schema.isNull || schema.nullable

theorem branchesOf_cons (schema : Schema) (schemas : List Schema) :
    branchesOf (schema :: schemas) =
      if schema.isNull then branchesOf schemas
      else { schema with nullable := false } :: branchesOf schemas := by
  by_cases h : schema.isNull = true <;> simp [branchesOf, h]

/-- A union keeps the branches at their first occurrence, and notes any null. -/
theorem foldl_add (parts : UnionParts) (schemas : List Schema) :
    schemas.foldl add parts =
      ⟨(branchesOf schemas).foldl addNew parts.branches, parts.nullable || anyNull schemas⟩ := by
  induction schemas generalizing parts with
  | nil => simp [branchesOf, anyNull]
  | cons schema schemas ih =>
    rw [List.foldl_cons, ih, branchesOf_cons]
    by_cases h : schema.isNull = true
    · simp [add, anyNull, h]
    · simp [add, anyNull, h, Bool.or_assoc]

theorem branchesOf_eq_nil {schemas : List Schema} :
    branchesOf schemas = [] ↔ schemas.all (·.isNull) = true := by
  simp [branchesOf, List.filter_eq_nil_iff]

theorem toSchema_nullable {c : Context} {branches : List Schema} (h : branches ≠ [])
    (nullable : Bool) :
    toSchema c ⟨branches, true⟩ = { toSchema c ⟨branches, nullable⟩ with nullable := true } := by
  match branches with
  | [branch] => simp [toSchema]
  | first :: second :: rest => simp [toSchema]

private theorem toSchema_single (c : Context) {schema : Schema} (h : schema.isNull = false) :
    (add ⟨[], false⟩ schema).toSchema c = schema := by
  cases schema
  simp [add, h, addNew, toSchema]

end UnionParts

/-! ## Null among the members -/

/-- The second list is the first one with further items at any places, each of which satisfies
`P`. -/
inductive Padded {α : Type} (P : α → Prop) : List α → List α → Prop
  | nil : Padded P [] []
  | keep (item : α) {items padded : List α} : Padded P items padded →
      Padded P (item :: items) (item :: padded)
  | insert {item : α} {items padded : List α} : P item → Padded P items padded →
      Padded P items (item :: padded)

namespace Padded

variable {α : Type} {P : α → Prop} {items padded : List α}

/-- A list that is longer has one of the further items. -/
private theorem exists_mem (h : Padded P items padded) (hlt : items.length < padded.length) :
    ∃ item ∈ padded, P item := by
  induction h with
  | nil => exact absurd hlt (lt_irrefl _)
  | keep item _ ih =>
    obtain ⟨other, hmem, hother⟩ := ih (by simpa using hlt)
    exact ⟨other, List.mem_cons_of_mem _ hmem, hother⟩
  | insert hitem _ => exact ⟨_, List.mem_cons_self, hitem⟩

/-- Null is not among the branches. -/
private theorem branchesOf {schemas padded : List Schema} (h : Padded (· = .null) schemas padded) :
    UnionParts.branchesOf padded = UnionParts.branchesOf schemas := by
  induction h with
  | nil => rfl
  | keep schema _ ih => rw [UnionParts.branchesOf_cons, UnionParts.branchesOf_cons, ih]
  | insert hnull _ ih =>
    subst hnull
    exact ih

private theorem anyNull {schemas padded : List Schema} (h : Padded (· = .null) schemas padded)
    (hlt : schemas.length < padded.length) : UnionParts.anyNull padded = true := by
  obtain ⟨schema, hmem, rfl⟩ := h.exists_mem hlt
  exact List.any_eq_true.2 ⟨.null, hmem, rfl⟩

end Padded

private theorem Parser.compound_of_length_ne {make : List TypeExpr → TypeExpr}
    {members : List TypeExpr} (h : members.length ≠ 1) : compound make members = make members := by
  unfold compound
  split
  · exact absurd rfl h
  · rfl

/-- The type is the word `null` or `undefined`. -/
def TypeExpr.IsNullWord (type : TypeExpr) : Prop :=
  type = .keyword .null ∨ type = .keyword .undefined

namespace Resolver

open Resolve

variable {r : Resolver} {hints : Hints} {s t : Session}

theorem resolve_nullWord {type : TypeExpr} (h : type.IsNullWord) :
    r.resolve type hints = pure .null := by
  rw [resolve_eq_step]
  rcases h with rfl | rfl <;> rfl

/-- A union comes from the schemas of its members, which are resolved one after the other. -/
theorem run_union_ok {members : List TypeExpr} {schema : Schema} :
    (r.resolve (.union members) hints).run s = (.ok schema, t) ↔
      ∃ schemas, (resolveAll r.resolve members hints).run s = (.ok schemas, t) ∧
        (schemas.foldl UnionParts.add ⟨[], false⟩).toSchema t.context = schema := by
  rw [resolve_eq_step]
  constructor
  · intro h
    obtain ⟨schemas, u, hschemas, hrest⟩ := run_bind_ok.1 h
    obtain ⟨hschema, rfl⟩ := Prod.mk.inj hrest
    exact ⟨schemas, hschemas, Except.ok.inj hschema⟩
  · rintro ⟨schemas, hschemas, rfl⟩
    exact run_bind_of_ok hschemas

/-- Null and undefined among the members have their schema and keep the session. -/
private theorem run_resolveAll_padded {members padded : List TypeExpr} {schemas : List Schema}
    (h : Padded TypeExpr.IsNullWord members padded)
    (hrun : (resolveAll r.resolve members hints).run s = (.ok schemas, t)) :
    ∃ more, (resolveAll r.resolve padded hints).run s = (.ok more, t) ∧
      Padded (· = .null) schemas more := by
  unfold resolveAll at hrun ⊢
  -- Along the members: those that are kept run as before, and the others change nothing.
  induction h generalizing s schemas with
  | nil =>
    obtain ⟨hschemas, rfl⟩ := Prod.mk.inj hrun
    obtain rfl := Except.ok.inj hschemas
    exact ⟨[], rfl, .nil⟩
  | keep member _ ih =>
    rw [List.mapM_cons] at hrun ⊢
    obtain ⟨schema, u, hfirst, hrun⟩ := run_bind_ok.1 hrun
    obtain ⟨rest, v, hrest, hpure⟩ := run_bind_ok.1 hrun
    obtain ⟨hschemas, rfl⟩ := Prod.mk.inj hpure
    obtain rfl := Except.ok.inj hschemas
    obtain ⟨more, hmore, hpadded⟩ := ih hrest
    refine ⟨schema :: more, ?_, .keep schema hpadded⟩
    rw [run_bind_of_ok hfirst, run_bind_of_ok hmore]
    rfl
  | insert hnull _ ih =>
    obtain ⟨more, hmore, hpadded⟩ := ih hrun
    refine ⟨.null :: more, ?_, .insert rfl hpadded⟩
    rw [List.mapM_cons, resolve_nullWord hnull, pure_bind, run_bind_of_ok hmore]
    rfl

/-- Members alone or as a union: their schemas, and what these become unless all are null. -/
private theorem run_compound_union {members : List TypeExpr} {schema : Schema}
    (h : (r.resolve (Parser.compound .union members) hints).run s = (.ok schema, t)) :
    ∃ schemas, (resolveAll r.resolve members hints).run s = (.ok schemas, t) ∧
      (schemas.all (·.isNull) = false →
        (schemas.foldl UnionParts.add ⟨[], false⟩).toSchema t.context = schema) := by
  -- A single member stands for itself; any other number makes a union.
  by_cases hone : members.length = 1
  · obtain ⟨member, rfl⟩ := List.length_eq_one_iff.1 hone
    rw [Parser.compound] at h
    refine ⟨[schema], ?_, fun hnull => UnionParts.toSchema_single _ (by simpa using hnull)⟩
    rw [resolveAll, List.mapM_cons, run_bind_of_ok h]
    rfl
  · rw [Parser.compound_of_length_ne hone] at h
    obtain ⟨schemas, hschemas, hschema⟩ := run_union_ok.1 h
    exact ⟨schemas, hschemas, fun _ => hschema⟩

end Resolver

/-- Members of a union, or a member by itself, that are resolved; and a union of the same members
with null or undefined put in at least once, at any places. It leads to the same session, context
and warnings alike. Its schema is null if each of the members is null, or else the schema without
null and undefined, made nullable. -/
theorem union_absorbs_null (r : Resolver) {members padded : List TypeExpr}
    (hpadded : Padded TypeExpr.IsNullWord members padded) (hmore : members.length < padded.length)
    {hints : Hints} {s t : Session} {schema : Schema}
    (hrun : (r.resolve (Parser.compound .union members) hints).run s = (.ok schema, t)) :
    ∃ schemas, (Resolver.resolveAll r.resolve members hints).run s = (.ok schemas, t) ∧
      (r.resolve (.union padded) hints).run s =
        (.ok (if schemas.all (·.isNull) then .null else { schema with nullable := true }), t) := by
  obtain ⟨schemas, hschemas, hschema⟩ := Resolver.run_compound_union hrun
  refine ⟨schemas, hschemas, ?_⟩
  obtain ⟨more, hmoreRun, hinserted⟩ := Resolver.run_resolveAll_padded hpadded hschemas
  refine Resolver.run_union_ok.2 ⟨more, hmoreRun, ?_⟩
  -- The branches are those without null, but now null is noted.
  have hlength : schemas.length < more.length := by
    rw [← (Resolve.run_mapM_ok hschemas).length_eq, ← (Resolve.run_mapM_ok hmoreRun).length_eq]
    exact hmore
  rw [UnionParts.foldl_add, hinserted.branchesOf, hinserted.anyNull hlength, Bool.or_true]
  by_cases hnull : schemas.all (·.isNull) = true
  · rw [if_pos hnull, UnionParts.branchesOf_eq_nil.2 hnull]
    rfl
  · have hbranches : (UnionParts.branchesOf schemas).foldl addNew [] ≠ [] := by
      rw [Ne, foldl_addNew_eq_nil, UnionParts.branchesOf_eq_nil]
      exact fun h => hnull h.2
    rw [if_neg hnull, ← hschema (by simpa using hnull), UnionParts.foldl_add,
      UnionParts.toSchema_nullable hbranches]

/-- A type and the array of it, with null before and undefined between them: the array, made
nullable. Undefined with null before it is still null. -/
theorem null_between_user_and_users :
    let r := Resolver.ofText "interface User { id: string }"
    let user := TypeExpr.named "User"
    (∃ schema t, (r.resolve (.union [user, .array user]) .none).run .empty = (.ok schema, t) ∧
      schema.display = "array of refObject 'User'" ∧
      (r.resolve (.union [.keyword .null, user, .keyword .undefined, .array user]) .none).run
        .empty = (.ok { schema with nullable := true }, t)) ∧
    (r.resolve (.union [.keyword .null, .keyword .undefined]) .none).run .empty =
      (.ok .null, .empty) := by
  intro r user
  have hfacts : ((r.resolve (.union [user, .array user]) .none).run .empty).1.isOk = true ∧
      ((r.resolve (.union [user, .array user]) .none).run .empty).1.toOption.map (·.display) =
        some "array of refObject 'User'" ∧
      ((Resolver.resolveAll r.resolve [user, .array user] .none).run
        .empty).1.toOption.map (·.all (·.isNull)) = some false := by decide +kernel
  obtain ⟨hok, hdisplay, hbranches⟩ := hfacts
  constructor
  · obtain ⟨schema, hrun⟩ := Resolver.exists_run_of_isOk hok
    rw [hrun] at hdisplay
    -- The null words stand in front of the first member and between the two.
    have hpadded : Padded TypeExpr.IsNullWord [user, .array user]
        [.keyword .null, user, .keyword .undefined, .array user] :=
      .insert (.inl rfl) (.keep _ (.insert (.inr rfl) (.keep _ .nil)))
    have hcompound : Parser.compound .union [user, .array user] = .union [user, .array user] := rfl
    obtain ⟨schemas, hschemas, hunion⟩ :=
      union_absorbs_null r hpadded (by decide) (hcompound ▸ hrun)
    rw [hschemas] at hbranches
    have hall : schemas.all (·.isNull) = false := Option.some.inj hbranches
    rw [hall, if_neg Bool.false_ne_true] at hunion
    exact ⟨schema, _, hrun, Option.some.inj hdisplay, hunion⟩
  -- Without other members one of the two words is what the other pads.
  · have hnull : (r.resolve (Parser.compound .union [.keyword .undefined]) .none).run .empty =
        (.ok .null, .empty) := by
      rw [Parser.compound, Resolver.resolve_nullWord (.inr rfl)]
      rfl
    obtain ⟨schemas, hschemas, hunion⟩ := union_absorbs_null r
      (.insert (.inl rfl) (.keep _ .nil)) (by decide) hnull
    rw [Resolver.resolveAll, List.mapM_cons, Resolver.resolve_nullWord (.inr rfl)] at hschemas
    obtain rfl : [Schema.null] = schemas := Except.ok.inj (Prod.mk.inj hschemas).1
    exact hunion

end Endpoints
