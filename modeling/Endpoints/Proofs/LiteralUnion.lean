import Endpoints.Proofs.NullUnion
import Endpoints.Proofs.Substitution
import Endpoints.Proofs.ValueEquality

/-!
# Unions of literals

A union of literals is an enum. Unions can be nested and can hold aliases of further literals; each
of them becomes an enum first, without repetitions and with null set aside, and these enums are
merged again. What comes out can be read off the leaves of the whole type, in order: the different
values of its literals, nullable if null is among the leaves.
-/

namespace Endpoints

open Schema

/-! ## Leaves -/

mutual

/-- The leaves of a type that is built by unions: the value of each literal, and none for null and
undefined. The leaves of a reference are given. A union without members is resolved like null. -/
def TypeExpr.leaves (named : String → List (Option Json)) : TypeExpr → List (Option Json)
  | .literal value => [some value.value]
  | .reference name _ => named name
  | .union members =>
    match members with
    | [] => [none]
    | first :: rest => first.leaves named ++ leavesOfList named rest
  | _ => [none]

def leavesOfList (named : String → List (Option Json)) : List TypeExpr → List (Option Json)
  | [] => []
  | type :: types => type.leaves named ++ leavesOfList named types

end

private theorem leavesOfList_eq (named : String → List (Option Json)) (types : List TypeExpr) :
    leavesOfList named types = (types.map (TypeExpr.leaves named)).flatten := by
  induction types with
  | nil => rfl
  | cons type types ih => rw [leavesOfList, ih, List.map_cons, List.flatten_cons]

private theorem TypeExpr.leaves_union {members : List TypeExpr} (h : members ≠ [])
    (named : String → List (Option Json)) :
    (union members).leaves named = (members.map (leaves named)).flatten := by
  cases members with
  | nil => exact absurd rfl h
  | cons first rest => rw [leaves, leavesOfList_eq, List.map_cons, List.flatten_cons]

/-- The values of the literals among leaves. -/
def literalValues (leaves : List (Option Json)) : List Json := leaves.filterMap id

private theorem mem_literalValues {leaves : List (Option Json)} {value : Json} :
    value ∈ literalValues leaves ↔ some value ∈ leaves := by
  simp [literalValues]

private theorem literalValues_flatten (lists : List (List (Option Json))) :
    literalValues lists.flatten = (lists.map literalValues).flatten :=
  List.filterMap_flatten

/-- The schema of a type with these leaves: null without a literal, or else an enum. -/
def Schema.ofLeaves (leaves : List (Option Json)) : Schema :=
  if (literalValues leaves).isEmpty then .null
  else ⟨.enum (literalValues leaves).eraseDups, leaves.any (·.isNone)⟩

theorem Schema.ofLeaves_of_nil {leaves : List (Option Json)} (h : literalValues leaves = []) :
    ofLeaves leaves = .null := by
  rw [ofLeaves, if_pos (by simp [h])]

theorem Schema.ofLeaves_of_ne_nil {leaves : List (Option Json)} (h : literalValues leaves ≠ []) :
    ofLeaves leaves = ⟨.enum (literalValues leaves).eraseDups, leaves.any (·.isNone)⟩ := by
  rw [ofLeaves, if_neg (by simpa using h)]

/-- There are leaves, and no literal is null. -/
structure ProperLeaves (leaves : List (Option Json)) : Prop where
  nonempty : leaves ≠ []
  literals : some .null ∉ leaves

namespace ProperLeaves

variable {leaves : List (Option Json)}

/-- With a literal, the schema is not null. -/
theorem isNull_of_ne_nil (h : ProperLeaves leaves) (hvalues : literalValues leaves ≠ []) :
    (Schema.ofLeaves leaves).isNull = false := by
  rw [Schema.ofLeaves_of_ne_nil hvalues, isNull]
  -- The schema of null is the enum of null alone, which no literals give.
  split
  · next heq =>
    have hnull : Json.null ∈ (literalValues leaves).eraseDups := by
      rw [Kind.enum.inj heq]
      exact List.mem_cons_self
    exact absurd (mem_literalValues.1 (mem_of_mem_eraseDups hnull)) h.literals
  · rfl

/-- Null is noted exactly if it is among the leaves. -/
private theorem anyNull (h : ProperLeaves leaves) :
    ((Schema.ofLeaves leaves).isNull || (Schema.ofLeaves leaves).nullable) =
      leaves.any (·.isNone) := by
  by_cases hvalues : literalValues leaves = []
  · -- Without a literal, any leaf is null.
    obtain ⟨leaf, hleaf⟩ := List.exists_mem_of_ne_nil leaves h.nonempty
    have hnone : leaf = none := List.filterMap_eq_nil_iff.1 hvalues leaf hleaf
    have hany : leaves.any (·.isNone) = true := List.any_eq_true.2 ⟨leaf, hleaf, by simp [hnone]⟩
    rw [Schema.ofLeaves_of_nil hvalues, hany]
    rfl
  · rw [h.isNull_of_ne_nil hvalues, Schema.ofLeaves_of_ne_nil hvalues, Bool.false_or]

/-- Several lists of proper leaves are proper together. -/
private theorem flatten {lists : List (List (Option Json))} (hne : lists ≠ [])
    (h : ∀ leaves ∈ lists, ProperLeaves leaves) : ProperLeaves lists.flatten where
  nonempty hnil := by
    obtain ⟨leaves, hleaves⟩ := List.exists_mem_of_ne_nil lists hne
    exact (h leaves hleaves).nonempty (List.flatten_eq_nil_iff.1 hnil leaves hleaves)
  literals hnull := by
    obtain ⟨leaves, hleaves, hmem⟩ := List.mem_flatten.1 hnull
    exact (h leaves hleaves).literals hmem

end ProperLeaves

/-! ## Unions of enums -/

private theorem Schema.enum_beq (a b : List Json) :
    (enum a == enum b) = (a == b) := by
  change same ⟨.enum a, false⟩ ⟨.enum b, false⟩ = _
  rw [same, Kind.same]
  exact Bool.and_true _

namespace UnionParts

/-- `Context.unionMembers?` of enums gives their values, each once. -/
private theorem unionMembers?_enums (c : Context) (lists : List (List Json)) :
    c.unionMembers? (lists.map enum) = some lists.flatten.eraseDups := by
  have hmembers : (lists.map enum).mapM c.enumMembers? = some lists := by
    induction lists with
    | nil => rfl
    | cons list lists ih =>
      rw [List.map_cons, List.mapM_cons, ih]
      rfl
  rw [Context.unionMembers?, hmembers, Option.map_some, foldl_addNew_nil]

/-- A union of enums, each without repetitions, is the enum of all their values. -/
theorem toSchema_enums (c : Context) {lists : List (List Json)} (hne : lists ≠ [])
    (h : ∀ list ∈ lists, list.eraseDups = list) (nullable : Bool) :
    toSchema c ⟨lists.map enum, nullable⟩ = ⟨.enum lists.flatten.eraseDups, nullable⟩ := by
  match lists with
  | [list] =>
    -- A single enum is not merged, so it has to be without repetitions itself.
    rw [List.flatten_singleton, h list List.mem_cons_self]
    rfl
  | first :: second :: rest =>
    simp only [toSchema, List.map_cons]
    rw [← List.map_cons, ← List.map_cons, unionMembers?_enums]
    rfl

/-- The values of the members of a union, for the members with a literal. -/
def memberValues (lists : List (List (Option Json))) : List (List Json) :=
  (lists.map literalValues).filter (!·.isEmpty)

theorem memberValues_of_nil {leaves : List (Option Json)} (h : literalValues leaves = [])
    (lists : List (List (Option Json))) : memberValues (leaves :: lists) = memberValues lists := by
  rw [memberValues, List.map_cons, List.filter_cons_of_neg (by simp [h])]
  rfl

theorem memberValues_of_ne_nil {leaves : List (Option Json)} (h : literalValues leaves ≠ [])
    (lists : List (List (Option Json))) :
    memberValues (leaves :: lists) = literalValues leaves :: memberValues lists := by
  rw [memberValues, List.map_cons, List.filter_cons_of_pos (by simpa using h)]
  rfl

private theorem flatten_memberValues (lists : List (List (Option Json))) :
    (memberValues lists).flatten = literalValues lists.flatten :=
  List.flatten_filter_not_isEmpty.trans (literalValues_flatten lists).symm

variable {lists : List (List (Option Json))}

/-- No member has a literal exactly if there is none in the whole union. -/
theorem memberValues_eq_nil : memberValues lists = [] ↔ literalValues lists.flatten = [] := by
  constructor
  · intro h
    rw [← flatten_memberValues, h, List.flatten_nil]
  · intro h
    rw [← flatten_memberValues, List.flatten_eq_nil_iff] at h
    refine List.eq_nil_iff_forall_not_mem.2 fun values hvalues => ?_
    have hkept := (List.mem_filter.1 hvalues).2
    rw [h values hvalues] at hkept
    exact Bool.false_ne_true hkept

/-- The branches of a union of leaves: an enum for each member with a literal. -/
private theorem branchesOf_ofLeaves (h : ∀ leaves ∈ lists, ProperLeaves leaves) :
    branchesOf (lists.map Schema.ofLeaves) =
      ((memberValues lists).map List.eraseDups).map enum := by
  induction lists with
  | nil => rfl
  | cons leaves lists ih =>
    obtain ⟨hleaves, hlists⟩ := List.forall_mem_cons.1 h
    rw [List.map_cons, branchesOf_cons, ih hlists]
    -- A list of null words gives no branch and no values.
    by_cases hvalues : literalValues leaves = []
    · have hnull : null.isNull = true := rfl
      rw [Schema.ofLeaves_of_nil hvalues, if_pos hnull, memberValues_of_nil hvalues]
    · rw [hleaves.isNull_of_ne_nil hvalues, if_neg Bool.false_ne_true,
        Schema.ofLeaves_of_ne_nil hvalues, memberValues_of_ne_nil hvalues]
      rfl

/-- Null is noted for a union iff it is among the leaves of a member. -/
private theorem anyNull_ofLeaves (h : ∀ leaves ∈ lists, ProperLeaves leaves) :
    anyNull (lists.map Schema.ofLeaves) = lists.flatten.any (·.isNone) := by
  unfold anyNull
  induction lists with
  | nil => rfl
  | cons leaves lists ih =>
    obtain ⟨hleaves, hlists⟩ := List.forall_mem_cons.1 h
    rw [List.map_cons, List.any_cons, hleaves.anyNull, ih hlists, List.flatten_cons,
      List.any_append]

/-- The leaves of a union are those of its members, one after the other. -/
theorem toSchema_ofLeaves (c : Context) (h : ∀ leaves ∈ lists, ProperLeaves leaves) :
    ((lists.map Schema.ofLeaves).foldl add ⟨[], false⟩).toSchema c = .ofLeaves lists.flatten := by
  -- The enums that are merged: one for each member with a literal, and none twice.
  obtain ⟨enums, henums⟩ : ∃ enums, enums = ((memberValues lists).map List.eraseDups).eraseDups :=
    ⟨_, rfl⟩
  have hbranches : (branchesOf (lists.map Schema.ofLeaves)).foldl addNew [] =
      enums.map enum := by
    rw [branchesOf_ofLeaves h, henums, ← foldl_addNew_nil]
    exact foldl_addNew_map Schema.enum_beq _ []
  rw [foldl_add, hbranches, anyNull_ofLeaves h, Bool.false_or]
  by_cases hnil : literalValues lists.flatten = []
  · rw [Schema.ofLeaves_of_nil hnil, henums, memberValues_eq_nil.2 hnil]
    rfl
  · have hne : enums ≠ [] := by
      rw [henums, Ne, eraseDups_eq_nil, List.map_eq_nil_iff, memberValues_eq_nil]
      exact hnil
    have hdistinct : ∀ values ∈ enums, values.eraseDups = values := by
      intro values hvalues
      rw [henums] at hvalues
      obtain ⟨member, -, rfl⟩ := List.mem_map.1 (mem_of_mem_eraseDups hvalues)
      exact eraseDups_eraseDups member
    -- Neither the repetitions in a member nor the members that come again change the values.
    have hvalues : enums.flatten.eraseDups = (literalValues lists.flatten).eraseDups := by
      rw [henums, eraseDups_flatten_eraseDups, eraseDups_flatten_map, flatten_memberValues]
    rw [toSchema_enums c hne hdistinct, hvalues, Schema.ofLeaves_of_ne_nil hnil]

end UnionParts

/-! ## Resolution -/

private theorem Numeral.toJson_ne_null (text : String) : toJson text ≠ .null := by
  unfold toJson
  split
  · next hex _ => cases integer? 16 hex <;> simp [Json.int]
  · next hex _ => cases integer? 16 hex <;> simp [Json.int]
  · cases integer? 10 text.toList with
    | some n => simp [Json.int]
    | none => cases double? text.toList <;> simp

private theorem LiteralType.value_ne_null (literal : LiteralType) : literal.value ≠ .null := by
  cases literal with
  | string text => exact Json.noConfusion
  | boolean value => exact Json.noConfusion
  | number text => exact Numeral.toJson_ne_null text

namespace Resolver

open Resolve

variable {r : Resolver} {hints : Hints} {s : Session}

/-- The leaves of the type that a name stands for: none unless it is the name of one alias. -/
def aliasLeaves (r : Resolver) (name : String) : List (Option Json) :=
  match (r.index.find name).map Located.declaration with
  | [.ofAlias d] => d.type.leaves fun _ => []
  | _ => []

/-- The leaves of a type with aliases expanded. -/
def leaves (r : Resolver) (type : TypeExpr) : List (Option Json) := type.leaves r.aliasLeaves

/-- The type is built by unions from literals, null, undefined and the names of aliases of literals
that have no type parameters. -/
inductive LiteralUnion (r : Resolver) : TypeExpr → Prop where
  | literal (value : LiteralType) : LiteralUnion r (.literal value)
  | nullWord {type : TypeExpr} (h : type.IsNullWord) : LiteralUnion r type
  | typeAlias {name : String} {arguments : List TypeExpr} {located : Located} {d : AliasDecl}
      (hfind : r.index.find name = [located]) (hdeclaration : located.declaration = .ofAlias d)
      (hplain : d.typeParameters = []) (hbody : d.type.isLiteralUnion = true) :
      LiteralUnion r (.reference name arguments)
  | union {members : List TypeExpr} (h : ∀ member ∈ members, LiteralUnion r member) :
      LiteralUnion r (.union members)

/-- The type is resolved from any session to the schema of its leaves, and the session stays. -/
structure Flat (r : Resolver) (type : TypeExpr) (leaves : List (Option Json)) : Prop where
  proper : ProperLeaves leaves
  run : ∀ hints s, (r.resolve type hints).run s = (.ok (.ofLeaves leaves), s)

/-- Types that leave the session as it is can be resolved one after the other. -/
private theorem run_resolveAll_of_constant {members : List TypeExpr} {schemaOf : TypeExpr → Schema}
    (h : ∀ member ∈ members, (r.resolve member hints).run s = (.ok (schemaOf member), s)) :
    (resolveAll r.resolve members hints).run s = (.ok (members.map schemaOf), s) := by
  unfold resolveAll
  induction members with
  | nil => rfl
  | cons member members ih =>
    obtain ⟨hmember, hmembers⟩ := List.forall_mem_cons.1 h
    rw [List.mapM_cons, run_bind_of_ok hmember, run_bind_of_ok (ih hmembers)]
    rfl

namespace Flat

theorem literal (value : LiteralType) : r.Flat (.literal value) [some value.value] where
  proper := ⟨by simp, by simp [Ne.symm value.value_ne_null]⟩
  run hints s := by
    rw [resolve_eq_step]
    rfl

private theorem nullWord {type : TypeExpr} (h : type.IsNullWord) : r.Flat type [none] where
  proper := ⟨by simp, by simp⟩
  run hints s := by
    rw [resolve_nullWord h]
    rfl

/-- A union of such types is such a type. -/
private theorem union {members : List TypeExpr} {named : String → List (Option Json)}
    (h : ∀ member ∈ members, r.Flat member (member.leaves named)) :
    r.Flat (.union members) ((TypeExpr.union members).leaves named) := by
  by_cases hnil : members = []
  · -- Nothing is added, and a union of no branches is null.
    subst hnil
    exact ⟨⟨by simp [TypeExpr.leaves], by simp [TypeExpr.leaves]⟩,
      fun hints s => run_union_ok.2 ⟨[], rfl, rfl⟩⟩
  · have hproper : ∀ leaves ∈ members.map (TypeExpr.leaves named), ProperLeaves leaves := by
      intro leaves hleaves
      obtain ⟨member, hmember, rfl⟩ := List.mem_map.1 hleaves
      exact (h member hmember).proper
    rw [TypeExpr.leaves_union hnil]
    refine ⟨.flatten (by simpa using hnil) hproper, fun hints s => ?_⟩
    have hall : (resolveAll r.resolve members hints).run s =
        (.ok ((members.map (TypeExpr.leaves named)).map Schema.ofLeaves), s) := by
      rw [List.map_map]
      exact run_resolveAll_of_constant fun member hmember => (h member hmember).run hints s
    exact run_union_ok.2 ⟨_, hall, UnionParts.toSchema_ofLeaves s.context hproper⟩

/-- A literal, or a union of literals, null and undefined, needs no names. -/
private theorem of_isLiteralUnion {type : TypeExpr} (h : type.isLiteralUnion = true)
    (named : String → List (Option Json)) : r.Flat type (type.leaves named) := by
  unfold TypeExpr.isLiteralUnion at h
  split at h
  · exact literal _
  · next members =>
    refine union fun member hmember => ?_
    -- Each member is a literal, null or undefined, by the test for such unions.
    have hmember := List.all_eq_true.1 (Bool.and_eq_true _ _ ▸ h).2 member hmember
    split at hmember
    · exact literal _
    · exact nullWord (.inl rfl)
    · exact nullWord (.inr rfl)
    · cases hmember
  · cases h

end Flat

/-- An alias of literals is resolved like the type it stands for. -/
private theorem resolve_literalAlias {name : String} {located : Located} {d : AliasDecl}
    (hfind : r.index.find name = [located]) (hdeclaration : located.declaration = .ofAlias d)
    (hplain : d.typeParameters = []) (hbody : d.type.isLiteralUnion = true)
    (arguments : List TypeExpr) :
    r.resolve (.reference name arguments) hints = r.resolve d.type (Hints.ofDoc d.doc) := by
  have hscope : Scope.bind d.typeParameters arguments = .empty := by
    rw [hplain]
    rfl
  -- One step of the resolver, from the reference to its declaration and to the alias.
  rw [resolve_eq_step]
  change r.reference r.resolve name arguments hints = _
  rw [reference, hfind]
  change r.declared r.resolve located arguments = _
  rw [declared, hdeclaration]
  change aliasReference r.resolve located d arguments = _
  rw [aliasReference, hscope, TypeExpr.substitute_empty, if_pos hbody]

private theorem aliasLeaves_eq {name : String} {located : Located} {d : AliasDecl}
    (hfind : r.index.find name = [located]) (hdeclaration : located.declaration = .ofAlias d) :
    r.aliasLeaves name = d.type.leaves fun _ => [] := by
  rw [aliasLeaves, hfind, List.map_singleton, hdeclaration]

/-- The schema of a union of literals by its leaves. -/
theorem LiteralUnion.flat {type : TypeExpr} (h : r.LiteralUnion type) :
    r.Flat type (r.leaves type) := by
  induction h with
  | literal value => exact .literal value
  | @nullWord type hnull =>
    have hleaves : r.leaves type = [none] := by
      rcases hnull with rfl | rfl <;> rfl
    rw [hleaves]
    exact .nullWord hnull
  | @typeAlias name arguments located d hfind hdeclaration hplain hbody =>
    have hleaves : r.leaves (.reference name arguments) = d.type.leaves fun _ => [] :=
      aliasLeaves_eq hfind hdeclaration
    -- The alias has no names in it, so its leaves do not depend on what names stand for.
    have hflat : r.Flat d.type (d.type.leaves fun _ => []) := .of_isLiteralUnion hbody _
    rw [hleaves]
    refine ⟨hflat.proper, fun hints s => ?_⟩
    rw [resolve_literalAlias hfind hdeclaration hplain hbody]
    exact hflat.run _ s
  | union _ ih => exact .union ih

end Resolver

/-- A type that is built by unions, nested to any depth, from literals, null, undefined and aliases
of literals. It is resolved from every session and leaves it as it is. Without a literal it is null.
Otherwise it is the enum of the different values of its literals, aliases expanded in place, in the
order in which they come first; nullable exactly if there is null or undefined, for which a union
without members counts. -/
theorem literal_unions_flatten (r : Resolver) {type : TypeExpr} (h : r.LiteralUnion type)
    (hints : Hints) (s : Session) :
    let values := literalValues (r.leaves type)
    ∃ schema, (r.resolve type hints).run s = (.ok schema, s) ∧
      (values = [] → schema = .null) ∧
      (values ≠ [] →
        schema = ⟨.enum values.eraseDups, (r.leaves type).any (·.isNone)⟩) :=
  ⟨_, h.flat.run hints s, Schema.ofLeaves_of_nil, Schema.ofLeaves_of_ne_nil⟩

/-- Two literals in a union of their own, then an alias that repeats one of them and brings a third
and null, then a repetition; and unions of null and undefined alone. -/
theorem literals_around_alias :
    let d : AliasDecl := ⟨"Level", [], .union [.literal (.string "low"), .literal (.string "high"),
      .keyword .null], none, 1⟩
    let r : Resolver := ⟨.ofProgram [⟨"levels.ts", ⟨[.aliasDecl d], []⟩⟩], .ofSettings .default⟩
    (r.resolve (.union [.union [.literal (.string "high"), .literal (.number "1")],
        .reference "Level" [], .literal (.number "1")]) .none).run .empty =
      (.ok ⟨.enum [.string "high", .int 1, .string "low"], true⟩, .empty) ∧
    (r.resolve (.union [.keyword .null, .union [.keyword .undefined, .keyword .null]]) .none).run
      .empty = (.ok .null, .empty) := by
  intro d r
  constructor
  -- Literals in a nested union, behind an alias and directly.
  · have hunion : r.LiteralUnion (.union [.union [.literal (.string "high"),
        .literal (.number "1")], .reference "Level" [], .literal (.number "1")]) := by
      refine .union (List.forall_mem_cons.2 ⟨.union ?_, List.forall_mem_cons.2 ⟨?_, ?_⟩⟩)
      · simp [Resolver.LiteralUnion.literal]
      · exact .typeAlias rfl rfl rfl rfl
      · simp [Resolver.LiteralUnion.literal]
    obtain ⟨schema, hrun, _, hschema⟩ := literal_unions_flatten r hunion .none .empty
    rw [hrun, hschema (by decide)]
    rfl
  -- Null words only.
  · have hunion : r.LiteralUnion (.union [.keyword .null,
        .union [.keyword .undefined, .keyword .null]]) := by
      have hnull : r.LiteralUnion (.keyword .null) := .nullWord (.inl rfl)
      have hundefined : r.LiteralUnion (.keyword .undefined) := .nullWord (.inr rfl)
      refine .union (List.forall_mem_cons.2 ⟨hnull, List.forall_mem_singleton.2 (.union ?_)⟩)
      simp [hnull, hundefined]
    obtain ⟨schema, hrun, hschema, _⟩ := literal_unions_flatten r hunion .none .empty
    rw [hrun, hschema rfl]

end Endpoints
