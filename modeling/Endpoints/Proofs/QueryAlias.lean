import Endpoints.Proofs.Detach
import Endpoints.Proofs.Hints
import Endpoints.Proofs.ReferenceName
import Endpoints.Proofs.Refusal
import Endpoints.Proofs.Rules
import Endpoints.Proofs.Substitution

/-!
# Aliases in a query

A query can carry values of simple types and lists of them. Whether it can is decided by the schema
of a parameter, and so is its collection format. Where the type of the parameter is an alias, this
schema is a reference to the entry of the alias, and what the alias stands for is not looked at. So
a parameter whose type is an alias is never refused and never has a collection format, even where
both would be different for the type that the alias stands for.
-/

namespace Endpoints

open Resolver

namespace Resolver

variable {r : Resolver}

/-! ## What an alias stands for -/

/-- The type names the alias, which has a name of its own and no type parameters. -/
structure NamesAlias (r : Resolver) (type : TypeExpr) (located : Located) (d : AliasDecl) :
    Prop where
  reference : ∃ name arguments, type = .reference name arguments ∧ r.index.find name = [located]
  declaration : located.declaration = .ofAlias d
  plain : d.typeParameters = []
  named : d.type.isLiteralUnion = false

namespace NamesAlias

variable {type : TypeExpr} {located : Located} {d : AliasDecl} {hints : Hints} {s t : Session}
  {v : Schema}

private theorem names (h : r.NamesAlias type located d) : r.Names type ⟨located, .empty⟩ := by
  obtain ⟨name, arguments, rfl, hfind⟩ := h.reference
  have hscope : Instantiation.of located arguments = ⟨located, .empty⟩ := by
    rw [Instantiation.of, h.declaration, Declaration.typeParameters, h.plain]
    rfl
  refine ⟨name, arguments, located, rfl, hfind, hscope.symm, ?_⟩
  simp [Instantiation.isInlined, h.declaration, h.named]

/-- The alias is used by its qualified name, and its entry is made from its target. -/
theorem resolve_eq (h : r.NamesAlias type located d) (hints : Hints) :
    ∃ bound, r.resolve type hints =
      useName located.qualifiedName located.location .typeAlias (do
        return aliasEntry d located.qualifiedName
          (← r.resolveWithin bound d.type (Hints.ofDoc d.doc))) := by
  have hname : (⟨located, .empty⟩ : Instantiation).name = located.qualifiedName := by
    rw [Instantiation.name, referenceName, h.declaration, Declaration.typeParameters, h.plain]
    exact String.append_empty
  have hreferent : (⟨located, .empty⟩ : Instantiation).referent = .typeAlias := by
    rw [Instantiation.referent, h.declaration, Declaration.referent]
  -- An alias is no enum, so it is used by name.
  rcases h.names.resolve_eq hints with ⟨d', hd', _⟩ | ⟨_, bound, heq⟩
  · rw [h.declaration] at hd'
    cases hd'
  · refine ⟨bound, heq.trans ?_⟩
    rw [hname, hreferent, construct, h.declaration]
    dsimp only
    rw [hname, TypeExpr.substitute_empty, Instantiation.location]

/-- The schema of an alias is a reference to it. -/
private theorem value (h : r.NamesAlias type located d)
    (hrun : (r.resolve type hints).run s = (.ok v, t)) :
    v = .ofKind (.reference .typeAlias located.qualifiedName) := by
  obtain ⟨bound, heq⟩ := h.resolve_eq hints
  rw [heq] at hrun
  generalize ho : (Except.ok v : Except Error Schema) = o at hrun
  -- Each way in which the use of a name succeeds gives the same reference.
  cases useOutcome_iff.1 hrun with
  | refused | tooDeep | failed => cases ho
  | known | deferred | built => exact Except.ok.inj ho

end NamesAlias

/-- Where an alias is used for the first time and does not lead back to itself, its target can also
be resolved on its own, and the entry of the alias holds its schema. -/
theorem alias_target {type : TypeExpr} {located : Located} {d : AliasDecl} {hints : Hints}
    {s t : Session} {v : Schema} (h : r.NamesAlias type located d)
    (hrun : (r.resolve type hints).run s = (.ok v, t))
    (hfirst : s.context.reference? located.qualifiedName = none)
    (hidle : located.qualifiedName ∉ s.context.inProgress)
    (hacyclic : ∀ i, r.Uses [d.type] i → i.name ≠ located.qualifiedName) :
    ∃ target u, (r.resolve d.type (Hints.ofDoc d.doc)).run s = (.ok target, u) ∧
      t.context.reference? located.qualifiedName =
        some (aliasEntry d located.qualifiedName target) := by
  obtain ⟨bound, heq⟩ := h.resolve_eq hints
  rw [heq] at hrun
  generalize ho : (Except.ok v : Except Error Schema) = o at hrun
  cases useOutcome_iff.1 hrun with
  | refused | tooDeep | failed => cases ho
  -- The name has neither an entry nor a construction under way, so its entry is constructed here.
  | known hclaim hknown =>
    rw [Context.reference?_claim hclaim, hfirst] at hknown
    cases hknown
  | deferred hclaim _ hmem =>
    rw [Context.inProgress_claim hclaim] at hmem
    exact absurd hmem hidle
  | built hclaim _ hnew _ hconstruct =>
    obtain ⟨target, u, htarget, hentry⟩ := Resolve.run_bind_ok.1 hconstruct
    obtain ⟨hvalue, rfl⟩ := Prod.mk.inj hentry
    rw [← Except.ok.inj hvalue]
    obtain ⟨u', halone⟩ := resolve_detached hacyclic htarget (.of_start hclaim hnew)
    exact ⟨target, u', halone, by simp [aliasEntry]⟩

/-! ## Parameters of a query -/

variable {head : EndpointHead} {p : ParameterDecl} {s t : Session} {type : Schema}

private theorem parameter_of_query (head : EndpointHead) (hrole : (r.parameterRole p).1 = .query) :
    ∃ name found, r.parameter head p = r.queryParameter head p name found := by
  unfold parameter
  rcases hfound : r.parameterRole p with ⟨role, found⟩
  rw [hfound] at hrole
  dsimp only at hrole
  subst hrole
  exact ⟨_, _, rfl⟩

/-- A parameter whose type a query can carry has a collection format if it is a list. -/
theorem parameter_of_type (hrole : (r.parameterRole p).1 = .query)
    (hrun : (r.parameterType head p).run s = (.ok type, t)) (hfault : type.queryFault? = none) :
    ∃ q, (r.parameter head p).run s = (.ok q, t) ∧ q.type = type ∧
      (q.collectionFormat = some "multi" ∧ (∃ element, type.kind = .array element) ∨
        q.collectionFormat = none ∧ ∀ element, type.kind ≠ .array element) := by
  obtain ⟨name, found, hparameter⟩ := r.parameter_of_query head hrole
  rw [hparameter, queryParameter, Resolve.run_bind_of_ok hrun, hfault]
  refine ⟨_, rfl, rfl, ?_⟩
  dsimp only
  -- Lists are the only types with a collection format.
  cases hkind : type.kind with
  | array element => exact .inl ⟨rfl, element, rfl⟩
  | scalar | enum | object | reference | union | intersection =>
    exact .inr ⟨rfl, fun element heq => by cases heq⟩

/-- A parameter whose type a query can not carry is refused. -/
theorem parameter_refused (hrole : (r.parameterRole p).1 = .query)
    (hrun : (r.parameterType head p).run s = (.ok type, t)) {part : Schema}
    (hfault : type.queryFault? = some part) :
    ∃ name, (r.parameter head p).run s =
      (.error (.ofFault (.invalidQueryType name part.display)), t) := by
  obtain ⟨name, found, hparameter⟩ := r.parameter_of_query head hrole
  rw [hparameter, queryParameter, Resolve.run_bind_of_ok hrun, hfault]
  exact ⟨name, rfl⟩

private theorem parameter_unresolved (hrole : (r.parameterRole p).1 = .query) {e : Error}
    (hrun : (r.parameterType head p).run s = (.error e, t)) :
    (r.parameter head p).run s = (.error e, t) := by
  obtain ⟨name, found, hparameter⟩ := r.parameter_of_query head hrole
  rw [hparameter, queryParameter, Resolve.run_bind_of_error hrun]

end Resolver

/-- The outcome for a parameter is that a query can not carry its type. -/
def QueryRefused (outcome : Except Error Parameter) : Prop :=
  ∃ e name found, outcome = .error e ∧ e.fault = .invalidQueryType name found

/-- Two parameters are treated alike: a query refuses the types of both or of none, and if both are
accepted, they have the same collection format. -/
structure TreatedAlike (outcome outcome' : Except Error Parameter) : Prop where
  refused : QueryRefused outcome ↔ QueryRefused outcome'
  format : ∀ q q', outcome = .ok q → outcome' = .ok q' → q.collectionFormat = q'.collectionFormat

/-- A query can carry values of the type, and it is no list. -/
def Schema.SingleInQuery (schema : Schema) : Prop :=
  schema.queryFault? = none ∧ ∀ element, schema.kind ≠ .array element

private theorem not_queryRefused_ok (q : Parameter) : ¬ QueryRefused (.ok q) := by
  rintro ⟨e, name, found, he, _⟩
  cases he

private theorem not_queryRefused_of_ofType {e : Error} (h : e.fault.OfType) :
    ¬ QueryRefused (.error e) := by
  rintro ⟨e', name, found, he, hfault⟩
  rw [Except.error.inj he, hfault] at h
  exact h

/-- An accepted parameter without a collection format is treated like another one exactly if the
other one's type, if it has a schema, is no list and can be carried by a query. -/
theorem treatedAlike_iff {r : Resolver} {head : EndpointHead} {p : ParameterDecl} {type : TypeExpr}
    {q : Parameter} {s : Session} (hrole : (r.parameterRole p).1 = .query)
    (htype : p.type = some type) (hformat : q.collectionFormat = none) :
    TreatedAlike (.ok q) ((r.parameter head p).run s).1 ↔
      ∀ schema u, (r.parameterType head p).run s = (.ok schema, u) → schema.SingleInQuery := by
  rcases hrun : (r.parameterType head p).run s with ⟨e | schema, u⟩
  · -- The type can not be resolved, which is no matter of the query.
    have hfault : e.fault.OfType := by
      rw [parameterType, htype] at hrun
      exact resolve_ofType hrun
    rw [Resolver.parameter_unresolved hrole hrun]
    constructor
    · intro _ schema u' heq
      cases heq
    · intro _
      refine ⟨iff_of_false (not_queryRefused_ok q) (not_queryRefused_of_ofType hfault), ?_⟩
      intro _ q' _ hq'
      cases hq'
  · have hsame : (∀ schema' u', ((.ok schema, u) : Except Error Schema × Session) =
        (.ok schema', u') → schema'.SingleInQuery) ↔ schema.SingleInQuery := by
      constructor
      · exact fun h => h schema u rfl
      · rintro h schema' u' heq
        rw [← Except.ok.inj (Prod.mk.inj heq).1]
        exact h
    rw [hsame]
    cases hfault : schema.queryFault? with
    | some part =>
      -- The query refuses the type of this parameter only.
      obtain ⟨name, hrefused⟩ := Resolver.parameter_refused hrole hrun hfault
      rw [hrefused]
      constructor
      · intro h
        exact absurd (h.refused.2 ⟨_, name, part.display, rfl, rfl⟩) (not_queryRefused_ok q)
      · rintro ⟨hnone, _⟩
        rw [hfault] at hnone
        cases hnone
    | none =>
      -- Both are accepted, so only the collection formats can differ.
      obtain ⟨q', hq', _, hcases⟩ := Resolver.parameter_of_type hrole hrun hfault
      rw [hq']
      constructor
      · intro h
        have hnone := h.format q q' rfl rfl
        rw [hformat] at hnone
        rcases hcases with ⟨hmulti, _⟩ | ⟨_, hsingle⟩
        · rw [hmulti] at hnone
          cases hnone
        · exact ⟨hfault, hsingle⟩
      · rintro ⟨_, hsingle⟩
        refine ⟨iff_of_false (not_queryRefused_ok q) (not_queryRefused_ok q'), ?_⟩
        intro q₁ q₂ hq₁ hq₂
        rw [← Except.ok.inj hq₁, ← Except.ok.inj hq₂, hformat]
        rcases hcases with ⟨_, element, harray⟩ | ⟨hnone, _⟩
        · exact absurd harray (hsingle element)
        · exact hnone.symm

/-- A parameter of a query whose type is an alias is always accepted and has no collection format.
So it is treated like the same parameter with the target of the alias as its type exactly if that
type is no list and can be carried by a query. Where the alias is used for the first time and does
not lead back to itself, its target can be resolved in its place, and the alias stands for it. The
names in the target must not be those of type parameters of the method. -/
theorem alias_hides_query_type (r : Resolver) (head : EndpointHead) (p : ParameterDecl)
    {type : TypeExpr} {located : Located} {d : AliasDecl} {schema : Schema} {s t : Session}
    (hrole : (r.parameterRole p).1 = .query) (htype : p.type = some type)
    (halias : r.NamesAlias (type.substitute head.scope) located d)
    (hscope : d.type.substitute head.scope = d.type)
    (hrun : (r.parameterType head p).run s = (.ok schema, t)) :
    let name := located.qualifiedName
    let target : ParameterDecl := { p with type := some d.type }
    let alike := TreatedAlike ((r.parameter head p).run s).1 ((r.parameter head target).run s).1
    (∃ q, (r.parameter head p).run s = (.ok q, t) ∧
      q.type = .ofKind (.reference .typeAlias name) ∧ q.collectionFormat = none) ∧
    (alike ↔ ∀ found u, (r.parameterType head target).run s = (.ok found, u) →
      found.SingleInQuery) ∧
    (s.context.reference? name = none → name ∉ s.context.inProgress →
      (∀ i, r.Uses [d.type] i → i.name ≠ name) →
      ∃ found aliased u, (r.parameterType head target).run s = (.ok found, u) ∧
        (r.resolve d.type (Hints.ofDoc d.doc)).run s = (.ok aliased, u) ∧
        t.context.reference? name = some (aliasEntry d name aliased) ∧
        (alike ↔ found.SingleInQuery)) := by
  intro name target alike
  have hresolve : (r.resolve (type.substitute head.scope) (r.decoratorHints p.decorators)).run s =
      (.ok schema, t) := by
    rw [parameterType, htype] at hrun
    exact hrun
  -- A reference is no list, and a query refuses none.
  have hschema := halias.value hresolve
  obtain ⟨q, hq, hqtype, hcases⟩ := Resolver.parameter_of_type hrole hrun (by rw [hschema]; rfl)
  have hformat : q.collectionFormat = none := by
    rcases hcases with ⟨_, element, harray⟩ | ⟨hnone, _⟩
    · rw [hschema] at harray
      cases harray
    · exact hnone
  have halike : alike ↔ ∀ found u, (r.parameterType head target).run s = (.ok found, u) →
      found.SingleInQuery := by
    show TreatedAlike ((r.parameter head p).run s).1 _ ↔ _
    rw [hq]
    exact treatedAlike_iff hrole rfl hformat
  refine ⟨⟨q, hq, hqtype.trans hschema, hformat⟩, halike, fun hfirst hidle hacyclic => ?_⟩
  obtain ⟨aliased, u, haliased, hentry⟩ :=
    Resolver.alias_target halias hresolve hfirst hidle hacyclic
  -- The hints of the parameter may give another schema than those of the alias, but no failure.
  obtain ⟨found, hfound⟩ : ∃ found, (r.parameterType head target).run s = (.ok found, u) := by
    show ∃ found, (r.resolve (d.type.substitute head.scope) _).run s = (.ok found, u)
    rw [hscope]
    rcases r.runAlike_resolveWithin (r.index.bound d.type) d.type (Hints.ofDoc d.doc)
      (r.decoratorHints p.decorators) s with ⟨_, found, u', hdoc, hfound⟩ | ⟨e, u', hdoc, _⟩
    · rw [resolve, hdoc] at haliased
      obtain ⟨_, rfl⟩ := Prod.mk.inj haliased
      exact ⟨found, hfound⟩
    · rw [resolve, hdoc] at haliased
      cases haliased
  refine ⟨found, aliased, u, hfound, haliased, hentry, ?_⟩
  rw [halike]
  constructor
  · exact fun h => h found u hfound
  · intro h found' u' hfound'
    rw [hfound] at hfound'
    rw [← Except.ok.inj (Prod.mk.inj hfound').1]
    exact h

/-- An alias of a list of strings. The parameter has no collection format with the alias as its
type, and it has one with the list itself. -/
theorem list_alias_without_format :
    let d : AliasDecl := ⟨"Ids", [], .array (.keyword .string), none, 1⟩
    let r : Resolver := ⟨.ofProgram [⟨"items.ts", ⟨[.aliasDecl d], []⟩⟩], .ofSettings .default⟩
    let p : ParameterDecl := ⟨"ids", [⟨"Query", [], [], 2⟩], some (.reference "Ids" []), false,
      false, none, none, false⟩
    let target : ParameterDecl := { p with type := some d.type }
    let m : MethodDecl := ⟨"list", [⟨"Get", [], [], 2⟩], [], [p], none, false, false, .publicMember,
      false, none, 2⟩
    let head : EndpointHead := ⟨m, .get, "items", .empty⟩
    ∃ q q' t u, (r.parameter head p).run .empty = (.ok q, t) ∧ q.collectionFormat = none ∧
      (r.parameter head target).run .empty = (.ok q', u) ∧ q'.collectionFormat = some "multi" ∧
      (∃ aliased, t.context.reference? "Ids" = some (aliasEntry d "Ids" aliased)) ∧
      ¬ TreatedAlike ((r.parameter head p).run .empty).1
        ((r.parameter head target).run .empty).1 := by
  intro d r p target m head
  have hfacts : (r.parameterRole p).1 = .query ∧ d.type.isLiteralUnion = false ∧
      ((r.parameterType head p).run .empty).1.isOk = true ∧
      ((r.parameter head target).run .empty).1.toOption.map (·.collectionFormat) =
        some (some "multi") := by
    decide +kernel
  obtain ⟨hrole, hnamed, hok, htarget⟩ := hfacts
  have halias : r.NamesAlias ((TypeExpr.reference "Ids" []).substitute head.scope)
      ⟨.ofAlias d, "Ids", "items.ts", 0⟩ d :=
    ⟨⟨"Ids", [], rfl, rfl⟩, rfl, rfl, hnamed⟩
  obtain ⟨schema, hrun⟩ := exists_run_of_isOk hok
  obtain ⟨q', hq', hmulti⟩ := Except.exists_ok_of_toOption htarget
  obtain ⟨⟨q, hq, _, hnone⟩, _, hfirst⟩ := alias_hides_query_type r head p hrole rfl halias
    d.type.substitute_empty hrun
  -- The list and its elements name nothing.
  have hreach (type : TypeExpr) (h : Relation.ReflTransGen r.Part d.type type) :
      type = .array (.keyword .string) ∨ type = .keyword .string := by
    induction h with
    | refl => exact .inl rfl
    | tail _ hpart ih =>
      rcases ih with rfl | rfl
      · cases hpart with
        | piece hpiece =>
          cases hpiece
          exact .inr rfl
      · cases hpart with
        | piece hpiece => cases hpiece
  have hacyclic : ∀ i, r.Uses [d.type] i → i.name ≠ "Ids" := by
    rintro i ⟨type, ⟨root, hroot, hpath⟩, name, arguments, _, htype, _⟩
    rw [List.mem_singleton.1 hroot] at hpath
    rcases hreach type hpath with heq | heq <;> rw [heq] at htype <;> cases htype
  obtain ⟨_, aliased, _, _, _, hentry, _⟩ := hfirst rfl List.not_mem_nil hacyclic
  refine ⟨q, q', _, _, hq, hnone, Prod.ext hq' rfl, hmulti, ⟨aliased, hentry⟩, fun halike => ?_⟩
  have hsame := halike.format q q' (by rw [hq]) hq'
  rw [hnone, hmulti] at hsame
  cases hsame

end Endpoints
