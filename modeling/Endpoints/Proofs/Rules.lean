import Endpoints.Endpoint.Controller
import Endpoints.Proofs.ForStd
import Endpoints.Proofs.Track

/-!
# Rules of endpoints

A request has one body at most, a header carries simple values only, a path mentions its parameters.
Generation checks each of these where it builds a parameter or a list of parameters, against the
context that it has at that time. What is checked then still holds of the metadata at the end: the
rules are read off the emitted endpoints and the emitted table, and say nothing about the run.
-/

namespace Endpoints

/-! ## Types of parameters -/

namespace Schema

/-- A type whose values are simple: a scalar other than files and raw data, an enum, or an alias of
a simple type in the table. -/
inductive Simple (table : Dict ReferenceType) : Schema → Prop
  | scalar {s : Scalar} {nullable : Bool} :
      s ∈ [.string, .boolean, .integer, .long, .float, .double, .date, .datetime, .byte] →
      Simple table ⟨.scalar s, nullable⟩
  | enum {members : List Json} {nullable : Bool} : Simple table ⟨.enum members, nullable⟩
  | enumReference {name : String} {nullable : Bool} :
      Simple table ⟨.reference .enum name, nullable⟩
  | aliasReference {name : String} {nullable : Bool} {entry : ReferenceType} {target : Schema}
      {format : Option String} {validators : Validators} {default : Option Json} :
      table.get? name = some entry → entry.shape = .typeAlias target format validators default →
      Simple table target → Simple table ⟨.reference .typeAlias name, nullable⟩

/-- A table with more entries has more simple types. -/
theorem Simple.mono {table table' : Dict ReferenceType} {schema : Schema}
    (htable : ∀ name entry, table.get? name = some entry → table'.get? name = some entry)
    (h : schema.Simple table) : schema.Simple table' := by
  induction h with
  | scalar hs => exact .scalar hs
  | enum => exact .enum
  | enumReference => exact .enumReference
  | aliasReference hentry hshape _ ih => exact .aliasReference (htable _ _ hentry) hshape ih

/-- A schema is simple if the check says so, where it is right about the aliases. -/
private theorem simple_of_isSimpleBy {table : Dict ReferenceType} {aliased : String → Bool}
    {schema : Schema} (haliased : ∀ name, aliased name = true → ∃ entry target format validators
      default, table.get? name = some entry ∧
        entry.shape = .typeAlias target format validators default ∧ target.Simple table)
    (h : schema.isSimpleBy aliased = true) : schema.Simple table := by
  obtain ⟨kind, nullable⟩ := schema
  unfold isSimpleBy at h
  -- By the kinds that the check accepts.
  split at h
  · next s hkind =>
    dsimp only at hkind
    subst hkind
    cases s <;> first | exact .scalar (by decide) | exact nomatch h
  · next hkind =>
    dsimp only at hkind
    subst hkind
    exact .enum
  · next hkind =>
    dsimp only at hkind
    subst hkind
    exact .enumReference
  · next name hkind =>
    dsimp only at hkind
    subst hkind
    obtain ⟨entry, target, format, validators, default, hentry, hshape, hsimple⟩ :=
      haliased name h
    exact .aliasReference hentry hshape hsimple
  · exact nomatch h

/-- The schema is the other one, or an array of such. -/
inductive Layers : Schema → Schema → Prop
  | refl (schema : Schema) : Layers schema schema
  | array {element core : Schema} {nullable : Bool} :
      Layers element core → Layers ⟨.array element, nullable⟩ core

theorem layers_queryFault? {schema core : Schema} (h : schema.Layers core) :
    schema.queryFault? = core.queryFault? := by
  induction h with
  | refl schema => rfl
  | array _ ih => exact ih

end Schema

/-- Aliases are followed in the table of the context, so what the check accepts is simple. -/
private theorem Context.simple_of_isSimpleAlias {c : Context} {hops : Nat} {name : String}
    (h : c.isSimpleAlias hops name = true) :
    ∃ entry target format validators default, c.table.get? name = some entry ∧
      entry.shape = .typeAlias target format validators default ∧ target.Simple c.table := by
  -- By induction on the number of aliases that may be followed.
  induction hops generalizing name with
  | zero => exact nomatch h
  | succ hops ih =>
    unfold isSimpleAlias at h
    split at h
    · next entry target format validators default hentry =>
      have hsimple := Schema.simple_of_isSimpleBy (fun _ => ih) h
      exact ⟨_, target, format, validators, default, hentry, rfl, hsimple⟩
    · exact nomatch h

private theorem Context.simple_of_isSimple {c : Context} {schema : Schema}
    (h : c.isSimple schema = true) : schema.Simple c.table :=
  Schema.simple_of_isSimpleBy (fun _ => Context.simple_of_isSimpleAlias) h

/-! ## Rules -/

/-- The kinds of types that a query can not carry. -/
def Kind.Unsuitable : Kind → Prop
  | .scalar s => s ∈ [.void, .file, .binary, .buffer]
  | .union _ | .intersection _ => True
  | _ => False

/-- `queryFault?` finds every type of an unsuitable kind. -/
private theorem Schema.queryFault?_of_unsuitable {schema : Schema} (h : schema.kind.Unsuitable) :
    schema.queryFault?.isSome := by
  obtain ⟨kind, nullable⟩ := schema
  -- One case for each kind, and for a scalar one for each of them.
  cases kind with
  | scalar s => cases s <;> first | rfl | simp [Kind.Unsuitable] at h
  | union types => rfl
  | intersection types => rfl
  | array element => exact h.elim
  | enum members => exact h.elim
  | object properties additional => exact h.elim
  | reference referent name => exact h.elim

/-- What holds of a parameter of an endpoint with this verb and path, where aliases are looked up in
the table. -/
structure Parameter.Fits (table : Dict ReferenceType) (verb : Verb) (path : String)
    (p : Parameter) : Prop where
  verb : p.location = .body ∨ p.location = .formData →
    verb ∈ [.get, .post, .put, .patch, .delete]
  path : p.location = .path → Route.hasParameter path p.name
  simple : p.location = .header ∨ p.location = .cookie → p.type.Simple table
  query : p.location = .query → ∀ core, p.type.Layers core → ¬ core.kind.Unsuitable

namespace Parameter.Fits

variable {table : Dict ReferenceType} {verb : Verb} {path : String} {p : Parameter}

/-! A parameter has one location, so only one of the rules is about it. -/

private theorem of_free (h : p.location = .context ∨ p.location = .param) :
    p.Fits table verb path := by
  constructor <;> rcases h with h | h <;> simp [h]

private theorem of_body (h : p.location = .body ∨ p.location = .formData)
    (hverb : verb ∈ [.get, .post, .put, .patch, .delete]) : p.Fits table verb path := by
  refine ⟨fun _ => hverb, ?_, ?_, ?_⟩ <;> rcases h with h | h <;> simp [h]

private theorem of_path (h : p.location = .path) (hpath : Route.hasParameter path p.name) :
    p.Fits table verb path := by
  refine ⟨?_, fun _ => hpath, ?_, ?_⟩ <;> simp [h]

private theorem of_simple (h : p.location = .header ∨ p.location = .cookie)
    (hsimple : p.type.Simple table) : p.Fits table verb path := by
  refine ⟨?_, ?_, fun _ => hsimple, ?_⟩ <;> rcases h with h | h <;> simp [h]

private theorem of_query (h : p.location = .query) (hfault : p.type.queryFault? = none) :
    p.Fits table verb path := by
  refine ⟨by simp [h], by simp [h], by simp [h], fun _ core hlayers hbad => ?_⟩
  -- The fault of a part is the fault of the whole, and that has none.
  have hsome := Schema.queryFault?_of_unsuitable hbad
  rw [← Schema.layers_queryFault? hlayers, hfault] at hsome
  exact nomatch hsome

end Parameter.Fits

/-- The structural rules of an endpoint of a controller with this path. -/
structure Endpoint.Regular (table : Dict ReferenceType) (controllerPath : String)
    (e : Endpoint) : Prop where
  /-- At most one parameter is in the body. -/
  oneBody : e.parameters.countP (·.location = .body) ≤ 1
  /-- A body and form fields do not occur together. -/
  bodyOrForm : ∀ p ∈ e.parameters, ∀ q ∈ e.parameters,
    ¬ (p.location = .body ∧ q.location = .formData)
  /-- The rules for each parameter by itself. -/
  parameters : ∀ p ∈ e.parameters, p.Fits table e.verb (Route.join controllerPath e.path)

private theorem Verb.mem_of_allowsBody {verb : Verb} (h : verb.allowsBody = true) :
    verb ∈ [.get, .post, .put, .patch, .delete] := by
  cases verb <;> first | decide | exact nomatch h

/-- Without a fault there is at most one body, and no form beside it. -/
theorem bodyFault?_eq_none {parameters : List Parameter}
    (h : Resolver.bodyFault? parameters = none) :
    parameters.countP (·.location = .body) ≤ 1 ∧
      ∀ p ∈ parameters, ∀ q ∈ parameters, ¬ (p.location = .body ∧ q.location = .formData) := by
  unfold Resolver.bodyFault? at h
  dsimp only at h
  split at h
  · exact nomatch h
  · next hone =>
    split at h
    · exact nomatch h
    · next hboth =>
      -- A body and a form field together would have been a fault.
      refine ⟨by omega, fun p hp q hq ⟨hbody, hform⟩ => hboth ?_⟩
      have hpos : 0 < parameters.countP (·.location = .body) :=
        List.countP_pos_iff.2 ⟨p, hp, by simp [hbody]⟩
      have hany : parameters.any (·.location = .formData) = true :=
        List.any_eq_true.2 ⟨q, hq, by simp [hform]⟩
      simp [hpos, hany]

/-! ## What runs ensure -/

variable {α β : Type} {P : Context → α → Prop} {Q : Context → β → Prop}

/-- Runs of the computation that succeed only add to the context, and `P` holds of their value in
every context that has grown from the one in which they end. -/
def Ensures (P : Context → α → Prop) (x : Resolve α) : Prop :=
  ∀ s v t, x.run s = (.ok v, t) →
    s.context.Grows t.context ∧ ∀ c, t.context.Grows c → P c v

namespace Ensures

theorem pure {a : α} (h : ∀ c, P c a) : Ensures P (Pure.pure a : Resolve α) := by
  intro s v t hrun
  obtain ⟨hv, rfl⟩ := Prod.mk.inj hrun
  exact ⟨.refl _, fun c _ => Except.ok.inj hv ▸ h c⟩

theorem fail {fault : Fault} : Ensures P (Resolve.fail fault : Resolve α) :=
  fun _ _ _ hrun => nomatch hrun

private theorem warn (warning : Warning) : Ensures (fun _ _ => True) (Resolve.warn warning) := by
  intro s v t hrun
  obtain ⟨_, rfl⟩ := Prod.mk.inj hrun
  exact ⟨.refl _, fun _ _ => trivial⟩

private theorem ofExcept (outcome : Except Fault α) :
    Ensures (fun _ _ => True) (Resolve.ofExcept outcome : Resolve α) := by
  cases outcome with
  | ok a => exact .pure fun _ => trivial
  | error fault => exact .fail

variable {x : Resolve α}

theorem inside (h : Ensures P x) (place : Place) : Ensures P (.inside place x) :=
  fun s v t hrun => h s v t (Resolve.run_inside_ok.1 hrun)

variable {f : α → Resolve β}

theorem bind (hx : Ensures P x) (hf : ∀ a, Ensures (fun c b => P c a → Q c b) (f a)) :
    Ensures Q (x >>= f) := by
  intro s v t hrun
  obtain ⟨a, u, hfirst, hrest⟩ := Resolve.run_bind_ok.1 hrun
  obtain ⟨hgrows, ha⟩ := hx s a u hfirst
  obtain ⟨hgrows', hv⟩ := hf a u v t hrest
  exact ⟨hgrows.trans hgrows', fun c hc => hv c hc (ha c (hgrows'.trans hc))⟩

theorem mono {P' : Context → α → Prop} (hx : Ensures P x) (h : ∀ c a, P c a → P' c a) :
    Ensures P' x := by
  intro s v t hrun
  obtain ⟨hgrows, hv⟩ := hx s v t hrun
  exact ⟨hgrows, fun c hc => h c v (hv c hc)⟩

private theorem next (hx : Ensures P x) (hf : ∀ a, Ensures Q (f a)) : Ensures Q (x >>= f) :=
  hx.bind fun a => (hf a).mono fun _ _ h _ => h

theorem map {f : α → β} (hx : Ensures P x) (h : ∀ c a, P c a → Q c (f a)) :
    Ensures Q (do return f (← x)) :=
  hx.bind fun a => .pure fun c => h c a

/-- What is ensured of every value of a list holds of all of them at the end. -/
private theorem mapM {items : List α} (h : ∀ item ∈ items, Ensures Q (f item)) :
    Ensures (fun c values => ∀ value ∈ values, Q c value) (items.mapM f) := by
  induction items with
  | nil => exact .pure fun c value hvalue => nomatch hvalue
  | cons item items ih =>
    rw [List.mapM_cons]
    refine (h item List.mem_cons_self).bind fun value => ?_
    refine (ih fun other ho => h other (List.mem_cons_of_mem _ ho)).map ?_
    intro c values hvalues hvalue other ho
    rcases List.mem_cons.1 ho with rfl | ho
    · exact hvalue
    · exact hvalues other ho

end Ensures

/-- The rules for a parameter of the endpoint, in a context. -/
abbrev EndpointHead.Accepts (head : EndpointHead) (c : Context) (p : Parameter) : Prop :=
  p.Fits c.table head.verb head.path

/-- The rules for an endpoint, in a context. -/
abbrev Endpoint.RegularIn (controllerPath : String) (c : Context) (e : Endpoint) : Prop :=
  e.Regular c.table controllerPath

namespace Resolver

variable (r : Resolver) (head : EndpointHead) (p : ParameterDecl)

private theorem resolve_ensures (type : TypeExpr) (hints : Hints) :
    Ensures (fun _ _ => True) (r.resolve type hints) :=
  fun s _ t hrun =>
    ⟨(resolve_tracks type hints ∅ s _ t hrun).advances.toGrows, fun _ _ => trivial⟩

private theorem resolve?_ensures (type? : Option TypeExpr) :
    Ensures (fun _ _ => True) (r.resolve? type?) := by
  cases type? with
  | none => exact .pure fun _ => trivial
  | some type => exact (r.resolve_ensures type .none).next fun _ => .pure fun _ => trivial

/-- The responses of decorators only add to the context. -/
private theorem responses_ensures (decorators : List Decorator) :
    Ensures (fun _ _ => True) (r.responses decorators) := by
  unfold responses
  split
  · refine (Ensures.mapM (Q := fun _ _ => True) fun d _ => ?_).mono fun _ _ _ => trivial
    exact (r.resolve?_ensures _).next fun _ => (r.resolve?_ensures _).next fun _ =>
      .pure fun _ => trivial
  · exact .pure fun _ => trivial

/-! ## Parameters -/

private theorem parameterType_ensures : Ensures (fun _ _ => True) (r.parameterType head p) := by
  unfold parameterType
  split
  · exact r.resolve_ensures _ _
  · exact (Ensures.warn _).next fun _ => .pure fun _ => trivial

omit r in
private theorem requireBodyVerb_ensures (kind : String) :
    Ensures (fun _ _ => head.verb ∈ [.get, .post, .put, .patch, .delete])
      (requireBodyVerb head p kind) := by
  unfold requireBodyVerb
  split
  · next hverb => exact .pure fun _ => Verb.mem_of_allowsBody hverb
  · exact .fail

private theorem queryParameter_ensures (name : String) (found : Option RoleMatch) :
    Ensures head.Accepts (r.queryParameter head p name found) := by
  refine (r.parameterType_ensures head p).next fun type => ?_
  split
  · exact .fail
  · next hfault => exact .pure fun c => .of_query rfl hfault

/-- The check is made in the last context, and later ones have the same aliases. -/
private theorem simpleParameter_ensures (name : String) {location : Location}
    (hlocation : location = .header ∨ location = .cookie) :
    Ensures head.Accepts (r.simpleParameter head p name location) := by
  refine (r.parameterType_ensures head p).next fun type => ?_
  intro s v t hrun
  rw [Resolve.run_bind_of_ok (Resolve.run_context s)] at hrun
  split at hrun
  · next hsimple =>
    obtain ⟨hv, rfl⟩ := Prod.mk.inj hrun
    obtain rfl := Except.ok.inj hv
    have hnow := Context.simple_of_isSimple hsimple
    exact ⟨.refl _, fun c hc => .of_simple hlocation (hnow.mono hc.table)⟩
  · exact nomatch hrun

/-- A parameter that the path does not mention is refused before its type is resolved. -/
private theorem pathParameter_ensures (name : String) :
    Ensures head.Accepts (r.pathParameter head p name) := by
  have htype := r.parameterType_ensures head p
  unfold pathParameter
  by_cases hpath : Route.hasParameter head.path name = true
  · simp only [hpath, Bool.not_true, Bool.false_eq_true, if_false]
    exact htype.next fun type => .pure fun c => .of_path rfl hpath
  · rw [Bool.not_eq_true] at hpath
    simp only [hpath, Bool.not_false, if_true]
    -- Nothing that would be done after the failure matters.
    exact (Ensures.fail (P := fun _ _ => False)).bind fun _ =>
      htype.next fun type => .pure fun c h => h.elim

/-- Wherever a parameter stands, it is built only where the rules for that place hold. -/
private theorem parameter_ensures : Ensures head.Accepts (r.parameter head p) := by
  have htype := r.parameterType_ensures head p
  have hbody (kind : String) := requireBodyVerb_ensures head p kind
  unfold parameter
  dsimp only
  -- One case for each role, in the order of their definition.
  split
  · exact .pure fun c => .of_free (.inl rfl)
  · exact htype.next fun type => .pure fun c => .of_free (.inr rfl)
  · exact r.queryParameter_ensures head p _ _
  · exact (hbody "form").bind fun _ => htype.next fun type => .pure fun c => .of_body (.inr rfl)
  · exact r.simpleParameter_ensures head p _ (.inl rfl)
  · exact r.simpleParameter_ensures head p _ (.inr rfl)
  · exact r.pathParameter_ensures head p _
  · exact (hbody "file").bind fun _ => .pure fun c => .of_body (.inr rfl)
  · exact (hbody "file").bind fun _ => .pure fun c => .of_body (.inr rfl)
  · exact (hbody "body").bind fun _ => htype.next fun type => .pure fun c => .of_body (.inl rfl)

/-- Each parameter fits by itself, and they fit together. -/
private theorem parameters_ensures :
    Ensures (fun c parameters => (∀ p ∈ parameters, head.Accepts c p) ∧
      bodyFault? parameters = none) (r.parameters head) := by
  have heach : ∀ p ∈ head.declaration.parameters,
      Ensures head.Accepts (Resolve.inside (.parameter p.name) (r.parameter head p)) :=
    fun p _ => (r.parameter_ensures head p).inside (.parameter p.name)
  have hall := Ensures.mapM heach
  refine hall.bind fun parameters => ?_
  split
  · exact .fail
  · next hfault => exact .pure fun c h => ⟨h, hfault⟩

/-! ## Endpoints and controllers -/

variable (controller controllerPath : String) (m : MethodDecl)

/-- The return type only adds to the context. -/
private theorem returnSchema_ensures (scope : Scope) :
    Ensures (fun _ _ => True) (r.returnSchema controller m scope) := by
  unfold returnSchema
  split
  · exact r.resolve_ensures _ _
  · split
    · exact (Ensures.warn _).next fun _ => .pure fun _ => trivial
    · exact .pure fun _ => trivial

/-- Parameters are checked against the path of the controller with the endpoint's. -/
private theorem endpointOf_ensures (verb : Verb) (found : RoleMatch) :
    Ensures (Endpoint.RegularIn controllerPath)
      (r.endpointOf controller controllerPath m verb found) := by
  -- Only the parameters are checked. What is resolved before them and behind them adds to the
  -- context.
  refine (r.returnSchema_ensures controller m _).next fun type => ?_
  refine (r.parameters_ensures _).bind fun parameters => ?_
  refine (r.responses_ensures _).next fun declared => .pure fun c ⟨hfits, hfault⟩ => ?_
  obtain ⟨hone, hboth⟩ := bodyFault?_eq_none hfault
  refine ⟨hone, hboth, ?_⟩
  dsimp only [EndpointHead.Accepts] at hfits ⊢
  exact hfits

/-- A method gives an endpoint that obeys the rules, or none. -/
private theorem endpoint?_ensures :
    Ensures (fun c e? => ∀ e ∈ e?, Endpoint.RegularIn controllerPath c e)
      (r.endpoint? controller controllerPath m) := by
  refine ((Ensures.ofExcept (r.verb? m)).next fun verb? => ?_).inside _
  split
  · next verb found =>
    refine (r.endpointOf_ensures controller controllerPath m verb found).map ?_
    rintro c e he _ ⟨⟩
    exact he
  · exact .pure fun c e he => nomatch he

/-- All endpoints of a controller obey the rules by its path. -/
private theorem controller_ensures (c : ClassDecl) (file : String) :
    Ensures (fun context controller => ∀ e ∈ controller.endpoints,
      Endpoint.RegularIn controller.path context e) (r.controller c file) := by
  refine (Ensures.mapM fun m _ => r.endpoint?_ensures c.name _ m).bind fun endpoints => ?_
  refine ((r.responses_ensures c.decorators).inside _).next fun responses => ?_
  refine .pure fun context hall e he => ?_
  obtain ⟨e?, hmem, rfl⟩ := List.mem_filterMap.1 he
  exact hall (some e) hmem e rfl

private theorem controllers_ensures :
    Ensures (fun context controllers => ∀ controller ∈ controllers,
      ∀ e ∈ controller.endpoints, Endpoint.RegularIn controller.path context e) r.controllers :=
  .mapM fun (c, file) _ => r.controller_ensures c file

end Resolver

/-- Every emitted endpoint obeys the structural rules: it has at most one body, and no form beside
it; a body or a form only with a verb that allows it; every parameter of the path is mentioned in
the emitted path of the controller and the endpoint; headers and cookies are simple, by the emitted
table; and no parameter of the query is of a type that a query can not carry, under any number of
arrays. -/
theorem endpoints_obey_rules (program : Program) (mapping : Mapping) {metadata : Metadata}
    (h : (Metadata.ofProgram program mapping).1 = .ok metadata) :
    ∀ controller ∈ metadata.controllers, ∀ endpoint ∈ controller.endpoints,
      endpoint.Regular metadata.referenceTypes controller.path := by
  let r : Resolver := ⟨.ofProgram program, mapping⟩
  obtain ⟨t, hbuild⟩ : ∃ t, (Metadata.build program mapping).run .empty = (.ok metadata, t) :=
    ⟨_, Prod.ext h rfl⟩
  obtain ⟨controllers, u, hrun, hrest⟩ := Resolve.run_bind_ok.1 hbuild
  rw [Resolve.run_bind_of_ok (Resolve.run_context u)] at hrest
  obtain ⟨table, w, hfinish, hend⟩ := Resolve.run_bind_ok.1 hrest
  obtain ⟨hmetadata, _⟩ := Prod.mk.inj hend
  obtain rfl := Except.ok.inj hmetadata
  -- The emitted table is the one of the context in which the controllers were finished.
  have htable : table = u.context.table := by
    cases hf : u.context.finish with
    | error fault =>
      rw [hf] at hfinish
      exact nomatch hfinish
    | ok found =>
      rw [hf] at hfinish
      obtain ⟨hfound, _⟩ := Prod.mk.inj hfinish
      rw [← Except.ok.inj hfound]
      exact (Context.finish_eq_ok.1 hf).1
  obtain ⟨_, hall⟩ := r.controllers_ensures _ _ _ hrun
  intro controller hcontroller endpoint hendpoint
  rw [htable]
  exact hall u.context (.refl _) controller hcontroller endpoint hendpoint

/-- An endpoint with a parameter in the path of its controller, a header whose type is an alias of
an alias, a list in the query and a body. -/
theorem notes_endpoint_regular :
    let program : Program := (ProgramFile.parse "users.ts"
      ("type T = S;\ntype S = string;\n@Route('/u/:id/') class Users \x7b @Post('n') " ++
        "add(@Path() id: S, @Header() t: T, @Query() q: S[][], b: Date): void; \x7d")
      ).toOption.toList
    ∃ metadata, (Metadata.ofProgram program (Mapping.ofSettings .default)).1 = .ok metadata ∧
      (metadata.controllers.map fun controller => controller.endpoints.map fun endpoint =>
        (Route.join controller.path endpoint.path,
          endpoint.parameters.map fun p => (p.name, p.type.display))) =
        [[("u/:id/n", [("id", "refAlias 'S'"), ("t", "refAlias 'T'"),
          ("q", "array of array of refAlias 'S'"), ("b", "datetime")])]] ∧
      ∀ controller ∈ metadata.controllers, ∀ endpoint ∈ controller.endpoints,
        endpoint.Regular metadata.referenceTypes controller.path := by
  suffices hfacts : _ from
    let ⟨metadata, hrun, houtline⟩ := Except.exists_ok_of_toOption hfacts
    ⟨metadata, hrun, houtline, endpoints_obey_rules _ _ hrun⟩
  decide +kernel

end Endpoints
