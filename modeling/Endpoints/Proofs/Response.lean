import Endpoints.Proofs.Match
import Endpoints.Proofs.Overload

/-!
# The responses of an endpoint

An endpoint has the responses that its decorators declare. The successful response joins them: it is
added at the end, unless one is declared for its status already. Then that one is kept as it is, but
for the examples of the endpoint, which it takes if it has none.

The status and the description of the successful response are read by the rules of the decorator
that was found. A decorator without a rule for descriptions has its first argument read for it,
which is the status.
-/

namespace Endpoints

/-- The response with examples, which it takes if it has none. -/
def Response.withSamples (response : Response) (samples : Option (List Json)) : Response :=
  { response with samples := response.samples.or samples }

namespace Resolver

variable (r : Resolver) (m : MethodDecl)

/-- The responses of a method that returns `type`. -/
def endpointResponses (type : Schema) : Resolve (List Response) := do
  let declared ← r.responses m.decorators
  return addSuccess (r.successResponse m type) declared

/-- The responses of an endpoint are the last part of it to be resolved. -/
theorem responses_of_endpointOf {controller controllerPath : String} {verb : Verb}
    {found : RoleMatch} {e : Endpoint} {s t : Session}
    (h : (r.endpointOf controller controllerPath m verb found).run s = (.ok e, t)) :
    ∃ u, (r.endpointResponses m e.type).run u = (.ok e.responses, t) := by
  -- The return type and the parameters come first.
  obtain ⟨type, _, _, h⟩ := Resolve.run_bind_ok.1 h
  obtain ⟨parameters, u, _, h⟩ := Resolve.run_bind_ok.1 h
  obtain ⟨declared, v, hdeclared, h⟩ := Resolve.run_bind_ok.1 h
  obtain ⟨he, rfl⟩ := Prod.mk.inj h
  have he := Except.ok.inj he
  subst he
  refine ⟨u, ?_⟩
  rw [endpointResponses, Resolve.run_bind_of_ok hdeclared]
  rfl

/-! ## The declared responses -/

/-- Responses are those that decorators declare: one for each decorator of the representation that
was found, in their order. -/
def Declares (decorators : List Decorator) (declared : List Response) : Prop :=
  match r.mapping.find? decorators .response with
  | none => declared = []
  | some found =>
    found.instances = decorators.filter (·.isNamed found.representation.name) ∧
      List.Forall₂ (fun d response => ∃ u v, (r.response found d).run u = (.ok response, v))
        found.instances declared

/-- `Resolver.responses` gives the responses that the decorators declare. -/
private theorem declares_of_responses {decorators : List Decorator} {declared : List Response}
    {s t : Session} (h : (r.responses decorators).run s = (.ok declared, t)) :
    r.Declares decorators declared := by
  unfold responses at h
  unfold Declares
  cases hfound : r.mapping.find? decorators .response with
  | none =>
    rw [hfound] at h
    exact (Except.ok.inj (Prod.mk.inj h).1).symm
  | some found =>
    rw [hfound] at h
    exact ⟨(Mapping.find?_eq_some hfound).2.1, Resolve.run_mapM_ok h⟩

/-! ## The successful response among them -/

/-- The first response of the status takes the examples; without any the response is added. -/
theorem addSuccess_eq (success : Response) (declared : List Response) :
    addSuccess success declared =
      declared.modify (declared.findIdx (·.status == success.status))
        (·.withSamples success.samples) ++
      if declared.any (·.status == success.status) then [] else [success] := by
  induction declared with
  | nil => rfl
  | cons first declared ih =>
    rw [addSuccess, List.findIdx_cons, List.any_cons]
    -- The first response has the status, or the search goes on behind it.
    by_cases hstatus : first.status = success.status
    · simp [hstatus, Response.withSamples]
    · have hne : (first.status == success.status) = false := by simpa using hstatus
      rw [if_neg hstatus, ih, hne, cond_false, List.modify_succ_cons, Bool.false_or,
        List.cons_append]

private theorem status_successResponse (type : Schema) : (r.successResponse m type).status =
    (r.roleText? m.decorators .successResponse .status).getD
      (if type.isVoid then "204" else "200") := by
  unfold successResponse
  cases type.isVoid <;> rfl

private theorem description_successResponse (type : Schema) :
    (r.successResponse m type).description =
      (r.roleText? m.decorators .successResponse .description).getD
        (if type.isVoid then "No content" else "Ok") := by
  unfold successResponse
  cases type.isVoid <;> rfl

private theorem samples_successResponse (type : Schema) :
    (r.successResponse m type).samples = r.samples? m :=
  rfl

end Resolver

/-- The responses of an endpoint are those of its method. They start with the declared responses,
one for each decorator and in their order. Only the first of them that has the status of success may
change, and it gets the examples of the method if it has none; its other parts and all other
responses stay as they are. The successful response follows if its status is not declared, and else
nothing does. -/
theorem declared_responses_survive (r : Resolver) (m : MethodDecl) :
    (∀ {controller path : String} {verb : Verb} {found : RoleMatch} {e : Endpoint} {s t : Session},
      (r.endpointOf controller path m verb found).run s = (.ok e, t) →
        ∃ u, (r.endpointResponses m e.type).run u = (.ok e.responses, t)) ∧
    ∀ {type : Schema} {responses : List Response} {s t : Session},
      (r.endpointResponses m type).run s = (.ok responses, t) →
      let status := (r.roleText? m.decorators .successResponse .status).getD
        (if type.isVoid then "204" else "200")
      ∃ declared kept added, (r.responses m.decorators).run s = (.ok declared, t) ∧
        r.Declares m.decorators declared ∧ responses = kept ++ added ∧
        (∀ k, kept[k]? = declared[k]?.map fun before =>
          if k = declared.findIdx (·.status == status) then
            { before with samples := before.samples.or (r.samples? m) }
          else before) ∧
        added = (if declared.any (·.status == status) then [] else [r.successResponse m type]) ∧
        (r.successResponse m type).status = status := by
  refine ⟨r.responses_of_endpointOf m, ?_⟩
  intro type responses s t h status
  have hstatus : (r.successResponse m type).status = status := r.status_successResponse m type
  obtain ⟨declared, u, hdeclared, h⟩ := Resolve.run_bind_ok.1 h
  obtain ⟨hresponses, rfl⟩ := Prod.mk.inj h
  have hresponses := (Except.ok.inj hresponses).symm
  rw [Resolver.addSuccess_eq, hstatus, r.samples_successResponse] at hresponses
  refine ⟨declared, _, _, hdeclared, r.declares_of_responses hdeclared, hresponses, ?_, rfl,
    hstatus⟩
  -- Place by place.
  intro k
  rw [List.getElem?_modify]
  cases declared[k]? with
  | none => rfl
  | some before =>
    by_cases hk : k = declared.findIdx (·.status == status)
    · simp [← hk, Response.withSamples]
    · simp [hk, Ne.symm hk]

/-- A method with three declared responses, of which two have the status of success. The first of
these gets the example. -/
theorem second_declared_takes_example :
    let program : Program := (ProgramFile.parse "items.ts" ("@Route('items') class Items \x7b " ++
      "@Get() @Response('404', 'None') @Response(200, 'Items') @Response('200', 'Again') " ++
      "@Example('a') list(): string; \x7d")).toOption.toList
    let r : Resolver := ⟨.ofProgram program, Mapping.ofSettings .default⟩
    ∃ m found e t u declared kept added, r.index.classes.flatMap (·.1.methods) = [m] ∧
      r.mapping.find? m.decorators .get = some found ∧
      (r.endpointOf "Items" "items" m .get found).run .empty = (.ok e, t) ∧
      e.responses.map (fun response => (response.status, response.samples.isSome)) =
        [("404", false), ("200", true), ("200", false)] ∧
      (r.responses m.decorators).run u = (.ok declared, t) ∧ r.Declares m.decorators declared ∧
      e.responses = kept ++ added ∧
      ∀ k : Nat, kept[k]?.map Response.description = declared[k]?.map Response.description := by
  intro program r
  have hfacts : (r.index.classes.flatMap (·.1.methods)).map (fun m =>
      (r.mapping.find? m.decorators .get).bind fun found =>
        ((r.endpointOf "Items" "items" m .get found).run .empty).1.toOption.map fun e =>
          e.responses.map fun response => (response.status, response.samples.isSome)) =
      [some [("404", false), ("200", true), ("200", false)]] := by
    decide +kernel
  obtain ⟨m, hm, hfacts⟩ := exists_method hfacts
  obtain ⟨found, hfound, hfacts⟩ := Option.bind_eq_some_iff.1 hfacts
  obtain ⟨e, hrun, hresponses⟩ := Except.exists_ok_of_toOption hfacts
  have hrun := Prod.ext (y := (_, _)) hrun rfl
  -- The responses of the endpoint are those of its last step.
  obtain ⟨u, hlast⟩ := (declared_responses_survive r m).1 hrun
  obtain ⟨declared, kept, added, hdeclared, hdeclares, heq, hkept, -⟩ :=
    (declared_responses_survive r m).2 hlast
  refine ⟨m, found, e, _, u, declared, kept, added, hm, hfound, hrun, hresponses, hdeclared,
    hdeclares, heq, ?_⟩
  intro k
  -- An example is added to a response, never another description.
  rw [hkept]
  cases declared[k]? with
  | none => rfl
  | some before =>
    rw [Option.map_some, Option.map_some, Option.map_some, apply_ite Response.description, ite_self]

/-! ## Decorators with a status only -/

namespace RoleMatch

variable {found : RoleMatch} {d : Decorator} {argument : Expr} {detail : Detail}

private theorem textOf?_of_lone {position : Nat}
    (hrule : found.representation.rule detail = .value position)
    (harguments : d.arguments = [argument]) :
    found.textOf? d detail = if position = 0 then argument.literalText? else none := by
  rw [textOf?, value?, hrule, Rule.value, Rule.read?, Rule.select?, harguments]
  cases position <;> rfl

end RoleMatch

/-- A decorator for the successful response has its status first. One of them has a rule for the
description; the others read the first argument for it. -/
private theorem Representation.rules_of_successResponse {representation : Representation}
    (h : representation ∈ RoleTable.builtin.lookup .successResponse ∨
      ∃ dialect : Dialect, representation ∈ dialect.table.lookup .successResponse) :
    representation.rule .status = .value 0 ∧ representation.rule .description =
      .value (if representation.name = "SuccessResponse" then 1 else 0) := by
  -- The tables are finite, so that each of their entries can be checked.
  rcases h with hbuiltin | ⟨dialect, hdialect⟩
  · revert representation
    decide
  · revert representation
    cases dialect <;> decide

/-- Where the decorator of the successful response carries a status only and no response is declared
for it, a response is added that has this status. With the decorator of the built-in table it has
the default description; with one of a dialect its description is the status once more. -/
theorem lone_status_as_description (index : Index) (settings : MappingSettings) (m : MethodDecl)
    (type : Schema) {found : RoleMatch} {d : Decorator} {argument : Expr} {status : String}
    {declared : List Response} {s t : Session}
    (hoverride : settings.overrides.find? (·.1 == .successResponse) = none)
    (hfound : (Mapping.ofSettings settings).find? m.decorators .successResponse = some found)
    (hfirst : found.instances.head? = some d) (harguments : d.arguments = [argument])
    (hstatus : argument.literalText? = some status) :
    let r : Resolver := ⟨index, .ofSettings settings⟩
    (r.responses m.decorators).run s = (.ok declared, t) →
    (∀ response ∈ declared, response.status ≠ status) →
    ∃ response, (r.endpointResponses m type).run s = (.ok (declared ++ [response]), t) ∧
      response.status = status ∧
      response.description =
        if found.representation.name = "SuccessResponse" then
          if type.isVoid then "No content" else "Ok"
        else status := by
  intro r hdeclared hnew
  obtain ⟨hrule, hdescribes⟩ :=
    Representation.rules_of_successResponse (Mapping.mem_tables_of_find? hoverride hfound)
  have htext (detail : Detail) : r.roleText? m.decorators .successResponse detail =
      found.textOf? d detail := by
    rw [Resolver.roleText?, hfound, Option.bind_some, RoleMatch.text?, hfirst, Option.bind_some]
  have hsuccess : (r.successResponse m type).status = status := by
    rw [r.status_successResponse, htext, RoleMatch.textOf?_of_lone hrule harguments, if_pos rfl,
      hstatus, Option.getD_some]
  refine ⟨r.successResponse m type, ?_, hsuccess, ?_⟩
  · -- No declared response has the status, so none of them takes the examples.
    have hnone : declared.any (·.status == status) = false := by simpa using hnew
    have hlast : declared.length ≤ declared.findIdx (·.status == status) := by
      rw [List.findIdx_eq_length_of_false fun response hmem => by simpa using hnew response hmem]
    rw [Resolver.endpointResponses, Resolve.run_bind_of_ok hdeclared, Resolve.run_pure,
      Resolver.addSuccess_eq, hsuccess, hnone, List.modify_eq_self hlast]
    rfl
  · -- The second position is empty; the first one holds the status.
    rw [r.description_successResponse, htext, RoleMatch.textOf?_of_lone hdescribes harguments]
    by_cases hname : found.representation.name = "SuccessResponse"
    · simp [hname]
    · simp [hname, hstatus]

/-- A method with the decorator of a dialect for the status. The description of the response is the
status, not the default. -/
theorem created_described_by_status :
    let program : Program := (ProgramFile.parse "items.ts" ("@Controller('items') class Items " ++
      "\x7b @Post() @HttpCode(201) add(): string; \x7d")).toOption.toList
    let settings : MappingSettings := ⟨.all, .one .nest, []⟩
    let r : Resolver := ⟨.ofProgram program, .ofSettings settings⟩
    ∃ m found d argument declared response t, r.index.classes.flatMap (·.1.methods) = [m] ∧
      r.mapping.find? m.decorators .successResponse = some found ∧
      found.instances = [d] ∧ d.arguments = [argument] ∧ argument.literalText? = some "201" ∧
      (r.responses m.decorators).run .empty = (.ok declared, t) ∧ declared = [] ∧
      (r.endpointResponses m (.ofScalar .string)).run .empty = (.ok [response], t) ∧
      (response.status, response.description) = ("201", "201") := by
  intro program settings r
  have hfacts : (r.index.classes.flatMap (·.1.methods)).map (fun m =>
      ((r.mapping.find? m.decorators .successResponse).map fun found =>
        (found.representation.name, found.instances.map fun d =>
          d.arguments.map (·.literalText?)),
      ((r.responses m.decorators).run .empty).1.toOption.map List.length)) =
      [(some ("HttpCode", [[some "201"]]), some 0)] := by
    decide +kernel
  -- The class has one method, with one decorator that has one argument.
  obtain ⟨m, hm, hfacts⟩ := exists_method hfacts
  obtain ⟨hfound, hdeclared⟩ := Prod.mk.inj hfacts
  obtain ⟨found, hfound, hfacts⟩ := Option.map_eq_some_iff.1 hfound
  obtain ⟨hname, hinstances⟩ := Prod.mk.inj hfacts
  obtain ⟨d, hd, harguments⟩ := List.map_eq_singleton_iff.1 hinstances
  obtain ⟨argument, hargument, hstatus⟩ := List.map_eq_singleton_iff.1 harguments
  obtain ⟨declared, hdeclared, hlength⟩ := Except.exists_ok_of_toOption hdeclared
  have hnil := List.eq_nil_of_length_eq_zero hlength
  subst hnil
  have hdeclared := Prod.ext (y := (_, _)) hdeclared rfl
  obtain ⟨response, hrun, hresponse, hdescription⟩ :=
    lone_status_as_description r.index settings m (.ofScalar .string) rfl hfound
      (by rw [hd]; rfl) hargument hstatus hdeclared (by simp)
  refine ⟨m, found, d, argument, [], response, _, hm, hfound, hd, hargument, hstatus, hdeclared,
    rfl, hrun, ?_⟩
  rw [hresponse, hdescription, hname]
  rfl

end Endpoints
