import Endpoints.Proofs.Rules
import Mathlib.Data.List.Forall2

/-!
# Methods with one name

A class may declare several methods with one name: overloads of a method, or a method and one that
replaces it. A controller keeps the first of them before it looks at their decorators. So the names
of its endpoints are all different, and the first method of a name alone decides whether there is an
endpoint of that name.
-/

namespace Endpoints

variable {α β : Type}

/-- The methods of a class, in order. -/
def ClassDecl.methods (c : ClassDecl) : List MethodDecl :=
  c.members.filterMap fun member => match member with
    | .method m => some m
    | _ => none

/-- Whether a method carries the decorator of a verb. -/
def Resolver.hasVerb (r : Resolver) (m : MethodDecl) : Bool :=
  Role.verbs.any fun (role, _) => r.mapping.has m.decorators role

namespace Resolver

/-! ## The first method of each name -/

/-- Adds a method unless there is one of its name. -/
private def keep (kept : List MethodDecl) (m : MethodDecl) : List MethodDecl :=
  if kept.any (·.name == m.name) then kept else kept ++ [m]

/-- What `keep` gathers has different names. -/
private theorem nodup_foldl_keep {kept methods : List MethodDecl}
    (h : (kept.map (·.name)).Nodup) : ((methods.foldl keep kept).map (·.name)).Nodup := by
  induction methods generalizing kept with
  | nil => exact h
  | cons m methods ih =>
    apply ih
    by_cases hany : kept.any (·.name == m.name) = true
    · simpa [keep, hany] using h
    -- A method is added only if its name is not there.
    · have hnew : ∀ other ∈ kept, other.name ≠ m.name := by simpa using hany
      simp only [keep, hany, Bool.false_eq_true, if_false, List.map_append, List.map_cons,
        List.map_nil]
      rw [List.nodup_append]
      refine ⟨h, List.nodup_singleton _, fun a ha b hb => ?_⟩
      obtain ⟨other, hother, rfl⟩ := List.mem_map.1 ha
      rw [List.mem_singleton.1 hb]
      exact hnew other hother

/-- What `keep` gathers has the first method of each name. -/
private theorem find?_foldl_keep (kept methods : List MethodDecl) (name : String) :
    (methods.foldl keep kept).find? (·.name == name) =
      (kept.find? (·.name == name)).or (methods.find? (·.name == name)) := by
  induction methods generalizing kept with
  | nil => simp
  | cons m methods ih =>
    rw [List.foldl_cons, ih]
    by_cases hany : kept.any (·.name == m.name) = true
    · -- A method that is left out is not the first of its name.
      simp only [keep, hany, if_true]
      by_cases hname : m.name = name
      · have hsome : (kept.find? (·.name == name)).isSome := by
          simpa [List.find?_isSome, hname] using hany
        obtain ⟨first, hfirst⟩ := Option.isSome_iff_exists.1 hsome
        simp [hfirst]
      · simp [hname]
    · simp only [keep, hany, Bool.false_eq_true, if_false, List.find?_append, Option.or_assoc]
      by_cases hname : m.name = name <;> simp [hname]

variable (c : ClassDecl)

theorem nodup_distinctMethods : ((distinctMethods c.members).map (·.name)).Nodup :=
  nodup_foldl_keep List.nodup_nil

theorem find?_distinctMethods (name : String) :
    (distinctMethods c.members).find? (·.name == name) = c.methods.find? (·.name == name) :=
  find?_foldl_keep [] c.methods name

/-- A method is kept exactly if it is the first of its name. -/
private theorem mem_distinctMethods {m : MethodDecl} :
    m ∈ distinctMethods c.members ↔ c.methods.find? (·.name == m.name) = some m := by
  rw [← find?_distinctMethods]
  constructor
  · intro hm
    cases hfind : (distinctMethods c.members).find? (·.name == m.name) with
    | none => exact absurd (List.find?_eq_none.1 hfind m hm) (by simp)
    | some first =>
      have hname : first.name = m.name := by simpa using List.find?_some hfind
      rw [List.inj_on_of_nodup_map (nodup_distinctMethods c)
        (List.mem_of_find?_eq_some hfind) hm hname]
  · exact List.mem_of_find?_eq_some

end Resolver

/-! ## Endpoints of the methods -/

namespace Resolver

variable (r : Resolver)

/-- A verb is found exactly on the methods that carry one. -/
private theorem isSome_of_verb? {m : MethodDecl} {found : Option (Verb × RoleMatch)}
    (h : r.verb? m = .ok found) : found.isSome = r.hasVerb m := by
  -- No verb is listed exactly if the method carries none.
  have hnone : (Role.verbs.filterMap fun (role, verb) =>
      (r.mapping.find? m.decorators role).map (verb, ·)) = [] ↔ r.hasVerb m = false := by
    simp [List.filterMap_eq_nil_iff, hasVerb, Mapping.has]
  unfold verb? at h
  dsimp only at h
  split at h
  · next hnil => simp [hnone.1 hnil, ← Except.ok.inj h]
  · next one hone =>
    have hverb : r.hasVerb m = true := by
      by_contra hno
      simp [hnone.2 (by simpa using hno)] at hone
    simp [hverb, ← Except.ok.inj h]
  · exact nomatch h

/-- The endpoint of a method has its name, and is there if the method has a verb. -/
private theorem name_of_endpoint? {controller path : String} {m : MethodDecl} {e? : Option Endpoint}
    {s t : Session} (h : (r.endpoint? controller path m).run s = (.ok e?, t)) :
    e?.map (·.name) = if r.hasVerb m then some m.name else none := by
  rw [endpoint?, Resolve.run_inside_ok] at h
  obtain ⟨found, u, hfound, h⟩ := Resolve.run_bind_ok.1 h
  -- The first part of the run gives what `verb?` gives.
  have hverb : r.verb? m = .ok found := by
    cases hv : r.verb? m with
    | error fault => rw [hv] at hfound; exact nomatch hfound
    | ok o => rw [hv] at hfound; rw [← Except.ok.inj (Prod.mk.inj hfound).1]
  rw [← r.isSome_of_verb? hverb]
  cases found with
  | none =>
    obtain ⟨he, _⟩ := Prod.mk.inj h
    simp [← Except.ok.inj he]
  | some pair =>
    obtain ⟨e, v, hrun, h⟩ := Resolve.run_bind_ok.1 h
    obtain ⟨he, _⟩ := Prod.mk.inj h
    -- Result, parameters and responses are resolved in turn; the name is that of the method.
    obtain ⟨type, _, _, hrun⟩ := Resolve.run_bind_ok.1 hrun
    obtain ⟨parameters, _, _, hrun⟩ := Resolve.run_bind_ok.1 hrun
    obtain ⟨responses, _, _, hrun⟩ := Resolve.run_bind_ok.1 hrun
    obtain ⟨hendpoint, _⟩ := Prod.mk.inj hrun
    simp [← Except.ok.inj he, ← Except.ok.inj hendpoint]

/-- The endpoints of methods, in order. -/
private theorem names_of_endpoints {controller path : String} {methods : List MethodDecl}
    {endpoints : List (Option Endpoint)} {s t : Session}
    (h : (methods.mapM (r.endpoint? controller path)).run s = (.ok endpoints, t)) :
    (endpoints.filterMap id).map (·.name) = (methods.filter r.hasVerb).map (·.name) := by
  have heach := Resolve.run_mapM_ok h
  clear h
  -- One method after the other: each gives an endpoint of its own name or none.
  induction heach with
  | nil => rfl
  | @cons m e? methods endpoints hrun _ ih =>
    obtain ⟨_, _, hrun⟩ := hrun
    have hname := r.name_of_endpoint? hrun
    by_cases hverb : r.hasVerb m = true
    · simp only [hverb, if_true, Option.map_eq_some_iff] at hname
      obtain ⟨e, rfl, hname⟩ := hname
      simpa [hverb, hname] using ih
    · simp only [hverb, Bool.false_eq_true, if_false, Option.map_eq_none_iff] at hname
      simpa [hverb, hname] using ih

/-- The endpoints of a controller are those of the methods that are kept. -/
theorem names_of_controller {c : ClassDecl} {file : String} {controller : Controller}
    {s t : Session} (h : (r.controller c file).run s = (.ok controller, t)) :
    controller.endpoints.map (·.name) =
      ((distinctMethods c.members).filter r.hasVerb).map (·.name) := by
  obtain ⟨endpoints, u, hendpoints, h⟩ := Resolve.run_bind_ok.1 h
  obtain ⟨responses, v, _, h⟩ := Resolve.run_bind_ok.1 h
  obtain ⟨hcontroller, _⟩ := Prod.mk.inj h
  rw [← Except.ok.inj hcontroller]
  exact r.names_of_endpoints hendpoints

end Resolver

/-- Of the methods with one name the first alone decides: if it carries the decorator of a verb, the
controller has exactly one endpoint of that name, and else none, whatever the other methods of that
name carry. -/
theorem first_method_decides (r : Resolver) (c : ClassDecl) (file : String)
    {controller : Controller} {s t : Session}
    (h : (r.controller c file).run s = (.ok controller, t)) (name : String) :
    (controller.endpoints.map (·.name)).count name =
      if (c.methods.find? (·.name == name)).any r.hasVerb then 1 else 0 := by
  rw [r.names_of_controller h]
  -- The names are different, so each counts once or not at all.
  have hnodup : (((Resolver.distinctMethods c.members).filter r.hasVerb).map (·.name)).Nodup :=
    (Resolver.nodup_distinctMethods c).sublist (List.filter_sublist.map _)
  have hmem : name ∈ ((Resolver.distinctMethods c.members).filter r.hasVerb).map (·.name) ↔
      (c.methods.find? (·.name == name)).any r.hasVerb = true := by
    simp only [List.mem_map, List.mem_filter, Resolver.mem_distinctMethods, Option.any_eq_true]
    constructor
    · rintro ⟨m, ⟨hm, hverb⟩, rfl⟩
      exact ⟨m, hm, hverb⟩
    · rintro ⟨m, hm, hverb⟩
      have hname : m.name = name := by simpa using List.find?_some hm
      subst hname
      exact ⟨m, ⟨hm, hverb⟩, rfl⟩
  split
  · next hfirst => exact List.count_eq_one_of_mem hnodup (hmem.2 hfirst)
  · next hfirst => exact List.count_eq_zero.2 fun h => hfirst (hmem.1 h)

/-- The controller of the only class of a program, where it is known what it looks like. -/
theorem exists_controller {r : Resolver} {f : ClassDecl → α} {g : Controller → β} {a : α} {b : β}
    (h : (r.index.classes.map fun (c, file) => (r.isController c, f c,
      ((r.controller c file).run .empty).1.toOption.map g)) = [(true, a, some b)]) :
    ∃ c file controller t, r.index.classes = [(c, file)] ∧ r.isController c = true ∧ f c = a ∧
      (r.controller c file).run .empty = (.ok controller, t) ∧ g controller = b := by
  obtain ⟨⟨c, file⟩, hclasses, hfacts⟩ := List.map_eq_singleton_iff.1 h
  obtain ⟨hvalid, hfacts⟩ := Prod.mk.inj hfacts
  obtain ⟨hc, hrun⟩ := Prod.mk.inj hfacts
  obtain ⟨controller, hok, hcontroller⟩ := Except.exists_ok_of_toOption hrun
  exact ⟨c, file, controller, _, hclasses, hvalid, hc, Prod.ext hok rfl, hcontroller⟩

theorem exists_method {r : Resolver} {f : MethodDecl → α} {a : α}
    (h : (r.index.classes.flatMap (·.1.methods)).map f = [a]) :
    ∃ m, r.index.classes.flatMap (·.1.methods) = [m] ∧ f m = a :=
  List.map_eq_singleton_iff.1 h

/-- Two methods with one name, of which the first is the endpoint, and one without a verb. -/
theorem first_list_emitted :
    let program : Program := (ProgramFile.parse "items.ts" ("@Route('items') class Items \x7b " ++
      "@Get() list(): string; @Post() list(): number; help(): void; \x7d")).toOption.toList
    let r : Resolver := ⟨.ofProgram program, Mapping.ofSettings .default⟩
    ∃ c file controller t, r.index.classes = [(c, file)] ∧ r.isController c = true ∧
      c.methods.map (fun m => (m.name, r.hasVerb m)) =
        [("list", true), ("list", true), ("help", false)] ∧
      (r.controller c file).run .empty = (.ok controller, t) ∧
      controller.endpoints.map (fun e => (e.name, e.verb)) = [("list", .get)] ∧
      ∀ name, (controller.endpoints.map (·.name)).count name =
        if (c.methods.find? (·.name == name)).any r.hasVerb then 1 else 0 := by
  suffices hfacts : _ from
    let ⟨c, file, controller, t, hclasses, hvalid, hmethods, hrun, hnames⟩ :=
      exists_controller hfacts
    ⟨c, file, controller, t, hclasses, hvalid, hmethods, hrun, hnames,
      first_method_decides _ c file hrun⟩
  decide +kernel

/-- An overload without decorators stands before the method that carries the verb. The class is a
controller and generation succeeds, but there is no endpoint. -/
theorem overload_hides_endpoint :
    let program : Program := (ProgramFile.parse "items.ts" ("@Route('items') class Items \x7b " ++
      "list(): string; @Get() list(): string \x7b return ''; \x7d \x7d")).toOption.toList
    let r : Resolver := ⟨.ofProgram program, Mapping.ofSettings .default⟩
    ∃ c file controller t, r.index.classes = [(c, file)] ∧ r.isController c = true ∧
      c.methods.map (fun m => (m.name, r.hasVerb m)) = [("list", false), ("list", true)] ∧
      (r.controller c file).run .empty = (.ok controller, t) ∧
      controller.endpoints.map (·.name) = [] := by
  suffices hfacts : _ from exists_controller hfacts
  decide +kernel

end Endpoints
