import Endpoints.Endpoint.Controller
import Endpoints.Proofs.Bound
import Endpoints.Proofs.Operation

/-!
# Generation ends with a complete table

The metadata of a program is built in one session: types are resolved for parameters, results,
responses and headers, one after the other, and the first error ends the run. Nothing catches an
error on the way, so a run that builds all controllers is a sequence of steps from the empty context
to one with nothing under construction. Every name that was referred to early then has its entry.
-/

namespace Endpoints

open Resolve

variable {r : Resolver} {α β : Type}

/-- Runs of the computation that succeed are sequences of steps that leave nothing under
construction; the others fail for a reason of their own. -/
structure Settles (x : Resolve α) : Prop where
  leads : ∀ s v t, x.run s = (.ok v, t) → s.context.Leads t.context
  idle : ∀ s v t, x.run s = (.ok v, t) → s.context.inProgress = [] → t.context.inProgress = []
  ordinary : ∀ s e t, x.run s = (.error e, t) → e.fault.Ordinary

namespace Settles

/-- A computation that does not fail and leaves the context as it is. -/
private theorem of_context {x : Resolve α}
    (h : ∀ s, ∃ v t, x.run s = (.ok v, t) ∧ t.context = s.context) :
    Settles x := by
  refine ⟨fun s v t hrun => ?_, fun s v t hrun => ?_, fun s e t hrun => ?_⟩ <;>
    obtain ⟨w, u, hrun', hcontext⟩ := h s <;> rw [hrun'] at hrun <;>
    obtain ⟨hv, rfl⟩ := Prod.mk.inj hrun
  · rw [hcontext]
  · rw [hcontext]
    exact id
  · exact nomatch hv

theorem pure (a : α) : Settles (Pure.pure a : Resolve α) := .of_context fun s => ⟨a, s, rfl, rfl⟩

private theorem context : Settles Resolve.context := .of_context fun s => ⟨s.context, s, rfl, rfl⟩

private theorem warn (warning : Warning) : Settles (Resolve.warn warning) :=
  .of_context fun s => ⟨_, _, run_warn warning s, rfl⟩

theorem fail {fault : Fault} (h : fault.Ordinary) : Settles (Resolve.fail fault : Resolve α) where
  leads _ _ _ hrun := nomatch hrun
  idle _ _ _ hrun := nomatch hrun
  ordinary s e t hrun := by
    obtain ⟨heq, _⟩ := Prod.mk.inj hrun
    exact Except.error.inj heq ▸ h

/-- Computations in sequence settle if each does. -/
theorem bind {x : Resolve α} {f : α → Resolve β} (hx : Settles x) (hf : ∀ a, Settles (f a)) :
    Settles (x >>= f) where
  leads s v t hrun := by
    obtain ⟨a, u, hfirst, hrest⟩ := run_bind_ok.1 hrun
    exact (hx.leads s a u hfirst).trans ((hf a).leads u v t hrest)
  idle s v t hrun hidle := by
    obtain ⟨a, u, hfirst, hrest⟩ := run_bind_ok.1 hrun
    exact (hf a).idle u v t hrest (hx.idle s a u hfirst hidle)
  ordinary s e t hrun := by
    rcases run_bind_error.1 hrun with hfirst | ⟨a, u, _, hrest⟩
    · exact hx.ordinary s e t hfirst
    · exact (hf a).ordinary u e t hrest

theorem map {x : Resolve α} (hx : Settles x) (f : α → β) : Settles (do return f (← x)) :=
  hx.bind fun a => .pure (f a)

/-- Computations for the items of a list settle if each does. -/
private theorem mapM {f : α → Resolve β} {items : List α} (h : ∀ item ∈ items, Settles (f item)) :
    Settles (items.mapM f) := by
  induction items with
  | nil => exact .pure []
  | cons item items ih =>
    rw [List.mapM_cons]
    refine (h item List.mem_cons_self).bind fun a => ?_
    exact (ih fun other ho => h other (List.mem_cons_of_mem _ ho)).map (a :: ·)

theorem inside {x : Resolve α} (h : Settles x) (place : Place) : Settles (.inside place x) where
  leads s v t hrun := h.leads s v t (run_inside_ok.1 hrun)
  idle s v t hrun := h.idle s v t (run_inside_ok.1 hrun)
  ordinary s e t hrun := by
    obtain ⟨cause, hx, rfl⟩ := run_inside_error.1 hrun
    exact h.ordinary s cause t hx

end Settles

namespace Resolver

private theorem resolve_settles (r : Resolver) (type : TypeExpr) (hints : Hints) :
    Settles (r.resolve type hints) where
  leads _ _ _ := leads_of_run
  idle s _ t hrun := (resolve_tracks type hints ∅ s _ t hrun).advances.idle
  ordinary _ _ _ := resolve_ordinary

/-! ## Parameters and responses -/

private theorem resolve?_settles (r : Resolver) (type? : Option TypeExpr) :
    Settles (r.resolve? type?) := by
  cases type? with
  | none => exact .pure none
  | some type => exact (r.resolve_settles type .none).map some

private theorem responses_settles (r : Resolver) (decorators : List Decorator) :
    Settles (r.responses decorators) := by
  unfold responses
  split
  · refine .mapM fun d _ => ?_
    exact (r.resolve?_settles _).bind fun _ => (r.resolve?_settles _).map _
  · exact .pure []

variable (r : Resolver) (head : EndpointHead) (p : ParameterDecl)

private theorem parameterType_settles : Settles (r.parameterType head p) := by
  unfold parameterType
  split
  · exact r.resolve_settles _ _
  · exact (Settles.warn _).bind fun _ => .pure _

omit r in
private theorem requireBodyVerb_settles (kind : String) :
    Settles (requireBodyVerb head p kind) := by
  unfold requireBodyVerb
  split
  · exact .pure ()
  · exact .fail (by simp)

private theorem queryParameter_settles (name : String) (found : Option RoleMatch) :
    Settles (r.queryParameter head p name found) := by
  refine (r.parameterType_settles head p).bind fun type => ?_
  split
  · exact .fail (by simp)
  · exact .pure _

private theorem simpleParameter_settles (name : String) (location : Location) :
    Settles (r.simpleParameter head p name location) := by
  refine (r.parameterType_settles head p).bind fun type => Settles.context.bind fun c => ?_
  split
  · exact .pure _
  · exact .fail (by simp)

private theorem pathParameter_settles (name : String) : Settles (r.pathParameter head p name) := by
  have hrest := (r.parameterType_settles head p).map (plainParameter head p name .path)
  unfold pathParameter
  split
  · exact (Settles.fail (by simp)).bind fun _ => hrest
  · exact hrest

/-- Wherever a parameter stands, its type is resolved once or not at all. -/
private theorem parameter_settles : Settles (r.parameter head p) := by
  have htype (name : String) (location : Location) :=
    (r.parameterType_settles head p).map (plainParameter head p name location)
  -- Form fields, files and bodies need a verb that sends a body.
  have hbody (kind : String) {x : Resolve Parameter} (hx : Settles x) :=
    (requireBodyVerb_settles head p kind).bind fun _ => hx
  unfold parameter
  dsimp only
  -- One case for each role of a parameter, in the order of the definition.
  split
  · exact .pure _
  · exact htype _ _
  · exact r.queryParameter_settles head p _ _
  · exact hbody _ (htype _ _)
  · exact r.simpleParameter_settles head p _ _
  · exact r.simpleParameter_settles head p _ _
  · exact r.pathParameter_settles head p _
  · exact hbody _ (.pure _)
  · exact hbody _ (.pure _)
  · exact hbody _ (htype _ _)

/-- What is wrong with several bodies is a fault of its own. -/
private theorem bodyFault?_ordinary {parameters : List Parameter} {fault : Fault}
    (h : bodyFault? parameters = some fault) : fault.Ordinary := by
  unfold bodyFault? at h
  dsimp only at h
  split at h
  · exact Option.some.inj h ▸ by simp
  · split at h
    · exact Option.some.inj h ▸ by simp
    · exact nomatch h

private theorem parameters_settles : Settles (r.parameters head) := by
  refine (Settles.mapM fun p _ => (r.parameter_settles head p).inside _).bind fun parameters => ?_
  split
  · next fault hfault => exact .fail (bodyFault?_ordinary hfault)
  · exact .pure parameters

/-! ## Endpoints and controllers -/

variable (controller controllerPath : String) (m : MethodDecl)

private theorem returnSchema_settles (scope : Scope) :
    Settles (r.returnSchema controller m scope) := by
  unfold returnSchema
  split
  · exact r.resolve_settles _ _
  · split
    · exact (Settles.warn _).bind fun _ => .pure _
    · exact .pure _

private theorem endpointOf_settles (verb : Verb) (found : RoleMatch) :
    Settles (r.endpointOf controller controllerPath m verb found) :=
  (r.returnSchema_settles controller m _).bind fun _ =>
    (r.parameters_settles _).bind fun _ => (r.responses_settles _).map _

private theorem verb?_settles : Settles (ofExcept (r.verb? m)) := by
  unfold verb?
  dsimp only
  split
  · exact .pure _
  · exact .pure _
  · exact .fail (by simp)

private theorem endpoint?_settles : Settles (r.endpoint? controller controllerPath m) := by
  refine Settles.inside ((r.verb?_settles m).bind fun verb? => ?_) _
  split
  · exact (r.endpointOf_settles controller controllerPath m _ _).map some
  · exact .pure none

theorem controllers_settles : Settles r.controllers := by
  refine .mapM fun ⟨c, file⟩ _ => ?_
  exact (Settles.mapM fun m _ => r.endpoint?_settles c.name _ m).bind fun _ =>
    ((r.responses_settles c.decorators).inside _).map _

end Resolver

/-! ## Metadata -/

/-- A run never ends with an unfinished reference. Whatever the program and the mapping, the error
of a run is another one; and if all controllers are built, then every name that was referred to
early has its entry, so that the run ends with the controllers and the table. -/
theorem unfinished_reference_unreachable (program : Program) (mapping : Mapping) :
    let r : Resolver := ⟨.ofProgram program, mapping⟩
    let result := (Metadata.ofProgram program mapping).1
    (∀ e name, result = .error e → e.fault ≠ .unfinishedReference name) ∧
    ∀ controllers t, r.controllers.run .empty = (.ok controllers, t) →
      (∀ name ∈ t.context.deferred, (t.context.reference? name).isSome) ∧
      result = .ok ⟨controllers, t.context.table⟩ := by
  intro r result
  have hsettles := r.controllers_settles
  have hresult : result = ((Metadata.build program mapping).run .empty).1 := rfl
  unfold Metadata.build at hresult
  rcases hrun : r.controllers.run .empty with ⟨e | controllers, t⟩
  · -- A controller was refused, and that is the error of the run.
    rw [run_bind_of_error hrun] at hresult
    refine ⟨fun e' name he' => ?_, fun _ _ hok => nomatch hok⟩
    obtain rfl := Except.error.inj (hresult.symm.trans he')
    exact (hsettles.ordinary _ _ _ hrun).2 name
  · -- All controllers are built, so the context is idle and has been reached by steps.
    have hok := (hsettles.leads _ _ _ hrun).finish_eq (hsettles.idle _ _ _ hrun rfl)
    have hend : result = .ok ⟨controllers, t.context.table⟩ := by
      rw [hresult, run_bind_of_ok hrun, run_bind_of_ok (run_context t), hok]
      rfl
    refine ⟨fun e name he => (nomatch hend.symm.trans he), fun controllers' t' heq => ?_⟩
    obtain ⟨hcontrollers, rfl⟩ := Prod.mk.inj heq
    obtain rfl := Except.ok.inj hcontrollers
    exact ⟨(Context.finish_eq_ok.1 hok).2, hend⟩

/-- A controller whose result refers to itself. -/
theorem self_reference_finished :
    let program : Program := (ProgramFile.parse "users.ts"
      ("@Route('users') class Users { @Get() all(): User[] {} }\n" ++
        "interface User { friends: User[] }")).toOption.toList
    let mapping := Mapping.ofSettings .default
    let r : Resolver := ⟨.ofProgram program, mapping⟩
    let t := (r.controllers.run .empty).2
    ∃ controllers, controllers.map (·.name) = ["Users"] ∧ t.context.deferred = ["User"] ∧
      r.controllers.run .empty = (.ok controllers, t) ∧ (t.context.reference? "User").isSome ∧
      (Metadata.ofProgram program mapping).1 = .ok ⟨controllers, t.context.table⟩ := by
  intro program mapping r t
  have hfacts : (r.controllers.run .empty).1.toOption.map (·.map (·.name)) = some ["Users"] ∧
      t.context.deferred = ["User"] := by decide +kernel
  obtain ⟨hnames, hdeferred⟩ := hfacts
  -- The run did not fail, since it gave the names of the controllers.
  rcases hrun : r.controllers.run .empty with ⟨e | controllers, u⟩
  · rw [hrun] at hnames
    exact nomatch hnames
  · obtain rfl : t = u := congrArg Prod.snd hrun
    rw [hrun] at hnames
    obtain ⟨hfinished, hresult⟩ := (unfinished_reference_unreachable program mapping).2 _ _ hrun
    exact ⟨controllers, Option.some.inj hnames, hdeferred, rfl,
      hfinished "User" (by simp [hdeferred]), hresult⟩

end Endpoints
