import Endpoints.Proofs.Simulation
import Mathlib.Logic.Relation

/-!
# Operations of a run on its context

A run changes its context by a few operations only. `Context.Reachable` says of a context that the
operations can make it at all, in whatever order. A run that succeeds is more orderly: it gives up
no construction, and it only defers names that are under construction. `Context.Step` is one
operation of such a run and `Context.Leads` a sequence of them; what each step keeps, every run
keeps.
-/

namespace Endpoints

namespace Context

variable {c c' c'' : Context} {name : String} {type : ReferenceType}

/-- The contexts that operations make from the empty one. -/
inductive Reachable : Context → Prop
  | empty : Reachable .empty
  | claim {c c' : Context} {name origin : String} : Reachable c → c.claim name origin = .ok c' →
      Reachable c'
  | start {c : Context} (name : String) : Reachable c → Reachable (c.start name)
  | abandon {c : Context} (name : String) : Reachable c → Reachable (c.abandon name)
  | defer {c : Context} (name : String) : Reachable c → Reachable (c.defer name)
  | complete {c : Context} (type : ReferenceType) : Reachable c → Reachable (c.complete type)

/-- Every entry stands under its own name. -/
theorem Reachable.name_eq (h : c.Reachable) (htype : c.reference? name = some type) :
    type.name = name := by
  induction h with
  | empty => exact nomatch htype
  | claim _ hclaim ih => exact ih (reference?_claim hclaim ▸ htype)
  | start | abandon | defer =>
    rename_i ih
    exact ih (by simpa using htype)
  | complete new _ ih =>
    rw [reference?_complete] at htype
    split at htype
    · next heq => exact Option.some.inj htype ▸ heq.symm
    · exact ih htype

/-! ## Runs that succeed -/

/-- One operation of a run that succeeds. -/
inductive Step : Context → Context → Prop
  | claim {c c' : Context} {name origin : String} : c.claim name origin = .ok c' → Step c c'
  | start {c : Context} {name : String} : name ∉ c.inProgress → c.depth < maxDepth →
      Step c (c.start name)
  | defer {c : Context} {name : String} : name ∈ c.inProgress → Step c (c.defer name)
  | complete {c : Context} (type : ReferenceType) : Step c (c.complete type)

/-- Operations of runs that succeed lead from one context to the other. -/
abbrev Leads : Context → Context → Prop := Relation.ReflTransGen Step

private theorem Step.leads (h : c.Step c') : c.Leads c' := .single h

private theorem Step.reachable (h : c.Step c') (hc : c.Reachable) : c'.Reachable := by
  cases h with
  | claim hclaim => exact hc.claim hclaim
  | start => exact hc.start _
  | defer => exact hc.defer _
  | complete type => exact hc.complete type

theorem Leads.reachable (h : c.Leads c') (hc : c.Reachable) : c'.Reachable := by
  induction h with
  | refl => exact hc
  | tail _ hstep ih => exact hstep.reachable ih

theorem Step.keeps (h : c.Step c') : c.Keeps c' := by
  cases h with
  | claim hclaim => exact .claim hclaim
  | start => exact .start c _
  | defer => exact .defer c _
  | complete type => exact .complete c type

theorem Leads.keeps (h : c.Leads c') : c.Keeps c' := by
  induction h with
  | refl => exact .refl c
  | tail _ hstep ih => exact ih.trans hstep.keeps

/-- Every name that was referred to early has an entry or is under construction. -/
def Awaits (c : Context) : Prop :=
  ∀ name ∈ c.deferred, (c.reference? name).isSome ∨ name ∈ c.inProgress

theorem awaits_empty : Awaits .empty := fun _ h => nomatch h

/-- A step keeps `Context.Awaits`. -/
theorem Step.awaits (h : c.Step c') (hc : c.Awaits) : c'.Awaits := by
  intro name hname
  cases h with
  | claim hclaim =>
    rw [deferred_claim hclaim] at hname
    rw [reference?_claim hclaim, inProgress_claim hclaim]
    exact hc name hname
  | start hnew =>
    rw [deferred_start] at hname
    rw [reference?_start, inProgress_start (by simpa [isInProgress] using hnew)]
    exact (hc name hname).imp_right (List.mem_cons_of_mem _)
  | defer hmem =>
    rcases List.mem_append.1 hname with hname | hname
    · exact hc name hname
    · obtain rfl := List.mem_singleton.1 hname
      exact .inr hmem
  | complete type =>
    -- The name that is finished leaves the construction and gets an entry.
    by_cases heq : name = type.name
    · exact .inl (by simp [heq])
    · rw [reference?_complete, if_neg heq, inProgress_complete]
      refine (hc name hname).imp_right fun hmem => List.mem_filter.2 ⟨hmem, ?_⟩
      simpa using heq

theorem Leads.awaits (h : c.Leads c') (hc : c.Awaits) : c'.Awaits := by
  induction h with
  | refl => exact hc
  | tail _ hstep ih => exact hstep.awaits ih

theorem Leads.finish_eq (h : Leads .empty c) (hidle : c.inProgress = []) :
    c.finish = .ok c.table := by
  refine finish_eq_ok.2 ⟨rfl, fun name hname => ?_⟩
  exact (h.awaits awaits_empty name hname).resolve_right (by simp [hidle])

end Context

/-! ## Resolution -/

variable {r : Resolver} {A : Set Handle} {α β : Type}

/-- Runs of the computation that succeed are sequences of steps. -/
def Proceeds (A : Set Handle) (Q : Set Handle → α → Prop) (x : Resolve α) : Prop :=
  ∀ s v t, x.run s = (.ok v, t) → s.context.Leads t.context ∧ ∃ B, A ⊆ B ∧ Q B v

namespace Proceeds

variable {Q : Set Handle → α → Prop}

theorem pure {a : α} (h : Q A a) : Proceeds A Q (Pure.pure a : Resolve α) := by
  intro s v t hrun
  obtain ⟨hv, rfl⟩ := Prod.mk.inj hrun
  exact ⟨.refl, A, subset_rfl, Except.ok.inj hv ▸ h⟩

/-- Sequences of computations are sequences of steps. -/
theorem bind {R : Set Handle → β → Prop} {x : Resolve α} {f : α → Resolve β}
    (hx : Proceeds A Q x) (hf : ∀ B, A ⊆ B → ∀ a, Q B a → Proceeds B R (f a)) :
    Proceeds A R (x >>= f) := by
  intro s v t hrun
  obtain ⟨a, u, hfirst, hrest⟩ := Resolve.run_bind_ok.1 hrun
  obtain ⟨hleads, B, hAB, ha⟩ := hx s a u hfirst
  obtain ⟨hleads', D, hBD, hv⟩ := hf B hAB a ha u v t hrest
  exact ⟨hleads.trans hleads', D, hAB.trans hBD, hv⟩

theorem fail {fault : Fault} : Proceeds A Q (Resolve.fail fault : Resolve α) :=
  fun _ _ _ hrun => nomatch hrun

theorem inside {place : Place} {x : Resolve α} (h : Proceeds A Q x) :
    Proceeds A Q (.inside place x) :=
  fun s v t hrun => h s v t (Resolve.run_inside_ok.1 hrun)

private theorem of_context {x : Resolve α} (hall : ∀ v, Q Set.univ v)
    (h : ∀ s v t, x.run s = (.ok v, t) → t.context = s.context) : Proceeds A Q x := by
  intro s v t hrun
  rw [h s v t hrun]
  exact ⟨.refl, Set.univ, Set.subset_univ A, hall v⟩

/-- The use of a name, where its construction is a sequence of steps. -/
theorem useName {i : Instantiation} {construct : Resolve ReferenceType}
    (h : Proceeds A i.IsEntry construct) :
    Proceeds A Schema.Within (Resolver.useName i.name i.location i.referent construct) := by
  intro s v t hrun
  refine ⟨?_, Set.univ, Set.subset_univ A, v.within_univ⟩
  generalize ho : (Except.ok v : Except Error Schema) = o at hrun
  cases Resolver.useOutcome_iff.1 hrun with
  | refused | tooDeep | failed => exact nomatch ho
  | known hclaim => exact (Context.Step.claim hclaim).leads
  | deferred hclaim _ hmem =>
    exact (Context.Step.claim hclaim).leads.trans (Context.Step.defer hmem).leads
  | @built c type u hclaim _ hnew hdepth hconstruct =>
    -- The steps of the construction stand between the start of the name and its entry.
    have hstart := (Context.Step.claim hclaim).leads.trans (Context.Step.start hnew hdepth).leads
    exact (hstart.trans (h _ _ _ hconstruct).1).trans (Context.Step.complete type).leads

/-- The use of an enum. -/
theorem enumReference {i : Instantiation} {d : EnumDecl}
    (hd : i.declaration.declaration = .ofEnum d) :
    Proceeds A Schema.Within (Resolver.enumReference i.declaration d) := by
  intro s v t hrun
  refine ⟨?_, Set.univ, Set.subset_univ A, v.within_univ⟩
  generalize ho : (Except.ok v : Except Error Schema) = o at hrun
  cases (Resolver.run_enumReference_iff hd).1 hrun with
  | refused => exact nomatch ho
  | known hclaim => exact (Context.Step.claim hclaim).leads
  | built hclaim =>
    exact (Context.Step.claim hclaim).leads.trans (Context.Step.complete _).leads

end Proceeds

def proceedComposition : Composition Resolve Resolve where
  Rel A Q _ y := Proceeds A Q y
  rel_pure := .pure
  rel_bind := .bind
  formed := Schema.formed_within

/-- Resolution proceeds by steps if it does so for the parts of types. -/
theorem proceedSimulation (p : Parts Resolve) : proceedComposition.Simulation p p where
  rel_fail _ := .fail
  rel_inside := .inside
  rel_warn A warning := .of_context (fun _ => trivial) fun s v t hrun => by
    obtain ⟨_, rfl⟩ := Prod.mk.inj hrun
    rfl
  rel_shapeOf A schema _ := .of_context ObjectShape.within_univ fun s v t hrun => by
    rw [(Resolve.run_shapeOf_ok.1 hrun).2]
  rel_union A members hints h := by
    refine .bind (proceedComposition.rel_resolveAll (A := A) h) fun B _ schemas _ => ?_
    refine .of_context Schema.within_univ fun s v t hrun => ?_
    obtain ⟨_, rfl⟩ := Prod.mk.inj hrun
    rfl

namespace Resolver

/-- Resolution with any bound proceeds by steps. -/
theorem resolveWithin_proceeds (r : Resolver) (bound : Nat) (type : TypeExpr) (A : Set Handle)
    (hints : Hints) : Proceeds A Schema.Within (r.resolveWithin bound type hints) := by
  rw [← Region.all_resolveWithin]
  refine proceedComposition.resolves_of_same (fun _ _ _ _ _ => trivial)
    (fun _ _ => Schema.within_intersectionSchema_nil) (fun _ => proceedSimulation _)
    (fun _ _ _ => .fail) ?_ ?_ bound type A hints
  · exact fun i d _ hd A => .enumReference hd
  · exact fun n i _ _ A hconstruct => .useName hconstruct

theorem leads_of_run {type : TypeExpr} {hints : Hints} {s t : Session} {v : Schema}
    (h : (r.resolve type hints).run s = (.ok v, t)) : s.context.Leads t.context :=
  (r.resolveWithin_proceeds _ type ∅ hints s v t h).1

end Resolver

end Endpoints
