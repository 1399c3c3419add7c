import Endpoints.Proofs.Bound
import Endpoints.Proofs.Confine

/-!
# What types are refused for

A type can be refused for what it is, or for what it is used for: a query or a header may not carry
it. Resolution knows nothing of uses. If it fails, then for a reason that lies in the type
itself or in a declaration that is resolved for it.
-/

namespace Endpoints

variable {P : Instantiation → Prop} {Missing : String → Prop} {A : Set Handle} {α β : Type}

/-- A computation that fails for reasons that lie in types, unless it comes to a bound. A name that
it finds to stand for nothing is one of those that are missing. -/
structure RefusesTypes (P : Instantiation → Prop) (Missing : String → Prop) (A : Set Handle)
    (Q : Set Handle → α → Prop) (x : Resolve α) : Prop where
  tracks : Tracks P A Q x
  fault : ∀ s e t, x.run s = (.error e, t) → e.fault.Ordinary → e.fault.Raised Missing

namespace RefusesTypes

variable {Q : Set Handle → α → Prop}

private theorem of_ok {x : Resolve α} (h : Tracks P A Q x)
    (hok : ∀ s e t, x.run s ≠ (.error e, t)) : RefusesTypes P Missing A Q x :=
  ⟨h, fun s e t hrun => absurd hrun (hok s e t)⟩

theorem pure {a : α} (h : Q A a) : RefusesTypes P Missing A Q (Pure.pure a : Resolve α) :=
  .of_ok (.pure h) fun _ _ _ hrun => by cases hrun

theorem fail {fault : Fault} (h : fault.Ordinary → fault.Raised Missing) :
    RefusesTypes P Missing A Q (Resolve.fail fault : Resolve α) := by
  refine ⟨.fail, fun s e t hrun => ?_⟩
  obtain ⟨he, _⟩ := Prod.mk.inj hrun
  rw [← Except.error.inj he]
  exact h

/-- The first part fails, or the second one does after it. -/
theorem bind {R : Set Handle → β → Prop} {x : Resolve α} {f : α → Resolve β}
    (hx : RefusesTypes P Missing A Q x)
    (hf : ∀ B, A ⊆ B → ∀ a, Q B a → RefusesTypes P Missing B R (f a)) :
    RefusesTypes P Missing A R (x >>= f) := by
  refine ⟨hx.tracks.bind fun B hB a ha => (hf B hB a ha).tracks, fun s e t hrun => ?_⟩
  -- The fault is that of the part that fails.
  rcases hfirst : x.run s with ⟨e' | a, u⟩
  · rw [Resolve.run_bind_of_error hfirst] at hrun
    obtain ⟨he, _⟩ := Prod.mk.inj hrun
    rw [← Except.error.inj he]
    exact hx.fault s e' u hfirst
  · rw [Resolve.run_bind_of_ok hfirst] at hrun
    obtain ⟨B, hB, ha, _⟩ := (hx.tracks s _ _ hfirst).value a rfl
    exact (hf B hB a ha).fault u e t hrun

theorem inside {place : Place} {x : Resolve α} (h : RefusesTypes P Missing A Q x) :
    RefusesTypes P Missing A Q (.inside place x) := by
  refine ⟨h.tracks.inside, fun s e t hrun => ?_⟩
  obtain ⟨cause, hcause, rfl⟩ := Resolve.run_inside_error.1 hrun
  exact h.fault s cause t hcause

/-- The use of a name fails if another place has claimed it, or with its construction. -/
theorem useName {i : Instantiation} {construct : Resolve ReferenceType} (hi : P i)
    (hreferent : i.referent ≠ .enum) (h : RefusesTypes P Missing A i.IsEntry construct) :
    RefusesTypes P Missing A Schema.Within
      (Resolver.useName i.name i.location i.referent construct) := by
  refine ⟨.useName hi hreferent h.tracks, fun s e t hrun => ?_⟩
  generalize ho : (Except.error e : Except Error Schema) = o at hrun
  cases Resolver.useOutcome_iff.1 hrun with
  | known | deferred | built => cases ho
  -- The claim fails only on a name that is in use for another place.
  | refused hclaim =>
    rw [Except.error.inj ho]
    exact fun _ => Context.raised_of_claim hclaim Missing
  -- Too deep a nesting is no fault of a type.
  | tooDeep =>
    rw [Except.error.inj ho]
    simp [Error.ofFault]
  | failed _ _ _ _ hconstruct =>
    rw [Except.error.inj ho]
    exact h.fault _ _ _ hconstruct

/-- The use of an enum fails only if another place has claimed its name. -/
theorem enumReference {i : Instantiation} {d : EnumDecl} (hi : P i)
    (hd : i.declaration.declaration = .ofEnum d) :
    RefusesTypes P Missing A Schema.Within (Resolver.enumReference i.declaration d) := by
  refine ⟨.enumReference hi hd, fun s e t hrun => ?_⟩
  generalize ho : (Except.error e : Except Error Schema) = o at hrun
  cases (Resolver.run_enumReference_iff hd).1 hrun with
  | known | built => cases ho
  | refused hclaim =>
    rw [Except.error.inj ho]
    exact fun _ => Context.raised_of_claim hclaim Missing

end RefusesTypes

def refusalComposition (P : Instantiation → Prop) (Missing : String → Prop) :
    Composition Resolve Resolve where
  Rel A Q _ y := RefusesTypes P Missing A Q y
  rel_pure := .pure
  rel_bind := .bind
  Missing := Missing
  formed := Schema.formed_within

/-- The steps of resolution add only reasons that lie in types. -/
private theorem refusalSimulation (P : Instantiation → Prop) (Missing : String → Prop)
    (p : Parts Resolve) :
    (refusalComposition P Missing).Simulation p p where
  rel_fail h := .fail fun _ => h
  rel_inside := .inside
  rel_warn A warning :=
    .of_ok ((trackSimulation P p).rel_warn A warning) fun _ _ _ hrun => by cases hrun
  rel_shapeOf A schema hs := by
    refine ⟨(trackSimulation P p).rel_shapeOf A schema hs, fun s e t hrun _ => ?_⟩
    rw [Resolve.run_shapeOf] at hrun
    -- A type without a shape is refused for what it is.
    cases hshape : s.context.shapeOf schema with
    | ok shape =>
      rw [hshape] at hrun
      cases hrun
    | error fault =>
      rw [hshape] at hrun
      obtain ⟨he, _⟩ := Prod.mk.inj hrun
      rw [← Except.error.inj he]
      exact Context.shapeOf_raised hshape Missing
  rel_union A members hints h := by
    refine .bind ((refusalComposition P Missing).rel_resolveAll (A := A) h)
      fun B _ schemas ⟨_, hschemas⟩ => ?_
    exact .of_ok (.toSchema hschemas) fun _ _ _ hrun => by cases hrun

variable {r : Resolver}

/-- Resolution in a region finds only names missing that the region refers to. -/
private theorem Region.resolveWithin_refusesTypes {E : Region r}
    (hmissing : ∀ name arguments, E.Contains (.reference name arguments) →
      r.index.find name = [] → r.enumMember? name = none → Missing name)
    (bound : Nat) (type : TypeExpr) (A : Set Handle) (hints : Hints) :
    RefusesTypes E.Uses Missing A Schema.Within (E.resolveWithin bound type hints) := by
  refine (refusalComposition E.Uses Missing).resolves_of_same hmissing
    (fun _ _ => Schema.within_intersectionSchema_nil) (fun _ => refusalSimulation E.Uses Missing _)
    ?_ ?_ ?_ bound type A hints
  · -- A bound that is used up is no ordinary fault.
    exact fun _ _ _ => .fail fun h => absurd rfl h.1
  · exact fun i d hi hd A => .enumReference hi hd
  · exact fun n i hi hreferent A hconstruct => .useName hi hreferent hconstruct

namespace Resolver

/-- Resolution fails with faults of types only. A name that it finds to stand for nothing is neither
declared nor a member of an enum, and the type leads to a reference to it. -/
theorem resolve_raised {type : TypeExpr} {hints : Hints} {s t : Session} {e : Error}
    (h : (r.resolve type hints).run s = (.error e, t)) :
    e.fault.Raised fun name => ∃ arguments, r.Reaches [type] (.reference name arguments) ∧
      r.index.find name = [] ∧ r.enumMember? name = none := by
  -- Within the region of the type, every reference that is resolved is one that the type leads to.
  have hconfined : ((Region.ofTypes r [type]).resolve type hints).run s = (.error e, t) := by
    rw [Region.ofTypes_resolve (List.mem_singleton_self type), h]
  refine (Region.resolveWithin_refusesTypes ?_ _ type ∅ hints).fault s e t hconfined
    (resolve_ordinary h)
  exact fun name arguments hcontains hfind hmember => ⟨arguments, hcontains, hfind, hmember⟩

theorem resolve_ofType {type : TypeExpr} {hints : Hints} {s t : Session} {e : Error}
    (h : (r.resolve type hints).run s = (.error e, t)) : e.fault.OfType :=
  (resolve_raised h).1

end Resolver

end Endpoints
