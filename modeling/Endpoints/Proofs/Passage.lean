import Endpoints.Proofs.History
import Endpoints.Proofs.Trace

/-!
# Contexts on the way of a run

A run starts constructions inside each other and ends each of them in one of several ways, with an
entry or with an error. At its end the context has advanced, whatever happened; on its way it has
advanced and gone into constructions. What holds between the context at the start of a run and every
context on its way is said once, for all relations that these two respect (`Context.Persistent`).

None of this depends on how shapes are read from a context.
-/

namespace Endpoints

open Traced

/-- Whether the context is changed to one with as many names under construction as there may be. -/
def Event.isFull : Event → Bool
  | .change c => c.inProgress.length == maxDepth
  | .call _ _ => false

variable {r : Resolver} {P : Context → Context → Prop}

/-! ## Persistent relations -/

namespace Context

/-- A context is related to those that it advances to, and to the inside of a construction that is
started in it. -/
structure Persistent (r : Resolver) (P : Context → Context → Prop) : Prop where
  of_advances : ∀ {c c' : Context}, c.Advances r.Known c' → P c c'
  trans : ∀ {c₁ c₂ c₃ : Context}, P c₁ c₂ → P c₂ c₃ → P c₁ c₃
  start : ∀ {c : Context} {name : String}, name ∉ c.inProgress → c.depth < maxDepth →
    P c (c.start name)

private theorem persistent_depth (r : Resolver) :
    Persistent r fun c c' => c.depth ≤ maxDepth → c'.depth ≤ maxDepth where
  of_advances h hc := h.sublist.length_le.trans hc
  trans h h' := h' ∘ h
  start hnew hdepth _ := by
    rw [depth, inProgress_start (by simpa [isInProgress] using hnew)]
    exact hdepth

theorem persistent_grows (r : Resolver) : Persistent r Grows where
  of_advances h := h.toGrows
  trans := .trans
  start _ _ := .start _ _

end Context

/-! ## Runs -/

variable {shapes : Shapes} {A : Set Handle} {α β : Type}

/-- The context has advanced at the end of a run, and is related to all contexts on its way. -/
structure Along (r : Resolver) (P : Context → Context → Prop) (c : Context)
    (run : (Except Error α × Session) × List Event) : Prop where
  ends : c.Advances r.Known run.1.2.context
  passes : ∀ c', .change c' ∈ run.2 → P c c'

namespace Along

variable {c c' : Context} {o : Except Error α} {t : Session} {events : List Event}

private theorem of_silent (h : c.Advances r.Known t.context) : Along r P c ((o, t), []) :=
  ⟨h, fun _ hc => nomatch hc⟩

theorem cons (h : P c c') (hrun : Along r P c ((o, t), events)) :
    Along r P c ((o, t), .change c' :: events) := by
  refine ⟨hrun.ends, fun d hd => ?_⟩
  rcases List.mem_cons.1 hd with heq | hd
  · exact Event.change.inj heq ▸ h
  · exact hrun.passes d hd

theorem append {o' : Except Error β} {u : Session} {later : List Event}
    (hrun : Along r P c ((o, t), events)) (hrest : Along r P c ((o', u), later)) :
    Along r P c ((o', u), events ++ later) := by
  refine ⟨hrest.ends, fun d hd => ?_⟩
  rcases List.mem_append.1 hd with hd | hd
  · exact hrun.passes d hd
  · exact hrest.passes d hd

theorem trans {run : (Except Error α × Session) × List Event} (hP : Context.Persistent r P)
    (h : c.Advances r.Known c') (hrun : Along r P c' run) : Along r P c run :=
  ⟨h.trans hrun.ends, fun d hd => hP.trans (hP.of_advances h) (hrun.passes d hd)⟩

/-- A construction, whose run ends inside it: `t` is the session after it. -/
private theorem construction {name : String} {run : (Except Error β × Session) × List Event}
    (hP : Context.Persistent r P) (hnew : name ∉ c.inProgress) (hdepth : c.depth < maxDepth)
    (hrun : Along r P (c.start name) run) (hend : c.Advances r.Known t.context) :
    Along r P c ((o, t), .change (c.start name) :: run.2 ++ [.change t.context]) := by
  have hstart : P c (c.start name) := hP.start hnew hdepth
  refine ⟨hend, fun d hd => ?_⟩
  rw [List.mem_append, List.mem_cons, List.mem_singleton] at hd
  rcases hd with (hd | hd) | hd
  · exact Event.change.inj hd ▸ hstart
  · exact hP.trans hstart (hrun.passes d hd)
  · exact Event.change.inj hd ▸ hP.of_advances hend

end Along

/-- All runs of the computation go along the relation, and their values satisfy `Q`. -/
structure Passes (r : Resolver) (P : Context → Context → Prop) (A : Set Handle)
    (Q : Set Handle → α → Prop) (x : Traced shapes α) : Prop where
  along : ∀ s, Along r P s.context (x.run s)
  value : ∀ s v t events, x.run s = ((.ok v, t), events) → ∃ B, A ⊆ B ∧ Q B v

namespace Passes

variable {Q : Set Handle → α → Prop} {x : Traced shapes α}

/-- A run without events goes nowhere. -/
private theorem of_silent (hrun : ∀ s, ∃ o t, x.run s = ((o, t), []) ∧ t.context = s.context ∧
      ∀ v, o = .ok v → ∃ B, A ⊆ B ∧ Q B v) : Passes r P A Q x where
  along s := by
    obtain ⟨o, t, heq, hcontext, _⟩ := hrun s
    rw [heq]
    exact .of_silent (hcontext ▸ .refl _)
  value s v t events heq := by
    obtain ⟨o, u, hrun, _, hvalue⟩ := hrun s
    rw [hrun] at heq
    exact hvalue v (congrArg (·.1.1) heq)

theorem pure {a : α} (h : Q A a) : Passes r P A Q (Pure.pure a : Traced shapes α) :=
  .of_silent fun s => ⟨.ok a, s, rfl, rfl, fun _ hv => ⟨A, subset_rfl, Except.ok.inj hv ▸ h⟩⟩

theorem fail {fault : Fault} : Passes r P A Q (Resolve.fail fault : Traced shapes α) :=
  .of_silent fun s => ⟨_, s, rfl, rfl, fun _ hv => nomatch hv⟩

theorem read (hall : ∀ v, Q Set.univ v)
    (hrun : ∀ s, ∃ o t, x.run s = ((o, t), []) ∧ t.context = s.context) : Passes r P A Q x := by
  refine .of_silent fun s => ?_
  obtain ⟨o, t, heq, hcontext⟩ := hrun s
  exact ⟨o, t, heq, hcontext, fun v _ => ⟨Set.univ, Set.subset_univ A, hall v⟩⟩

theorem shapeOf (schema : Schema) :
    Passes r P A ObjectShape.Within (Resolve.shapeOf schema : Traced shapes ObjectShape) := by
  refine .read ObjectShape.within_univ fun s => ?_
  rw [run_shapeOf]
  cases shapes s.context schema <;> exact ⟨_, _, rfl, rfl⟩

/-- A place is added to errors only. -/
theorem inside {place : Place} (h : Passes r P A Q x) :
    Passes r P A Q (Resolve.inside place x) where
  along s := by
    have halong := h.along s
    rw [run_inside]
    rcases hrun : x.run s with ⟨⟨e | a, t⟩, events⟩ <;> rw [hrun] at halong <;>
      exact ⟨halong.ends, halong.passes⟩
  value s v t events heq := by
    rw [run_inside] at heq
    rcases hrun : x.run s with ⟨⟨e | a, u⟩, events'⟩ <;> rw [hrun] at heq
    · exact nomatch heq
    · exact h.value s v t events (hrun.trans heq)

/-- A call is noted, which is no change. -/
theorem call (h : Passes r P A Q x) (type : TypeExpr) (hints : Hints) :
    Passes r P A Q (Traced.call type hints >>= fun _ => x) where
  along s := by
    refine ⟨(h.along s).ends, fun c hc => ?_⟩
    rcases List.mem_cons.1 hc with heq | hc
    · exact nomatch heq
    · exact (h.along s).passes c hc
  value s v t events heq := h.value s v t _ (Prod.ext (congrArg (·.1) heq) rfl)

variable (hP : Context.Persistent r P)
include hP

/-- Runs in sequence: what the first part has led to advances further. -/
theorem bind {R : Set Handle → β → Prop} {f : α → Traced shapes β} (hx : Passes r P A Q x)
    (hf : ∀ B, A ⊆ B → ∀ a, Q B a → Passes r P B R (f a)) : Passes r P A R (x >>= f) where
  along s := by
    have hfirst := hx.along s
    rcases hrun : x.run s with ⟨⟨e | a, t⟩, events⟩ <;> rw [hrun] at hfirst
    · rw [run_bind_of_error hrun]
      exact ⟨hfirst.ends, hfirst.passes⟩
    · obtain ⟨B, hB, ha⟩ := hx.value s a t events hrun
      rw [run_bind_of_ok hrun]
      -- The contexts of the second part come after all of the first.
      exact hfirst.append (.trans hP hfirst.ends ((hf B hB a ha).along t))
  value s v t events heq := by
    rcases hrun : x.run s with ⟨⟨e | a, u⟩, earlier⟩
    · exact nomatch (run_bind_of_error hrun).symm.trans heq
    · obtain ⟨B, hB, ha⟩ := hx.value s a u earlier hrun
      rw [run_bind_of_ok hrun] at heq
      -- The value is that of the second part.
      obtain ⟨D, hD, hv⟩ := (hf B hB a ha).value u v t _ (Prod.ext (congrArg (·.1) heq) rfl)
      exact ⟨D, hB.trans hD, hv⟩

/-! ## Named types -/

variable {i : Instantiation}

/-- The use of a name. However its construction ends, the context has advanced. -/
theorem useName {construct : Traced shapes ReferenceType}
    (h : Passes r P A i.IsEntry construct) :
    Passes r P A Schema.Within (Resolver.useName i.name i.location i.referent construct) where
  along s := by
    rw [run_useName]
    -- Claim, look-up, deferral and depth are tried in this order.
    cases hclaim : s.context.claim i.name i.location with
    | error fault => exact .of_silent (.refl _)
    | ok c =>
      have hclaimed : s.context.Advances r.Known c := .claim hclaim
      have hc := hP.of_advances hclaimed
      dsimp only
      split
      · exact .cons hc (.of_silent hclaimed)
      · next hnone =>
        have hnone : c.reference? i.name = none := by simpa using hnone
        split
        · have hdefer := hclaimed.trans (.defer c i.name)
          exact .cons hc (.cons (hP.of_advances hdefer) (.of_silent hdefer))
        · next hnew =>
          have hnew : i.name ∉ c.inProgress := by simpa using hnew
          split
          · exact .cons hc (.of_silent hclaimed)
          · next hdepth =>
            have hdepth := Nat.lt_of_not_ge hdepth
            -- The construction runs inside the context that it has started.
            have hrun := h.along { s with context := c.start i.name }
            rcases hresult : construct.run { s with context := c.start i.name } with
              ⟨⟨e | type, t⟩, events⟩ <;> rw [hresult] at hrun
            -- It fails: the name is given up, and the context has advanced from before the start.
            · have hend := Context.Advances.abandon hnew hrun.ends
              exact .cons hc (.trans hP hclaimed (.construction hP hnew hdepth hrun hend))
            · obtain ⟨B, _, hentry⟩ := h.value _ _ _ _ hresult
              -- It succeeds: the entry is new, as the name had none at the start.
              have hend := Context.Advances.complete hnone hnew hrun.ends hentry.name
              exact .cons hc (.trans hP hclaimed (.construction hP hnew hdepth hrun hend))
  value _ v _ _ _ := ⟨Set.univ, Set.subset_univ A, v.within_univ⟩

/-- The use of an enum, which is finished at once. -/
theorem enumReference {d : EnumDecl} (hi : r.Known i) (hd : i.declaration.declaration = .ofEnum d) :
    Passes r P A Schema.Within (Resolver.enumReference i.declaration d : Traced shapes Schema) where
  along s := by
    rw [run_enumReference, Resolver.qualifiedName_of_enum hd]
    cases hclaim : s.context.claim i.name i.declaration.location with
    | error fault => exact .of_silent (.refl _)
    | ok c =>
      have hclaimed : s.context.Advances r.Known c := .claim hclaim
      have hc := hP.of_advances hclaimed
      dsimp only
      split
      · exact .cons hc (.of_silent hclaimed)
      · next hnone =>
        -- The enum is entered without a construction, so the context advances in one step.
        have hgrants := grants_enum hi hd (Context.origin_claim hclaim)
        have hend := hclaimed.trans (.completeEnum hnone hgrants)
        exact .cons hc (.cons (hP.of_advances hend) (.of_silent hend))
  value _ v _ _ _ := ⟨Set.univ, Set.subset_univ A, v.within_univ⟩

end Passes

/-! ## Resolution -/

/-- The second computation is the first one, unobserved, where that reads shapes as resolution
does. -/
structure Observes (r : Resolver) (P : Context → Context → Prop) (A : Set Handle)
    (Q : Set Handle → α → Prop) (x : Traced shapes α) (y : Resolve α) : Prop
    extends Passes r P A Q x where
  plain : shapes = Context.shapeOf → x.plain = y

/-- Sequences are observed if their parts are, for each value of the first part. -/
theorem Observes.bind {Q : Set Handle → α → Prop} {R : Set Handle → β → Prop}
    {x : Traced shapes α} {y : Resolve α} {f : α → Traced shapes β} {g : α → Resolve β}
    (hP : Context.Persistent r P) (hx : Observes r P A Q x y)
    (hf : ∀ B, A ⊆ B → ∀ a, Q B a → Observes r P B R (f a) (g a)) :
    Observes r P A R (x >>= f) (y >>= g) where
  toPasses := hx.toPasses.bind hP fun B hB a ha => (hf B hB a ha).toPasses
  plain hshapes := by
    rw [plain_bind, ← hx.plain hshapes]
    -- The second part needs to be compared for values that the first one can give.
    refine Resolve.bind_congr_of_run fun s a t hrun => ?_
    obtain ⟨B, hB, ha⟩ := hx.value s a t _ (Prod.ext hrun rfl)
    exact (hf B hB a ha).plain hshapes

def observeComposition (shapes : Shapes) (hP : Context.Persistent r P) :
    Composition (Traced shapes) Resolve where
  Rel A Q x y := Observes r P A Q x y
  rel_pure h := ⟨.pure h, fun _ => rfl⟩
  rel_bind := .bind hP
  formed := Schema.formed_within

/-- The steps of resolution can be observed if their parts can. -/
private theorem observeSimulation (hP : Context.Persistent r P) (p : Parts (Traced shapes))
    (q : Parts Resolve) : (observeComposition shapes hP).Simulation p q where
  rel_fail _ := ⟨.fail, fun _ => rfl⟩
  rel_inside h := ⟨h.inside, fun hshapes => by rw [plain_inside, h.plain hshapes]⟩
  rel_warn A warning := ⟨.read (fun _ => trivial) fun s => ⟨_, _, rfl, rfl⟩, fun _ => rfl⟩
  rel_shapeOf A schema _ := by
    refine ⟨.shapeOf schema, ?_⟩
    rintro rfl
    exact plain_shapeOf schema
  rel_union A members hints h := by
    refine .bind hP ((observeComposition shapes hP).rel_resolveAll (A := A) h) fun B _ _ _ => ?_
    exact ⟨.read Schema.within_univ fun s => ⟨_, _, rfl, rfl⟩, fun _ => rfl⟩

namespace Resolver

/-- A step can be observed if its parts can. -/
theorem step_observes (hP : Context.Persistent r P) {p : Parts (Traced shapes)} {q : Parts Resolve}
    (h : ∀ part, (observeComposition shapes hP).Resolves p q part) (type : TypeExpr)
    (A : Set Handle) (hints : Hints) :
    Observes r P A Schema.Within (r.step p type hints) (r.step q type hints) := by
  have S := observeSimulation hP p q
  refine S.rel_step (fun _ _ _ _ _ => trivial) (fun _ _ => Schema.within_intersectionSchema_nil)
    (fun part _ => h part) ?_
  rintro name arguments located rfl hfind
  -- What a declaration is used for: an enum, an alias that is replaced, or a construction.
  refine (observeComposition shapes hP).rel_declared (.all r) trivial hfind ?_ ?_ ?_
  · exact fun i d hi hd => ⟨.enumReference hP hi hd, fun _ => plain_enumReference _ d⟩
  · exact fun d _ _ => h _
  · rintro i rfl hi _
    have hconstruct := S.rel_construct (A := A) hi.declared fun part _ => h part
    refine ⟨hconstruct.toPasses.useName hP, fun hshapes => ?_⟩
    rw [plain_useName, hconstruct.plain hshapes]

/-- The relation holds all along the runs of resolution, and these are the runs that are
observed. -/
theorem traceWithin_observes (hP : Context.Persistent r P) (bound : Nat) (type : TypeExpr) :
    (observeComposition shapes hP).Resolves (r.traceWithin shapes bound) (r.resolveWithin bound)
      type := by
  induction bound generalizing type with
  | zero => exact fun A hints => ⟨.fail, fun _ => rfl⟩
  | succ bound ih =>
    intro A hints
    -- The call is noted first and leaves no trace in the unobserved run.
    have hstep := step_observes hP ih type A hints
    refine ⟨hstep.call type hints, fun hshapes => ?_⟩
    rw [traceWithin, plain_bind, plain_call, pure_bind, hstep.plain hshapes]
    rfl

theorem traceWithin_passes (hP : Context.Persistent r P) (bound : Nat) (type : TypeExpr)
    (A : Set Handle) (hints : Hints) :
    Passes r P A Schema.Within (r.traceWithin shapes bound type hints) :=
  (traceWithin_observes hP bound type A hints).toPasses

theorem construct_passes {p : Parts (Traced shapes)} (hP : Context.Persistent r P)
    (hp : ∀ part A hints, Passes r P A Schema.Within (p part hints)) {i : Instantiation}
    (hi : i.declaration ∈ r.index.declarations) (A : Set Handle) :
    Passes r P A i.IsEntry (r.construct p i) := by
  have S := observeSimulation hP p fun type hints => (p type hints).plain
  exact (S.rel_construct hi fun part _ A hints => ⟨hp part A hints, fun _ => rfl⟩).toPasses

/-- A trace of resolution is the trace of its run, and the relation holds all along. -/
theorem trace_observes (hP : Context.Persistent r P) (type : TypeExpr) (hints : Hints)
    (s : Session) :
    ((r.trace Context.shapeOf type hints).run s).1 = (r.resolve type hints).run s ∧
      Along r P s.context ((r.trace Context.shapeOf type hints).run s) := by
  -- With the usual shapes, the run without its notes is the one of `resolve`.
  have h : Observes r P ∅ Schema.Within (r.trace Context.shapeOf type hints) _ :=
    traceWithin_observes hP (r.index.bound type) type ∅ hints
  refine ⟨?_, h.along s⟩
  rw [resolve, ← h.plain rfl]
  rfl

end Resolver

/-- The names under construction are restored: if a run of `resolve` starts with none, then it ends
with none, whether it succeeds or fails, and no context on its way has more than `maxDepth` of them,
which are 32. -/
theorem in_progress_restored (r : Resolver) (type : TypeExpr) (hints : Hints) (s : Session)
    (h : s.context.inProgress = []) :
    let run := (r.trace Context.shapeOf type hints).run s
    run.1 = (r.resolve type hints).run s ∧ run.1.2.context.inProgress = [] ∧
      (∀ c, .change c ∈ run.2 → c.inProgress.length ≤ maxDepth) ∧ maxDepth = 32 := by
  intro run
  obtain ⟨hrun, halong⟩ := Resolver.trace_observes (Context.persistent_depth r) type hints s
  -- The bound holds at the start, as nothing is under construction there.
  have hstart : s.context.depth ≤ maxDepth := by simp [Context.depth, h]
  exact ⟨hrun, halong.ends.idle h, fun c hc => halong.passes c hc hstart, rfl⟩

/-- An interface whose instantiations need each other without end: the run fails at the limit, and
gives up everything that it has begun. -/
theorem endless_generic_abandoned :
    let r := Resolver.ofText "interface W<T> { n: W<V<T>> }"
    let run := (r.trace Context.shapeOf (.reference "W" [.keyword .any]) .none).run .empty
    (run.1.1.isOk = false ∧ run.2.any (·.isFull) = true) ∧
      run.1 = (r.resolve (.reference "W" [.keyword .any]) .none).run .empty ∧
      run.1.2.context.inProgress = [] ∧
      (∀ c, .change c ∈ run.2 → c.inProgress.length ≤ maxDepth) ∧ maxDepth = 32 :=
  ⟨by decide +kernel, in_progress_restored _ _ _ _ rfl⟩

/-- The table is written once: an entry that is there before a run is there after it, with the same
content, and in every context on the way; and so is every origin. -/
theorem table_written_once (r : Resolver) (type : TypeExpr) (hints : Hints) (s : Session) :
    let run := (r.trace Context.shapeOf type hints).run s
    run.1 = (r.resolve type hints).run s ∧
      ∀ c, c = run.1.2.context ∨ .change c ∈ run.2 →
        (∀ name entry, s.context.table.get? name = some entry →
          c.table.get? name = some entry) ∧
        ∀ name origin, s.context.origins.get? name = some origin →
          c.origins.get? name = some origin := by
  intro run
  obtain ⟨hrun, halong⟩ := Resolver.trace_observes (Context.persistent_grows r) type hints s
  refine ⟨hrun, fun c hc => ?_⟩
  -- The end of the run counts as well as every context on its way.
  have hgrows : s.context.Grows c := by
    rcases hc with rfl | hc
    · exact halong.ends.toGrows
    · exact halong.passes c hc
  exact ⟨hgrows.table, hgrows.origins⟩

end Endpoints
