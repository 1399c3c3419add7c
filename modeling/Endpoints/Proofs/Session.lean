import Endpoints.Resolution.Step
import Mathlib.Data.List.Forall2
import Mathlib.Logic.Basic

/-!
# Running computations in a session

`x.run s` is the outcome of a computation and the session after it. The lemmas here give the outcome
of every primitive of `Resolve`, so that proofs about resolution never open the monad.

## Key results

- `run_bind`, `run_bind_ok`: a sequence goes on only after success, from the session reached
- `run_useName`: what becomes of a named type, in terms of the context in which it is used
- `run_enumReference`: the same for an enum, which is finished at once
- `useOutcome_iff`, `enumOutcome_iff`: both by cases, each with what holds there
-/

namespace Endpoints

namespace Resolve

variable {α β : Type}

variable {x : Resolve α}

theorem ext_run {y : Resolve α} (h : ∀ s, x.run s = y.run s) : x = y :=
  ExceptT.ext (StateT.ext h)

@[simp] theorem run_pure (a : α) (s : Session) : (pure a : Resolve α).run s = (.ok a, s) := rfl

/-- `x >>= f` goes on from the session after `x`, or ends with its error. -/
theorem run_bind (x : Resolve α) (f : α → Resolve β) (s : Session) :
    (x >>= f).run s = match x.run s with
      | (.ok a, t) => (f a).run t
      | (.error e, t) => (.error e, t) := by
  simp only [ExceptT.run_bind]
  -- The monad is opened here and in `run_tryCatch` only.
  show StateT.bind _ _ s = _
  rw [StateT.bind]
  show (match x.run s with | (a, t) => _) = _
  rcases x.run s with ⟨a | e, t⟩ <;> rfl

variable {f : α → Resolve β} {s t : Session}

theorem run_bind_of_ok {a : α} (h : x.run s = (.ok a, t)) : (x >>= f).run s = (f a).run t := by
  rw [run_bind, h]

theorem run_bind_of_error {e : Error} (h : x.run s = (.error e, t)) :
    (x >>= f).run s = (.error e, t) := by
  rw [run_bind, h]

theorem bind_congr_of_run {g : α → Resolve β} (h : ∀ s a t, x.run s = (.ok a, t) → f a = g a) :
    x >>= f = x >>= g := by
  refine ext_run fun s => ?_
  rcases hrun : x.run s with ⟨e | a, t⟩
  · rw [run_bind_of_error hrun, run_bind_of_error hrun]
  · rw [run_bind_of_ok hrun, run_bind_of_ok hrun, h s a t hrun]

/-- A sequence succeeds exactly if both steps do. -/
theorem run_bind_ok {u : Session} {b : β} :
    (x >>= f).run s = (.ok b, u) ↔
      ∃ a t, x.run s = (.ok a, t) ∧ (f a).run t = (.ok b, u) := by
  rw [run_bind]
  constructor
  · intro h
    rcases hx : x.run s with ⟨e | a, t⟩
    · rw [hx] at h
      exact nomatch h
    · rw [hx] at h
      exact ⟨a, t, rfl, h⟩
  · rintro ⟨a, t, hx, hf⟩
    rw [hx]
    exact hf

/-- A sequence fails exactly if its first step does, or the second after it. -/
theorem run_bind_error {u : Session} {e : Error} :
    (x >>= f).run s = (.error e, u) ↔ x.run s = (.error e, u) ∨
      ∃ a t, x.run s = (.ok a, t) ∧ (f a).run t = (.error e, u) := by
  constructor
  · intro h
    rcases hx : x.run s with ⟨e' | a, t⟩
    · rw [run_bind_of_error hx] at h
      obtain ⟨he, rfl⟩ := Prod.mk.inj h
      exact .inl (by rw [Except.error.inj he])
    · rw [run_bind_of_ok hx] at h
      exact .inr ⟨a, t, rfl, h⟩
  · rintro (hx | ⟨a, t, hx, hf⟩)
    · exact run_bind_of_error hx
    · exact (run_bind_of_ok hx).trans hf

/-- Each value of a list is that of a run, if all of them succeed one after the other. -/
theorem run_mapM_ok {items : List α} {values : List β}
    (h : (items.mapM f).run s = (.ok values, t)) :
    List.Forall₂ (fun item value => ∃ u v, (f item).run u = (.ok value, v)) items values := by
  -- By induction on the items, as the session changes from one to the next.
  induction items generalizing s t values with
  | nil =>
    obtain ⟨hv, _⟩ := Prod.mk.inj h
    rw [← Except.ok.inj hv]
    exact .nil
  | cons item items ih =>
    rw [List.mapM_cons] at h
    obtain ⟨value, u, hfirst, h⟩ := run_bind_ok.1 h
    obtain ⟨rest, v, hrest, h⟩ := run_bind_ok.1 h
    obtain ⟨hv, _⟩ := Prod.mk.inj h
    rw [← Except.ok.inj hv]
    exact .cons ⟨s, u, hfirst⟩ (ih hrest)

@[simp] theorem run_fail (fault : Fault) (s : Session) :
    (fail fault : Resolve α).run s = (.error (.ofFault fault), s) := rfl

@[simp] theorem run_context (s : Session) :
    (context : Resolve Context).run s = (.ok s.context, s) := rfl

@[simp] theorem run_modifyContext (f : Context → Context) (s : Session) :
    (modifyContext f : Resolve Unit).run s = (.ok (), { s with context := f s.context }) := rfl

@[simp] theorem run_warn (warning : Warning) (s : Session) :
    (warn warning : Resolve Unit).run s =
      (.ok (), { s with warnings := s.warnings ++ [warning] }) := rfl

@[simp] theorem run_ofExcept_ok (a : α) (s : Session) :
    (ofExcept (.ok a) : Resolve α).run s = (.ok a, s) := rfl

@[simp] theorem run_ofExcept_error (fault : Fault) (s : Session) :
    (ofExcept (.error fault) : Resolve α).run s = (.error (.ofFault fault), s) := rfl

theorem run_shapeOf (schema : Schema) (s : Session) :
    (shapeOf schema : Resolve ObjectShape).run s = match s.context.shapeOf schema with
      | .ok shape => (.ok shape, s)
      | .error fault => (.error (.ofFault fault), s) := by
  show (ofExcept (s.context.shapeOf schema) : Resolve ObjectShape).run s = _
  cases s.context.shapeOf schema <;> rfl

/-- A shape is read iff the context gives it, and the session stays as it is. -/
theorem run_shapeOf_ok {schema : Schema} {shape : ObjectShape} :
    (shapeOf schema : Resolve ObjectShape).run s = (.ok shape, t) ↔
      s.context.shapeOf schema = .ok shape ∧ t = s := by
  rw [run_shapeOf]
  cases s.context.shapeOf schema with
  | error fault => exact ⟨fun h => (nomatch h), fun ⟨h, _⟩ => nomatch h⟩
  | ok found =>
    rw [Prod.mk.injEq, Except.ok.injEq, Except.ok.injEq]
    exact and_congr_right fun _ => eq_comm

/-- An error is handled in the session after it. -/
private theorem run_tryCatch (x : Resolve α) (handle : Error → Resolve α) (s : Session) :
    (tryCatch x handle).run s = match x.run s with
      | (.ok a, t) => (.ok a, t)
      | (.error e, t) => (handle e).run t := by
  rw [ExceptT.run_tryCatch]
  show StateT.bind _ _ s = _
  rw [StateT.bind]
  show (match x.run s with | (a, t) => _) = _
  rcases x.run s with ⟨e | a, t⟩ <;> rfl

theorem run_inside (place : Place) (x : Resolve α) (s : Session) :
    (inside place x).run s = match x.run s with
      | (.ok a, t) => (.ok a, t)
      | (.error e, t) => (.error (e.inside place), t) := by
  rw [inside, run_tryCatch]
  rcases x.run s with ⟨a | e, t⟩ <;> rfl

theorem run_inside_ok {place : Place} {a : α} :
    (inside place x).run s = (.ok a, t) ↔ x.run s = (.ok a, t) := by
  rw [run_inside]
  rcases x.run s with ⟨e | b, u⟩
  · exact ⟨fun h => (nomatch h), fun h => nomatch h⟩
  · rfl

/-- `inside` adds the place to an error. -/
theorem run_inside_error {place : Place} {e : Error} :
    (inside place x).run s = (.error e, t) ↔
      ∃ cause, x.run s = (.error cause, t) ∧ e = cause.inside place := by
  rw [run_inside]
  constructor
  · intro h
    rcases hx : x.run s with ⟨cause | b, u⟩ <;> rw [hx] at h
    · obtain ⟨he, rfl⟩ := Prod.mk.inj h
      exact ⟨cause, rfl, (Except.error.inj he).symm⟩
    · exact nomatch h
  · rintro ⟨cause, hx, rfl⟩
    rw [hx]

theorem run_claim (name origin : String) (s : Session) :
    (claim name origin : Resolve Unit).run s = match s.context.claim name origin with
      | .ok c => (.ok (), { s with context := c })
      | .error fault => (.error (.ofFault fault), s) := by
  rw [claim, run_bind_of_ok (run_context s), run_bind]
  cases s.context.claim name origin <;> rfl

/-- A construction starts with its name in the context, which goes again if it fails. -/
private theorem run_constructing (name : String) (action : Resolve α) (s : Session) :
    (constructing name action).run s =
      if s.context.depth ≥ maxDepth then
        (.error (.ofFault (.unsupportedType (.tooDeep name))), s)
      else match action.run { s with context := s.context.start name } with
        | (.ok a, t) => (.ok a, t)
        | (.error e, t) => (.error e, { t with context := t.context.abandon name }) := by
  rw [constructing, run_bind_of_ok (run_context s)]
  split
  · rfl
  · show (modifyContext (·.start name) >>= fun _ => tryCatch action _).run s = _
    rw [run_bind_of_ok (run_modifyContext _ s), run_tryCatch]
    rcases action.run _ with ⟨e | a, t⟩ <;> rfl

end Resolve

namespace Resolver

open Resolve

/-- The outcome of the use of a named type: the claim may fail; a type that is finished or under
construction is referred to; any other is constructed, unless too many are already. -/
theorem run_useName (name origin : String) (referent : Referent) (construct : Resolve ReferenceType)
    (s : Session) :
    (useName name origin referent construct).run s =
      match s.context.claim name origin with
      | .error fault => (.error (.ofFault fault), s)
      | .ok c =>
        let handle : Schema := .ofKind (.reference referent name)
        if (c.reference? name).isSome then (.ok handle, { s with context := c })
        else if c.isInProgress name then (.ok handle, { s with context := c.defer name })
        else if c.depth ≥ maxDepth then
          (.error (.ofFault (.unsupportedType (.tooDeep name))), { s with context := c })
        else match construct.run { s with context := c.start name } with
          | (.ok type, t) => (.ok handle, { t with context := t.context.complete type })
          | (.error e, t) => (.error e, { t with context := t.context.abandon name }) := by
  rw [useName, run_bind, run_claim]
  cases s.context.claim name origin with
  | error fault => rfl
  | ok c =>
    -- The name is claimed; the branches are those of the three questions put to the context.
    simp only
    rw [run_bind_of_ok (run_context _)]
    split
    · rfl
    · split
      · rfl
      · rw [run_bind, run_constructing, run_bind]
        simp only
        by_cases hdepth : c.depth ≥ maxDepth
        · simp only [hdepth, if_true]
        · simp only [hdepth, if_false]
          rcases construct.run _ with ⟨e | type, t⟩ <;> rfl

/-- The ways in which the use of a named type can go. -/
inductive UseOutcome (name origin : String) (referent : Referent)
    (construct : Resolve ReferenceType) (s : Session) : Except Error Schema → Session → Prop
  | refused {fault : Fault} : s.context.claim name origin = .error fault →
      UseOutcome name origin referent construct s (.error (.ofFault fault)) s
  | known {c : Context} : s.context.claim name origin = .ok c → (c.reference? name).isSome →
      UseOutcome name origin referent construct s (.ok (.ofKind (.reference referent name)))
        { s with context := c }
  | deferred {c : Context} : s.context.claim name origin = .ok c → c.reference? name = none →
      name ∈ c.inProgress →
      UseOutcome name origin referent construct s (.ok (.ofKind (.reference referent name)))
        { s with context := c.defer name }
  | tooDeep {c : Context} : s.context.claim name origin = .ok c → c.reference? name = none →
      name ∉ c.inProgress → maxDepth ≤ c.depth →
      UseOutcome name origin referent construct s
        (.error (.ofFault (.unsupportedType (.tooDeep name)))) { s with context := c }
  | built {c : Context} {type : ReferenceType} {t : Session} :
      s.context.claim name origin = .ok c → c.reference? name = none → name ∉ c.inProgress →
      c.depth < maxDepth → construct.run { s with context := c.start name } = (.ok type, t) →
      UseOutcome name origin referent construct s (.ok (.ofKind (.reference referent name)))
        { t with context := t.context.complete type }
  | failed {c : Context} {e : Error} {t : Session} :
      s.context.claim name origin = .ok c → c.reference? name = none → name ∉ c.inProgress →
      c.depth < maxDepth → construct.run { s with context := c.start name } = (.error e, t) →
      UseOutcome name origin referent construct s (.error e)
        { t with context := t.context.abandon name }

/-- Every use of a named type goes one of these ways. -/
theorem useOutcome_iff {name origin : String} {referent : Referent}
    {construct : Resolve ReferenceType} {s t : Session} {o : Except Error Schema} :
    (useName name origin referent construct).run s = (o, t) ↔
      UseOutcome name origin referent construct s o t := by
  rw [run_useName]
  constructor
  · intro h
    -- The cases are those of `run_useName`, in its order.
    cases hclaim : s.context.claim name origin with
    | error fault =>
      rw [hclaim] at h
      obtain ⟨rfl, rfl⟩ := Prod.mk.inj h
      exact .refused hclaim
    | ok c =>
      rw [hclaim] at h
      dsimp only at h
      split at h
      · next hknown =>
        obtain ⟨rfl, rfl⟩ := Prod.mk.inj h
        exact .known hclaim hknown
      · next hnone =>
        rw [Bool.not_eq_true, Option.isSome_eq_false_iff, Option.isNone_iff_eq_none] at hnone
        split at h
        · next hprogress =>
          obtain ⟨rfl, rfl⟩ := Prod.mk.inj h
          exact .deferred hclaim hnone (by simpa [Context.isInProgress] using hprogress)
        · next hprogress =>
          have hnew : name ∉ c.inProgress := by simpa [Context.isInProgress] using hprogress
          split at h
          · next hdepth =>
            obtain ⟨rfl, rfl⟩ := Prod.mk.inj h
            exact .tooDeep hclaim hnone hnew hdepth
          · next hdepth =>
            have hroom : c.depth < maxDepth := by omega
            rcases hrun : construct.run { s with context := c.start name } with ⟨e | type, u⟩ <;>
              rw [hrun] at h <;> obtain ⟨rfl, rfl⟩ := Prod.mk.inj h
            · exact .failed hclaim hnone hnew hroom hrun
            · exact .built hclaim hnone hnew hroom hrun
  · intro h
    cases h with
    | refused hclaim => rw [hclaim]
    | known hclaim hknown => simp only [hclaim, hknown, if_true]
    | deferred hclaim hnone hprogress => simp [hclaim, hnone, Context.isInProgress, hprogress]
    | tooDeep hclaim hnone hnew hdepth =>
      simp [hclaim, hnone, Context.isInProgress, hnew, hdepth]
    | built hclaim hnone hnew hdepth hrun | failed hclaim hnone hnew hdepth hrun =>
      simp [hclaim, hnone, Context.isInProgress, hnew, Nat.not_le.2 hdepth, hrun]

/-- The outcome of the use of an enum. -/
theorem run_enumReference (located : Located) (d : EnumDecl) (s : Session) :
    (enumReference located d : Resolve Schema).run s =
      match s.context.claim located.qualifiedName located.location with
      | .error fault => (.error (.ofFault fault), s)
      | .ok c => match c.reference? located.qualifiedName with
        | some type => (.ok type.handle, { s with context := c })
        | none =>
          let type := enumEntry d located.qualifiedName
          (.ok type.handle, { s with context := c.complete type }) := by
  rw [enumReference, run_bind, run_claim]
  cases s.context.claim located.qualifiedName located.location with
  | error fault => rfl
  | ok c =>
    simp only
    rw [run_bind_of_ok (run_context _)]
    cases c.reference? located.qualifiedName <;> rfl

/-- The ways in which the use of an enum can go. -/
inductive EnumOutcome (name origin : String) (d : EnumDecl) (s : Session) :
    Except Error Schema → Session → Prop
  | refused {fault : Fault} : s.context.claim name origin = .error fault →
      EnumOutcome name origin d s (.error (.ofFault fault)) s
  | known {c : Context} {type : ReferenceType} : s.context.claim name origin = .ok c →
      c.reference? name = some type →
      EnumOutcome name origin d s (.ok type.handle) { s with context := c }
  | built {c : Context} : s.context.claim name origin = .ok c → c.reference? name = none →
      EnumOutcome name origin d s (.ok (enumEntry d name).handle)
        { s with context := c.complete (enumEntry d name) }

/-- Every use of an enum goes one of these ways. -/
theorem enumOutcome_iff {located : Located} {d : EnumDecl} {s t : Session}
    {o : Except Error Schema} : (enumReference located d : Resolve Schema).run s = (o, t) ↔
      EnumOutcome located.qualifiedName located.location d s o t := by
  rw [run_enumReference]
  constructor
  · intro h
    cases hclaim : s.context.claim located.qualifiedName located.location with
    | error fault =>
      rw [hclaim] at h
      obtain ⟨rfl, rfl⟩ := Prod.mk.inj h
      exact .refused hclaim
    | ok c =>
      rw [hclaim] at h
      dsimp only at h
      -- The enum has an entry already, or it gets one now.
      split at h
      · next type htype =>
        obtain ⟨rfl, rfl⟩ := Prod.mk.inj h
        exact .known hclaim htype
      · next hnone =>
        obtain ⟨rfl, rfl⟩ := Prod.mk.inj h
        exact .built hclaim hnone
  · intro h
    cases h with
    | refused hclaim => rw [hclaim]
    | known hclaim htype => simp only [hclaim, htype]
    | built hclaim hnone => simp only [hclaim, hnone]

end Resolver

end Endpoints
