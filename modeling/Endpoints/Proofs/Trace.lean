import Endpoints.Proofs.Simulation

/-!
# Traces of resolution

A run of resolution shows its outcome and the session that it ends in, but not the way there.
`Traced` is a monad in which the same definitions can be run and observed: besides its result, a run
gives the types that it resolves and the contexts that it passes through, in order.

How the shape of a schema is read from a context is left open here, as the argument `shapes`.
-/

namespace Endpoints

open Resolve Resolver

/-- What is seen of a run. -/
inductive Event where
  | call (type : TypeExpr) (hints : Hints)
  | change (context : Context)

/-- How the shape of a schema is read from a context. -/
abbrev Shapes := Context → Schema → Except Fault ObjectShape

/-- A computation in a session whose runs are observed. A run gives the outcome, the session after
it, and the events. -/
@[ext] structure Traced (shapes : Shapes) (α : Type) where
  run : Session → (Except Error α × Session) × List Event

namespace Traced

variable {shapes : Shapes} {α β : Type}

/-! ## The monad -/

instance : Monad (Traced shapes) where
  pure a := ⟨fun s => ((.ok a, s), [])⟩
  bind x f := ⟨fun s => match x.run s with
    | ((.ok a, t), events) => (((f a).run t).1, events ++ ((f a).run t).2)
    | ((.error e, t), events) => ((.error e, t), events)⟩

instance : MonadExceptOf Error (Traced shapes) where
  throw e := ⟨fun s => ((.error e, s), [])⟩
  tryCatch x handle := ⟨fun s => match x.run s with
    | ((.ok a, t), events) => ((.ok a, t), events)
    | ((.error e, t), events) => (((handle e).run t).1, events ++ ((handle e).run t).2)⟩

instance : MonadSession (Traced shapes) where
  context := ⟨fun s => ((.ok s.context, s), [])⟩
  modifyContext f := ⟨fun s =>
    ((.ok (), { s with context := f s.context }), [.change (f s.context)])⟩
  warn warning := ⟨fun s => ((.ok (), { s with warnings := s.warnings ++ [warning] }), [])⟩
  shapeOf schema := ⟨fun s => match shapes s.context schema with
    | .ok shape => ((.ok shape, s), [])
    | .error fault => ((.error (.ofFault fault), s), [])⟩

/-- Notes that a type is resolved. -/
def call (type : TypeExpr) (hints : Hints) : Traced shapes Unit :=
  ⟨fun s => ((.ok (), s), [.call type hints])⟩

@[simp] theorem run_pure (a : α) (s : Session) :
    (pure a : Traced shapes α).run s = ((.ok a, s), []) := rfl

variable (x : Traced shapes α)

theorem run_bind (f : α → Traced shapes β) (s : Session) :
    (x >>= f).run s = match x.run s with
      | ((.ok a, t), events) => (((f a).run t).1, events ++ ((f a).run t).2)
      | ((.error e, t), events) => ((.error e, t), events) := rfl

variable {f : α → Traced shapes β}

theorem run_bind_of_ok {x : Traced shapes α} {s t : Session} {a : α} {events : List Event}
    (h : x.run s = ((.ok a, t), events)) :
    (x >>= f).run s = (((f a).run t).1, events ++ ((f a).run t).2) := by
  rw [run_bind, h]

theorem run_bind_of_error {x : Traced shapes α} {s t : Session} {e : Error} {events : List Event}
    (h : x.run s = ((.error e, t), events)) : (x >>= f).run s = ((.error e, t), events) := by
  rw [run_bind, h]

private theorem run_bind_of_silent {x : Traced shapes α} {s t : Session} {a : α}
    (h : x.run s = ((.ok a, t), [])) : (x >>= f).run s = (f a).run t := by
  rw [run_bind_of_ok h, List.nil_append]

instance : LawfulMonad (Traced shapes) := LawfulMonad.mk' (Traced shapes)
  (by
    intro α x
    ext s : 2
    show (x >>= fun a => pure (id a)).run s = x.run s
    rcases hx : x.run s with ⟨⟨e | a, t⟩, events⟩
    · exact run_bind_of_error hx
    · simp [run_bind_of_ok hx])
  (by
    intro α β a f
    ext s : 2
    rw [run_bind_of_silent (run_pure a s)])
  (by
    intro α β γ x f g
    ext s : 2
    rcases hx : x.run s with ⟨⟨e | a, t⟩, events⟩
    · rw [run_bind_of_error (run_bind_of_error hx), run_bind_of_error hx]
    · rcases hf : (f a).run t with ⟨⟨e | b, u⟩, later⟩
      · have hfirst : (x >>= f).run s = ((.error e, u), events ++ later) := by
          rw [run_bind_of_ok hx, hf]
        rw [run_bind_of_error hfirst, run_bind_of_ok hx, run_bind_of_error hf]
      · have hfirst : (x >>= f).run s = ((.ok b, u), events ++ later) := by
          rw [run_bind_of_ok hx, hf]
        rw [run_bind_of_ok hfirst, run_bind_of_ok hx, run_bind_of_ok hf, List.append_assoc])

@[simp] theorem run_context (s : Session) :
    (Resolve.context : Traced shapes Context).run s = ((.ok s.context, s), []) := rfl

@[simp] theorem run_modifyContext (f : Context → Context) (s : Session) :
    (Resolve.modifyContext f : Traced shapes Unit).run s =
      ((.ok (), { s with context := f s.context }), [.change (f s.context)]) := rfl

theorem run_shapeOf (schema : Schema) (s : Session) :
    (Resolve.shapeOf schema : Traced shapes ObjectShape).run s =
      match shapes s.context schema with
      | .ok shape => ((.ok shape, s), [])
      | .error fault => ((.error (.ofFault fault), s), []) := rfl

@[simp] theorem run_fail (fault : Fault) (s : Session) :
    (Resolve.fail fault : Traced shapes α).run s = ((.error (.ofFault fault), s), []) := rfl

private theorem run_tryCatch (handle : Error → Traced shapes α) (s : Session) :
    (tryCatch x handle).run s = match x.run s with
      | ((.ok a, t), events) => ((.ok a, t), events)
      | ((.error e, t), events) => (((handle e).run t).1, events ++ ((handle e).run t).2) := rfl

/-- A place is added to errors, and the events stay the same. -/
theorem run_inside (place : Place) (x : Traced shapes α) (s : Session) :
    (inside place x).run s = match x.run s with
      | ((.ok a, t), events) => ((.ok a, t), events)
      | ((.error e, t), events) => ((.error (e.inside place), t), events) := by
  rw [inside, run_tryCatch]
  rcases x.run s with ⟨⟨e | a, t⟩, events⟩
  · show ((Except.error (e.inside place), t), events ++ []) = _
    rw [List.append_nil]
  · rfl

variable (name : String)

private theorem run_claim (origin : String) (s : Session) :
    (Resolve.claim name origin : Traced shapes Unit).run s =
      match s.context.claim name origin with
      | .ok c => ((.ok (), { s with context := c }), [.change c])
      | .error fault => ((.error (.ofFault fault), s), []) := by
  rw [Resolve.claim, run_bind_of_silent (run_context s)]
  cases s.context.claim name origin <;> rfl

/-- The context changes once before the construction and, if that fails, once after it. -/
private theorem run_constructing (action : Traced shapes α) (s : Session) :
    (constructing name action).run s =
      if s.context.depth ≥ maxDepth then
        ((.error (.ofFault (.unsupportedType (.tooDeep name))), s), [])
      else match action.run { s with context := s.context.start name } with
        | ((.ok a, t), events) => ((.ok a, t), .change (s.context.start name) :: events)
        | ((.error e, t), events) =>
          ((.error e, { t with context := t.context.abandon name }),
            .change (s.context.start name) :: events ++ [.change (t.context.abandon name)]) := by
  rw [constructing, run_bind_of_silent (run_context s)]
  split
  · rfl
  -- Starting the name is an event of its own, before those of the action.
  · show (Resolve.modifyContext (·.start name) >>= fun _ => tryCatch action _).run s = _
    rw [run_bind_of_ok (run_modifyContext _ s), run_tryCatch]
    rcases action.run _ with ⟨⟨e | a, t⟩, events⟩ <;> rfl

/-- What is seen of the use of a named type: the claim, then the reference to it or the events of
its construction. -/
theorem run_useName (origin : String) (referent : Referent)
    (construct : Traced shapes ReferenceType) (s : Session) :
    (useName name origin referent construct).run s =
      match s.context.claim name origin with
      | .error fault => ((.error (.ofFault fault), s), [])
      | .ok c =>
        let handle : Schema := .ofKind (.reference referent name)
        if (c.reference? name).isSome then ((.ok handle, { s with context := c }), [.change c])
        else if c.isInProgress name then
          ((.ok handle, { s with context := c.defer name }), [.change c, .change (c.defer name)])
        else if c.depth ≥ maxDepth then
          ((.error (.ofFault (.unsupportedType (.tooDeep name))), { s with context := c }),
            [.change c])
        else match construct.run { s with context := c.start name } with
          | ((.ok type, t), events) =>
            ((.ok handle, { t with context := t.context.complete type }),
              .change c :: .change (c.start name) :: events ++
                [.change (t.context.complete type)])
          | ((.error e, t), events) =>
            ((.error e, { t with context := t.context.abandon name }),
              .change c :: .change (c.start name) :: events ++
                [.change (t.context.abandon name)]) := by
  rw [useName, run_bind, run_claim]
  -- As for runs that are not observed, with one event for each change of the context.
  cases s.context.claim name origin with
  | error fault => rfl
  | ok c =>
    simp only
    rw [run_bind_of_silent (run_context _)]
    split
    · rfl
    · split
      · rfl
      · rw [run_bind, run_constructing, run_bind]
        simp only
        by_cases hdepth : c.depth ≥ maxDepth
        · simp only [hdepth, if_true, List.append_nil]
        · simp only [hdepth, if_false]
          rcases construct.run _ with ⟨⟨e | type, t⟩, events⟩ <;> simp

/-- What is seen of the use of an enum. -/
theorem run_enumReference (located : Located) (d : EnumDecl) (s : Session) :
    (enumReference located d : Traced shapes Schema).run s =
      match s.context.claim located.qualifiedName located.location with
      | .error fault => ((.error (.ofFault fault), s), [])
      | .ok c => match c.reference? located.qualifiedName with
        | some type => ((.ok type.handle, { s with context := c }), [.change c])
        | none =>
          let type := enumEntry d located.qualifiedName
          ((.ok type.handle, { s with context := c.complete type }),
            [.change c, .change (c.complete type)]) := by
  rw [enumReference, run_bind, run_claim]
  cases s.context.claim located.qualifiedName located.location with
  | error fault => rfl
  | ok c =>
    -- Claiming is recorded, looking at the context is not.
    simp only
    rw [run_bind_of_silent (run_context _)]
    cases c.reference? located.qualifiedName <;> rfl

/-! ## Runs without their events -/

/-- The computation, unobserved. -/
def plain (x : Traced shapes α) : Resolve α := fun s => (x.run s).1

theorem run_plain (s : Session) : x.plain.run s = (x.run s).1 := rfl

@[simp] theorem plain_call (type : TypeExpr) (hints : Hints) :
    (call type hints : Traced shapes Unit).plain = pure () := rfl

@[simp] theorem plain_bind (x : Traced shapes α) (f : α → Traced shapes β) :
    (x >>= f).plain = x.plain >>= fun a => (f a).plain := by
  refine ext_run fun s => ?_
  rw [run_plain, Resolve.run_bind, run_bind, run_plain]
  rcases x.run s with ⟨⟨e | a, t⟩, events⟩ <;> rfl

@[simp] theorem plain_inside (place : Place) (x : Traced shapes α) :
    (inside place x).plain = inside place x.plain := by
  refine ext_run fun s => ?_
  rw [run_plain, Resolve.run_inside, run_inside, run_plain]
  rcases x.run s with ⟨⟨e | a, t⟩, events⟩ <;> rfl

theorem plain_shapeOf (schema : Schema) :
    (Resolve.shapeOf schema : Traced Context.shapeOf ObjectShape).plain =
      Resolve.shapeOf schema := by
  refine ext_run fun s => ?_
  rw [run_plain, Resolve.run_shapeOf, run_shapeOf]
  cases s.context.shapeOf schema <;> rfl

/-- The use of a named type is the same unobserved. -/
theorem plain_useName (origin : String) (referent : Referent)
    (construct : Traced shapes ReferenceType) :
    (useName name origin referent construct).plain =
      useName name origin referent construct.plain := by
  refine ext_run fun s => ?_
  rw [run_plain, Resolver.run_useName, run_useName]
  -- Both runs are given by cases, and these are the same ones.
  cases s.context.claim name origin with
  | error fault => rfl
  | ok c =>
    simp only [run_plain]
    split
    · rfl
    · split
      · rfl
      · split
        · rfl
        · rcases construct.run _ with ⟨⟨e | type, t⟩, events⟩ <;> rfl

/-- So is the use of an enum. -/
theorem plain_enumReference (located : Located) (d : EnumDecl) :
    (enumReference located d : Traced shapes Schema).plain =
      enumReference located d := by
  refine ext_run fun s => ?_
  rw [run_plain, Resolver.run_enumReference, run_enumReference]
  cases s.context.claim located.qualifiedName located.location with
  | error fault => rfl
  | ok c =>
    simp only
    cases c.reference? located.qualifiedName <;> rfl

end Traced

/-! ## Resolution -/

namespace Resolver

/-- The schema of a type whose parts lie at most `bound` levels deep, with the types that are
resolved for it and the contexts on the way. -/
def traceWithin (r : Resolver) (shapes : Shapes) : (bound : Nat) → Parts (Traced shapes)
  | 0 => fun _ _ => Resolve.fail (.unsupportedType .unbounded)
  | bound + 1 => fun type hints => do
    Traced.call type hints
    r.step (r.traceWithin shapes bound) type hints

/-- The schema of a type, with the types that are resolved for it and the contexts on the way. -/
def trace (r : Resolver) (shapes : Shapes) : Parts (Traced shapes) := fun type hints =>
  r.traceWithin shapes (r.index.bound type) type hints

end Resolver

end Endpoints
