import Endpoints.Proofs.Context
import Endpoints.Proofs.Session
import Mathlib.Data.List.Induction

/-!
# The log of a context

A context is changed by five operations, in any order: names are claimed, started, given up,
deferred and completed. A log is the list of the operations on a fresh context, those that were
refused included. Everything that a context can be asked can be read off its log.

For each part of the context, one lemma says what one operation does to it, and the lemma on the
whole log follows by induction from the end of the log.
-/

namespace Endpoints

open Context

/-- An operation on the context of a session. -/
inductive Operation where
  | claim (name origin : String)
  | start (name : String)
  | abandon (name : String)
  | defer (name : String)
  | complete (type : ReferenceType)

namespace Operation

/-- The operation as a computation in a session. -/
def action : Operation → Resolve Unit
  | claim name origin => Resolve.claim name origin
  | start name => Resolve.modifyContext (·.start name)
  | abandon name => Resolve.modifyContext (·.abandon name)
  | defer name => Resolve.modifyContext (·.defer name)
  | complete type => Resolve.modifyContext (·.complete type)

/-- The session after the operation, which may have been refused. -/
def step (op : Operation) (s : Session) : Session := (op.action.run s).2

/-- The origin that the operation claims for the name. -/
def origin? (name : String) : Operation → Option String
  | claim other origin => if other = name then some origin else none
  | _ => none

/-- The type that the operation completes under the name. -/
def type? (name : String) : Operation → Option ReferenceType
  | complete type => if type.name = name then some type else none
  | _ => none

/-- The name that the operation defers. -/
def deferred? : Operation → Option String
  | defer name => some name
  | _ => none

/-- Whether the operation ends the construction of the name: it gives it up or completes it. -/
def ends (name : String) : Operation → Bool
  | abandon other => other = name
  | complete type => type.name = name
  | _ => false

end Operation

/-! ## What a log says -/

namespace Log

/-- The session after all operations of a log. One that is refused does not stop those after it. -/
def session (log : List Operation) : Session :=
  log.foldl (fun s op => op.step s) .empty

/-- Where the first claim of the name says that it comes from. -/
def origin? (log : List Operation) (name : String) : Option String :=
  log.findSome? (·.origin? name)

/-- The last type that was completed under the name. -/
def type? (log : List Operation) (name : String) : Option ReferenceType :=
  log.reverse.findSome? (·.type? name)

/-- The names that were deferred, in order. -/
def deferred (log : List Operation) : List String :=
  log.filterMap (·.deferred?)

/-- The name was started, and neither given up nor completed since. -/
def Constructs (log : List Operation) (name : String) : Prop :=
  ∃ before after, log = before ++ .start name :: after ∧ ∀ op ∈ after, op.ends name = false

/-- A type was completed under the name. -/
def Completes (log : List Operation) (name : String) : Prop :=
  ∃ type, .complete type ∈ log ∧ type.name = name

end Log

/-! ## One operation -/

namespace Operation

variable {s : Session} {name : String}

/-- Only the first claim of a name changes the context. -/
theorem context_claim (name origin : String) : ((claim name origin).step s).context =
    if (s.context.origins.get? name).isSome then s.context
    else { s.context with origins := s.context.origins.insert name origin } := by
  rw [step, action, Resolve.run_claim]
  unfold Context.claim
  cases s.context.origins.get? name with
  | none => rfl
  | some first => by_cases horigin : first = origin <;> simp [horigin]

@[simp] theorem context_start : ((start name).step s).context = s.context.start name := rfl

@[simp] theorem context_abandon : ((abandon name).step s).context = s.context.abandon name := rfl

@[simp] theorem context_defer : ((defer name).step s).context = s.context.defer name := rfl

@[simp] theorem context_complete (type : ReferenceType) :
    ((complete type).step s).context = s.context.complete type := rfl

/-- A name keeps the origin it has; otherwise it gets the one that is claimed. -/
private theorem origins_step (op : Operation) :
    (op.step s).context.origins.get? name = (s.context.origins.get? name).or (op.origin? name) := by
  cases op with
  | claim other origin =>
    rw [context_claim, origin?]
    cases hother : s.context.origins.get? other with
    | some first =>
      -- Granted or refused, the claim of a name that has an origin leaves it.
      by_cases hname : other = name
      · simp [← hname, hother]
      · simp [hname]
    | none =>
      by_cases hname : other = name
      · simp [← hname, hother]
      · simp [hname, Ne.symm hname]
  | _ => simp [origin?]

/-- A name is under construction once it is started, until an operation ends that. -/
private theorem mem_inProgress_step (op : Operation) : name ∈ (op.step s).context.inProgress ↔
    op = .start name ∨ name ∈ s.context.inProgress ∧ op.ends name = false := by
  cases op with
  | claim other origin =>
    rw [context_claim]
    cases (s.context.origins.get? other).isSome <;> simp [ends]
  | start other => simp [ends, mem_inProgress_start, @eq_comm _ other]
  | abandon other => simp [ends, inProgress_abandon, @eq_comm _ other]
  | defer other => simp [ends]
  | complete type => simp [ends, inProgress_complete, @eq_comm _ type.name]

/-- The type that is completed takes the place of the entry that its name has. -/
private theorem reference?_step (op : Operation) :
    (op.step s).context.reference? name = (op.type? name).or (s.context.reference? name) := by
  cases op with
  | claim other origin =>
    rw [context_claim]
    cases (s.context.origins.get? other).isSome <;> rfl
  | complete type =>
    rw [context_complete, reference?_complete, type?]
    by_cases hname : type.name = name
    · simp [hname]
    · simp [hname, Ne.symm hname]
  | _ => simp [type?]

private theorem deferred_step (op : Operation) :
    (op.step s).context.deferred = s.context.deferred ++ op.deferred?.toList := by
  cases op with
  | claim other origin =>
    rw [context_claim]
    cases (s.context.origins.get? other).isSome <;> simp [deferred?]
  | _ => simp [deferred?]

end Operation

/-! ## All operations of a log -/

namespace Log

variable {log : List Operation} {op : Operation} {name : String}

private theorem session_concat (log : List Operation) (op : Operation) :
    session (log ++ [op]) = op.step (session log) := by
  rw [session, List.foldl_append]
  rfl

/-- The last operation was the start, or it does not end what was under construction. -/
private theorem constructs_concat : Constructs (log ++ [op]) name ↔
    op = .start name ∨ Constructs log name ∧ op.ends name = false := by
  constructor
  · rintro ⟨before, after, hlog, hafter⟩
    -- The start is the last operation itself, or the last one is among those after it.
    rcases List.eq_nil_or_concat after with rfl | ⟨after, last, rfl⟩
    · exact .inl (by simpa using (List.append_inj' hlog rfl).2)
    · rw [List.concat_eq_append, ← List.cons_append, ← List.append_assoc] at hlog
      obtain ⟨rfl, hlast⟩ := List.append_inj' hlog rfl
      obtain rfl := List.singleton_inj.1 hlast
      refine .inr ⟨⟨before, after, rfl, fun op hop => hafter op ?_⟩, hafter op ?_⟩
      · simp [hop]
      · simp
  · rintro (rfl | ⟨⟨before, after, rfl, hafter⟩, hop⟩)
    · exact ⟨log, [], rfl, by simp⟩
    · refine ⟨before, after ++ [op], by simp, fun other hother => ?_⟩
      rcases List.mem_append.1 hother with hother | hother
      · exact hafter other hother
      · exact List.mem_singleton.1 hother ▸ hop

/-- A log has a last type for a name exactly if one was completed under it. -/
private theorem isSome_type? : (type? log name).isSome = true ↔ Completes log name := by
  rw [type?, List.findSome?_isSome_iff]
  constructor
  · rintro ⟨op, hmem, hop⟩
    cases op with
    | complete type =>
      have hname : type.name = name := by simpa [Operation.type?] using hop
      exact ⟨type, List.mem_reverse.1 hmem, hname⟩
    | _ => cases hop
  · rintro ⟨type, hmem, rfl⟩
    exact ⟨.complete type, List.mem_reverse.2 hmem, by simp [Operation.type?]⟩

theorem origins_session (log : List Operation) (name : String) :
    (session log).context.origins.get? name = origin? log name := by
  induction log using List.reverseRecOn with
  | nil => rfl
  | append_singleton log op ih =>
    rw [session_concat, Operation.origins_step, ih, origin?, origin?, List.findSome?_append]
    simp

/-- The names under construction are those that the log constructs. -/
theorem mem_inProgress_session (log : List Operation) (name : String) :
    name ∈ (session log).context.inProgress ↔ Constructs log name := by
  -- Induction from the end of the log, since "not since" speaks of its last operations.
  induction log using List.reverseRecOn with
  | nil =>
    have hnone : ¬Constructs [] name := by
      rintro ⟨before, after, hlog, -⟩
      simp at hlog
    simp [hnone, session, Session.empty, Context.empty]
  | append_singleton log op ih =>
    rw [session_concat, Operation.mem_inProgress_step, ih, constructs_concat]

theorem reference?_session (log : List Operation) (name : String) :
    (session log).context.reference? name = type? log name := by
  induction log using List.reverseRecOn with
  | nil => rfl
  | append_singleton log op ih =>
    rw [session_concat, Operation.reference?_step, ih, type?, type?, List.reverse_concat,
      List.findSome?_cons]
    cases op.type? name <;> rfl

theorem deferred_session (log : List Operation) :
    (session log).context.deferred = deferred log := by
  induction log using List.reverseRecOn with
  | nil => rfl
  | append_singleton log op ih =>
    rw [session_concat, Operation.deferred_step, ih, deferred, deferred, List.filterMap_append]
    cases op <;> rfl

/-- A claim is refused if the first claim of the name has another origin, and only then. -/
private theorem run_claim_session {origin : String} {e : Error} {t : Session} :
    (Resolve.claim name origin : Resolve Unit).run (session log) = (.error e, t) ↔
      t = session log ∧ ∃ first, origin? log name = some first ∧ first ≠ origin ∧
        e = .ofFault (.duplicateReferenceName name first origin) := by
  rw [Resolve.run_claim, ← origins_session]
  -- Both directions go through `Context.claim`, which knows the first origin.
  constructor
  · intro h
    cases hclaim : (session log).context.claim name origin with
    | ok c =>
      rw [hclaim] at h
      cases (Prod.mk.inj h).1
    | error fault =>
      rw [hclaim] at h
      obtain ⟨he, rfl⟩ := Prod.mk.inj h
      obtain ⟨first, hfirst, hne, rfl⟩ := claim_eq_error hclaim
      exact ⟨rfl, first, hfirst, hne, (Except.error.inj he).symm⟩
  · rintro ⟨rfl, first, hfirst, hne, rfl⟩
    have hclaim : (session log).context.claim name origin =
        .error (.duplicateReferenceName name first origin) := by
      simp [Context.claim, hfirst, hne]
    rw [hclaim]

end Log

/-- A context answers as its log says. A claim is refused exactly if the name was first claimed with
another origin, and then nothing changes; a name is under construction exactly if it was started and
neither given up nor completed since; its entry is the type that was completed last. A run ends well
exactly if all deferred names were completed, before or after; if not, the first one is reported. -/
theorem context_by_log (log : List Operation) :
    let s := Log.session log
    (∀ name origin e t, (Resolve.claim name origin : Resolve Unit).run s = (.error e, t) ↔
      t = s ∧ ∃ first, Log.origin? log name = some first ∧ first ≠ origin ∧
        e = .ofFault (.duplicateReferenceName name first origin)) ∧
    (∀ name, s.context.isInProgress name = true ↔ Log.Constructs log name) ∧
    (∀ name, s.context.reference? name = Log.type? log name) ∧
    ((∃ table, s.context.finish = .ok table) ↔
      ∀ name ∈ Log.deferred log, Log.Completes log name) ∧
    (∀ table, s.context.finish = .ok table → ∀ name, table.get? name = Log.type? log name) ∧
    ∀ fault, s.context.finish = .error fault ↔
      ∃ before name after, Log.deferred log = before ++ name :: after ∧
        fault = .unfinishedReference name ∧ ¬Log.Completes log name ∧
        ∀ earlier ∈ before, Log.Completes log earlier := by
  intro s
  -- An entry is there exactly if a type was completed.
  have hcompletes : ∀ name, (s.context.reference? name).isSome = true ↔ Log.Completes log name := by
    intro name
    rw [Log.reference?_session, Log.isSome_type?]
  refine ⟨fun name origin e t => Log.run_claim_session, fun name => ?_, Log.reference?_session log,
    ?_, fun table htable name => ?_, fun fault => ?_⟩
  · rw [isInProgress_eq_true, Log.mem_inProgress_session]
  · simp only [finish_eq_ok, hcompletes, Log.deferred_session, s]
    exact ⟨fun h => h.choose_spec.2, fun h => ⟨_, rfl, h⟩⟩
  · rw [(finish_eq_ok.1 htable).1]
    exact Log.reference?_session log name
  · simp only [finish_eq_error, hcompletes, Log.deferred_session, s]

end Endpoints
