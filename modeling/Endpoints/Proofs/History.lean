import Endpoints.Proofs.Track

/-!
# Histories of a context

Types are resolved one after the other in one session, and a type that cannot be resolved does not
stop the others. What holds of each run holds of the whole history: the context advances, and it
stays sound from the empty one on.
-/

namespace Endpoints

namespace Resolver

/-- Resolves types one after the other and gives their outcomes. -/
def resolveEach (r : Resolver) (s : Session) :
    List (TypeExpr × Hints) → List (Except Error Schema) × Session
  | [] => ([], s)
  | (type, hints) :: calls =>
    let (outcome, t) := (r.resolve type hints).run s
    let (outcomes, u) := r.resolveEach t calls
    (outcome :: outcomes, u)

variable {r : Resolver}

/-- A history advances the context, whatever its outcomes are. -/
theorem resolveEach_advances (r : Resolver) (s : Session) (calls : List (TypeExpr × Hints)) :
    s.context.Advances r.Known (r.resolveEach s calls).2.context := by
  induction calls generalizing s with
  | nil => exact .refl _
  | cons call calls ih =>
    obtain ⟨type, hints⟩ := call
    rcases hrun : (r.resolve type hints).run s with ⟨o, t⟩
    simp only [resolveEach, hrun]
    exact (resolve_tracks type hints ∅ s o t hrun).advances.trans (ih t)

/-- A history keeps a context sound, and its outcomes hold handles that are granted at its end. -/
theorem resolveEach_sound (r : Resolver) (s : Session) (hs : s.context.Sound r.Known)
    (calls : List (TypeExpr × Hints)) :
    (r.resolveEach s calls).2.context.Sound r.Known ∧
      ∀ schema, .ok schema ∈ (r.resolveEach s calls).1 →
        schema.Within ((r.resolveEach s calls).2.context.granted r.Known) := by
  induction calls generalizing s with
  | nil => exact ⟨hs, fun schema hmem => nomatch hmem⟩
  | cons call calls ih =>
    obtain ⟨type, hints⟩ := call
    rcases hrun : (r.resolve type hints).run s with ⟨o, t⟩
    have houtcome := resolve_tracks type hints ∅ s o t hrun
    obtain ⟨hsound, hgranted⟩ := ih t (houtcome.sound hs (Set.empty_subset _))
    simp only [resolveEach, hrun]
    refine ⟨hsound, fun schema hmem => ?_⟩
    rcases List.mem_cons.1 hmem with heq | hmem
    · -- The first outcome is granted when it is given, and all later contexts grant it too.
      obtain ⟨B, _, hwithin, hB⟩ := houtcome.value schema heq.symm
      have hlater := (resolveEach_advances r t calls).toGrows.keeps
      exact hwithin.mono ((hB hs (Set.empty_subset _)).trans (Context.granted_mono hlater))
    · exact hgranted schema hmem

/-- The resolver of a program with one file, which has no declarations if it cannot be read. -/
def ofText (text : String) : Resolver :=
  match ProgramFile.parse "models.ts" text with
  | .ok file => ⟨.ofProgram [file], ⟨[]⟩⟩
  | .error _ => ⟨.empty, ⟨[]⟩⟩

theorem exists_run_of_isOk {x : Resolve Schema} {s : Session} (h : (x.run s).1.isOk = true) :
    ∃ v, x.run s = (.ok v, (x.run s).2) := by
  rcases hrun : x.run s with ⟨e | v, t⟩
  · rw [hrun] at h
    exact nomatch h
  · exact ⟨v, rfl⟩

end Resolver

/-! ## Finished tables -/

private theorem Context.Grants.isSome_of_finish {P : Instantiation → Prop} {c : Context}
    {handle : Handle}
    {table : Dict ReferenceType} (h : c.Grants P handle) (hfinish : c.finish = .ok table) :
    (table.get? handle.name).isSome := by
  obtain ⟨rfl, hdeferred⟩ := finish_eq_ok.1 hfinish
  rcases h.known with hknown | hname
  · exact hknown
  · exact hdeferred _ hname

/-- No dangling handles: if a history ends with a finished table, then every entry stands under its
own name, and every handle in an entry or in a type that was resolved has an entry. -/
theorem finished_table_closed (r : Resolver) (calls : List (TypeExpr × Hints))
    {table : Dict ReferenceType}
    (h : (r.resolveEach .empty calls).2.context.finish = .ok table) :
    (∀ name type, table.get? name = some type →
      type.name = name ∧ ∀ handle ∈ type.handles, (table.get? handle.name).isSome) ∧
    ∀ schema, .ok schema ∈ (r.resolveEach .empty calls).1 →
      ∀ handle ∈ schema.handles, (table.get? handle.name).isSome := by
  -- The whole history keeps the context sound, and every answer keeps to what the context grants.
  obtain ⟨hsound, hgranted⟩ := r.resolveEach_sound .empty Context.sound_empty calls
  constructor
  · intro name type htype
    rw [(Context.finish_eq_ok.1 h).1] at htype
    have hentry := hsound name type htype
    refine ⟨hentry.name, fun handle hhandle => ?_⟩
    exact (hentry.within handle hhandle).isSome_of_finish h
  · intro schema hschema handle hhandle
    exact (hgranted schema hschema handle hhandle).isSome_of_finish h

/-- Two interfaces that refer to each other, resolved after a type that fails and has left one of
them behind. -/
theorem mutual_interfaces_closed :
    let r := Resolver.ofText
      "interface A { b: B[] }\ninterface B { a?: A }\ninterface C { b: B, d: Missing }"
    let history := r.resolveEach .empty
      [(.named "C", .none), (.array (.named "A"), .none), (.named "B", .none)]
    let c := history.2.context
    history.1.map (·.isOk) = [false, true, true] ∧ c.deferred = ["B"] ∧
    c.table.keys = ["A", "B"] ∧ c.finish = .ok c.table ∧
    (∀ name type, c.table.get? name = some type →
      type.name = name ∧ ∀ handle ∈ type.handles, (c.table.get? handle.name).isSome) ∧
    ∀ schema, .ok schema ∈ history.1 →
      ∀ handle ∈ schema.handles, (c.table.get? handle.name).isSome := by
  intro r history c
  -- The run is evaluated; that the table is then finished follows from the deferred names.
  have hrun : history.1.map (·.isOk) = [false, true, true] ∧ c.deferred = ["B"] ∧
      c.table.keys = ["A", "B"] ∧ ∀ name ∈ c.deferred, (c.reference? name).isSome := by
    decide +kernel
  have hfinish : c.finish = .ok c.table := Context.finish_eq_ok.2 ⟨rfl, hrun.2.2.2⟩
  exact ⟨hrun.1, hrun.2.1, hrun.2.2.1, hfinish, finished_table_closed r _ hfinish⟩

end Endpoints
