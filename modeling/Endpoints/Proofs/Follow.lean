import Endpoints.Proofs.Replay

/-!
# Runs beside a closed context

Suppose a type can be resolved in a closed context without any change there. Then resolution in
another context that agrees with the closed one follows: it gives the same value, and whatever it
enters on the way is what the closed context has. It can only fail for what was resolved before it:
a type is still under construction when its properties are asked for, or the constructions lie too
deep.
-/

namespace Endpoints

open Context Resolver

/-- Whether the fault can be owed to what was resolved before: a type is needed while it is under
construction, or too many types are. -/
def Fault.DependsOnOrder : Fault → Prop
  | .unsupportedType (.incomplete _) | .unsupportedType (.tooDeep _) => True
  | _ => False

/-! ## Contexts that agree -/

namespace Context

/-- No name has different entries or origins in the two contexts. -/
structure Agrees (c c' : Context) : Prop where
  table : ∀ name type type', c.reference? name = some type → c'.reference? name = some type' →
    type = type'
  origins : ∀ name origin origin', c.origins.get? name = some origin →
    c'.origins.get? name = some origin' → origin = origin'

/-- All entries and origins that the second context has beyond the first come from `W`. -/
structure DrawsOn (W c c' : Context) : Prop where
  table : ∀ name type, c'.reference? name = some type →
    c.reference? name = some type ∨ W.reference? name = some type
  origins : ∀ name origin, c'.origins.get? name = some origin →
    c.origins.get? name = some origin ∨ W.origins.get? name = some origin

namespace DrawsOn

variable {W c c' c'' : Context} {name origin : String} {type : ReferenceType}

theorem refl (W c : Context) : DrawsOn W c c := ⟨fun _ _ => .inl, fun _ _ => .inl⟩

theorem trans (h : DrawsOn W c c') (h' : DrawsOn W c' c'') : DrawsOn W c c'' where
  table name type htype := (h'.table name type htype).elim (h.table name type) .inr
  origins name origin ho := (h'.origins name origin ho).elim (h.origins name origin) .inr

/-- What is drawn from `W` keeps the agreement with `W`. -/
theorem agrees (h : DrawsOn W c c') (hc : c.Agrees W) : c'.Agrees W where
  table name type type' htype htype' := by
    rcases h.table name type htype with htype | htype
    · exact hc.table name type type' htype htype'
    · exact Option.some.inj (htype.symm.trans htype')
  origins name origin origin' ho ho' := by
    rcases h.origins name origin ho with ho | ho
    · exact hc.origins name origin origin' ho ho'
    · exact Option.some.inj (ho.symm.trans ho')

/-- A claim that the other context has, too. -/
theorem claim (hW : W.origins.get? name = some origin) (h : c.claim name origin = .ok c') :
    DrawsOn W c c' where
  table other type htype := .inl (by rwa [reference?_claim h] at htype)
  origins other found hfound := by
    rcases claim_eq_ok.1 h with ⟨_, rfl⟩ | ⟨_, rfl⟩
    · exact .inl hfound
    · rw [Dict.get?_insert] at hfound
      split at hfound
      · next heq => exact .inr (heq ▸ hfound ▸ hW)
      · exact .inl hfound

theorem start (W c : Context) (name : String) : DrawsOn W c (c.start name) :=
  ⟨fun _ _ h => .inl (by simpa using h), fun _ _ h => .inl (by simpa using h)⟩

theorem abandon (W c : Context) (name : String) : DrawsOn W c (c.abandon name) :=
  ⟨fun _ _ => .inl, fun _ _ => .inl⟩

private theorem defer (W c : Context) (name : String) : DrawsOn W c (c.defer name) :=
  ⟨fun _ _ => .inl, fun _ _ => .inl⟩

theorem complete (hW : W.reference? type.name = some type) : DrawsOn W c (c.complete type) where
  table other found hfound := by
    rw [reference?_complete] at hfound
    split at hfound
    · next heq => exact .inr (heq ▸ hfound ▸ hW)
    · exact .inl hfound
  origins _ _ := .inl

end DrawsOn

end Context

variable {r : Resolver} {E : Region r} {W : Context} {A : Set Handle} {α β : Type}

/-! ## Runs without changes -/

/-- Some run of the computation gives the value and leaves the context as it is. -/
def Stays (W : Context) (x : Resolve α) (v : α) : Prop :=
  ∃ warnings warnings', x.run ⟨W, warnings⟩ = (.ok v, ⟨W, warnings'⟩)

theorem Gives.stays {x : Resolve α} {v : α} (h : Gives W x v) : Stays W x v := ⟨[], h []⟩

variable {Q : Set Handle → α → Prop}

/-- The parts of a sequence leave the context as it is, if the sequence does. -/
theorem Stays.bind {P : Instantiation → Prop} {R : Set Handle → β → Prop} {x : Resolve α}
    {f : α → Resolve β} {b : β} (hx : Tracks P A Q x)
    (hf : ∀ B, A ⊆ B → ∀ a, Q B a → Tracks P B R (f a)) (h : Stays W (x >>= f) b) :
    ∃ a, Stays W x a ∧ Stays W (f a) b := by
  obtain ⟨w, w', hrun⟩ := h
  obtain ⟨a, ⟨c, w''⟩, hfirst, hrest⟩ := Resolve.run_bind_ok.1 hrun
  -- The second part leads back to where the first began, so neither has moved.
  have houtcome := hx _ _ _ hfirst
  obtain ⟨B, hB, ha, _⟩ := houtcome.value a rfl
  have hback := (hf B hB a ha _ _ _ hrest).advances
  obtain rfl : W = c := houtcome.advances.antisymm hback
  exact ⟨a, ⟨w, w'', hfirst⟩, ⟨w'', w', hrest⟩⟩

theorem Stays.inside {place : Place} {x : Resolve α} {v : α} (h : Stays W (.inside place x) v) :
    Stays W x v := by
  obtain ⟨w, w', hrun⟩ := h
  exact ⟨w, w', Resolve.run_inside_ok.1 hrun⟩

section Use

variable {P : Instantiation → Prop} {i : Instantiation} {v : Schema}

/-- A name that is used without a change has an entry. -/
theorem stays_useName {construct : Resolve ReferenceType}
    (hconstruct : Tracks P A i.IsEntry construct)
    (h : Stays W (Resolver.useName i.name i.location i.referent construct) v) :
    v = .ofKind (.reference i.referent i.name) ∧ W.origins.get? i.name = some i.location ∧
      (W.reference? i.name).isSome := by
  obtain ⟨w, w', hrun⟩ := h
  generalize ho : (Except.ok v : Except Error Schema) = o at hrun
  generalize ht : (⟨W, w'⟩ : Session) = t at hrun
  cases useOutcome_iff.1 hrun with
  | refused | tooDeep | failed => exact nomatch ho
  | @known c hclaim hknown =>
    obtain rfl : W = c := congrArg Session.context ht
    exact ⟨Except.ok.inj ho, origin_claim hclaim, hknown⟩
  | @deferred c hclaim hnone hmem =>
    -- There would be one more deferred name.
    have hdeferred : W.deferred = c.deferred ++ [i.name] :=
      congrArg (fun t : Session => t.context.deferred) ht
    rw [deferred_claim hclaim] at hdeferred
    simp at hdeferred
  | @built c type u hclaim hnone hnew hdepth hrun' =>
    -- There would be one more entry.
    obtain ⟨_, _, hentry, _⟩ := (hconstruct _ _ _ hrun').value type rfl
    have htable : W.reference? i.name = (u.context.complete type).reference? i.name :=
      congrArg (fun t : Session => t.context.reference? i.name) ht
    have hsame : c.reference? i.name = W.reference? i.name := reference?_claim hclaim
    rw [← hsame, hnone, reference?_complete, if_pos hentry.name.symm] at htable
    exact nomatch htable

/-- An enum that is used without a change has an entry. -/
theorem stays_enumReference {d : EnumDecl} (hd : i.declaration.declaration = .ofEnum d)
    (h : Stays W (Resolver.enumReference i.declaration d) v) :
    ∃ type, v = type.handle ∧ W.origins.get? i.name = some i.location ∧
      W.reference? i.name = some type := by
  obtain ⟨w, w', hrun⟩ := h
  generalize ho : (Except.ok v : Except Error Schema) = o at hrun
  generalize ht : (⟨W, w'⟩ : Session) = t at hrun
  cases (run_enumReference_iff hd).1 hrun with
  | refused => exact nomatch ho
  | @known c type hclaim htype =>
    obtain rfl : W = c := congrArg Session.context ht
    exact ⟨type, Except.ok.inj ho, origin_claim hclaim, htype⟩
  -- An entry that is added now cannot have been there before.
  | @built c hclaim hnone =>
    have htable : W.reference? i.name =
        (c.complete (enumEntry d i.name)).reference? i.name :=
      congrArg (fun t : Session => t.context.reference? i.name) ht
    have hsame : c.reference? i.name = W.reference? i.name := reference?_claim hclaim
    rw [← hsame, hnone, reference?_complete] at htable
    simp [enumEntry] at htable

end Use

/-! ## Runs that follow -/

/-- The two contexts agree, and both have given out the handles `A`. -/
structure Beside (E : Region r) (W : Context) (A : Set Handle) (c : Context) : Prop where
  sound : c.Sound E.Uses
  agrees : c.Agrees W
  known : A ⊆ W.granted E.Uses
  given : A ⊆ c.granted E.Uses

/-- What has become of a context at the end of a run that follows one with the value `v`. -/
structure Followed (E : Region r) (W : Context) (A : Set Handle) (Q : Set Handle → α → Prop) (v : α)
    (c : Context) (o : Except Error α) (c' : Context) : Prop where
  draws : Context.DrawsOn W c c'
  error : ∀ e, o = .error e → e.fault ≠ .unsupportedType .unbounded → e.fault.DependsOnOrder
  value : ∀ v', o = .ok v' →
    v' = v ∧ ∃ B, A ⊆ B ∧ Q B v ∧ B ⊆ W.granted E.Uses ∧ B ⊆ c'.granted E.Uses

private theorem Followed.of_draws {v : α} {c c' d : Context} {o : Except Error α}
    (hdraws : Context.DrawsOn W d c) (h : Followed E W A Q v c o c') : Followed E W A Q v d o c' :=
  ⟨hdraws.trans h.draws, h.error, h.value⟩

/-- Runs of the second computation follow those of the first that stay in the context. -/
def Follows (E : Region r) (W : Context) (A : Set Handle) (Q : Set Handle → α → Prop)
    (x y : Resolve α) : Prop :=
  Tracks E.Uses A Q x ∧ Tracks E.Uses A Q y ∧ ∀ v s o t, Stays W x v → y.run s = (o, t) →
    Beside E W A s.context → Followed E W A Q v s.context o t.context

theorem Beside.of_run {c c' : Context} {o : Except Error α} {B : Set Handle} (h : Beside E W A c)
    (houtcome : Outcome E.Uses A Q c o c') (hdraws : Context.DrawsOn W c c')
    (hB : B ⊆ W.granted E.Uses) (hB' : B ⊆ c'.granted E.Uses) : Beside E W B c' :=
  ⟨houtcome.sound h.sound h.given, hdraws.agrees h.agrees, hB, hB'⟩

private theorem Beside.claim_start {c c' : Context} {name origin : String} (h : Beside E W A c)
    (hclaim : c.claim name origin = .ok c') (hdraws : Context.DrawsOn W c (c'.start name)) :
    Beside E W A (c'.start name) :=
  ⟨h.sound.claim_start hclaim, hdraws.agrees h.agrees, h.known,
    h.given.trans (granted_mono (.claim_start hclaim))⟩

namespace Follows

variable {Q : Set Handle → α → Prop} {x y : Resolve α}

/-- It is enough to compare the values, where `Q` is about handles only. -/
private theorem of_value (hQ : ∀ {B D v}, Q B v → Q D v → Q (B ∩ D) v) (hW : W.Sound E.Uses)
    (hx : Tracks E.Uses A Q x) (hy : Tracks E.Uses A Q y)
    (h : ∀ v s o t, Stays W x v → y.run s = (o, t) → Beside E W A s.context →
      Context.DrawsOn W s.context t.context ∧
      match o with
      | .error e => e.fault ≠ .unsupportedType .unbounded → e.fault.DependsOnOrder
      | .ok v' => v' = v) : Follows E W A Q x y := by
  refine ⟨hx, hy, fun v s o t hstays hrun hs => ?_⟩
  obtain ⟨hdraws, hend⟩ := h v s o t hstays hrun hs
  refine ⟨hdraws, ?_, ?_⟩
  · rintro e rfl
    exact hend
  -- Both runs gave one value, which keeps to what both contexts grant.
  · rintro v' rfl
    obtain rfl : v' = v := hend
    obtain ⟨w, w', hstay⟩ := hstays
    exact ⟨rfl, (hx _ _ _ hstay).exists_common hQ hW hs.known (hy _ _ _ hrun) hs.sound hs.given⟩

theorem pure {a : α} (h : Q A a) : Follows E W A Q (Pure.pure a) (Pure.pure a) := by
  refine ⟨.pure h, .pure h, fun v s o t hstays hrun hs => ?_⟩
  obtain ⟨w, w', hstay⟩ := hstays
  obtain rfl := Except.ok.inj (Prod.mk.inj hstay).1
  obtain ⟨rfl, rfl⟩ := Prod.mk.inj hrun
  refine ⟨.refl _ _, (fun e he => nomatch he), fun v' hv' => ?_⟩
  exact ⟨(Except.ok.inj hv').symm, A, subset_rfl, h, hs.known, hs.given⟩

/-- Sequences follow if their parts do, for each value of the first part. -/
theorem bind {R : Set Handle → β → Prop} {f g : α → Resolve β} (hx : Follows E W A Q x y)
    (hf : ∀ B, A ⊆ B → ∀ a, Q B a → Follows E W B R (f a) (g a)) :
    Follows E W A R (x >>= f) (y >>= g) := by
  refine ⟨hx.1.bind fun B hB a ha => (hf B hB a ha).1,
    hx.2.1.bind fun B hB a ha => (hf B hB a ha).2.1, fun v s o t hstays hrun hs => ?_⟩
  -- The parts of the run that stays, and then the run that follows, which may end at its first
  -- part.
  obtain ⟨a, hfirst, hrest⟩ := hstays.bind hx.1 fun B hB a ha => (hf B hB a ha).1
  rcases hy : y.run s with ⟨e | a', u⟩
  · rw [Resolve.run_bind_of_error hy] at hrun
    obtain ⟨rfl, rfl⟩ := Prod.mk.inj hrun
    have hfollowed := hx.2.2 a s _ _ hfirst hy hs
    refine ⟨hfollowed.draws, fun e' he' => ?_, fun v' hv' => nomatch hv'⟩
    exact Except.error.inj he' ▸ hfollowed.error e rfl
  · rw [Resolve.run_bind_of_ok hy] at hrun
    have hfollowed := hx.2.2 a s _ _ hfirst hy hs
    obtain ⟨rfl, B, hAB, ha, hB, hB'⟩ := hfollowed.value a' rfl
    have hu := hs.of_run (hx.2.1 s _ _ hy) hfollowed.draws hB hB'
    have hfollowed' := (hf B hAB a' ha).2.2 v u o t hrest hrun hu
    refine ⟨hfollowed.draws.trans hfollowed'.draws, hfollowed'.error, fun v' hv' => ?_⟩
    obtain ⟨heq, D, hBD, hD⟩ := hfollowed'.value v' hv'
    exact ⟨heq, D, hAB.trans hBD, hD⟩

/-- A place is added to errors only. -/
theorem inside {place : Place} (h : Follows E W A Q x y) :
    Follows E W A Q (.inside place x) (.inside place y) := by
  refine ⟨h.1.inside, h.2.1.inside, fun v s o t hstays hrun hs => ?_⟩
  rw [Resolve.run_inside] at hrun
  rcases hy : y.run s with ⟨e | a, u⟩ <;> rw [hy] at hrun <;> obtain ⟨rfl, rfl⟩ := Prod.mk.inj hrun
  · have hfollowed := h.2.2 v s _ _ hstays.inside hy hs
    refine ⟨hfollowed.draws, fun e' he' => ?_, fun v' hv' => nomatch hv'⟩
    exact Except.error.inj he' ▸ hfollowed.error e rfl
  · exact h.2.2 v s _ _ hstays.inside hy hs

private theorem of_not_stays (hx : Tracks E.Uses A Q x) (hy : Tracks E.Uses A Q y)
    (h : ∀ v, ¬ Stays W x v) : Follows E W A Q x y :=
  ⟨hx, hy, fun v _ _ _ hstays => absurd hstays (h v)⟩

end Follows

def followComposition (E : Region r) (W : Context) : Composition Resolve Resolve where
  Rel := Follows E W
  rel_pure := .pure
  rel_bind := .bind
  formed := Schema.formed_within

private theorem Beside.sameEnums {c : Context} (h : Beside E W A c) : SameEnums A W c := by
  intro handle hmem henum
  obtain ⟨type, htype⟩ := Option.isSome_iff_exists.1 ((h.known hmem).finished henum)
  obtain ⟨type', htype'⟩ := Option.isSome_iff_exists.1 ((h.given hmem).finished henum)
  rw [htype, htype', h.agrees.table _ _ _ htype' htype]

/-- The steps of resolution follow if their parts do. -/
private theorem followSimulation (hW : W.Sound E.Uses) (p q : Parts Resolve) :
    (followComposition E W).Simulation p q where
  rel_fail _ := .of_not_stays .fail .fail fun v ⟨_, _, h⟩ => nomatch h
  rel_inside := .inside
  rel_warn A warning := by
    have htracks := (trackSimulation E.Uses q).rel_warn A warning
    refine .of_value (by simp) hW htracks htracks fun v s o t _ hrun _ => ?_
    obtain ⟨rfl, rfl⟩ := Prod.mk.inj hrun
    exact ⟨.refl _ _, rfl⟩
  rel_shapeOf A schema hs := by
    have htracks := (trackSimulation E.Uses q).rel_shapeOf A schema hs
    refine .of_value ObjectShape.Within.inter hW htracks htracks
      fun v s o t hstays hrun hbeside => ?_
    obtain ⟨w, w', hstay⟩ := hstays
    rw [Resolve.run_shapeOf] at hstay hrun
    cases hshape : W.shapeOf schema with
    | error fault =>
      rw [hshape] at hstay
      exact nomatch hstay
    | ok shape =>
      rw [hshape] at hstay
      obtain rfl := Except.ok.inj (Prod.mk.inj hstay).1
      -- An entry that the closed context has and the other has not may be under construction there.
      have hentries : ∀ name type, W.reference? name = some type →
          s.context.reference? name = some type ∨ (s.context.reference? name = none ∧
            Fault.DependsOnOrder (.unsupportedType (.incomplete name))) := by
        intro name type htype
        cases hother : s.context.reference? name with
        | none => exact .inr ⟨rfl, trivial⟩
        | some other => exact .inl (by rw [hbeside.agrees.table _ _ _ hother htype])
      have hmatches := shapeOf_matches Fault.DependsOnOrder hentries
        (by simp [Fault.DependsOnOrder]) schema
      rcases hmatches shape hshape with hsame | ⟨fault, hfault, herror⟩
      · rw [hsame] at hrun
        obtain ⟨rfl, rfl⟩ := Prod.mk.inj hrun
        exact ⟨.refl _ _, rfl⟩
      · rw [herror] at hrun
        obtain ⟨rfl, rfl⟩ := Prod.mk.inj hrun
        exact ⟨.refl _ _, fun _ => hfault⟩
  rel_union A members hints h := by
    refine .bind ((followComposition E W).rel_resolveAll (A := A) h)
      fun B _ schemas ⟨_, hschemas⟩ => ?_
    refine .of_value .inter hW (.toSchema hschemas) (.toSchema hschemas)
      fun v s o t hstays hrun hs => ?_
    obtain ⟨w, w', hstay⟩ := hstays
    obtain rfl := Except.ok.inj (Prod.mk.inj hstay).1
    obtain ⟨rfl, rfl⟩ := Prod.mk.inj hrun
    exact ⟨.refl _ _, (UnionParts.toSchema_congr hs.sameEnums
      (UnionParts.foldl_add_within (by simp) hschemas)).symm⟩

/-! ## Named types -/

namespace Follows

variable {i : Instantiation} (hW : Closed E W) (hdistinct : NamesDistinct E.Uses)
include hW hdistinct

/-- The use of a name, where its construction follows every construction in the closed context. -/
theorem useName {n : Nat} (hi : E.Uses i) (hreferent : i.referent ≠ .enum)
    (h : ∀ m A, Follows E W A i.IsEntry (r.construct (E.resolveWithin m) i)
      (r.construct (E.resolveWithin n) i)) (m : Nat) (A : Set Handle) :
    Follows E W A Schema.Within
      (Resolver.useName i.name i.location i.referent (r.construct (E.resolveWithin m) i))
      (Resolver.useName i.name i.location i.referent (r.construct (E.resolveWithin n) i)) := by
  have htracks := (h m A).2.1
  refine .of_value .inter hW.sound (.useName hi hreferent (h m A).1) (.useName hi hreferent htracks)
    fun v s o t hstays hrun hs => ?_
  obtain ⟨rfl, horigin, hknown⟩ := stays_useName (h m A).1 hstays
  obtain ⟨entry, hentry⟩ := Option.isSome_iff_exists.1 hknown
  have hclaimed {c : Context} (hclaim : s.context.claim i.name i.location = .ok c) :
      Context.DrawsOn W s.context c := .claim horigin hclaim
  -- The construction follows the one by which the closed context can make its entry again.
  have hconstructed {c : Context} {o : Except Error ReferenceType} {u : Session}
      (hclaim : s.context.claim i.name i.location = .ok c)
      (hrun : (r.construct (E.resolveWithin n) i).run { s with context := c.start i.name } =
        (o, u)) : Followed E W A i.IsEntry entry s.context o u.context := by
    obtain ⟨bound, hgives⟩ := hW.gives hdistinct hi horigin hentry
    have hdraws := (hclaimed hclaim).trans (.start W c i.name)
    exact .of_draws hdraws ((h bound A).2.2 entry _ _ _ hgives.stays hrun
      (hs.claim_start hclaim hdraws))
  cases useOutcome_iff.1 hrun with
  | refused hclaim =>
    -- The closed context has granted the same claim.
    obtain ⟨first, hfirst, hne, _⟩ := claim_eq_error hclaim
    exact absurd (hs.agrees.origins _ _ _ hfirst horigin) hne
  | known hclaim => exact ⟨hclaimed hclaim, rfl⟩
  | @deferred c hclaim => exact ⟨(hclaimed hclaim).trans (.defer W c i.name), rfl⟩
  | tooDeep hclaim => exact ⟨hclaimed hclaim, fun _ => trivial⟩
  | @built c type u hclaim hnone hnew hdepth hrun' =>
    have hfollowed := hconstructed hclaim hrun'
    obtain ⟨rfl, _⟩ := hfollowed.value type rfl
    have hname : type.name = i.name := (hW.sound _ _ hentry).name
    exact ⟨hfollowed.draws.trans (.complete (hname.symm ▸ hentry)), rfl⟩
  | @failed c e u hclaim hnone hnew hdepth hrun' =>
    have hfollowed := hconstructed hclaim hrun'
    exact ⟨hfollowed.draws.trans (.abandon W u.context i.name), hfollowed.error e rfl⟩

/-- The use of an enum. -/
theorem enumReference {d : EnumDecl} (hi : E.Uses i)
    (hd : i.declaration.declaration = .ofEnum d) (A : Set Handle) :
    Follows E W A Schema.Within (Resolver.enumReference i.declaration d)
      (Resolver.enumReference i.declaration d) := by
  refine .of_value .inter hW.sound (.enumReference hi hd) (.enumReference hi hd)
    fun v s o t hstays hrun hs => ?_
  obtain ⟨entry, rfl, horigin, hentry⟩ := stays_enumReference hd hstays
  cases (run_enumReference_iff hd).1 hrun with
  -- The closed context has granted the same claim.
  | refused hclaim =>
    obtain ⟨first, hfirst, hne, _⟩ := claim_eq_error hclaim
    exact absurd (hs.agrees.origins _ _ _ hfirst horigin) hne
  | @known c type hclaim htype =>
    rw [reference?_claim hclaim] at htype
    refine ⟨.claim horigin hclaim, ?_⟩
    rw [hs.agrees.table _ _ _ htype hentry]
  | @built c hclaim hnone =>
    -- The entry of an enum is the same wherever it is made.
    have hsame : enumEntry d i.name = entry := by
      obtain ⟨bound, hgives⟩ := hW.gives hdistinct hi horigin hentry
      obtain ⟨w, w', hrun'⟩ := hgives.stays
      unfold construct at hrun'
      rw [hd] at hrun'
      exact Except.ok.inj (Prod.mk.inj hrun').1
    rw [hsame]
    have hentryName : entry.name = i.name := (hW.sound _ _ hentry).name
    exact ⟨(Context.DrawsOn.claim horigin hclaim).trans (.complete (hentryName.symm ▸ hentry)), rfl⟩

end Follows

/-! ## Resolution -/

section Resolution

variable (hW : Closed E W) (hdistinct : NamesDistinct E.Uses)
include hW hdistinct

/-- Resolution follows what can be resolved in a closed context, with any bounds. -/
theorem resolveWithin_follows (m n : Nat) (type : TypeExpr) (A : Set Handle) (hints : Hints) :
    Follows E W A Schema.Within (E.resolveWithin m type hints) (E.resolveWithin n type hints) := by
  refine (followComposition E W).resolves_of_uses (K := fun _ _ => True)
    (fun _ _ _ _ _ => trivial) (fun _ _ => Schema.within_intersectionSchema_nil)
    ?_ ?_ ?_ ?_ ?_ trivial type A hints
  · exact fun m n _ => followSimulation hW.sound _ _
  · exact fun m n _ => trivial
  · rintro m n - (rfl | rfl) type A hints
    · refine .of_not_stays .fail (resolveWithin_tracks E n type A hints) ?_
      exact fun v ⟨_, _, h⟩ => nomatch h
    · -- The second run has no bound left, which is not held against it here.
      refine .of_value .inter hW.sound (resolveWithin_tracks E m type A hints) .fail
        fun v s o t _ hrun _ => ?_
      obtain ⟨rfl, rfl⟩ := Prod.mk.inj hrun
      exact ⟨.refl _ _, fun hne => absurd rfl hne⟩
  · exact fun i d hi hd A => .enumReference hW hdistinct hi hd A
  · intro m n i _ hi hreferent hconstruct A
    exact .useName hW hdistinct hi hreferent (fun m' => hconstruct m' trivial) m A

theorem construct_follows (m n : Nat) {i : Instantiation} (hi : E.Uses i) (A : Set Handle) :
    Follows E W A i.IsEntry (r.construct (E.resolveWithin m) i)
      (r.construct (E.resolveWithin n) i) :=
  (followSimulation hW.sound _ _).rel_construct hi.declared fun part _ =>
    resolveWithin_follows hW hdistinct m n part

end Resolution

end Endpoints
