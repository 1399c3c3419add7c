import Endpoints.Proofs.Grant

/-!
# Runs of resolution

A computation is tracked if all its runs advance the context, keep it sound, and give out only
handles that the context grants by then. This holds of resolution in any region, from any context,
whether it succeeds or fails.
-/

namespace Endpoints

open Context Schema Resolver

variable {P : Instantiation → Prop} {A : Set Handle} {α β : Type}

/-- What has become of a context at the end of a run that started where the handles `A` were given
out. A value satisfies `Q` for handles that are given out by then. -/
structure Outcome (P : Instantiation → Prop) (A : Set Handle) (Q : Set Handle → α → Prop)
    (c : Context) (o : Except Error α) (c' : Context) : Prop where
  advances : c.Advances P c'
  sound : c.Sound P → A ⊆ c.granted P → c'.Sound P
  value : ∀ v, o = .ok v →
    ∃ B, A ⊆ B ∧ Q B v ∧ (c.Sound P → A ⊆ c.granted P → B ⊆ c'.granted P)

namespace Outcome

variable {Q : Set Handle → α → Prop} {c c' : Context}

/-- It is enough to look at values where the context is sound. -/
private theorem of_granted {v : α} (hadvances : c.Advances P c')
    (hsound : c.Sound P → A ⊆ c.granted P → c'.Sound P) (hall : Q Set.univ v)
    (hvalue : c.Sound P → A ⊆ c.granted P → Q (c'.granted P) v) :
    Outcome P A Q c (.ok v) c' := by
  refine ⟨hadvances, hsound, fun w hw => ?_⟩
  obtain rfl := Except.ok.inj hw
  -- Where it is not, nothing is said about the handles, and all of them will do.
  by_cases hc : c.Sound P ∧ A ⊆ c.granted P
  · have hA := hc.2.trans (granted_mono hadvances.toGrows.keeps)
    exact ⟨c'.granted P, hA, hvalue hc.1 hc.2, fun _ _ => subset_rfl⟩
  · exact ⟨Set.univ, Set.subset_univ A, hall, fun h hA => absurd ⟨h, hA⟩ hc⟩

private theorem of_error {e : Error} (hadvances : c.Advances P c')
    (hsound : c.Sound P → A ⊆ c.granted P → c'.Sound P) :
    Outcome P A Q c (.error e) c' :=
  ⟨hadvances, hsound, fun _ hv => nomatch hv⟩

private theorem of_value {v : α} (h : Q A v) : Outcome P A Q c (.ok v) c :=
  ⟨.refl c, fun hc _ => hc, fun _ hw => ⟨A, subset_rfl, Except.ok.inj hw ▸ h, fun _ hA => hA⟩⟩

theorem fail {e : Error} : Outcome P A Q c (.error e) c :=
  of_error (.refl c) fun hc _ => hc

theorem exists_common (hQ : ∀ {B D v}, Q B v → Q D v → Q (B ∩ D) v) {d d' : Context} {v : α}
    (h : Outcome P A Q c (.ok v) c') (hc : c.Sound P) (hA : A ⊆ c.granted P)
    (h' : Outcome P A Q d (.ok v) d') (hd : d.Sound P) (hA' : A ⊆ d.granted P) :
    ∃ B, A ⊆ B ∧ Q B v ∧ B ⊆ c'.granted P ∧ B ⊆ d'.granted P := by
  obtain ⟨B, hB, hv, hgranted⟩ := h.value v rfl
  obtain ⟨D, hD, hv', hgranted'⟩ := h'.value v rfl
  exact ⟨B ∩ D, Set.subset_inter hB hD, hQ hv hv',
    Set.inter_subset_left.trans (hgranted hc hA), Set.inter_subset_right.trans (hgranted' hd hA')⟩

end Outcome

/-- All runs of the computation end as they should. -/
def Tracks (P : Instantiation → Prop) (A : Set Handle) (Q : Set Handle → α → Prop)
    (x : Resolve α) : Prop :=
  ∀ s o t, x.run s = (o, t) → Outcome P A Q s.context o t.context

namespace Tracks

/-! ## Sequences -/

variable {Q : Set Handle → α → Prop}

theorem pure {a : α} (h : Q A a) : Tracks P A Q (Pure.pure a : Resolve α) := by
  intro s o t hrun
  obtain ⟨rfl, rfl⟩ := Prod.mk.inj hrun
  exact .of_value h

/-- A sequence is tracked part by part. The second part starts where the handles of the first have
been given out. -/
theorem bind {R : Set Handle → β → Prop} {x : Resolve α} {f : α → Resolve β} (hx : Tracks P A Q x)
    (hf : ∀ B, A ⊆ B → ∀ a, Q B a → Tracks P B R (f a)) : Tracks P A R (x >>= f) := by
  intro s o t hrun
  -- The first part fails, or the second one starts in the context after it.
  rcases hfirst : x.run s with ⟨e | a, u⟩
  · rw [Resolve.run_bind_of_error hfirst] at hrun
    obtain ⟨rfl, rfl⟩ := Prod.mk.inj hrun
    have h := hx s _ _ hfirst
    exact .of_error h.advances h.sound
  · rw [Resolve.run_bind_of_ok hfirst] at hrun
    have h := hx s _ _ hfirst
    obtain ⟨B, hAB, ha, hB⟩ := h.value a rfl
    have h' := hf B hAB a ha u o t hrun
    refine ⟨h.advances.trans h'.advances, fun hs hA => ?_, fun v hv => ?_⟩
    · exact h'.sound (h.sound hs hA) (hB hs hA)
    · obtain ⟨D, hBD, hv, hD⟩ := h'.value v hv
      exact ⟨D, hAB.trans hBD, hv, fun hs hA => hD (h.sound hs hA) (hB hs hA)⟩

theorem fail {fault : Fault} : Tracks P A Q (Resolve.fail fault : Resolve α) := by
  intro s o t hrun
  obtain ⟨rfl, rfl⟩ := Prod.mk.inj hrun
  exact .fail

theorem inside {place : Place} {x : Resolve α} (h : Tracks P A Q x) :
    Tracks P A Q (.inside place x) := by
  intro s o t hrun
  rw [Resolve.run_inside] at hrun
  rcases hx : x.run s with ⟨e | a, u⟩ <;> rw [hx] at hrun <;> obtain ⟨rfl, rfl⟩ := Prod.mk.inj hrun
  · exact .of_error (h s _ _ hx).advances (h s _ _ hx).sound
  · exact h s _ _ hx

private theorem read {f : Context → α} (hall : ∀ c, Q Set.univ (f c))
    (h : ∀ c : Context, c.Sound P → A ⊆ c.granted P → Q (c.granted P) (f c)) :
    Tracks P A Q (Resolve.context >>= fun c => Pure.pure (f c)) := by
  intro s o t hrun
  rw [Resolve.run_bind_of_ok (Resolve.run_context s)] at hrun
  obtain ⟨rfl, rfl⟩ := Prod.mk.inj hrun
  exact .of_granted (.refl _) (fun hs _ => hs) (hall _) (h _)

end Tracks

def trackComposition (P : Instantiation → Prop) : Composition Resolve Resolve where
  Rel A Q _ y := Tracks P A Q y
  rel_pure := .pure
  rel_bind := .bind
  formed := formed_within

theorem Tracks.toSchema {schemas : List Schema} (h : ∀ schema ∈ schemas, schema.Within A) :
    Tracks P A Within (Resolve.context >>= fun c =>
      Pure.pure ((schemas.foldl UnionParts.add ⟨[], false⟩).toSchema c)) := by
  refine .read (fun c => within_univ _) fun c _ hA => UnionParts.toSchema_within ?_
  exact UnionParts.foldl_add_within (by simp) fun schema hs => (h schema hs).mono hA

/-- The steps of resolution are tracked if their parts are. -/
theorem trackSimulation (P : Instantiation → Prop) (p : Parts Resolve) :
    (trackComposition P).Simulation p p where
  rel_fail _ := .fail
  rel_inside := .inside
  rel_warn A warning := by
    intro s o t hrun
    obtain ⟨rfl, rfl⟩ := Prod.mk.inj hrun
    exact .of_value trivial
  rel_shapeOf A schema hs := by
    intro s o t hrun
    rw [Resolve.run_shapeOf] at hrun
    cases hshape : s.context.shapeOf schema with
    | error fault =>
      rw [hshape] at hrun
      obtain ⟨rfl, rfl⟩ := Prod.mk.inj hrun
      exact .fail
    | ok shape =>
      rw [hshape] at hrun
      obtain ⟨rfl, rfl⟩ := Prod.mk.inj hrun
      -- The context is unchanged, and the shape has the handles of entries it grants.
      refine .of_granted (.refl _) (fun hc _ => hc) shape.within_univ fun hc hA => ?_
      have hentries name type (h : s.context.reference? name = some type) := (hc name type h).within
      exact s.context.shapeOf_within hentries (hs.mono hA) hshape
  rel_union A members hints h := by
    exact .bind ((trackComposition P).rel_resolveAll (A := A) h)
      fun B _ schemas hs => .toSchema hs.2

/-! ## Named types -/

section Use

variable {i : Instantiation} {c c' : Context}

private theorem grants_handle (hi : P i) (hreferent : i.referent ≠ .enum)
    (horigin : c.origins.get? i.name = some i.location)
    (hknown : (c.reference? i.name).isSome ∨ i.name ∈ c.deferred) : c.Grants P i.handle :=
  ⟨⟨i, hi, rfl, horigin⟩, fun h => absurd h hreferent, hknown⟩

/-- The use of a name, where its construction ends as it should. -/
private theorem Outcome.of_use {construct : Resolve ReferenceType} {s t : Session}
    {o : Except Error Schema}
    (h : UseOutcome i.name i.location i.referent construct s o t) (hi : P i)
    (hreferent : i.referent ≠ .enum) (hconstruct : Tracks P A i.IsEntry construct) :
    Outcome P A Within s.context o t.context := by
  -- One case for each way in which the use of a name can go.
  cases h with
  | refused hclaim => exact .fail
  | known hclaim hknown =>
    have hadvances := Advances.claim (P := P) hclaim
    refine .of_granted hadvances (fun hs _ => ?_) (within_univ _) fun _ _ => ?_
    · exact hs.of_table hadvances.toGrows.keeps fun _ => reference?_claim hclaim
    · exact within_reference.2
        (grants_handle hi hreferent (origin_claim hclaim) (.inl hknown))
  | @deferred c hclaim hnone hprogress =>
    have hadvances := (Advances.claim (P := P) hclaim).trans (.defer c i.name)
    have horigin : c.origins.get? i.name = some i.location := origin_claim hclaim
    refine .of_granted hadvances (fun hs _ => ?_) (within_univ _) fun _ _ => ?_
    · refine hs.of_table hadvances.toGrows.keeps fun name => ?_
      rw [reference?_defer, reference?_claim hclaim]
    · exact within_reference.2 (grants_handle hi hreferent horigin (.inr (by simp)))
  | tooDeep hclaim hnone hnew hdepth =>
    have hadvances := Advances.claim (P := P) hclaim
    refine .of_error hadvances fun hs _ => ?_
    exact hs.of_table hadvances.toGrows.keeps fun _ => reference?_claim hclaim
  | @built c type u hclaim hnone hnew hdepth hrun =>
    have hclaimed := Advances.claim (P := P) hclaim
    have hu := hconstruct _ _ _ hrun
    obtain ⟨B, hAB, hentry, hB⟩ := hu.value type rfl
    have hcomplete := Keeps.complete u.context type
    have horigin : u.context.origins.get? i.name = some i.location :=
      hu.advances.origins _ _ (by simpa using origin_claim hclaim)
    have hgrants : (u.context.complete type).Grants P i.handle :=
      grants_handle hi hreferent horigin (.inl (by simp [hentry.name]))
    refine .of_granted (hclaimed.trans (.complete hnone hnew hu.advances hentry.name))
      (fun hs hA => ?_) (within_univ _) fun _ _ => within_reference.2 hgrants
    -- The entry's handles were given out when its construction ended, and still are.
    have hs' := hs.claim_start hclaim
    have hA' := hA.trans (granted_mono (.claim_start hclaim))
    refine (hu.sound hs' hA').complete ⟨rfl, ?_, ?_⟩
    · rw [hentry.name, hentry.referent]
      exact hgrants
    · exact hentry.within.mono ((hB hs' hA').trans (granted_mono hcomplete))
  | @failed c e u hclaim hnone hnew hdepth hrun =>
    -- What the construction has entered before it failed stays, and is sound on its own.
    have hclaimed := Advances.claim (P := P) hclaim
    have hu := hconstruct _ _ _ hrun
    refine .of_error (hclaimed.trans (.abandon hnew hu.advances)) fun hs hA => ?_
    have hA' := hA.trans (granted_mono (.claim_start hclaim))
    exact (hu.sound (hs.claim_start hclaim) hA').of_table (.abandon _ _) fun _ => rfl

theorem Tracks.useName {construct : Resolve ReferenceType} (hi : P i)
    (hreferent : i.referent ≠ .enum) (h : Tracks P A i.IsEntry construct) :
    Tracks P A Within (Resolver.useName i.name i.location i.referent construct) :=
  fun _ _ _ hrun => .of_use (useOutcome_iff.1 hrun) hi hreferent h

theorem grants_enum {d : EnumDecl} (hi : P i) (hd : i.declaration.declaration = .ofEnum d)
    (horigin : c.origins.get? i.name = some i.location) :
    (c.complete (enumEntry d i.name)).Grants P ⟨.enum, i.name⟩ := by
  have hsome : ((c.complete (enumEntry d i.name)).reference? i.name).isSome := by
    simp [enumEntry]
  refine ⟨⟨i, hi, ?_, horigin⟩, fun _ => hsome, .inl hsome⟩
  rw [Instantiation.handle, referent_of_enum hd]

/-- The use of an enum. If its name has an entry, the handle of that is given out. -/
private theorem Outcome.of_enum {d : EnumDecl} {s t : Session} {o : Except Error Schema}
    (h : EnumOutcome i.name i.location d s o t) (hi : P i)
    (hd : i.declaration.declaration = .ofEnum d) :
    Outcome P A Within s.context o t.context := by
  cases h with
  | refused hclaim => exact .fail
  | @known c type hclaim htype =>
    -- The entry may be of another sort, if a type of the same name was there first.
    have hadvances := Advances.claim (P := P) hclaim
    have hsound (hs : s.context.Sound P) : c.Sound P :=
      hs.of_table hadvances.toGrows.keeps fun _ => reference?_claim hclaim
    refine .of_granted hadvances (fun hs _ => hsound hs) (within_univ _) fun hs _ => ?_
    have hentry := hsound hs _ _ htype
    rw [ReferenceType.handle, within_reference, hentry.name]
    exact hentry.own
  | @built c hclaim hnone =>
    have hgrants := grants_enum hi hd (origin_claim hclaim)
    have hclaimed := Advances.claim (P := P) hclaim
    have hcomplete := Advances.completeEnum hnone hgrants
    refine .of_granted (hclaimed.trans hcomplete) (fun hs _ => ?_) (within_univ _)
      fun _ _ => within_reference.2 hgrants
    have hsound := hs.of_table hclaimed.toGrows.keeps fun _ => reference?_claim hclaim
    refine hsound.complete ⟨rfl, hgrants, ?_⟩
    simp [ReferenceType.Within, ReferenceType.handles, enumEntry, ReferenceShape.handles]

theorem Tracks.enumReference {d : EnumDecl} (hi : P i)
    (hd : i.declaration.declaration = .ofEnum d) :
    Tracks P A Within (Resolver.enumReference i.declaration d) :=
  fun _ _ _ hrun => .of_enum ((run_enumReference_iff hd).1 hrun) hi hd

end Use

/-! ## Resolution -/

section Resolution

variable {r : Resolver} (E : Region r)

/-- Resolution in a region is tracked. -/
theorem resolveWithin_tracks (bound : Nat) (type : TypeExpr) (A : Set Handle) (hints : Hints) :
    Tracks E.Uses A Within (E.resolveWithin bound type hints) := by
  refine (trackComposition E.Uses).resolves_of_same (fun _ _ _ _ _ => trivial)
    (fun _ _ => within_intersectionSchema_nil) (fun _ => trackSimulation E.Uses _)
    (fun _ _ _ => .fail) ?_ ?_ bound type A hints
  · exact fun i d hi hd A => .enumReference hi hd
  · exact fun n i hi hreferent A hconstruct => .useName hi hreferent hconstruct

theorem Resolver.resolve_tracks (type : TypeExpr) (hints : Hints) (A : Set Handle) :
    Tracks r.Known A Within (r.resolve type hints) := by
  rw [resolve, ← Region.all_resolveWithin]
  exact resolveWithin_tracks (Region.all r) _ type A hints

theorem Resolver.construct_tracks (bound : Nat) {i : Instantiation} (hi : r.Known i)
    (A : Set Handle) : Tracks r.Known A i.IsEntry (r.construct (r.resolveWithin bound) i) := by
  rw [← Region.all_resolveWithin]
  exact (trackSimulation r.Known _).rel_construct hi.declared fun part _ =>
    resolveWithin_tracks (Region.all r) bound part

end Resolution

end Endpoints
