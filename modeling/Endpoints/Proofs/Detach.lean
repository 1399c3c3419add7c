import Endpoints.Proofs.Bound
import Endpoints.Proofs.Confine
import Endpoints.Proofs.Replay

/-!
# Runs outside a construction

A type that is resolved for the entry of a name is resolved while that name is under construction.
If nothing that it leads to has this name, then the construction around it does not show: where the
type is resolved inside, it can also be resolved without, to the same schema. There are then fewer
names under construction, so that it does not lie too deep either.
-/

namespace Endpoints

/-! ## Contexts with and without the construction -/

namespace Context

/-- The second context is the first one without the construction of a name, which it may not have
claimed. -/
structure Detached (name : String) (c c' : Context) : Prop where
  table : c'.table = c.table
  origins : ∀ other, other ≠ name → c'.origins.get? other = c.origins.get? other
  inProgress : c'.inProgress = c.inProgress.filter (· != name)

namespace Detached

variable {name other origin : String} {c c' d : Context}

/-- Before a construction and after its start. -/
theorem of_start (hclaim : c.claim name origin = .ok d) (hnew : name ∉ d.inProgress) :
    Detached name (d.start name) c := by
  have hprogress : d.isInProgress name = false := by simpa [isInProgress] using hnew
  refine ⟨?_, fun other hne => ?_, ?_⟩
  · rw [start, hprogress, if_neg Bool.false_ne_true]
    rcases claim_eq_ok.1 hclaim with ⟨_, rfl⟩ | ⟨_, rfl⟩ <;> rfl
  -- The claim registers the name itself and nothing else.
  · rw [origins_start]
    rcases claim_eq_ok.1 hclaim with ⟨_, rfl⟩ | ⟨_, rfl⟩
    · rfl
    · simp [hne]
  -- The name was not in progress, so taking it out leaves what was there.
  · have hkept : d.inProgress.filter (· != name) = d.inProgress := by
      rw [List.filter_eq_self]
      intro other hother
      rw [bne_iff_ne]
      rintro rfl
      exact hnew hother
    rw [inProgress_start hprogress, List.filter_cons_of_neg (by simp), hkept,
      inProgress_claim hclaim]

private theorem reference? (h : Detached name c c') (other : String) :
    c'.reference? other = c.reference? other := by
  rw [Context.reference?, Context.reference?, h.table]

private theorem mem_inProgress (h : Detached name c c') (hne : other ≠ name) :
    other ∈ c'.inProgress ↔ other ∈ c.inProgress := by
  rw [h.inProgress, List.mem_filter, bne_iff_ne]
  exact and_iff_left hne

private theorem depth_le (h : Detached name c c') : c'.depth ≤ c.depth := by
  rw [depth, depth, h.inProgress]
  exact List.length_filter_le _ _

/-- Another name is claimed in both contexts with the same success. -/
theorem claim (h : Detached name c c') (hne : other ≠ name)
    (hclaim : c.claim other origin = .ok d) :
    ∃ d', c'.claim other origin = .ok d' ∧ Detached name d d' := by
  rcases claim_eq_ok.1 hclaim with ⟨hfirst, rfl⟩ | ⟨hnone, rfl⟩
  · exact ⟨c', claim_eq_ok.2 (.inl ⟨(h.origins other hne).trans hfirst, rfl⟩), h⟩
  · refine ⟨_, claim_eq_ok.2 (.inr ⟨(h.origins other hne).trans hnone, rfl⟩), h.table,
      fun third hthird => ?_, h.inProgress⟩
    dsimp only
    rw [Dict.get?_insert, Dict.get?_insert, h.origins third hthird]

private theorem defer (h : Detached name c c') (other : String) :
    Detached name (c.defer other) (c'.defer other) :=
  ⟨h.table, h.origins, h.inProgress⟩

/-- The construction of another name is started in both contexts. -/
private theorem start (h : Detached name c c') (hne : other ≠ name) (hnew : other ∉ c.inProgress) :
    Detached name (c.start other) (c'.start other) := by
  have hprogress : c.isInProgress other = false := by simpa [isInProgress] using hnew
  have hprogress' : c'.isInProgress other = false := by
    simpa [isInProgress] using mt (h.mem_inProgress hne).1 hnew
  refine ⟨?_, ?_, ?_⟩
  · rw [Context.start, Context.start, hprogress, hprogress', if_neg Bool.false_ne_true,
      if_neg Bool.false_ne_true]
    exact h.table
  · simpa using h.origins
  · rw [inProgress_start hprogress, inProgress_start hprogress', h.inProgress,
      List.filter_cons_of_pos (by simpa using hne)]

/-- The same type is completed in both contexts. -/
theorem complete (h : Detached name c c') (type : ReferenceType) :
    Detached name (c.complete type) (c'.complete type) := by
  refine ⟨?_, h.origins, ?_⟩
  · show c'.table.insert type.name type = c.table.insert type.name type
    rw [h.table]
  -- Both filters are applied, in the one order or in the other.
  · rw [inProgress_complete, inProgress_complete, h.inProgress, List.filter_filter,
      List.filter_filter]
    exact List.filter_congr fun other _ => Bool.and_comm _ _

end Detached

end Context

/-! ## Runs inside and outside -/

variable {r : Resolver} {E : Region r} {name : String} {A : Set Handle} {α β : Type}

/-- Runs of the first computation inside the construction of a name that succeed are runs of the
second one outside. -/
def Detaches (E : Region r) (name : String) (A : Set Handle) (Q : Set Handle → α → Prop)
    (x y : Resolve α) : Prop :=
  Tracks E.Uses A Q x ∧ ∀ s v t s', x.run s = (.ok v, t) → s.context.Detached name s'.context →
    ∃ t', y.run s' = (.ok v, t') ∧ t.context.Detached name t'.context

namespace Detaches

variable {Q : Set Handle → α → Prop} {x y : Resolve α}

theorem pure {a : α} (h : Q A a) : Detaches E name A Q (Pure.pure a) (Pure.pure a) := by
  refine ⟨.pure h, fun s v t s' hrun hs => ?_⟩
  obtain ⟨hv, rfl⟩ := Prod.mk.inj hrun
  rw [← Except.ok.inj hv]
  exact ⟨s', rfl, hs⟩

/-- Computations in sequence go the same way outside if each of them does. -/
theorem bind {R : Set Handle → β → Prop} {f g : α → Resolve β} (hx : Detaches E name A Q x y)
    (hf : ∀ B, A ⊆ B → ∀ a, Q B a → Detaches E name B R (f a) (g a)) :
    Detaches E name A R (x >>= f) (y >>= g) := by
  refine ⟨hx.1.bind fun B hB a ha => (hf B hB a ha).1, fun s v t s' hrun hs => ?_⟩
  obtain ⟨a, u, hfirst, hrest⟩ := Resolve.run_bind_ok.1 hrun
  -- What follows needs to be related only for the values that can come before it.
  obtain ⟨B, hB, ha, _⟩ := (hx.1 s _ _ hfirst).value a rfl
  obtain ⟨u', hfirst', hu⟩ := hx.2 s a u s' hfirst hs
  obtain ⟨t', hrest', ht⟩ := (hf B hB a ha).2 u v t u' hrest hu
  exact ⟨t', (Resolve.run_bind_of_ok hfirst').trans hrest', ht⟩

private theorem of_error (h : Tracks E.Uses A Q x) (herror : ∀ s v t, x.run s ≠ (.ok v, t)) :
    Detaches E name A Q x y :=
  ⟨h, fun s v t _ hrun => absurd hrun (herror s v t)⟩

theorem fail {fault : Fault} : Detaches E name A Q (Resolve.fail fault) y :=
  .of_error .fail fun _ _ _ hrun => by cases hrun

theorem inside {place : Place} (h : Detaches E name A Q x y) :
    Detaches E name A Q (.inside place x) (.inside place y) := by
  refine ⟨h.1.inside, fun s v t s' hrun hs => ?_⟩
  obtain ⟨t', hrun', ht⟩ := h.2 s v t s' (Resolve.run_inside_ok.1 hrun) hs
  exact ⟨t', Resolve.run_inside_ok.2 hrun', ht⟩

end Detaches

def detachComposition (E : Region r) (name : String) : Composition Resolve Resolve where
  Rel := Detaches E name
  rel_pure := .pure
  rel_bind := .bind
  formed := Schema.formed_within

/-- The steps of resolution go the same way inside and outside, if their parts do. -/
private theorem detachSimulation (E : Region r) (name : String) (p q : Parts Resolve) :
    (detachComposition E name).Simulation p q where
  rel_fail _ := .fail
  rel_inside := .inside
  rel_warn A warning := by
    refine ⟨(trackSimulation E.Uses p).rel_warn A warning, fun s v t s' hrun hs => ?_⟩
    obtain ⟨_, rfl⟩ := Prod.mk.inj hrun
    exact ⟨_, Resolve.run_warn warning s', hs⟩
  -- A shape depends on the table alone, and the tables are the same.
  rel_shapeOf A schema hs := by
    refine ⟨(trackSimulation E.Uses p).rel_shapeOf A schema hs, fun s v t s' hrun hs => ?_⟩
    obtain ⟨hshape, rfl⟩ := Resolve.run_shapeOf_ok.1 hrun
    obtain ⟨_, hrun'⟩ := Gives.shapeOf (fun other type htype => (hs.reference? other).trans htype)
      hshape s'.warnings
    obtain ⟨hsame, _⟩ := Resolve.run_shapeOf_ok.1 hrun'
    exact ⟨s', Resolve.run_shapeOf_ok.2 ⟨hsame, rfl⟩, hs⟩
  -- So does the union, once its members are resolved.
  rel_union A members hints h := by
    refine .bind ((detachComposition E name).rel_resolveAll (A := A) h)
      fun B _ schemas ⟨_, hschemas⟩ => ?_
    refine ⟨.toSchema hschemas, fun s v t s' hrun hs => ?_⟩
    obtain ⟨hv, rfl⟩ := Prod.mk.inj hrun
    refine ⟨s', ?_, hs⟩
    rw [← Except.ok.inj hv,
      UnionParts.toSchema_eq fun branch _ other _ => (hs.reference? other).symm]
    rfl

/-! ## Named types -/

namespace Detaches

variable {i : Instantiation}

/-- The use of another name. -/
theorem useName {construct construct' : Resolve ReferenceType} (hi : E.Uses i)
    (hreferent : i.referent ≠ .enum) (hne : i.name ≠ name)
    (h : Detaches E name A i.IsEntry construct construct') :
    Detaches E name A Schema.Within (Resolver.useName i.name i.location i.referent construct)
      (Resolver.useName i.name i.location i.referent construct') := by
  refine ⟨.useName hi hreferent h.1, fun s v t s' hrun hs => ?_⟩
  generalize ho : (Except.ok v : Except Error Schema) = o at hrun
  cases Resolver.useOutcome_iff.1 hrun with
  -- The run succeeds, so the name was known, deferred or built.
  | refused | tooDeep | failed => cases ho
  | known hclaim hknown =>
    obtain ⟨d, hclaim', hd⟩ := hs.claim hne hclaim
    rw [← hd.reference?] at hknown
    exact ⟨_, Resolver.useOutcome_iff.2 (.known hclaim' hknown), hd⟩
  | deferred hclaim hnone hmem =>
    obtain ⟨d, hclaim', hd⟩ := hs.claim hne hclaim
    rw [← hd.reference?] at hnone
    exact ⟨_, Resolver.useOutcome_iff.2 (.deferred hclaim' hnone ((hd.mem_inProgress hne).2 hmem)),
      hd.defer i.name⟩
  | @built c type u hclaim hnone hnew hdepth hconstruct =>
    obtain ⟨d, hclaim', hd⟩ := hs.claim hne hclaim
    -- The construction is started outside as well, and not deeper than inside.
    have hnew' : i.name ∉ d.inProgress := mt (hd.mem_inProgress hne).1 hnew
    have hdepth' : d.depth < maxDepth := hd.depth_le.trans_lt hdepth
    obtain ⟨u', hconstruct', hu⟩ := h.2 _ type u { s' with context := d.start i.name } hconstruct
      (hd.start hne hnew)
    rw [← hd.reference?] at hnone
    exact ⟨_, Resolver.useOutcome_iff.2 (.built hclaim' hnone hnew' hdepth' hconstruct'),
      hu.complete type⟩

/-- The use of an enum with another name. -/
theorem enumReference {d : EnumDecl} (hi : E.Uses i) (hd : i.declaration.declaration = .ofEnum d)
    (hne : i.name ≠ name) :
    Detaches E name A Schema.Within (Resolver.enumReference i.declaration d)
      (Resolver.enumReference i.declaration d) := by
  refine ⟨.enumReference hi hd, fun s v t s' hrun hs => ?_⟩
  generalize ho : (Except.ok v : Except Error Schema) = o at hrun
  cases (Resolver.run_enumReference_iff hd).1 hrun with
  | refused => cases ho
  -- The other context can claim the name too, and finds the same entry.
  | known hclaim htype =>
    obtain ⟨c, hclaim', hc⟩ := hs.claim hne hclaim
    rw [← hc.reference?] at htype
    exact ⟨_, (Resolver.run_enumReference_iff hd).2 (.known hclaim' htype), hc⟩
  | built hclaim hnone =>
    obtain ⟨c, hclaim', hc⟩ := hs.claim hne hclaim
    rw [← hc.reference?] at hnone
    exact ⟨_, (Resolver.run_enumReference_iff hd).2 (.built hclaim' hnone), hc.complete _⟩

end Detaches

/-! ## Resolution -/

namespace Resolver

/-- Where a region does not use the name, resolution is followed outside with a greater bound. -/
private theorem resolveWithin_detaches (hname : ∀ i, E.Uses i → i.name ≠ name) {bound bound' : Nat}
    (hle : bound ≤ bound') (type : TypeExpr) (A : Set Handle) (hints : Hints) :
    Detaches E name A Schema.Within (E.resolveWithin bound type hints)
      (E.resolveWithin bound' type hints) := by
  refine (detachComposition E name).resolves_of_uses (K := (· ≤ ·)) (fun _ _ _ _ _ => trivial)
    (fun _ _ => Schema.within_intersectionSchema_nil) ?_ ?_ ?_ ?_ ?_ hle type A hints
  · exact fun m n _ => detachSimulation E name _ _
  · exact fun m n h => Nat.le_of_succ_le_succ h
  · -- The smaller bound is used up, and the run inside fails.
    intro m n hmn hzero type A hints
    obtain rfl : m = 0 := by omega
    exact .fail
  · exact fun i d hi hd A => .enumReference hi hd (hname i hi)
  · exact fun m n i hmn hi hreferent hconstruct A =>
      .useName hi hreferent (hname i hi) (hconstruct m hmn A)

/-- A type that is resolved inside the construction of a name, and leads to nothing with this name,
can be resolved outside, to the same schema. -/
theorem resolve_detached {bound : Nat} {type : TypeExpr} {hints : Hints} {v : Schema}
    {s t s' : Session} (hname : ∀ i, r.Uses [type] i → i.name ≠ name)
    (hrun : (r.resolveWithin bound type hints).run s = (.ok v, t))
    (hs : s.context.Detached name s'.context) :
    ∃ t', (r.resolve type hints).run s' = (.ok v, t') := by
  -- The types that the given one leads to are a region, in which resolution is not confined.
  have hparts : (Region.ofTypes r [type]).HasParts := Reaches.part
  have htype : (Region.ofTypes r [type]).Contains type := Reaches.of_mem (List.mem_singleton_self _)
  have hregion : ∀ i, (Region.ofTypes r [type]).Uses i → i.name ≠ name := hname
  -- A bound above both bounds is large enough for the type, so the run outside is `resolve`.
  have hdetaches :=
    resolveWithin_detaches hregion (Nat.le_max_left bound (r.index.bound type)) type ∅ hints
  rw [Region.resolveWithin_eq hparts _ htype, Region.resolveWithin_eq hparts _ htype,
    resolveWithin_eq_resolve (Nat.le_max_right _ _)] at hdetaches
  obtain ⟨t', hrun', _⟩ := hdetaches.2 s v t s' hrun hs
  exact ⟨t', hrun'⟩

end Resolver

end Endpoints
