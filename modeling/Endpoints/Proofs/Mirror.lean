import Endpoints.Proofs.Follow

/-!
# Runs with more entries at hand

A run that succeeds also succeeds, with the same value, in a context that has more entries, if
these are the entries of a closed context. The second run mirrors the first: it has the same names
under construction, and wherever the first constructs a type that the closed context has, it takes
the entry from there. So it is never deeper, and never asks for a type that the first has not got.
-/

namespace Endpoints

open Context Resolver

variable {r : Resolver} {E : Region r} {W : Context} {A : Set Handle} {α β : Type}

private theorem Context.Agrees.of_grows {c c' : Context} (h : c'.Agrees W) (hc : c.Grows c') :
    c.Agrees W where
  table name type type' htype := h.table name type type' (hc.table name type htype)
  origins name origin origin' ho := h.origins name origin origin' (hc.origins name origin ho)

/-! ## Contexts of two runs -/

/-- The contexts of two runs, where the second had the entries of `W` in stock. -/
structure Joined (E : Region r) (W c d : Context) : Prop where
  table : ∀ name type, c.reference? name = some type → d.reference? name = some type
  stock : ∀ name type, W.reference? name = some type → d.reference? name = some type
  draws : DrawsOn W c d
  inProgress : d.inProgress = c.inProgress
  /-- No name under construction is that of an enum. -/
  working : ∀ name ∈ c.inProgress, ∃ i, E.Uses i ∧ i.referent ≠ .enum ∧ i.name = name ∧
    c.origins.get? name = some i.location

namespace Joined

variable {c c' d d' : Context} {i : Instantiation} {type : ReferenceType}

theorem of_empty (hidle : W.inProgress = []) : Joined E W .empty W where
  table _ _ h := nomatch h
  stock _ _ h := h
  draws := ⟨fun _ _ => .inr, fun _ _ => .inr⟩
  inProgress := hidle
  working _ h := nomatch h

private theorem of_stock {name : String} {entry : ReferenceType} (h : Joined E W c d)
    (hnone : c.reference? name = none) (hentry : d.reference? name = some entry) :
    W.reference? name = some entry :=
  (h.draws.table _ _ hentry).resolve_left (by simp [hnone])

private theorem not_stock {name : String} (h : Joined E W c d) (hnone : d.reference? name = none) :
    W.reference? name = none := by
  refine Option.eq_none_iff_forall_ne_some.2 fun entry hentry => ?_
  simp [h.stock name entry hentry] at hnone

/-- A claim that is granted in the first run is granted in the second. -/
theorem claim (h : Joined E W c d) (hclaim : c.claim i.name i.location = .ok c')
    (hagrees : c'.Agrees W) :
    ∃ d', d.claim i.name i.location = .ok d' ∧ Joined E W c' d' := by
  have hgrows := Grows.claim hclaim
  have horigin := origin_claim hclaim
  -- A claim in the second context is one of the first or one of the stock, which agree.
  have hsame (first : String) (hfirst : d.origins.get? i.name = some first) :
      first = i.location := by
    rcases h.draws.origins _ _ hfirst with hfirst | hfirst
    · exact Option.some.inj ((hgrows.origins _ _ hfirst).symm.trans horigin)
    · exact (hagrees.origins _ _ _ horigin hfirst).symm
  obtain ⟨d', hclaim'⟩ : ∃ d', d.claim i.name i.location = .ok d' := by
    cases hd : d.claim i.name i.location with
    | ok d' => exact ⟨d', rfl⟩
    | error fault =>
      obtain ⟨first, hfirst, hne, _⟩ := claim_eq_error hd
      exact absurd (hsame first hfirst) hne
  -- A claim changes the origins only, so the tables are compared as before.
  refine ⟨d', hclaim', ?_, ?_, ⟨?_, ?_⟩, ?_, ?_⟩
  · intro name type htype
    rw [reference?_claim hclaim] at htype
    rw [reference?_claim hclaim']
    exact h.table name type htype
  · intro name type htype
    rw [reference?_claim hclaim']
    exact h.stock name type htype
  · intro name type htype
    rw [reference?_claim hclaim'] at htype
    rw [reference?_claim hclaim]
    exact h.draws.table name type htype
  · intro name origin ho
    by_cases hname : name = i.name
    · subst hname
      rw [origin_claim hclaim'] at ho
      exact .inl (ho ▸ horigin)
    · have hold : d.origins.get? name = some origin := by
        rcases claim_eq_ok.1 hclaim' with ⟨_, rfl⟩ | ⟨_, rfl⟩
        · exact ho
        · simpa [hname] using ho
      exact (h.draws.origins name origin hold).imp_left (hgrows.origins name origin)
  · rw [inProgress_claim hclaim, inProgress_claim hclaim', h.inProgress]
  · intro name hname
    rw [inProgress_claim hclaim] at hname
    obtain ⟨j, hj, hreferent, rfl, hold⟩ := h.working name hname
    exact ⟨j, hj, hreferent, rfl, hgrows.origins _ _ hold⟩

private theorem deferLeft (h : Joined E W c d) (name : String) : Joined E W (c.defer name) d :=
  ⟨h.table, h.stock, ⟨h.draws.table, h.draws.origins⟩, h.inProgress, h.working⟩

private theorem deferRight (h : Joined E W c d) (name : String) : Joined E W c (d.defer name) :=
  ⟨h.table, h.stock, ⟨h.draws.table, h.draws.origins⟩, h.inProgress, h.working⟩

/-- Both runs start a construction. -/
private theorem start (h : Joined E W c d) (hi : E.Uses i) (hreferent : i.referent ≠ .enum)
    (horigin : c.origins.get? i.name = some i.location) (hnew : i.name ∉ c.inProgress) :
    Joined E W (c.start i.name) (d.start i.name) := by
  have hprogress : c.isInProgress i.name = false := by simpa [isInProgress] using hnew
  have hprogress' : d.isInProgress i.name = false := by
    simpa [isInProgress, h.inProgress] using hnew
  refine ⟨?_, ?_, ⟨?_, ?_⟩, ?_, ?_⟩
  · simpa using h.table
  · simpa using h.stock
  · simpa using h.draws.table
  · simpa using h.draws.origins
  · rw [inProgress_start hprogress, inProgress_start hprogress', h.inProgress]
  -- The name that is started is one of an instantiation of the region.
  · rw [inProgress_start hprogress, origins_start]
    intro name hname
    rcases List.mem_cons.1 hname with rfl | hname
    · exact ⟨i, hi, hreferent, rfl, horigin⟩
    · exact h.working name hname

/-- Both runs make the same entry, which is not in stock. -/
theorem complete (h : Joined E W c d) (hstock : W.reference? type.name = none) :
    Joined E W (c.complete type) (d.complete type) := by
  refine ⟨fun name found hfound => ?_, fun name found hfound => ?_,
    ⟨fun name found hfound => ?_, h.draws.origins⟩, ?_, fun name hname => ?_⟩
  · rw [reference?_complete] at hfound ⊢
    split at hfound
    · next heq => rwa [if_pos heq]
    · next hne => rw [if_neg hne]; exact h.table name found hfound
  -- The stock has no entry of the name, so what it lends is left alone.
  · have hne : name ≠ type.name := fun heq => by simp [heq ▸ hfound] at hstock
    rw [reference?_complete, if_neg hne]
    exact h.stock name found hfound
  · rw [reference?_complete] at hfound ⊢
    split at hfound
    · next heq => exact .inl (by rwa [if_pos heq])
    · next hne => rw [if_neg hne]; exact h.draws.table name found hfound
  · rw [inProgress_complete, inProgress_complete, h.inProgress]
  · exact h.working name (List.mem_filter.1 hname).1

/-- Only the first run goes on, and what it enters is in stock. -/
theorem takes (h : Joined E W c d) (hdistinct : NamesDistinct E.Uses)
    (hadvances : c.Advances E.Uses c') (hdraws : DrawsOn W c c') : Joined E W c' d := by
  have hprogress : c'.inProgress = c.inProgress := hdistinct.inProgress_eq h.working hadvances
  refine ⟨fun name type htype => ?_, h.stock, ⟨fun name type htype => ?_, fun name origin ho => ?_⟩,
    h.inProgress.trans hprogress.symm, fun name hname => ?_⟩
  · exact (hdraws.table name type htype).elim (h.table name type) (h.stock name type)
  · exact (h.draws.table name type htype).imp_left (hadvances.table name type)
  · exact (h.draws.origins name origin ho).imp_left (hadvances.origins name origin)
  · rw [hprogress] at hname
    obtain ⟨i, hi, hreferent, rfl, horigin⟩ := h.working name hname
    exact ⟨i, hi, hreferent, rfl, hadvances.origins _ _ horigin⟩

end Joined

/-! ## Runs that mirror -/

/-- Runs of the first computation that succeed are mirrored by the second. -/
def Mirrors (E : Region r) (W : Context) (A : Set Handle) (Q : Set Handle → α → Prop)
    (x y : Resolve α) : Prop :=
  Tracks E.Uses A Q x ∧ Tracks E.Uses A Q y ∧ ∀ s v t s', x.run s = (.ok v, t) →
    s.context.Sound E.Uses → A ⊆ s.context.granted E.Uses →
    s'.context.Sound E.Uses → A ⊆ s'.context.granted E.Uses →
    Joined E W s.context s'.context → t.context.Agrees W →
    ∃ t', y.run s' = (.ok v, t') ∧ Joined E W t.context t'.context ∧
      ∃ B, A ⊆ B ∧ Q B v ∧ B ⊆ t.context.granted E.Uses ∧ B ⊆ t'.context.granted E.Uses

namespace Mirrors

variable {Q : Set Handle → α → Prop} {x y : Resolve α}

/-- The handles of the value are those of both runs, where `Q` is about handles. -/
private theorem of_value (hQ : ∀ {B D v}, Q B v → Q D v → Q (B ∩ D) v)
    (hx : Tracks E.Uses A Q x) (hy : Tracks E.Uses A Q y)
    (h : ∀ s v t s', x.run s = (.ok v, t) → s.context.Sound E.Uses →
      A ⊆ s.context.granted E.Uses → s'.context.Sound E.Uses → A ⊆ s'.context.granted E.Uses →
      Joined E W s.context s'.context → t.context.Agrees W →
      ∃ t', y.run s' = (.ok v, t') ∧ Joined E W t.context t'.context) : Mirrors E W A Q x y := by
  refine ⟨hx, hy, fun s v t s' hrun hs hA hs' hA' hjoined hagrees => ?_⟩
  obtain ⟨t', hrun', hjoined'⟩ := h s v t s' hrun hs hA hs' hA' hjoined hagrees
  exact ⟨t', hrun', hjoined', (hx _ _ _ hrun).exists_common hQ hs hA (hy _ _ _ hrun') hs' hA'⟩

theorem pure {a : α} (h : Q A a) : Mirrors E W A Q (Pure.pure a) (Pure.pure a) := by
  refine ⟨.pure h, .pure h, fun s v t s' hrun _ hA _ hA' hjoined _ => ?_⟩
  obtain ⟨hv, rfl⟩ := Prod.mk.inj hrun
  obtain rfl := Except.ok.inj hv
  exact ⟨s', rfl, hjoined, A, subset_rfl, h, hA, hA'⟩

/-- Sequences mirror if their parts do, for each value of the first part. -/
theorem bind {R : Set Handle → β → Prop} {f g : α → Resolve β} (hx : Mirrors E W A Q x y)
    (hf : ∀ B, A ⊆ B → ∀ a, Q B a → Mirrors E W B R (f a) (g a)) :
    Mirrors E W A R (x >>= f) (y >>= g) := by
  refine ⟨hx.1.bind fun B hB a ha => (hf B hB a ha).1,
    hx.2.1.bind fun B hB a ha => (hf B hB a ha).2.1,
    fun s v t s' hrun hs hA hs' hA' hjoined hagrees => ?_⟩
  obtain ⟨a, u, hfirst, hrest⟩ := Resolve.run_bind_ok.1 hrun
  have houtcome := hx.1 s _ _ hfirst
  -- The agreement at the end holds in the middle as well.
  have hgrows : u.context.Grows t.context := by
    obtain ⟨B, hB, ha, _⟩ := houtcome.value a rfl
    exact ((hf B hB a ha).1 u _ _ hrest).advances.toGrows
  obtain ⟨u', hfirst', hjoined', B, hAB, ha, hB, hB'⟩ :=
    hx.2.2 s a u s' hfirst hs hA hs' hA' hjoined (hagrees.of_grows hgrows)
  obtain ⟨t', hrest', hjoined'', D, hBD, hD⟩ := (hf B hAB a ha).2.2 u v t u' hrest
    (houtcome.sound hs hA) hB ((hx.2.1 s' _ _ hfirst').sound hs' hA') hB' hjoined' hagrees
  exact ⟨t', (Resolve.run_bind_of_ok hfirst').trans hrest', hjoined'', D, hAB.trans hBD, hD⟩

theorem inside {place : Place} (h : Mirrors E W A Q x y) :
    Mirrors E W A Q (.inside place x) (.inside place y) := by
  refine ⟨h.1.inside, h.2.1.inside, fun s v t s' hrun hs hA hs' hA' hjoined hagrees => ?_⟩
  obtain ⟨t', hrun', hrest⟩ :=
    h.2.2 s v t s' (Resolve.run_inside_ok.1 hrun) hs hA hs' hA' hjoined hagrees
  exact ⟨t', Resolve.run_inside_ok.2 hrun', hrest⟩

private theorem of_error (hx : Tracks E.Uses A Q x) (hy : Tracks E.Uses A Q y)
    (herror : ∀ s v t, x.run s ≠ (.ok v, t)) : Mirrors E W A Q x y :=
  ⟨hx, hy, fun s v t _ hrun => absurd hrun (herror s v t)⟩

end Mirrors

def mirrorComposition (E : Region r) (W : Context) : Composition Resolve Resolve where
  Rel := Mirrors E W
  rel_pure := .pure
  rel_bind := .bind
  formed := Schema.formed_within

/-- The steps of resolution are mirrored if their parts are. -/
private theorem mirrorSimulation (E : Region r) (W : Context) (p q : Parts Resolve) :
    (mirrorComposition E W).Simulation p q where
  rel_fail _ := .of_error .fail .fail fun s v t hrun => nomatch hrun
  rel_inside := .inside
  rel_warn A warning := by
    have htracks := (trackSimulation E.Uses q).rel_warn A warning
    refine .of_value (by simp) htracks htracks fun s v t s' hrun _ _ _ _ hjoined _ => ?_
    obtain ⟨_, rfl⟩ := Prod.mk.inj hrun
    exact ⟨_, Resolve.run_warn warning s', hjoined⟩
  -- The second context knows all that the first one does, so a shape is found again.
  rel_shapeOf A schema hs := by
    have htracks := (trackSimulation E.Uses q).rel_shapeOf A schema hs
    refine .of_value ObjectShape.Within.inter htracks htracks
      fun s v t s' hrun _ _ _ _ hjoined _ => ?_
    obtain ⟨hshape, rfl⟩ := Resolve.run_shapeOf_ok.1 hrun
    obtain ⟨_, hrun'⟩ := Gives.shapeOf hjoined.table hshape s'.warnings
    obtain ⟨hsame, _⟩ := Resolve.run_shapeOf_ok.1 hrun'
    exact ⟨s', Resolve.run_shapeOf_ok.2 ⟨hsame, rfl⟩, hjoined⟩
  -- The branches keep to granted handles, on which the two contexts agree.
  rel_union A members hints h := by
    refine .bind ((mirrorComposition E W).rel_resolveAll (A := A) h)
      fun B _ schemas ⟨_, hschemas⟩ => ?_
    refine .of_value .inter (.toSchema hschemas) (.toSchema hschemas)
      fun s v t s' hrun _ hB _ _ hjoined _ => ?_
    obtain ⟨hv, rfl⟩ := Prod.mk.inj hrun
    refine ⟨s', ?_, hjoined⟩
    rw [← Except.ok.inj hv, UnionParts.toSchema_congr (.of_table hB hjoined.table)
      (UnionParts.foldl_add_within (by simp) hschemas)]
    rfl

/-! ## Named types -/

namespace Mirrors

variable {i : Instantiation} (hW : Closed E W) (hdistinct : NamesDistinct E.Uses)
include hW hdistinct

omit hW hdistinct in
private theorem origin_of_stock (hsound : W.Sound E.Uses) {c : Context} (hagrees : c.Agrees W)
    (horigin : c.origins.get? i.name = some i.location) {type : ReferenceType}
    (htype : W.reference? i.name = some type) : W.origins.get? i.name = some i.location := by
  obtain ⟨j, _, _, hj⟩ := (hsound _ _ htype).own.origin
  rw [hagrees.origins _ _ _ horigin hj]
  exact hj

/-- A construction of the first run that is in stock: all that it enters is. -/
private theorem draws_of_stock {n : Nat} (hi : E.Uses i) {c : Context} {s u : Session}
    {type entry : ReferenceType} (hs : (c.start i.name).Sound E.Uses) (hagrees : c.Agrees W)
    (horigin : c.origins.get? i.name = some i.location)
    (hrun : (r.construct (E.resolveWithin n) i).run { s with context := c.start i.name } =
      (.ok type, u))
    (hentry : W.reference? i.name = some entry) :
    DrawsOn W c (u.context.complete type) := by
  have hstart := DrawsOn.start W c i.name
  have horigin' := origin_of_stock hW.sound hagrees horigin hentry
  -- The stock has an entry of the name, and its construction can be repeated there.
  obtain ⟨bound, hgives⟩ := hW.gives hdistinct hi horigin' hentry
  have hbeside : Beside E W ∅ (c.start i.name) :=
    ⟨hs, hstart.agrees hagrees, Set.empty_subset _, Set.empty_subset _⟩
  -- The run follows that construction and so draws on the stock only.
  have hfollowed := (construct_follows hW hdistinct bound n hi ∅).2.2 entry _ _ _ hgives.stays hrun
    hbeside
  obtain ⟨rfl, _⟩ := hfollowed.value type rfl
  have hname : type.name = i.name := (hW.sound _ _ hentry).name
  exact (hstart.trans hfollowed.draws).trans (.complete (hname.symm ▸ hentry))

/-- The use of a name, where its construction is mirrored. -/
theorem useName {n : Nat} (hi : E.Uses i) (hreferent : i.referent ≠ .enum)
    (h : Mirrors E W A i.IsEntry (r.construct (E.resolveWithin n) i)
      (r.construct (E.resolveWithin n) i)) :
    Mirrors E W A Schema.Within
      (Resolver.useName i.name i.location i.referent (r.construct (E.resolveWithin n) i))
      (Resolver.useName i.name i.location i.referent (r.construct (E.resolveWithin n) i)) := by
  refine .of_value .inter (.useName hi hreferent h.1) (.useName hi hreferent h.1)
    fun s v t s' hrun hs hA hs' hA' hjoined hagrees => ?_
  generalize ho : (Except.ok v : Except Error Schema) = o at hrun
  cases useOutcome_iff.1 hrun with
  | refused | tooDeep | failed => exact nomatch ho
  -- What the first run has, the second has, too.
  | @known c hclaim hknown =>
    obtain rfl := Except.ok.inj ho
    obtain ⟨type, htype⟩ := Option.isSome_iff_exists.1 hknown
    obtain ⟨d, hclaim', hjoined'⟩ := hjoined.claim hclaim hagrees
    have hknown' : (d.reference? i.name).isSome := by simp [hjoined'.table _ _ htype]
    exact ⟨_, useOutcome_iff.2 (.known hclaim' hknown'), hjoined'⟩
  | @deferred c hclaim hnone hprogress =>
    obtain rfl := Except.ok.inj ho
    obtain ⟨d, hclaim', hjoined'⟩ := hjoined.claim hclaim ⟨hagrees.table, hagrees.origins⟩
    -- The second run does not have to defer what it has in stock.
    cases hstock : d.reference? i.name with
    | some entry =>
      exact ⟨_, useOutcome_iff.2 (.known hclaim' (by simp [hstock])),
        hjoined'.deferLeft i.name⟩
    | none =>
      have hprogress' : i.name ∈ d.inProgress := hjoined'.inProgress ▸ hprogress
      exact ⟨_, useOutcome_iff.2 (.deferred hclaim' hstock hprogress'),
        (hjoined'.deferLeft i.name).deferRight i.name⟩
  | @built c type u hclaim hnone hnew hdepth hconstruct =>
    obtain rfl := Except.ok.inj ho
    have horigin : c.origins.get? i.name = some i.location := origin_claim hclaim
    have hu := h.1 _ _ _ hconstruct
    obtain ⟨_, _, hentry, _⟩ := hu.value type rfl
    have hadvances : c.Advances E.Uses (u.context.complete type) :=
      .complete hnone hnew hu.advances hentry.name
    have hagrees' : c.Agrees W := hagrees.of_grows hadvances.toGrows
    obtain ⟨d, hclaim', hjoined'⟩ := hjoined.claim hclaim hagrees'
    have hsound := hs.claim_start hclaim
    cases hstock : d.reference? i.name with
    | some entry =>
      -- The first run constructs what the second takes from stock.
      have hdraws := draws_of_stock hW hdistinct hi hsound hagrees' horigin hconstruct
        (hjoined'.of_stock hnone hstock)
      exact ⟨_, useOutcome_iff.2 (.known hclaim' (by simp [hstock])),
        hjoined'.takes hdistinct hadvances hdraws⟩
    | none =>
      -- Both runs construct it.
      have hnew' : i.name ∉ d.inProgress := hjoined'.inProgress ▸ hnew
      have hdepth' : d.depth < maxDepth := by rwa [depth, hjoined'.inProgress]
      have hfirst : u.context.reference? type.name = none := by
        rw [hentry.name]
        exact hdistinct.reference?_of_start hi hreferent horigin hnone hnew hu.advances
      obtain ⟨u', hconstruct', hjoined'', _⟩ := h.2.2 _ type u { s' with context := d.start i.name }
        hconstruct hsound (hA.trans (granted_mono (.claim_start hclaim)))
        (hs'.claim_start hclaim') (hA'.trans (granted_mono (.claim_start hclaim')))
        (hjoined'.start hi hreferent horigin hnew) (hagrees.of_grows (.complete hfirst))
      have hnotStock : W.reference? type.name = none := hentry.name ▸ hjoined'.not_stock hstock
      exact ⟨_, useOutcome_iff.2 (.built hclaim' hstock hnew' hdepth' hconstruct'),
        hjoined''.complete hnotStock⟩

omit hW in
/-- The use of an enum. -/
theorem enumReference {d : EnumDecl} (hi : E.Uses i)
    (hd : i.declaration.declaration = .ofEnum d) :
    Mirrors E W A Schema.Within (Resolver.enumReference i.declaration d)
      (Resolver.enumReference i.declaration d) := by
  refine .of_value .inter (.enumReference hi hd) (.enumReference hi hd)
    fun s v t s' hrun _ _ _ _ hjoined hagrees => ?_
  generalize ho : (Except.ok v : Except Error Schema) = o at hrun
  cases (run_enumReference_iff hd).1 hrun with
  | refused => exact nomatch ho
  | @known c type hclaim htype =>
    obtain rfl := Except.ok.inj ho
    obtain ⟨c', hclaim', hjoined'⟩ := hjoined.claim hclaim hagrees
    have htype' := hjoined'.table _ _ htype
    exact ⟨_, (run_enumReference_iff hd).2 (.known hclaim' htype'), hjoined'⟩
  | @built c hclaim hnone =>
    obtain rfl := Except.ok.inj ho
    have horigin : c.origins.get? i.name = some i.location := origin_claim hclaim
    have hadvances : c.Advances E.Uses (c.complete (enumEntry d i.name)) :=
      .completeEnum hnone (grants_enum hi hd horigin)
    obtain ⟨c', hclaim', hjoined'⟩ := hjoined.claim hclaim (hagrees.of_grows hadvances.toGrows)
    cases hstock : c'.reference? i.name with
    | some entry =>
      have hentry : W.reference? i.name = some entry := hjoined'.of_stock hnone hstock
      -- The first run ends with an entry for the enum, so it is the one in stock.
      obtain rfl : enumEntry d i.name = entry :=
        hagrees.table _ _ _ (by simp [enumEntry]) hentry
      have hdraws : DrawsOn W c (c.complete (enumEntry d i.name)) :=
        .complete hentry
      exact ⟨_, (run_enumReference_iff hd).2 (.known hclaim' hstock),
        hjoined'.takes hdistinct hadvances hdraws⟩
    | none =>
      exact ⟨_, (run_enumReference_iff hd).2 (.built hclaim' hstock),
        hjoined'.complete (hjoined'.not_stock hstock)⟩

end Mirrors

/-! ## Resolution -/

/-- A run that succeeds does so with the entries of a closed context in stock. -/
theorem resolveWithin_mirrors (hW : Closed E W) (hdistinct : NamesDistinct E.Uses) (bound : Nat)
    (type : TypeExpr) (A : Set Handle) (hints : Hints) :
    Mirrors E W A Schema.Within (E.resolveWithin bound type hints)
      (E.resolveWithin bound type hints) := by
  refine (mirrorComposition E W).resolves_of_same (fun _ _ _ _ _ => trivial)
    (fun _ _ => Schema.within_intersectionSchema_nil) (fun _ => mirrorSimulation E W _ _)
    (fun _ _ _ => .of_error .fail .fail fun s v t hrun => nomatch hrun) ?_ ?_ bound type A hints
  · exact fun i d hi hd A => .enumReference hdistinct hi hd
  · exact fun n i hi hreferent A hconstruct => .useName hW hdistinct hi hreferent hconstruct

end Endpoints
