import Endpoints.Proofs.Shape
import Endpoints.Proofs.Track

/-!
# Runs in a finished context

A run that succeeds can be replayed in any later context that has all its entries and none of its
names left under construction: it gives the same value there and changes nothing, since every name
that it uses has an entry. In particular the entries can be constructed again from each other; a
context with this property is `Closed`.

All this needs that different instantiations have different names.
-/

namespace Endpoints

open Context

/-! ## Unions in different contexts -/

section Union

variable {A : Set Handle} {c c' : Context}

/-- The enums among the handles have the same entries in both contexts. -/
def Context.SameEnums (A : Set Handle) (c c' : Context) : Prop :=
  ∀ handle ∈ A, handle.referent = .enum → c.reference? handle.name = c'.reference? handle.name

theorem Context.SameEnums.of_table {P : Instantiation → Prop} (hA : A ⊆ c.granted P)
    (h : ∀ name type, c.reference? name = some type → c'.reference? name = some type) :
    SameEnums A c c' := by
  intro handle hmem henum
  obtain ⟨type, htype⟩ := Option.isSome_iff_exists.1 ((hA hmem).finished henum)
  rw [htype, h _ _ htype]

/-- `enumMembers?` looks at the entry of an enum only. -/
private theorem Context.enumMembers?_congr {schema : Schema}
    (h : ∀ name, schema.kind = .reference .enum name → c.reference? name = c'.reference? name) :
    c.enumMembers? schema = c'.enumMembers? schema := by
  unfold enumMembers?
  split
  · rfl
  · next name hkind => rw [h name hkind]
  · rfl

/-- `unionMembers?` looks at the entries of the enums among the branches only. -/
private theorem Context.unionMembers?_congr {branches : List Schema}
    (h : ∀ branch ∈ branches, ∀ name, branch.kind = .reference .enum name →
      c.reference? name = c'.reference? name) :
    c.unionMembers? branches = c'.unionMembers? branches := by
  unfold unionMembers?
  congr 1
  induction branches with
  | nil => rfl
  | cons branch branches ih =>
    rw [List.mapM_cons, List.mapM_cons, enumMembers?_congr (h branch List.mem_cons_self),
      ih fun other ho => h other (List.mem_cons_of_mem _ ho)]

theorem UnionParts.toSchema_eq {parts : UnionParts}
    (h : ∀ branch ∈ parts.branches, ∀ name, branch.kind = .reference .enum name →
      c.reference? name = c'.reference? name) : parts.toSchema c = parts.toSchema c' := by
  unfold UnionParts.toSchema
  split
  · rfl
  · rfl
  · rw [Context.unionMembers?_congr h]

theorem UnionParts.toSchema_congr (h : Context.SameEnums A c c') {parts : UnionParts}
    (hparts : ∀ branch ∈ parts.branches, branch.Within A) :
    parts.toSchema c = parts.toSchema c' := by
  refine toSchema_eq fun branch hb name hkind => ?_
  have hmem : ⟨.enum, name⟩ ∈ A :=
    hparts branch hb _ (by cases branch; subst hkind; simp [Schema.handles, Kind.handles])
  exact h _ hmem rfl

end Union

/-! ## Replays -/

variable {r : Resolver} {E : Region r} {T : Context} {A : Set Handle} {α β : Type}

/-- In the context, the computation gives the value and changes nothing but warnings. -/
def Gives (T : Context) (x : Resolve α) (v : α) : Prop :=
  ∀ warnings, ∃ warnings', x.run ⟨T, warnings⟩ = (.ok v, ⟨T, warnings'⟩)

/-- The entry of an instantiation can be constructed again in the context. -/
def Rebuilds (E : Region r) (T : Context) (name : String) (type : ReferenceType) : Prop :=
  ∃ i bound, E.Uses i ∧ i.name = name ∧ T.origins.get? name = some i.location ∧
    Gives T (r.construct (E.resolveWithin bound) i) type

/-- Runs of the computation can be replayed in the context, if it has what they have entered, and
the names that were under construction. The entries that they have made can be made again. -/
def Replays (E : Region r) (T : Context) (A : Set Handle) (Q : Set Handle → α → Prop)
    (x : Resolve α) : Prop :=
  Tracks E.Uses A Q x ∧ ∀ s v t, x.run s = (.ok v, t) → s.context.Sound E.Uses →
    A ⊆ s.context.granted E.Uses → t.context.Grows T →
    (∀ name ∈ s.context.inProgress, (T.reference? name).isSome) →
    Gives T x v ∧ ∀ name type, t.context.reference? name = some type →
      s.context.reference? name = some type ∨ Rebuilds E T name type

namespace Gives

theorem pure (a : α) : Gives T (Pure.pure a : Resolve α) a :=
  fun warnings => ⟨warnings, rfl⟩

theorem bind {x : Resolve α} {f : α → Resolve β} {a : α} {b : β} (hx : Gives T x a)
    (hf : Gives T (f a) b) : Gives T (x >>= f) b := by
  intro warnings
  obtain ⟨warnings', hx⟩ := hx warnings
  obtain ⟨warnings'', hf⟩ := hf warnings'
  exact ⟨warnings'', (Resolve.run_bind_of_ok hx).trans hf⟩

theorem inside {place : Place} {x : Resolve α} {a : α} (hx : Gives T x a) :
    Gives T (.inside place x) a := by
  intro warnings
  obtain ⟨warnings', hx⟩ := hx warnings
  exact ⟨warnings', Resolve.run_inside_ok.2 hx⟩

theorem of_run {x : Resolve α} {a : α}
    (h : ∀ s : Session, s.context = T → x.run s = (.ok a, s)) : Gives T x a :=
  fun warnings => ⟨warnings, h ⟨T, warnings⟩ rfl⟩

/-- A name with an entry of the same origin is referred to. -/
theorem useName {i : Instantiation} {construct : Resolve ReferenceType}
    (horigin : T.origins.get? i.name = some i.location) (hknown : (T.reference? i.name).isSome) :
    Gives T (Resolver.useName i.name i.location i.referent construct)
      (.ofKind (.reference i.referent i.name)) := by
  refine .of_run ?_
  rintro s rfl
  have hclaim : s.context.claim i.name i.location = .ok s.context :=
    claim_eq_ok.2 (.inl ⟨horigin, rfl⟩)
  exact Resolver.useOutcome_iff.2 (.known hclaim hknown)

/-- So is an enum. -/
theorem enumReference {i : Instantiation} {d : EnumDecl} {type : ReferenceType}
    (hd : i.declaration.declaration = .ofEnum d)
    (horigin : T.origins.get? i.name = some i.location)
    (htype : T.reference? i.name = some type) :
    Gives T (Resolver.enumReference i.declaration d) type.handle := by
  refine .of_run ?_
  rintro s rfl
  have hclaim : s.context.claim i.name i.location = .ok s.context :=
    claim_eq_ok.2 (.inl ⟨horigin, rfl⟩)
  exact (Resolver.run_enumReference_iff hd).2 (.known hclaim htype)

/-- A shape that a smaller context gives. -/
theorem shapeOf {c : Context} {schema : Schema} {shape : ObjectShape}
    (htable : ∀ name type, c.reference? name = some type → T.reference? name = some type)
    (h : c.shapeOf schema = .ok shape) :
    Gives T (Resolve.shapeOf schema) shape := by
  -- No name is left open, so that the larger context gives the same shape.
  have hmatches := shapeOf_matches (fun _ => False)
    (fun name type htype => .inl (htable name type htype)) (by simp) schema
  refine .of_run fun s hs => ?_
  rcases hmatches shape h with hsame | ⟨_, hfalse, _⟩
  · exact Resolve.run_shapeOf_ok.2 ⟨hs ▸ hsame, rfl⟩
  · exact hfalse.elim

end Gives

namespace Replays

variable {Q : Set Handle → α → Prop}

theorem pure {a : α} (h : Q A a) : Replays E T A Q (Pure.pure a : Resolve α) := by
  refine ⟨.pure h, fun s v t hrun _ _ _ _ => ?_⟩
  obtain ⟨hv, rfl⟩ := Prod.mk.inj hrun
  exact ⟨Except.ok.inj hv ▸ .pure a, fun _ _ => .inl⟩

/-- A sequence is replayed part by part, and the entries are those of both parts. -/
theorem bind {R : Set Handle → β → Prop} {x : Resolve α} {f : α → Resolve β}
    (hx : Replays E T A Q x) (hf : ∀ B, A ⊆ B → ∀ a, Q B a → Replays E T B R (f a)) :
    Replays E T A R (x >>= f) := by
  refine ⟨hx.1.bind fun B hB a ha => (hf B hB a ha).1,
    fun s v t hrun hs hA hgrows hprogress => ?_⟩
  obtain ⟨a, u, hfirst, hrest⟩ := Resolve.run_bind_ok.1 hrun
  have hfirst' := hx.1 s _ _ hfirst
  obtain ⟨B, hAB, ha, hB⟩ := hfirst'.value a rfl
  obtain ⟨htracks, hreplays⟩ := hf B hAB a ha
  have hrest' := htracks u _ _ hrest
  -- What the first part has entered is still there at the end.
  obtain ⟨hgives, hnew⟩ := hx.2 s a u hfirst hs hA (hrest'.advances.toGrows.trans hgrows) hprogress
  obtain ⟨hgives', hnew'⟩ := hreplays u v t hrest (hfirst'.sound hs hA) (hB hs hA) hgrows
    fun name hname => hprogress name (hfirst'.advances.sublist.subset hname)
  refine ⟨hgives.bind hgives', fun name type htype => ?_⟩
  rcases hnew' name type htype with htype | hrebuilds
  · exact hnew name type htype
  · exact .inr hrebuilds

private theorem of_error {x : Resolve α} (h : Tracks E.Uses A Q x)
    (herror : ∀ s v t, x.run s ≠ (.ok v, t)) : Replays E T A Q x :=
  ⟨h, fun s v t hrun => absurd hrun (herror s v t)⟩

theorem inside {place : Place} {x : Resolve α} (h : Replays E T A Q x) :
    Replays E T A Q (.inside place x) := by
  refine ⟨h.1.inside, fun s v t hrun hs hA hgrows hprogress => ?_⟩
  obtain ⟨hgives, hnew⟩ := h.2 s v t (Resolve.run_inside_ok.1 hrun) hs hA hgrows hprogress
  exact ⟨hgives.inside, hnew⟩

end Replays

def replayComposition (E : Region r) (T : Context) : Composition Resolve Resolve where
  Rel A Q _ y := Replays E T A Q y
  rel_pure := .pure
  rel_bind := .bind
  formed := Schema.formed_within

/-- The steps of resolution can be replayed if their parts can. -/
private theorem replaySimulation (E : Region r) (T : Context) (p : Parts Resolve) :
    (replayComposition E T).Simulation p p where
  rel_fail _ := .of_error .fail fun s v t hrun => nomatch hrun
  rel_inside := .inside
  rel_warn A warning := by
    refine ⟨(trackSimulation E.Uses p).rel_warn A warning, fun s v t hrun _ _ _ _ => ?_⟩
    obtain ⟨hv, rfl⟩ := Prod.mk.inj hrun
    exact ⟨fun warnings => ⟨_, Resolve.run_warn warning _⟩, fun _ _ => .inl⟩
  -- The replayed run sees a larger table, in which the shape is the same.
  rel_shapeOf A schema hs := by
    refine ⟨(trackSimulation E.Uses p).rel_shapeOf A schema hs, fun s v t hrun _ _ hgrows _ => ?_⟩
    obtain ⟨hshape, rfl⟩ := Resolve.run_shapeOf_ok.1 hrun
    exact ⟨.shapeOf hgrows.table hshape, fun _ _ => .inl⟩
  rel_union A members hints h := by
    refine .bind ((replayComposition E T).rel_resolveAll (A := A) h)
      fun B _ schemas ⟨_, hschemas⟩ => ?_
    refine ⟨.toSchema hschemas, fun s v t hrun _ hB hgrows _ => ?_⟩
    obtain ⟨hv, rfl⟩ := Prod.mk.inj hrun
    refine ⟨.of_run fun s' hs' => ?_, fun _ _ => .inl⟩
    rw [Resolve.run_bind_of_ok (Resolve.run_context s'), hs', ← Except.ok.inj hv,
      UnionParts.toSchema_congr (.of_table hB hgrows.table)
        (UnionParts.foldl_add_within (by simp) hschemas)]
    rfl

/-! ## Named types -/

namespace Replays

variable {i : Instantiation}

/-- The use of a name, where its construction can be replayed. -/
theorem useName {bound : Nat} (hdistinct : NamesDistinct E.Uses) (hi : E.Uses i)
    (hreferent : i.referent ≠ .enum)
    (h : Replays E T A i.IsEntry (r.construct (E.resolveWithin bound) i)) :
    Replays E T A Schema.Within (Resolver.useName i.name i.location i.referent
      (r.construct (E.resolveWithin bound) i)) := by
  refine ⟨.useName hi hreferent h.1, fun s v t hrun hs hA hgrows hprogress => ?_⟩
  generalize ho : (Except.ok v : Except Error Schema) = o at hrun
  cases Resolver.useOutcome_iff.1 hrun with
  | refused | tooDeep | failed => exact nomatch ho
  -- The entry is there before, and still in the later context.
  | @known c hclaim hknown =>
    obtain rfl := Except.ok.inj ho
    refine ⟨.useName ?_ (hgrows.keeps.names _ hknown), fun name type htype => .inl ?_⟩
    · exact hgrows.origins _ _ (origin_claim hclaim)
    · rwa [reference?_claim hclaim] at htype
  -- The name is under construction, and the later context has an entry for it by assumption.
  | @deferred c hclaim hnone hmem =>
    obtain rfl := Except.ok.inj ho
    rw [inProgress_claim hclaim] at hmem
    have horigin : c.origins.get? i.name = some i.location := origin_claim hclaim
    refine ⟨.useName ?_ (hprogress _ hmem), fun name type htype => .inl ?_⟩
    · exact hgrows.origins _ _ horigin
    · rwa [reference?_defer, reference?_claim hclaim] at htype
  | @built c type u hclaim hnone hnew hdepth hconstruct =>
    obtain rfl := Except.ok.inj ho
    have hu := h.1 _ _ _ hconstruct
    obtain ⟨_, _, hentry, _⟩ := hu.value type rfl
    have hentered : T.reference? i.name = some type :=
      hgrows.table _ _ (by simp [hentry.name])
    -- The entry is the first of its name, so the context before it grows into the later one too.
    have hfirst : u.context.reference? type.name = none := by
      rw [hentry.name]
      exact hdistinct.reference?_of_start hi hreferent (origin_claim hclaim) hnone hnew
        hu.advances
    have hgrows' : u.context.Grows T := (Grows.complete hfirst).trans hgrows
    have hprogress' : ∀ name ∈ (c.start i.name).inProgress, (T.reference? name).isSome := by
      rw [inProgress_start (by simpa [isInProgress] using hnew),
        inProgress_claim hclaim]
      intro name hname
      rcases List.mem_cons.1 hname with rfl | hname
      · simp [hentered]
      · exact hprogress name hname
    obtain ⟨hgives, hnewEntries⟩ := h.2 _ _ _ hconstruct (hs.claim_start hclaim)
      (hA.trans (granted_mono (.claim_start hclaim))) hgrows' hprogress'
    have horigin : T.origins.get? i.name = some i.location := by
      refine hgrows.origins _ _ (hu.advances.origins _ _ ?_)
      simpa using origin_claim hclaim
    refine ⟨.useName horigin (by simp [hentered]), fun name found hfound => ?_⟩
    -- The new entries are that of the name itself and those of its construction.
    · rw [reference?_complete] at hfound
      split at hfound
      · next heq =>
        obtain rfl := Option.some.inj hfound
        obtain rfl := heq.trans hentry.name
        exact .inr ⟨i, bound, hi, rfl, horigin, hgives⟩
      · rw [← reference?_claim_start hclaim]
        exact hnewEntries name found hfound

/-- The use of an enum. -/
theorem enumReference {d : EnumDecl} (hi : E.Uses i)
    (hd : i.declaration.declaration = .ofEnum d) :
    Replays E T A Schema.Within (Resolver.enumReference i.declaration d) := by
  refine ⟨.enumReference hi hd, fun s v t hrun _ _ hgrows _ => ?_⟩
  generalize ho : (Except.ok v : Except Error Schema) = o at hrun
  cases (Resolver.run_enumReference_iff hd).1 hrun with
  | refused => exact nomatch ho
  | @known c type hclaim htype =>
    obtain rfl := Except.ok.inj ho
    refine ⟨.enumReference hd ?_ (hgrows.table _ _ htype), fun name found hfound => .inl ?_⟩
    · exact hgrows.origins _ _ (origin_claim hclaim)
    · rwa [reference?_claim hclaim] at hfound
  | @built c hclaim hnone =>
    obtain rfl := Except.ok.inj ho
    have hentered : T.reference? i.name = some (Resolver.enumEntry d i.name) :=
      hgrows.table _ _ (by simp [Resolver.enumEntry])
    have horigin : c.origins.get? i.name = some i.location := origin_claim hclaim
    have horigin' : T.origins.get? i.name = some i.location := hgrows.origins _ _ horigin
    refine ⟨.enumReference hd horigin' hentered, fun name found hfound => ?_⟩
    · rw [reference?_complete] at hfound
      split at hfound
      · next heq =>
        obtain rfl := Option.some.inj hfound
        obtain rfl : name = i.name := heq
        -- An enum is constructed from its declaration alone.
        refine .inr ⟨i, 0, hi, rfl, horigin', ?_⟩
        unfold Resolver.construct
        rw [hd]
        exact .pure _
      · rw [reference?_claim hclaim] at hfound
        exact .inl hfound

end Replays

/-! ## Resolution -/

/-- Resolution in a region with distinct names can be replayed. -/
theorem resolveWithin_replays (hdistinct : NamesDistinct E.Uses) (T : Context) (bound : Nat)
    (type : TypeExpr) (A : Set Handle) (hints : Hints) :
    Replays E T A Schema.Within (E.resolveWithin bound type hints) := by
  refine (replayComposition E T).resolves_of_same (fun _ _ _ _ _ => trivial)
    (fun _ _ => Schema.within_intersectionSchema_nil) (fun _ => replaySimulation E T _)
    (fun _ _ _ => .of_error .fail fun s v t hrun => nomatch hrun) ?_ ?_ bound type A hints
  · exact fun i d hi hd A => .enumReference hi hd
  · exact fun n i hi hreferent A hconstruct => .useName hdistinct hi hreferent hconstruct

/-- All entries of the context can be constructed again from each other. -/
structure Closed (E : Region r) (T : Context) : Prop where
  sound : T.Sound E.Uses
  rebuilds : ∀ name type, T.reference? name = some type → Rebuilds E T name type

namespace Closed

/-- The entry of an instantiation can be constructed again, where names are distinct. -/
theorem gives (h : Closed E T) (hdistinct : NamesDistinct E.Uses) {i : Instantiation}
    (hi : E.Uses i) (horigin : T.origins.get? i.name = some i.location) {type : ReferenceType}
    (htype : T.reference? i.name = some type) :
    ∃ bound, Gives T (r.construct (E.resolveWithin bound) i) type := by
  obtain ⟨j, bound, hj, hname, horigin', hgives⟩ := h.rebuilds _ _ htype
  -- The name belongs to one place, and there to one instantiation.
  have hlocation : i.location = j.location := Option.some.inj (horigin.symm.trans horigin')
  obtain rfl := hdistinct i j hi hj hlocation hname.symm
  exact ⟨bound, hgives⟩

end Closed

section Run

variable (hdistinct : NamesDistinct E.Uses) {type : TypeExpr} {hints : Hints} {bound : Nat}
  {s t : Session} {v : Schema}
include hdistinct

theorem replay_of_run (hs : s.context.Sound E.Uses) (hidle : s.context.inProgress = [])
    (hrun : (E.resolveWithin bound type hints).run s = (.ok v, t)) (hgrows : t.context.Grows T) :
    Gives T (E.resolveWithin bound type hints) v ∧
      ∀ name type, t.context.reference? name = some type →
        s.context.reference? name = some type ∨ Rebuilds E T name type :=
  (resolveWithin_replays hdistinct T bound type ∅ hints).2 s v t hrun hs (Set.empty_subset _)
    hgrows (by simp [hidle])

end Run

end Endpoints
