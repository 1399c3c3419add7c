import Endpoints.Proofs.History
import Endpoints.Proofs.Replay
import Endpoints.Proofs.Shown

/-!
# Resolving a type again

Once a type has been resolved, and nothing was under construction before, resolving it again gives
the same schema and leaves the context as it is. No assumption on names is needed here: the second
run finds an entry for every name that the type itself uses, and never looks behind it.

Entries are looked at in two places. The shape of a type does not change when entries are added. A
union looks at the enums among its branches, which have their entries as soon as they are resolved.
-/

namespace Endpoints

variable {r : Resolver} {T : Context} {A : Set Handle} {α β : Type}

/-- A run that starts with nothing under construction can be repeated in a later context. -/
structure Repeats (r : Resolver) (T : Context) (A : Set Handle) (Q : Set Handle → α → Prop)
    (x : Resolve α) : Prop where
  tracks : Tracks r.Known A Q x
  proceeds : Proceeds A Q x
  gives : ∀ s v t, x.run s = (.ok v, t) → s.context.Reachable → s.context.inProgress = [] →
    t.context.Grows T → Gives T x v

namespace Repeats

variable {Q : Set Handle → α → Prop}

theorem pure {a : α} (h : Q A a) : Repeats r T A Q (Pure.pure a : Resolve α) where
  tracks := .pure h
  proceeds := .pure h
  gives s v t hrun _ _ _ := by
    obtain ⟨hv, _⟩ := Prod.mk.inj hrun
    exact Except.ok.inj hv ▸ .pure a

/-- A sequence is repeated part by part. Nothing is under construction between the parts. -/
theorem bind {R : Set Handle → β → Prop} {x : Resolve α} {f : α → Resolve β}
    (hx : Repeats r T A Q x) (hf : ∀ B, A ⊆ B → ∀ a, Q B a → Repeats r T B R (f a)) :
    Repeats r T A R (x >>= f) where
  tracks := hx.tracks.bind fun B hB a ha => (hf B hB a ha).tracks
  proceeds := hx.proceeds.bind fun B hB a ha => (hf B hB a ha).proceeds
  gives s v t hrun hs hidle hgrows := by
    obtain ⟨a, u, hfirst, hrest⟩ := Resolve.run_bind_ok.1 hrun
    have houtcome := hx.tracks s _ _ hfirst
    obtain ⟨B, hB, ha, _⟩ := houtcome.value a rfl
    -- The second part starts in a context that operations have made, and with nothing under
    -- construction.
    have hu : u.context.Reachable := (hx.proceeds s a u hfirst).1.reachable hs
    have hlater := ((hf B hB a ha).tracks u _ _ hrest).advances.toGrows
    exact (hx.gives s a u hfirst hs hidle (hlater.trans hgrows)).bind
      ((hf B hB a ha).gives u v t hrest hu (houtcome.advances.idle hidle) hgrows)

theorem fail {fault : Fault} : Repeats r T A Q (Resolve.fail fault : Resolve α) where
  tracks := .fail
  proceeds := .fail
  gives _ _ _ hrun := nomatch hrun

theorem inside {place : Place} {x : Resolve α} (h : Repeats r T A Q x) :
    Repeats r T A Q (.inside place x) where
  tracks := h.tracks.inside
  proceeds := h.proceeds.inside
  gives s v t hrun hs hidle hgrows :=
    (h.gives s v t (Resolve.run_inside_ok.1 hrun) hs hidle hgrows).inside

/-- The use of a name. Its entry is there in the later context, so it is not constructed again. -/
theorem useName {i : Instantiation} {construct : Resolve ReferenceType} (hi : r.Known i)
    (hreferent : i.referent ≠ .enum) (h : Repeats r T A i.IsEntry construct) :
    Repeats r T A Schema.Within (Resolver.useName i.name i.location i.referent construct) where
  tracks := .useName hi hreferent h.tracks
  proceeds := .useName h.proceeds
  gives s v t hrun _ hidle hgrows := by
    generalize ho : (Except.ok v : Except Error Schema) = o at hrun
    cases Resolver.useOutcome_iff.1 hrun with
    | refused | tooDeep | failed => exact nomatch ho
    | known hclaim hknown =>
      obtain rfl := Except.ok.inj ho
      have horigin := hgrows.origins _ _ (Context.origin_claim hclaim)
      exact Gives.useName horigin (hgrows.keeps.names _ hknown)
    | deferred hclaim _ hmem =>
      -- Nothing is under construction where the name is used.
      rw [Context.inProgress_claim hclaim, hidle] at hmem
      exact nomatch hmem
    | @built c type u hclaim _ _ _ hconstruct =>
      -- The construction may have deferred names. Of it we only need that the claim has survived.
      obtain rfl := Except.ok.inj ho
      have houtcome := h.tracks _ _ _ hconstruct
      obtain ⟨_, _, hentry, _⟩ := houtcome.value type rfl
      have horigin : u.context.origins.get? i.name = some i.location :=
        houtcome.advances.origins _ _ (by simpa using Context.origin_claim hclaim)
      exact Gives.useName (hgrows.origins _ _ horigin)
        (hgrows.keeps.names _ (by simp [hentry.name]))

/-- The use of an enum. -/
theorem enumReference {i : Instantiation} {d : EnumDecl} (hi : r.Known i)
    (hd : i.declaration.declaration = .ofEnum d) :
    Repeats r T A Schema.Within (Resolver.enumReference i.declaration d) where
  tracks := .enumReference hi hd
  proceeds := .enumReference hd
  gives s v t hrun _ _ hgrows := by
    generalize ho : (Except.ok v : Except Error Schema) = o at hrun
    cases (Resolver.run_enumReference_iff hd).1 hrun with
    | refused => exact nomatch ho
    -- What the name was found to be is still there in the larger context.
    | known hclaim htype =>
      obtain rfl := Except.ok.inj ho
      have horigin := hgrows.origins _ _ (Context.origin_claim hclaim)
      exact Gives.enumReference hd horigin (hgrows.table _ _ htype)
    | @built c hclaim =>
      obtain rfl := Except.ok.inj ho
      have horigin : c.origins.get? i.name = some i.location := Context.origin_claim hclaim
      exact Gives.enumReference hd (hgrows.origins _ _ horigin)
        (hgrows.table _ _ (by simp [Resolver.enumEntry]))

end Repeats

def repeatComposition (r : Resolver) (T : Context) : Composition Resolve Resolve where
  Rel A Q _ y := Repeats r T A Q y
  rel_pure := .pure
  rel_bind := .bind
  formed := Schema.formed_within

/-- The steps of resolution can be repeated if their parts can, and their enums have entries. -/
private theorem repeatSimulation (r : Resolver) (T : Context) {p : Parts Resolve}
    (hp : ListsParts p) :
    (repeatComposition r T).Simulation p p where
  rel_fail _ := .fail
  rel_inside := .inside
  rel_warn A warning :=
    ⟨(trackSimulation r.Known p).rel_warn A warning, (proceedSimulation p).rel_warn A warning,
      fun s v t _ _ _ _ warnings => ⟨_, Resolve.run_warn warning _⟩⟩
  rel_shapeOf A schema hs := by
    refine ⟨(trackSimulation r.Known p).rel_shapeOf A schema hs,
      (proceedSimulation p).rel_shapeOf A schema hs, fun s v t hrun _ _ hgrows => ?_⟩
    obtain ⟨hshape, rfl⟩ := Resolve.run_shapeOf_ok.1 hrun
    exact .shapeOf hgrows.table hshape
  rel_union A members hints h := by
    have htracks := (trackSimulation r.Known p).rel_union A members hints fun type ht B =>
      (h type ht B).tracks
    have hproceeds := (proceedSimulation p).rel_union A members hints fun type ht B =>
      (h type ht B).proceeds
    have hresolve := (repeatComposition r T).rel_resolveAll (A := A) h
    refine ⟨htracks, hproceeds, fun s v t hrun hs hidle hgrows => ?_⟩
    obtain ⟨schemas, u, hfirst, hrest⟩ := Resolve.run_bind_ok.1 hrun
    obtain ⟨hv, rfl⟩ := Prod.mk.inj hrest
    refine (hresolve.gives s schemas u hfirst hs hidle hgrows).bind ?_
    -- The enums among the branches have entries, which the later context has, too.
    have hsame : (schemas.foldl UnionParts.add ⟨[], false⟩).toSchema u.context =
        (schemas.foldl UnionParts.add ⟨[], false⟩).toSchema T := by
      refine UnionParts.toSchema_eq fun branch hb name hkind => ?_
      have hbranch : branch.Shows name := by
        cases branch
        subst hkind
        exact .reference
      obtain ⟨schema, hschema, hshows⟩ := UnionParts.shows_branch hb hbranch
      have hlisted := (hp.resolveAll hfirst hs).2 schema hschema name hshows
      obtain ⟨type, htype⟩ := Option.isSome_iff_exists.1 hlisted
      rw [htype, hgrows.table name type htype]
    refine .of_run fun s' hs' => ?_
    rw [Resolve.run_bind_of_ok (Resolve.run_context s'), hs', ← Except.ok.inj hv, hsame]
    rfl

/-- Resolution can be repeated, whatever its bound is. -/
private theorem Resolver.resolveWithin_repeats (r : Resolver) (T : Context) (bound : Nat)
    (type : TypeExpr) (A : Set Handle) (hints : Hints) :
    Repeats r T A Schema.Within (r.resolveWithin bound type hints) := by
  rw [← Region.all_resolveWithin]
  refine (repeatComposition r T).resolves_of_same (fun _ _ _ _ _ => trivial)
    (fun _ _ => Schema.within_intersectionSchema_nil) (fun n => ?_) (fun _ _ _ => .fail)
    ?_ ?_ bound type A hints
  · exact repeatSimulation r T (Region.all_resolveWithin r n ▸ r.resolveWithin_listsParts n)
  · exact fun i d hi hd A => .enumReference hi hd
  · exact fun n i hi hreferent A hconstruct => .useName hi hreferent hconstruct

/-- Resolution is idempotent. If a type has been resolved in a context that operations have made and
in which nothing was under construction, then resolving it once more, with the same hints, gives the
same schema and leaves the context exactly as it is. -/
theorem resolve_again (r : Resolver) (type : TypeExpr) (hints : Hints) {s t : Session} {v : Schema}
    (hs : s.context.Reachable) (hidle : s.context.inProgress = [])
    (hrun : (r.resolve type hints).run s = (.ok v, t)) :
    ∀ u, u.context = t.context →
      ∃ w, (r.resolve type hints).run u = (.ok v, w) ∧ w.context = t.context := by
  -- The later context is the one that the run itself has led to.
  rintro ⟨_, warnings⟩ rfl
  have hrepeats := r.resolveWithin_repeats t.context (r.index.bound type) type ∅ hints
  obtain ⟨warnings', hagain⟩ := hrepeats.gives s v t hrun hs hidle (.refl t.context) warnings
  exact ⟨⟨t.context, warnings'⟩, hagain, rfl⟩

/-- Types that refer to themselves, utility types and a union of enums, in a context that another
type has left behind. -/
theorem node_resolved_again :
    let r := Resolver.ofText ("interface Node { next?: Node, kind: Kind }\nenum Kind { X, Y }\n" ++
      "interface Box<T> { value: T }")
    let type := TypeExpr.tuple [.reference "Partial" [.named "Node"],
      .reference "Box" [.array (.named "Node")], .union [.named "Kind", .literal (.string "none")]]
    let s := ((r.resolve (.named "Kind") .none).run .empty).2
    ∃ v t, s.context.inProgress = [] ∧ (r.resolve type .none).run s = (.ok v, t) ∧
      t.context.deferred = ["Node"] ∧ t.context.table.keys = ["BoxNodeArray", "Kind", "Node"] ∧
      ∃ w, (r.resolve type .none).run t = (.ok v, w) ∧ w.context = t.context := by
  intro r type s
  let t := ((r.resolve type .none).run s).2
  have hfacts : ((r.resolve (.named "Kind") .none).run .empty).1.isOk = true ∧
      s.context.inProgress = [] ∧ ((r.resolve type .none).run s).1.isOk = true ∧
      t.context.deferred = ["Node"] ∧ t.context.table.keys = ["BoxNodeArray", "Kind", "Node"] := by
    decide +kernel
  obtain ⟨hkind, hidle, hok, hdeferred, hkeys⟩ := hfacts
  obtain ⟨_, hkind⟩ := Resolver.exists_run_of_isOk hkind
  obtain ⟨v, hrun⟩ := Resolver.exists_run_of_isOk hok
  -- The context in which the type is resolved first is itself the result of a run.
  have hs : s.context.Reachable := (Resolver.leads_of_run hkind).reachable .empty
  exact ⟨v, t, hidle, hrun, hdeferred, hkeys, resolve_again r type .none hs hidle hrun t rfl⟩

end Endpoints
