import Endpoints.Proofs.Bound
import Endpoints.Proofs.Confine
import Endpoints.Proofs.Mirror

/-!
# The order of resolution

Two types are resolved one after the other in a fresh session. Which of them comes first can decide
whether both succeed: a type may need the properties of one that is under construction, which an
earlier resolution would have finished, and it may lie too deep where an earlier one has done a part
of the way. Where names do not clash, these are the only reasons, and they show at once: if the type
that now comes first succeeds, then the other one does as well, and both get the schemas that they
got before.

The proof goes through the context at the end of the first order. It is closed, so the swapped order
follows it; and where the type that now comes first succeeds, it leaves a closed context, with which
the other one only has more entries at hand.
-/

namespace Endpoints

/-- Contexts agree that have nothing but what a third one has. -/
private theorem Context.Agrees.of_common {c c' T : Context} (h : c.Grows T)
    (h' : DrawsOn T .empty c') : c.Agrees c' where
  table name type type' htype htype' := by
    have hT := h.table name type htype
    have hT' := (h'.table name type' htype').resolve_left nofun
    exact Option.some.inj (hT.symm.trans hT')
  origins name origin origin' ho ho' := by
    have hT := h.origins name origin ho
    have hT' := (h'.origins name origin' ho').resolve_left nofun
    exact Option.some.inj (hT.symm.trans hT')

theorem Context.Agrees.of_empty (c : Context) : Agrees .empty c where
  table _ _ _ h := nomatch h
  origins _ _ _ h := nomatch h

/-! ## Two types in either order -/

section Swap

variable {r : Resolver} {E : Region r} (hdistinct : NamesDistinct E.Uses)
  {a b : TypeExpr} {ha hb : Hints} {m n : Nat} {va vb : Schema} {s t u : Session}
include hdistinct

/-- A run leaves a closed context and can be replayed in it, if all earlier entries can be
constructed again there. -/
theorem closed_of_run (hs : s.context.Sound E.Uses) (hidle : s.context.inProgress = [])
    (hrun : (E.resolveWithin m a ha).run s = (.ok va, t))
    (hclosed : ∀ name type, s.context.reference? name = some type →
      Rebuilds E t.context name type) :
    Closed E t.context ∧ Gives t.context (E.resolveWithin m a ha) va := by
  obtain ⟨hgives, hnew⟩ := replay_of_run hdistinct hs hidle hrun (.refl t.context)
  have hsound := (resolveWithin_tracks E m a ∅ ha _ _ _ hrun).sound hs (Set.empty_subset _)
  refine ⟨⟨hsound, fun name type htype => ?_⟩, hgives⟩
  exact (hnew name type htype).elim (hclosed name type) id

/-- The context after two runs is closed, and the second can be replayed in it. -/
theorem closed_of_runs (hfirst : (E.resolveWithin m a ha).run .empty = (.ok va, s))
    (hsecond : (E.resolveWithin n b hb).run s = (.ok vb, t)) :
    Closed E t.context ∧ Gives t.context (E.resolveWithin n b hb) vb := by
  have houtcome := resolveWithin_tracks E m a ∅ ha _ _ _ hfirst
  have hgrows := (resolveWithin_tracks E n b ∅ hb _ _ _ hsecond).advances.toGrows
  obtain ⟨_, hnew⟩ := replay_of_run hdistinct Context.sound_empty rfl hfirst hgrows
  refine closed_of_run hdistinct (houtcome.sound Context.sound_empty (Set.empty_subset _))
    (houtcome.advances.idle rfl) hsecond fun name type htype => ?_
  exact (hnew name type htype).resolve_left nofun

/-- After a type that was resolved before and draws on the same entries, a type succeeds as it does
in a fresh session. -/
theorem succeeds_after (hfirst : (E.resolveWithin m a ha).run .empty = (.ok va, s))
    (hrun : (E.resolveWithin n b hb).run .empty = (.ok vb, u))
    (hagrees : s.context.Agrees u.context) :
    ∃ v, (E.resolveWithin m a ha).run u = (.ok va, v) := by
  have houtcome := resolveWithin_tracks E n b ∅ hb _ _ _ hrun
  obtain ⟨hu, _⟩ := closed_of_run hdistinct Context.sound_empty rfl hrun fun _ _ h => nomatch h
  have hjoined : Joined E u.context .empty u.context :=
    .of_empty (houtcome.advances.idle rfl)
  obtain ⟨v, hlast, _⟩ := (resolveWithin_mirrors hu hdistinct m a ∅ ha).2.2 _ va s u hfirst
    Context.sound_empty (Set.empty_subset _) hu.sound (Set.empty_subset _) hjoined hagrees
  exact ⟨v, hlast⟩

end Swap

/-- Names do not clash in a program without type parameters that has one declaration on a line. -/
theorem namesDistinct_of_plain {r : Resolver} {E : Region r}
    (hplain : ∀ d ∈ r.index.declarations, d.declaration.typeParameters = [])
    (hlines : (r.index.declarations.map (·.location)).Nodup) : NamesDistinct E.Uses := by
  intro i j hi hj hlocation _
  -- Two declarations at one place are one.
  have hd : i.declaration = j.declaration :=
    List.inj_on_of_nodup_map hlines hi.declared hj.declared hlocation
  -- Without type parameters there is nothing to bind.
  have hscope {i : Instantiation} (hi : E.Uses i) : i.scope = Scope.bind [] [] := by
    have hparameters := hplain i.declaration hi.declared
    obtain ⟨_, _, _, arguments, located, _, _, rfl, _⟩ := hi
    show Scope.bind located.declaration.typeParameters arguments = _
    rw [show located.declaration.typeParameters = [] from hparameters]
    rfl
  cases i
  cases j
  rw [Instantiation.mk.injEq]
  exact ⟨hd, (hscope hi).trans (hscope hj).symm⟩

/-- Suppose two types are resolved one after the other in a fresh session, and both succeed. In the
other order both succeed with the same schemas, unless the one that now comes first fails, for a
type that is needed while it is under construction or because the constructions lie too deep. The
names of different instantiations must not clash where they come from the same place. -/
theorem swapped_order_succeeds (r : Resolver) {a b : TypeExpr} {ha hb : Hints} {va vb : Schema}
    {s t : Session} (hnames : NamesDistinct (r.Uses [a, b]))
    (hfirst : (r.resolve a ha).run .empty = (.ok va, s))
    (hsecond : (r.resolve b hb).run s = (.ok vb, t)) :
    (∃ e u, (r.resolve b hb).run .empty = (.error e, u) ∧ e.fault.DependsOnOrder) ∨
      ∃ u v, (r.resolve b hb).run .empty = (.ok vb, u) ∧ (r.resolve a ha).run u = (.ok va, v) := by
  let E := Region.ofTypes r [a, b]
  have hdistinct : NamesDistinct E.Uses := hnames
  have hEa : E.resolve a ha = r.resolve a ha := Region.ofTypes_resolve (by simp) ha
  have hEb : E.resolve b hb = r.resolve b hb := Region.ofTypes_resolve (by simp) hb
  rw [← hEa] at hfirst ⊢
  rw [← hEb] at hsecond ⊢
  -- The context at the end is closed, so the type that now comes first follows it.
  obtain ⟨hT, hgives⟩ := closed_of_runs hdistinct hfirst hsecond
  rcases hrun : (E.resolve b hb).run .empty with ⟨o, u⟩
  have hbeside : Beside E t.context ∅ Session.empty.context :=
    ⟨Context.sound_empty, .of_empty t.context, Set.empty_subset _, Set.empty_subset _⟩
  have hfollowed := (resolveWithin_follows hT hdistinct _ _ b ∅ hb).2.2 vb _ _ _ hgives.stays hrun
    hbeside
  cases o with
  | error e =>
    have hordinary := Resolver.resolve_ordinary (hEb ▸ hrun)
    exact .inl ⟨e, u, rfl, hfollowed.error e rfl hordinary.1⟩
  | ok vb' =>
    obtain ⟨rfl, _⟩ := hfollowed.value vb' rfl
    -- Both runs from the empty context have drawn on the closed one, so they agree.
    have hgrows := (resolveWithin_tracks E _ b ∅ hb _ _ _ hsecond).advances.toGrows
    obtain ⟨v, hlast⟩ := succeeds_after hdistinct hfirst hrun (.of_common hgrows hfollowed.draws)
    exact .inr ⟨u, v, rfl, hlast⟩

/-- Two interfaces that refer to each other, and an enum. -/
theorem mutual_interfaces_swapped :
    let r := Resolver.ofText
      "interface A { b: B[], kind: Kind }\ninterface B { a?: A }\nenum Kind { X, Y }"
    let a := TypeExpr.named "A"
    let b := TypeExpr.named "B"
    ∃ va vb s t u v, NamesDistinct (r.Uses [a, b]) ∧
      (r.resolve a .none).run .empty = (.ok va, s) ∧ (r.resolve b .none).run s = (.ok vb, t) ∧
      (r.resolve b .none).run .empty = (.ok vb, u) ∧ (r.resolve a .none).run u = (.ok va, v) := by
  intro r a b
  have hfacts : (∀ d ∈ r.index.declarations, d.declaration.typeParameters.isEmpty = true) ∧
      (r.index.declarations.map (·.location)).Nodup ∧
      ((r.resolve a .none).run .empty).1.isOk = true ∧
      ((r.resolve b .none).run ((r.resolve a .none).run .empty).2).1.isOk = true ∧
      ((r.resolve b .none).run .empty).1.isOk = true := by decide +kernel
  obtain ⟨hplain, hlines, hfirst, hsecond, halone⟩ := hfacts
  obtain ⟨va, hfirst⟩ := Resolver.exists_run_of_isOk hfirst
  obtain ⟨vb, hsecond⟩ := Resolver.exists_run_of_isOk hsecond
  have hnames : NamesDistinct (r.Uses [a, b]) := namesDistinct_of_plain
    (E := .ofTypes r [a, b]) (fun d hd => List.isEmpty_iff.1 (hplain d hd)) hlines
  -- The second type can be resolved on its own, so the first outcome does not occur.
  rcases swapped_order_succeeds r hnames hfirst hsecond with ⟨e, u, herror, _⟩ | ⟨u, v, hrun, hlast⟩
  · rw [herror] at halone
    exact nomatch halone
  · exact ⟨va, vb, _, _, u, v, hnames, hfirst, hsecond, hrun, hlast⟩

/-- Three programs in which two types succeed in one order only: a type needs the properties of one
that is under construction; a type lies too deep; two instantiations of a declaration have the same
name, and the first one answers for the other. -/
theorem order_decides_success :
    let succeed := fun (r : Resolver) (types : List TypeExpr) =>
      (r.resolveEach .empty (types.map (·, Hints.none))).1.all (·.isOk)
    let cycle := Resolver.ofText "interface A { b: Partial<B> }\ninterface B { a: A }"
    let nest := Resolver.ofText "interface N<T> { next: T }"
    let nested := fun n => Nat.repeat (fun type => TypeExpr.reference "N" [type]) n (.keyword .any)
    let page := Resolver.ofText "interface ApiMissing { id: string }\ninterface Page<T> { item: T }"
    let pageOf := fun name => TypeExpr.reference "Page" [.named name]
    (succeed cycle [.named "A", .named "B"] = true ∧
      succeed cycle [.named "B", .named "A"] = false) ∧
    (succeed nest [nested 1, nested 33] = true ∧ succeed nest [nested 33, nested 1] = false) ∧
    (succeed page [pageOf "ApiMissing", pageOf "Api.Missing"] = true ∧
      succeed page [pageOf "Api.Missing", pageOf "ApiMissing"] = false) := by
  decide +kernel

end Endpoints
