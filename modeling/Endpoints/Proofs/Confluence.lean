import Endpoints.Proofs.Operation
import Endpoints.Proofs.Order

/-!
# The order of resolution does not show in the result

Two types are resolved in a fresh session, once in one order and once in the other. Which names are
under construction, finished or unknown when a type is looked at differs between the two runs. But
the context at the end of a run is closed: every entry can be constructed again from the others
there. So the runs in the other order follow it, with the same values and with no entry that it does
not have. As this holds both ways, the tables are equal.

Names must not clash among the types that are resolved in these runs: the theorem is about any
region that covers them.
-/

namespace Endpoints

section Orders

variable {r : Resolver} {E : Region r} (hdistinct : NamesDistinct E.Uses)
  {a b : TypeExpr} {ha hb : Hints} {va vb va' vb' : Schema} {s t s' t' : Session}
include hdistinct

/-- The runs in the other order have the same values, and enter nothing but what the runs in the
first order have left. -/
theorem follows_first_order (hfirst : (E.resolve a ha).run .empty = (.ok va, s))
    (hsecond : (E.resolve b hb).run s = (.ok vb, t))
    (hfirst' : (E.resolve b hb).run .empty = (.ok vb', s'))
    (hsecond' : (E.resolve a ha).run s' = (.ok va', t')) :
    va' = va ∧ vb' = vb ∧ Context.DrawsOn t.context .empty t'.context := by
  obtain ⟨hT, hgivesB⟩ := closed_of_runs hdistinct hfirst hsecond
  have hgrows := (resolveWithin_tracks E _ b ∅ hb _ _ _ hsecond).advances.toGrows
  obtain ⟨hgivesA, _⟩ := replay_of_run hdistinct Context.sound_empty rfl hfirst hgrows
  have hempty : Beside E t.context ∅ Session.empty.context :=
    ⟨Context.sound_empty, .of_empty t.context, Set.empty_subset _, Set.empty_subset _⟩
  have hb' := (resolveWithin_follows hT hdistinct _ _ b ∅ hb).2.2 vb _ _ _ hgivesB.stays hfirst'
    hempty
  -- What the first of them has entered is in the closed context, so the second follows as well.
  have hmiddle : Beside E t.context ∅ s'.context :=
    hempty.of_run (resolveWithin_tracks E _ b ∅ hb _ _ _ hfirst') hb'.draws (Set.empty_subset _)
      (Set.empty_subset _)
  have ha' := (resolveWithin_follows hT hdistinct _ _ a ∅ ha).2.2 va _ _ _ hgivesA.stays hsecond'
    hmiddle
  exact ⟨(ha'.value va' rfl).1, (hb'.value vb' rfl).1, hb'.draws.trans ha'.draws⟩

end Orders

private theorem Context.DrawsOn.table_eq {c c' : Context} (h : DrawsOn c' .empty c)
    (h' : DrawsOn c .empty c') : c.table = c'.table :=
  Dict.ext_get? fun name => Option.ext fun type =>
    ⟨fun htype => (h.table name type htype).resolve_left nofun,
      fun htype => (h'.table name type htype).resolve_left nofun⟩

private theorem Resolver.finish_of_runs {r : Resolver} {a b : TypeExpr} {ha hb : Hints}
    {va vb : Schema} {s t : Session} (hfirst : (r.resolve a ha).run .empty = (.ok va, s))
    (hsecond : (r.resolve b hb).run s = (.ok vb, t)) : t.context.finish = .ok t.context.table := by
  have hidle := (resolve_tracks a ha ∅ _ _ _ hfirst).advances.idle rfl
  have hleads : Context.Leads .empty t.context := (leads_of_run hfirst).trans (leads_of_run hsecond)
  exact hleads.finish_eq ((resolve_tracks b hb ∅ _ _ _ hsecond).advances.idle hidle)

/-- Confluence. Suppose two types are resolved in a fresh session one after the other, and all runs
succeed in both orders. Then each type gets the same schema in both orders, and the same table is
handed over at the end. The names of different instantiations must not clash among the types that
are resolved in these runs, that is in some region that covers all four of them. -/
theorem orders_agree (r : Resolver) {a b : TypeExpr} {ha hb : Hints} {va vb va' vb' : Schema}
    {s t s' t' : Session}
    (hfirst : (r.resolve a ha).run .empty = (.ok va, s))
    (hsecond : (r.resolve b hb).run s = (.ok vb, t))
    (hfirst' : (r.resolve b hb).run .empty = (.ok vb', s'))
    (hsecond' : (r.resolve a ha).run s' = (.ok va', t'))
    (E : Region r) (hcovers : E.Covers a ha .empty ∧ E.Covers b hb s)
    (hcovers' : E.Covers b hb .empty ∧ E.Covers a ha s') (hnames : NamesDistinct E.Uses) :
    va = va' ∧ vb = vb' ∧
      ∃ table, t.context.finish = .ok table ∧ t'.context.finish = .ok table := by
  have hends := Resolver.finish_of_runs hfirst hsecond
  have hends' := Resolver.finish_of_runs hfirst' hsecond'
  rw [← hcovers.1] at hfirst
  rw [← hcovers.2] at hsecond
  rw [← hcovers'.1] at hfirst'
  rw [← hcovers'.2] at hsecond'
  -- Each order follows the other, so neither has an entry that the other lacks.
  obtain ⟨rfl, rfl, hdraws⟩ := follows_first_order hnames hfirst hsecond hfirst' hsecond'
  obtain ⟨_, _, hdraws'⟩ := follows_first_order hnames hfirst' hsecond' hfirst hsecond
  exact ⟨rfl, rfl, t.context.table, hends, hdraws'.table_eq hdraws ▸ hends'⟩

/-- Posts and users refer to each other, and the second type is computed from the shape of a user.
Each order refers early to the type that it has started with. -/
theorem posts_and_users_agree :
    let r := Resolver.ofText ("interface Post { id: Id, author: User }\ntype Id = string[]\n" ++
      "interface User { id: Id, posts: Post[], role: Role }\nenum Role { Admin, Guest }")
    let a := TypeExpr.array (.named "Post")
    let b := TypeExpr.reference "Omit" [.named "User", .literal (.string "posts")]
    let E := Region.ofTypes r [a, b]
    ∃ va vb s t s' t', NamesDistinct E.Uses ∧ E.Covers a .none .empty ∧ E.Covers b .none s ∧
      E.Covers b .none .empty ∧ E.Covers a .none s' ∧
      (r.resolve a .none).run .empty = (.ok va, s) ∧ (r.resolve b .none).run s = (.ok vb, t) ∧
      (r.resolve b .none).run .empty = (.ok vb, s') ∧ (r.resolve a .none).run s' = (.ok va, t') ∧
      t.context.deferred = ["Post"] ∧ t'.context.deferred = ["User"] ∧
      ∃ table, t.context.finish = .ok table ∧ t'.context.finish = .ok table := by
  intro r a b E
  let s := ((r.resolve a .none).run .empty).2
  let s' := ((r.resolve b .none).run .empty).2
  -- Both orders are evaluated; that the tables agree is not.
  have hfacts : (∀ d ∈ r.index.declarations, d.declaration.typeParameters.isEmpty = true) ∧
      (r.index.declarations.map (·.location)).Nodup ∧
      ((r.resolve a .none).run .empty).1.isOk = true ∧ ((r.resolve b .none).run s).1.isOk = true ∧
      ((r.resolve b .none).run .empty).1.isOk = true ∧ ((r.resolve a .none).run s').1.isOk = true ∧
      ((r.resolve b .none).run s).2.context.deferred = ["Post"] ∧
      ((r.resolve a .none).run s').2.context.deferred = ["User"] := by decide +kernel
  obtain ⟨hplain, hlines, hfirst, hsecond, hfirst', hsecond', hdeferred, hdeferred'⟩ := hfacts
  obtain ⟨va, hfirst⟩ := Resolver.exists_run_of_isOk hfirst
  obtain ⟨vb, hsecond⟩ := Resolver.exists_run_of_isOk hsecond
  obtain ⟨vb', hfirst'⟩ := Resolver.exists_run_of_isOk hfirst'
  obtain ⟨va', hsecond'⟩ := Resolver.exists_run_of_isOk hsecond'
  have hnames : NamesDistinct E.Uses :=
    namesDistinct_of_plain (fun d hd => List.isEmpty_iff.1 (hplain d hd)) hlines
  have hA (s : Session) : E.Covers a .none s := Region.ofTypes_covers (by simp) .none s
  have hB (s : Session) : E.Covers b .none s := Region.ofTypes_covers (by simp) .none s
  -- The answers of the two orders are the same ones.
  obtain ⟨rfl, rfl, hfinish⟩ := orders_agree r hfirst hsecond hfirst' hsecond' E
    ⟨hA _, hB _⟩ ⟨hB _, hA _⟩ hnames
  exact ⟨va, vb, s, _, s', _, hnames, hA _, hB _, hB _, hA _, hfirst, hsecond, hfirst', hsecond',
    hdeferred, hdeferred', hfinish⟩

end Endpoints
