import Endpoints.Proofs.History
import Mathlib.Data.String.Basic

/-!
# Whose name a reference is

A name is claimed by the location of a declaration, that is by file and line. So a name tells apart
what stands on different lines, and nothing more: declarations on one line share it, and so do the
instantiations of one declaration whose names are written with the same letters. The first one that
is resolved then answers for all of them.
-/

namespace Endpoints

/-- The name that a schema refers to. -/
def Schema.refName? (schema : Schema) : Option String :=
  match schema.kind with
  | .reference _ name => some name
  | _ => none

namespace Instantiation

/-- The handle that a use gets where its name has an entry: an enum gets the one of the entry. -/
def answer (i : Instantiation) (entry : ReferenceType) : Schema :=
  if i.referent = .enum then entry.handle else .ofKind (.reference i.referent i.name)

private theorem refName?_answer {i : Instantiation} {entry : ReferenceType}
    (h : entry.name = i.name) :
    (i.answer entry).refName? = some i.name := by
  unfold answer
  split
  · simp [ReferenceType.handle, Schema.refName?, Schema.ofKind, h]
  · simp [Schema.refName?, Schema.ofKind]

/-- The types that the parameters stand for, in their order. -/
def boundTypes (i : Instantiation) : List TypeExpr :=
  i.declaration.declaration.typeParameters.filterMap fun parameter => i.scope.get? parameter.name

/-- `Instantiation.name` is the `qualifiedName` of the declaration, and behind it the `fragment` of
each of the `boundTypes`. -/
theorem name_eq (i : Instantiation) :
    i.name = i.declaration.qualifiedName ++ String.join (i.boundTypes.map (·.fragment)) := by
  unfold name Resolver.referenceName boundTypes
  congr 1
  -- Parameter by parameter, where an unbound one adds nothing to either side.
  induction i.declaration.declaration.typeParameters with
  | nil => rfl
  | cons parameter parameters ih =>
    rw [List.map_cons, String.join_cons, ih]
    cases hbound : i.scope.get? parameter.name with
    | none => simp [hbound]
    | some type => simp [hbound]

theorem name_eq_iff_fragments {i j : Instantiation} (h : i.declaration = j.declaration) :
    i.name = j.name ↔ String.join (i.boundTypes.map (·.fragment)) =
      String.join (j.boundTypes.map (·.fragment)) := by
  rw [name_eq, name_eq, h]
  exact String.append_right_inj _

-- Fragments start with a capital letter, so that literals which differ in nothing else share one.
example :
    let text (value : String) := (TypeExpr.literal (.string value)).fragment
    text "é" = text "É" ∧ text "ß" = text "SS" ∧ text "é" ≠ text "è" := by
  decide +kernel

end Instantiation

namespace Resolver

variable {r : Resolver} {i j : Instantiation} {type : TypeExpr} {hints : Hints}

/-! ## One use -/

/-- A type that names an instantiation is resolved by its use. -/
theorem Names.resolve_eq (h : r.Names type i) (hints : Hints) :
    (∃ d, i.declaration.declaration = .ofEnum d ∧
      r.resolve type hints = enumReference i.declaration d) ∨
    (i.referent ≠ .enum ∧ ∃ bound, r.resolve type hints =
      useName i.name i.location i.referent (r.construct (r.resolveWithin bound) i)) := by
  obtain ⟨name, arguments, located, rfl, hfind, rfl, hinlined⟩ := h
  have hpos : 0 < r.index.bound (.reference name arguments) :=
    Nat.mul_pos (Nat.succ_pos _) (Nat.succ_pos _)
  obtain ⟨bound, hbound⟩ := Nat.exists_eq_succ_of_ne_zero hpos.ne'
  have hresolve : r.resolve (.reference name arguments) hints =
      r.declared (r.resolveWithin bound) located arguments := by
    rw [resolve, hbound]
    show r.reference _ _ _ _ = _
    rw [reference, hfind]
  rw [hresolve, declared_eq]
  -- Only enums are used in a way of their own. An alias is not one that is inlined.
  cases hd : located.declaration with
  | ofEnum d => exact .inl ⟨d, hd, rfl⟩
  | ofAlias d =>
    refine .inr ⟨?_, bound, by simp only [hinlined, Bool.false_eq_true, if_false]⟩
    simp [Instantiation.referent, Instantiation.of, hd, Declaration.referent]
  | ofClass d =>
    refine .inr ⟨?_, bound, rfl⟩
    simp [Instantiation.referent, Instantiation.of, hd, Declaration.referent]
  | ofInterface d =>
    refine .inr ⟨?_, bound, rfl⟩
    simp [Instantiation.referent, Instantiation.of, hd, Declaration.referent]

private theorem Names.known (h : r.Names type i) : r.Known i := ⟨type, trivial, h⟩

/-- After a use that succeeds, the name has an entry, which answers, and comes from the place of the
declaration. Nothing may be under construction before. -/
theorem entry_of_first_use (h : r.Names type i) {s t : Session} {v : Schema}
    (hidle : s.context.inProgress = []) (hrun : (r.resolve type hints).run s = (.ok v, t)) :
    ∃ entry, t.context.reference? i.name = some entry ∧ v = i.answer entry ∧
      t.context.origins.get? i.name = some i.location := by
  rcases h.resolve_eq hints with ⟨d, hd, heq⟩ | ⟨hreferent, bound, heq⟩ <;> rw [heq] at hrun
  · have hanswer (entry : ReferenceType) : entry.handle = i.answer entry := by
      rw [Instantiation.answer, if_pos (referent_of_enum hd)]
    -- An enum has an entry, or it is entered at once.
    cases (run_enumReference_iff hd).1 hrun with
    | @known c entry hclaim hentry =>
      exact ⟨entry, hentry, hanswer entry, Context.origin_claim hclaim⟩
    | @built c hclaim hnone =>
      have horigin : c.origins.get? i.name = some i.location := Context.origin_claim hclaim
      exact ⟨enumEntry d i.name, by simp [enumEntry], hanswer _, horigin⟩
  · have hanswer (entry : ReferenceType) :
        .ofKind (.reference i.referent i.name) = i.answer entry := by
      rw [Instantiation.answer, if_neg hreferent]
    cases useOutcome_iff.1 hrun with
    | @known c hclaim hknown =>
      obtain ⟨entry, hentry⟩ := Option.isSome_iff_exists.1 hknown
      exact ⟨entry, hentry, hanswer entry, Context.origin_claim hclaim⟩
    -- Only a name under construction is answered without an entry.
    | deferred hclaim hnone hprogress => simp [Context.inProgress_claim hclaim, hidle] at hprogress
    | @built c entry u hclaim hnone hnew hdepth hconstruct =>
      -- The construction does not release the name.
      have houtcome := construct_tracks bound h.known ∅ _ _ _ hconstruct
      obtain ⟨_, _, hentry, _⟩ := houtcome.value entry rfl
      have horigin : u.context.origins.get? i.name = some i.location :=
        houtcome.advances.origins _ _ (by simpa using Context.origin_claim hclaim)
      exact ⟨entry, by simp [hentry.name], hanswer entry, horigin⟩

/-- A use of a name that comes from the same place and has an entry is answered by the entry. -/
theorem run_of_same_location (h : r.Names type i) (hints : Hints) {s : Session}
    {entry : ReferenceType} (horigin : s.context.origins.get? i.name = some i.location)
    (hentry : s.context.reference? i.name = some entry) :
    (r.resolve type hints).run s = (.ok (i.answer entry), s) := by
  have hclaim : s.context.claim i.name i.location = .ok s.context :=
    Context.claim_eq_ok.2 (.inl ⟨horigin, rfl⟩)
  rcases h.resolve_eq hints with ⟨d, hd, heq⟩ | ⟨hreferent, bound, heq⟩ <;>
    rw [heq, Instantiation.answer]
  · rw [if_pos (referent_of_enum hd)]
    exact (run_enumReference_iff hd).2 (.known hclaim hentry)
  · rw [if_neg hreferent]
    exact useOutcome_iff.2 (.known hclaim (by simp [hentry]))

/-- A use of a name that comes from another place fails and changes nothing. -/
theorem run_of_other_location (h : r.Names type i) (hints : Hints) {s : Session} {first : String}
    (horigin : s.context.origins.get? i.name = some first) (hne : first ≠ i.location) :
    (r.resolve type hints).run s =
      (.error (.ofFault (.duplicateReferenceName i.name first i.location)), s) := by
  have hclaim : s.context.claim i.name i.location =
      .error (.duplicateReferenceName i.name first i.location) := by
    simp [Context.claim, horigin, hne]
  rcases h.resolve_eq hints with ⟨d, hd, heq⟩ | ⟨hreferent, bound, heq⟩ <;> rw [heq]
  · exact (run_enumReference_iff hd).2 (.refused hclaim)
  · exact useOutcome_iff.2 (.refused hclaim)

/-! ## A history with two uses -/

section History

variable {before between : List (TypeExpr × Hints)} {v : Schema} {t : Session}

/-- A session between the types of a history. -/
structure Idle (r : Resolver) (s : Session) : Prop where
  sound : s.context.Sound r.Known
  inProgress : s.context.inProgress = []

theorem idle_empty : r.Idle .empty := ⟨Context.sound_empty, rfl⟩

private theorem Idle.resolveEach {s : Session} (h : r.Idle s) (calls : List (TypeExpr × Hints)) :
    r.Idle (r.resolveEach s calls).2 :=
  ⟨(r.resolveEach_sound s h.sound calls).1,
    (r.resolveEach_advances s calls).idle h.inProgress⟩

theorem Idle.resolve {s t : Session} {o : Except Error Schema} (h : r.Idle s)
    (hrun : (r.resolve type hints).run s = (o, t)) : r.Idle t := by
  have houtcome := resolve_tracks type hints ∅ s o t hrun
  exact ⟨houtcome.sound h.sound (Set.empty_subset _), houtcome.advances.idle h.inProgress⟩

/-- What a use has left in the context is still there after more types. -/
private theorem entry_after_use (h : r.Names type i) {s : Session} (hidle : r.Idle s)
    (hrun : (r.resolve type hints).run s = (.ok v, t)) (between : List (TypeExpr × Hints)) :
    ∃ entry, entry.name = i.name ∧ v = i.answer entry ∧
      (r.resolveEach t between).2.context.reference? i.name = some entry ∧
      (r.resolveEach t between).2.context.origins.get? i.name = some i.location := by
  obtain ⟨entry, hentry, hv, horigin⟩ := entry_of_first_use h hidle.inProgress hrun
  have hname := ((hidle.resolve hrun).sound _ _ hentry).name
  have hlater := r.resolveEach_advances t between
  exact ⟨entry, hname, hv, hlater.table _ _ hentry, hlater.origins _ _ horigin⟩

/-- The handles that a history has handed out: those in the types that it has resolved and in the
entries of the table, and those of the entries. -/
def Given (r : Resolver) (calls : List (TypeExpr × Hints)) (handle : Handle) : Prop :=
  (∃ schema, .ok schema ∈ (r.resolveEach .empty calls).1 ∧ handle ∈ schema.handles) ∨
    ∃ name type, (r.resolveEach .empty calls).2.context.reference? name = some type ∧
      (handle ∈ type.handles ∨ handle = ⟨type.shape.referent, name⟩)

/-- The context at the end grants all handles that were given. -/
private theorem Given.grants {calls : List (TypeExpr × Hints)} {handle : Handle}
    (h : r.Given calls handle) :
    (r.resolveEach .empty calls).2.context.Grants r.Known handle := by
  obtain ⟨hsound, houtcomes⟩ := r.resolveEach_sound .empty Context.sound_empty calls
  rcases h with ⟨schema, hschema, hhandle⟩ | ⟨name, type, htype, hhandle | rfl⟩
  · exact houtcomes schema hschema handle hhandle
  · exact (hsound name type htype).within handle hhandle
  · exact (hsound name type htype).own

end History

end Resolver

/-- A name belongs to a file and a line. Once a type that names an instantiation has been resolved,
a later type that names one with the same name succeeds exactly if both declarations stand on the
same line of the same file: then the entry of the first answers, whatever the two declarations are,
and else the later one fails with the name and both places. The session stays as it is either way.
And wherever two handles with the same name have been handed out, their declarations share a
line. -/
theorem names_by_location (r : Resolver) :
    (∀ (before between : List (TypeExpr × Hints)) (type type' : TypeExpr) (hints hints' : Hints)
      (i j : Instantiation) (v : Schema) (t : Session),
      r.Names type i → r.Names type' j → i.name = j.name →
      (r.resolve type hints).run (r.resolveEach .empty before).2 = (.ok v, t) →
      let u := (r.resolveEach t between).2
      v.refName? = some i.name ∧
      (i.location = j.location → ∃ entry, u.context.reference? i.name = some entry ∧
        v = i.answer entry ∧ (r.resolve type' hints').run u = (.ok (j.answer entry), u) ∧
        (j.answer entry).refName? = some i.name) ∧
      (i.location ≠ j.location → (r.resolve type' hints').run u =
        (.error (.ofFault (.duplicateReferenceName i.name i.location j.location)), u))) ∧
    ∀ (calls : List (TypeExpr × Hints)) (handle handle' : Handle),
      r.Given calls handle → r.Given calls handle' → handle.name = handle'.name →
      ∃ i j, r.Known i ∧ r.Known j ∧ i.handle = handle ∧ j.handle = handle' ∧
        i.location = j.location := by
  constructor
  · intro before between type type' hints hints' i j v t hi hj hname hrun u
    have hidle := (Resolver.idle_empty (r := r)).resolveEach before
    obtain ⟨entry, hentryName, hv, hentry, horigin⟩ :=
      Resolver.entry_after_use hi hidle hrun between
    refine ⟨hv ▸ Instantiation.refName?_answer hentryName, fun hlocation => ?_, fun hne => ?_⟩
    · rw [hlocation, hname] at horigin
      refine ⟨entry, hentry, hv, ?_, ?_⟩
      · exact Resolver.run_of_same_location hj hints' horigin (hname ▸ hentry)
      · rw [hname]
        exact Instantiation.refName?_answer (hentryName.trans hname)
    · rw [hname] at horigin ⊢
      exact Resolver.run_of_other_location hj hints' horigin hne
  -- A handle is granted for an instantiation at the place that has claimed the name.
  · intro calls handle handle' hgiven hgiven' hname
    obtain ⟨i, hi, hhandle, horigin⟩ := hgiven.grants.origin
    obtain ⟨j, hj, hhandle', horigin'⟩ := hgiven'.grants.origin
    rw [hname] at horigin
    exact ⟨i, j, hi, hj, hhandle, hhandle', Option.some.inj (horigin.symm.trans horigin')⟩

/-- Two declarations on one line: an interface and an alias have the same name, and the alias is
answered with a handle that does not fit the entry. -/
theorem box_answers_for_alias :
    let r := Resolver.ofText "interface Box<T> { value: T } type BoxString = number[];"
    let box := TypeExpr.reference "Box" [.keyword .string]
    let t := ((r.resolve box .none).run .empty).2
    ∃ i j v entry, r.Names box i ∧ r.Names (.named "BoxString") j ∧ i.name = j.name ∧
      i.location = j.location ∧ i.referent = .object ∧ j.referent = .typeAlias ∧
      (r.resolve box .none).run .empty = (.ok v, t) ∧
      t.context.reference? i.name = some entry ∧ v = i.answer entry ∧
      (r.resolve (.named "BoxString") .none).run t = (.ok (j.answer entry), t) ∧
      (j.answer entry).refName? = some i.name := by
  intro r box t
  -- The two instantiations share name and place, since both stand on one line.
  have hfacts : (r.index.find "Box").length = 1 ∧ (r.index.find "BoxString").length = 1 ∧
      ((r.resolve box .none).run .empty).1.isOk = true ∧
      ∀ d ∈ r.index.find "Box", ∀ d' ∈ r.index.find "BoxString",
        let i := Instantiation.of d [.keyword .string]
        let j := Instantiation.of d' []
        i.isInlined = false ∧ j.isInlined = false ∧ i.name = j.name ∧ i.location = j.location ∧
          i.referent = .object ∧ j.referent = .typeAlias := by decide +kernel
  obtain ⟨hone, hone', hok, hfacts⟩ := hfacts
  obtain ⟨d, hd⟩ := List.length_eq_one_iff.1 hone
  obtain ⟨d', hd'⟩ := List.length_eq_one_iff.1 hone'
  obtain ⟨hi, hj, hname, hlocation, hobject, halias⟩ := hfacts d (by simp [hd]) d' (by simp [hd'])
  have hnames : r.Names box (.of d [.keyword .string]) := ⟨_, _, d, rfl, hd, rfl, hi⟩
  have hnames' : r.Names (.named "BoxString") (.of d' []) := ⟨_, _, d', rfl, hd', rfl, hj⟩
  obtain ⟨v, hrun⟩ := Resolver.exists_run_of_isOk hok
  -- The second use finds the entry that the first one left.
  obtain ⟨_, hsame, _⟩ :=
    (names_by_location r).1 [] [] _ _ .none .none _ _ v t hnames hnames' hname hrun
  obtain ⟨entry, hentry, hv, hlater, hrefName⟩ := hsame hlocation
  exact ⟨_, _, v, entry, hnames, hnames', hname, hlocation, hobject, halias, hrun, hentry, hv,
    hlater, hrefName⟩

/-! ## Instantiations of one declaration -/

/-- Which instantiations of one declaration are kept apart. After a type that names one of them has
been resolved, a later type that names another is answered by the same handle, without any change,
if the fragments of their bound types give the same text; else it gets a name and an entry of its
own, if it succeeds. -/
theorem instantiations_by_fragments (r : Resolver) (before between : List (TypeExpr × Hints))
    {type type' : TypeExpr} (hints hints' : Hints) {i j : Instantiation} {v : Schema} {t : Session}
    (hi : r.Names type i) (hj : r.Names type' j) (hd : i.declaration = j.declaration)
    (hrun : (r.resolve type hints).run (r.resolveEach .empty before).2 = (.ok v, t)) :
    let u := (r.resolveEach t between).2
    let text := fun i : Instantiation => String.join (i.boundTypes.map (·.fragment))
    (text i = text j → (r.resolve type' hints').run u = (.ok v, u)) ∧
    (text i ≠ text j → ∀ w u', (r.resolve type' hints').run u = (.ok w, u') →
      v.refName? ≠ w.refName? ∧
      ∃ entry entry', entry.name ≠ entry'.name ∧ v = i.answer entry ∧ w = j.answer entry' ∧
        u'.context.reference? i.name = some entry ∧
        u'.context.reference? j.name = some entry') := by
  intro u text
  have hidle := (Resolver.idle_empty (r := r)).resolveEach before
  obtain ⟨entry, hentryName, hv, hentry, horigin⟩ := Resolver.entry_after_use hi hidle hrun between
  constructor
  · intro htext
    -- The same name, the same place and the same kind of declaration make the same answer.
    have hname : i.name = j.name := (Instantiation.name_eq_iff_fragments hd).2 htext
    have hreferent : i.referent = j.referent := by
      rw [Instantiation.referent, hd, ← Instantiation.referent]
    have hanswer : i.answer entry = j.answer entry := by
      unfold Instantiation.answer
      rw [hreferent, hname]
    have hlocation : i.location = j.location := congrArg Located.location hd
    rw [hname] at hentry
    rw [hname, hlocation] at horigin
    rw [hv, hanswer]
    exact Resolver.run_of_same_location hj hints' horigin hentry
  · intro htext w u' hrun'
    have hname : i.name ≠ j.name := fun h => htext ((Instantiation.name_eq_iff_fragments hd).1 h)
    have hidle' : r.Idle u := (hidle.resolve hrun).resolveEach between
    obtain ⟨entry', hentryName', hw, hentry', _⟩ :=
      Resolver.entry_after_use hj hidle' hrun' []
    -- The second use keeps the entry of the first.
    have hkept := (Resolver.resolve_tracks type' hints' ∅ _ _ _ hrun').advances.table _ _ hentry
    refine ⟨?_, entry, entry', ?_, hv, hw, hkept, hentry'⟩
    · rw [hv, hw, Instantiation.refName?_answer hentryName,
        Instantiation.refName?_answer hentryName']
      exact fun h => hname (Option.some.inj h)
    · rwa [hentryName, hentryName']

/-- Two instantiations with different arguments whose names are written in the same way: the first
answers for the second. -/
theorem page_answers_for_other_page :
    let r := Resolver.ofText ("namespace Api { export interface User { id: string } }\n" ++
      "interface ApiUser { name: string }\ninterface Page<T> { item: T }")
    let page := fun name => TypeExpr.reference "Page" [.named name]
    let t := ((r.resolve (page "Api.User") .none).run .empty).2
    ∃ i j v, r.Names (page "Api.User") i ∧ r.Names (page "ApiUser") j ∧
      i.declaration = j.declaration ∧ i.boundTypes.map (·.display) = ["Api.User"] ∧
      j.boundTypes.map (·.display) = ["ApiUser"] ∧ i.name = "PageApiUser" ∧
      t.context.table.keys = ["Api.User", "PageApiUser"] ∧
      (r.resolve (page "Api.User") .none).run .empty = (.ok v, t) ∧
      (r.resolve (page "ApiUser") .none).run t = (.ok v, t) := by
  intro r page t
  -- The joined fragments are equal although the arguments are not.
  have hfacts : (r.index.find "Page").length = 1 ∧
      ((r.resolve (page "Api.User") .none).run .empty).1.isOk = true ∧
      t.context.table.keys = ["Api.User", "PageApiUser"] ∧
      ∀ d ∈ r.index.find "Page",
        let i := Instantiation.of d [.named "Api.User"]
        let j := Instantiation.of d [.named "ApiUser"]
        i.isInlined = false ∧ j.isInlined = false ∧ i.boundTypes.map (·.display) = ["Api.User"] ∧
          j.boundTypes.map (·.display) = ["ApiUser"] ∧ i.name = "PageApiUser" ∧
          String.join (i.boundTypes.map (·.fragment)) =
            String.join (j.boundTypes.map (·.fragment)) := by decide +kernel
  obtain ⟨hone, hok, hkeys, hfacts⟩ := hfacts
  obtain ⟨d, hd⟩ := List.length_eq_one_iff.1 hone
  obtain ⟨hi, hj, hbound, hbound', hname, htext⟩ := hfacts d (by simp [hd])
  have hnames : r.Names (page "Api.User") (.of d [.named "Api.User"]) := ⟨_, _, d, rfl, hd, rfl, hi⟩
  have hnames' : r.Names (page "ApiUser") (.of d [.named "ApiUser"]) := ⟨_, _, d, rfl, hd, rfl, hj⟩
  obtain ⟨v, hrun⟩ := Resolver.exists_run_of_isOk hok
  have hsame := (instantiations_by_fragments r [] [] .none .none hnames hnames' rfl hrun).1 htext
  exact ⟨_, _, v, hnames, hnames', rfl, hbound, hbound', hname, hkeys, hrun, hsame⟩

end Endpoints
