import Endpoints.Proofs.ForStd
import Endpoints.Proofs.Height
import Endpoints.Proofs.Passage
import Endpoints.Proofs.Shape

/-!
# Resolution stays within its bound

Every type is resolved with a bound on how deep its parts lie. The bound is never reached, whatever
the program and the context: each part is lower than the type that it stands in, and each
construction of a named type takes one of finitely many levels. So resolution is the recursion
without a bound, which terminates.

The levels are counted by the `room` of a context: the constructions that fit under `maxDepth`, and
some more for each enum that has no entry yet. A run never makes more room, although an enum can end
the construction of a type that has its name.

## Key results

- `Context.Advances.room_le`: a run makes no room
- `Context.room_start`: the start of a construction takes a level
- `Resolver.step_bounded`: a step needs its parts only within bounds that suffice for them
- `Resolver.resolve_ordinary`: resolution never fails for want of a bound
- `resolution_terminates`: unrolled deep enough, the recursion has one result
-/

namespace Endpoints

open Context Traced

variable {r : Resolver}

/-! ## Room -/

namespace Context

variable {c c' : Context} {name : String}

/-- The enums of a program that have no entry yet. -/
def missingEnums (index : Index) (c : Context) : List Located :=
  index.declarations.filter fun d =>
    d.declaration.referent == .enum && (c.reference? d.qualifiedName).isNone

/-- A bound on how many constructions can be started inside each other. -/
def room (index : Index) (c : Context) : Nat :=
  (maxDepth - c.depth) + (maxDepth + 1) * (c.missingEnums index).length

private theorem room_le_levels (index : Index) (c : Context) : c.room index ≤ index.levels := by
  have hmissing : (c.missingEnums index).length ≤ index.declarations.length :=
    List.length_filter_le _ _
  have hmul := Nat.mul_le_mul_left (maxDepth + 1) hmissing
  unfold room Index.levels
  rw [Nat.mul_add]
  omega

/-- Where more names have entries, fewer enums are missing. -/
private theorem missingEnums_sublist (index : Index)
    (h : ∀ name, (c.reference? name).isSome → (c'.reference? name).isSome) :
    (c'.missingEnums index).Sublist (c.missingEnums index) := by
  refine List.monotone_filter_right _ fun d hd => ?_
  simp only [Bool.and_eq_true, Option.isNone_iff_eq_none] at hd ⊢
  refine ⟨hd.1, Option.eq_none_iff_forall_ne_some.2 fun type htype => ?_⟩
  have hsome := h d.qualifiedName (by simp [htype])
  simp [hd.2] at hsome

/-- An enum that gets its entry is not missing any more. -/
private theorem missingEnums_length_lt {i : Instantiation} (hi : r.Known i)
    (henum : i.referent = .enum)
    (h : ∀ name, (c.reference? name).isSome → (c'.reference? name).isSome)
    (hnone : c.reference? i.name = none) (hsome : (c'.reference? i.name).isSome) :
    (c'.missingEnums r.index).length < (c.missingEnums r.index).length := by
  obtain ⟨d, hd⟩ := Resolver.exists_enum_of_referent henum
  have hsublist := missingEnums_sublist r.index h
  -- If as many were missing, they would be the same ones, this enum among them.
  refine lt_of_le_of_ne hsublist.length_le fun hlength => ?_
  have hmem : i.declaration ∈ c.missingEnums r.index := by
    refine List.mem_filter.2 ⟨hi.declared, ?_⟩
    rw [Resolver.qualifiedName_of_enum hd, hnone]
    simpa [Instantiation.referent] using henum
  rw [← hsublist.eq_of_length hlength] at hmem
  have hmissing := (List.mem_filter.1 hmem).2
  rw [Resolver.qualifiedName_of_enum hd] at hmissing
  obtain ⟨type, htype⟩ := Option.isSome_iff_exists.1 hsome
  simp [htype] at hmissing

/-- A run makes no room. -/
theorem Advances.room_le (h : c.Advances r.Known c') : c'.room r.index ≤ c.room r.index := by
  have hnames := h.toGrows.keeps.names
  have hmissing := (missingEnums_sublist r.index hnames).length_le
  obtain ⟨finished, heq, hfinished⟩ := h.inProgress
  unfold room depth
  by_cases hgone : ∃ name ∈ c.inProgress, name ∈ finished
  · -- Some construction was ended by an enum, which pays for all levels that this gives back.
    obtain ⟨name, _, hname⟩ := hgone
    obtain ⟨hnone, hgrants⟩ := hfinished name hname
    obtain ⟨i, hi, hhandle, _⟩ := hgrants.origin
    obtain rfl : i.name = name := congrArg Handle.name hhandle
    have henum : i.referent = .enum := congrArg Handle.referent hhandle
    have hlt := missingEnums_length_lt hi henum hnames hnone (hgrants.finished rfl)
    have hmul := Nat.mul_le_mul_left (maxDepth + 1) (Nat.succ_le_of_lt hlt)
    rw [Nat.mul_succ] at hmul
    omega
  -- All constructions go on, so the depth is the same.
  · have hsame : c'.inProgress = c.inProgress := by
      rw [heq, List.filter_eq_self]
      intro name hname
      simpa using fun hmem => hgone ⟨name, hname, hmem⟩
    have hmul := Nat.mul_le_mul_left (maxDepth + 1) hmissing
    rw [hsame]
    omega

/-- The start of a construction takes a level. -/
theorem room_start (index : Index) (hnew : name ∉ c.inProgress) (hdepth : c.depth < maxDepth) :
    (c.start name).room index + 1 = c.room index := by
  have hmissing : (c.start name).missingEnums index = c.missingEnums index := by
    unfold missingEnums
    simp only [reference?_start]
  have hprogress : c.isInProgress name = false := by simpa [isInProgress] using hnew
  unfold room depth at *
  rw [hmissing, inProgress_start hprogress, List.length_cons]
  omega

end Context

/-! ## Runs within a number of levels -/

variable {shapes : Shapes} {A : Set Handle} {α β : Type}

/-- A fault with which types are refused, or one of the reading of shapes. -/
def Fault.Expected (shapes : Shapes) (fault : Fault) : Prop :=
  fault.Ordinary ∨ ∃ c schema, shapes c schema = .error fault

/-- Two computations that differ only in their bounds. Where there is no more room than some levels,
neither reaches its bound: they have the same runs, and fail for a reason of their own. -/
structure Bounded (r : Resolver) (levels : Nat) (A : Set Handle) (Q : Set Handle → α → Prop)
    (x y : Traced shapes α) : Prop extends Passes r Grows A Q y where
  same : ∀ s, s.context.room r.index ≤ levels → x.run s = y.run s
  expected : ∀ s e t events, s.context.room r.index ≤ levels →
    y.run s = ((.error e, t), events) → e.fault.Expected shapes

namespace Bounded

variable {levels : Nat} {Q : Set Handle → α → Prop}

variable {x : Traced shapes α}

private theorem of_passes (h : Passes r Grows A Q x)
    (herror : ∀ s e t events, x.run s = ((.error e, t), events) → e.fault.Expected shapes) :
    Bounded r levels A Q x x :=
  ⟨h, fun _ _ => rfl, fun s e t events _ hrun => herror s e t events hrun⟩

theorem pure {a : α} (h : Q A a) : Bounded r levels A Q (Pure.pure a : Traced shapes α)
    (Pure.pure a) :=
  .of_passes (.pure h) fun _ _ _ _ hrun => nomatch hrun

theorem fail {fault : Fault} (h : fault.Ordinary) :
    Bounded r levels A Q (Resolve.fail fault : Traced shapes α) (Resolve.fail fault) := by
  refine .of_passes .fail fun s e t events hrun => ?_
  obtain ⟨rfl⟩ : Error.ofFault fault = e := Except.error.inj (congrArg (·.1.1) hrun)
  exact .inl h

variable {y : Traced shapes α}

/-- Computations in sequence: the second one starts with no more room than the first. -/
theorem bind {R : Set Handle → β → Prop} {f g : α → Traced shapes β}
    (hx : Bounded r levels A Q x y)
    (hf : ∀ B, A ⊆ B → ∀ a, Q B a → Bounded r levels B R (f a) (g a)) :
    Bounded r levels A R (x >>= f) (y >>= g) where
  toPasses := hx.toPasses.bind (persistent_grows r) fun B hB a ha => (hf B hB a ha).toPasses
  same s hroom := by
    have hfirst := hx.same s hroom
    have hends := (hx.along s).ends
    -- By the outcome of the first computation, which is the same for both bounds.
    rcases hrun : y.run s with ⟨⟨e | a, t⟩, events⟩ <;> rw [hrun] at hfirst hends
    · rw [run_bind_of_error hfirst, run_bind_of_error hrun]
    · obtain ⟨B, hB, ha⟩ := hx.value s a t events hrun
      rw [run_bind_of_ok hfirst, run_bind_of_ok hrun,
        (hf B hB a ha).same t (hends.room_le.trans hroom)]
  expected s e t events hroom heq := by
    have hends := (hx.along s).ends
    rcases hrun : y.run s with ⟨⟨e' | a, u⟩, earlier⟩
    · rw [run_bind_of_error hrun] at heq
      obtain rfl : e' = e := Except.error.inj (congrArg (·.1.1) heq)
      exact hx.expected s e' u earlier hroom hrun
    · rw [hrun] at hends
      obtain ⟨B, hB, ha⟩ := hx.value s a u earlier hrun
      rw [run_bind_of_ok hrun] at heq
      exact (hf B hB a ha).expected u e t _ (hends.room_le.trans hroom)
        (Prod.ext (congrArg (·.1) heq) rfl)

/-- A place that is added to errors changes neither the runs nor the reason of a failure. -/
theorem inside {place : Place} (h : Bounded r levels A Q x y) :
    Bounded r levels A Q (Resolve.inside place x) (Resolve.inside place y) where
  toPasses := h.toPasses.inside
  same s hroom := by rw [run_inside, run_inside, h.same s hroom]
  expected s e t events hroom heq := by
    rw [run_inside] at heq
    rcases hrun : y.run s with ⟨⟨e' | a, u⟩, earlier⟩ <;> rw [hrun] at heq
    · obtain rfl : e'.inside place = e := Except.error.inj (congrArg (·.1.1) heq)
      exact h.expected s e' u earlier hroom hrun
    · exact nomatch heq

/-- A call that is noted in the trace. -/
private theorem call (h : Bounded r levels A Q x y) (type : TypeExpr) (hints : Hints) :
    Bounded r levels A Q (Traced.call type hints >>= fun _ => x)
      (Traced.call type hints >>= fun _ => y) where
  toPasses := h.toPasses.call type hints
  same s hroom := by
    have hrest := h.same s hroom
    exact Prod.ext (congrArg (·.1) hrest) (congrArg (_ :: ·) (congrArg (·.2) hrest))
  expected s e t events hroom heq :=
    h.expected s e t _ hroom (Prod.ext (congrArg (·.1) heq) rfl)

/-- Reading a shape needs no bound, and fails as the reader of shapes does. -/
theorem shapeOf (schema : Schema) :
    Bounded r levels A ObjectShape.Within (Resolve.shapeOf schema : Traced shapes ObjectShape)
      (Resolve.shapeOf schema) := by
  refine .of_passes (.shapeOf schema) fun s e t events heq => ?_
  rw [run_shapeOf] at heq
  cases hshape : shapes s.context schema with
  | ok shape =>
    rw [hshape] at heq
    exact nomatch heq
  | error fault =>
    rw [hshape] at heq
    obtain rfl : Error.ofFault fault = e := Except.error.inj (congrArg (·.1.1) heq)
    exact .inr ⟨s.context, schema, hshape⟩

end Bounded

def boundComposition (shapes : Shapes) (r : Resolver) (levels : Nat) :
    Composition (Traced shapes) (Traced shapes) where
  Rel A Q x y := Bounded r levels A Q x y
  rel_pure := .pure
  rel_bind := .bind
  formed := Schema.formed_within

/-- The steps of resolution stay within a number of levels if their parts do. -/
private theorem boundSimulation (r : Resolver) (levels : Nat) (p q : Parts (Traced shapes)) :
    (boundComposition shapes r levels).Simulation p q where
  rel_fail h := .fail h.1.ordinary
  rel_inside := .inside
  rel_warn A warning := .of_passes (.read (fun _ => trivial) fun s => ⟨_, _, rfl, rfl⟩)
    fun _ _ _ _ hrun => nomatch hrun
  rel_shapeOf A schema _ := .shapeOf schema
  rel_union A members hints h := by
    refine .bind ((boundComposition shapes r levels).rel_resolveAll (A := A) h) fun B _ _ _ => ?_
    exact .of_passes (.read Schema.within_univ fun s => ⟨_, _, rfl, rfl⟩)
      fun _ _ _ _ hrun => nomatch hrun

/-! ## Named types -/

namespace Bounded

variable {i : Instantiation} {levels : Nat}

/-- The use of a name, where its construction stays within one level less. -/
theorem useName {construct construct' : Traced shapes ReferenceType}
    (hpasses : Passes r Grows A i.IsEntry construct')
    (h : ∀ inner, levels = inner + 1 → Bounded r inner A i.IsEntry construct construct') :
    Bounded r levels A Schema.Within (Resolver.useName i.name i.location i.referent construct)
      (Resolver.useName i.name i.location i.referent construct') := by
  -- A construction that is started takes a level, so there was one.
  have hstart {s : Session} {c : Context} (hroom : s.context.room r.index ≤ levels)
      (hclaim : s.context.claim i.name i.location = .ok c) (hnew : i.name ∉ c.inProgress)
      (hdepth : c.depth < maxDepth) : ∃ inner, (c.start i.name).room r.index ≤ inner ∧
        Bounded r inner A i.IsEntry construct construct' := by
    have hclaimed := (Advances.claim (P := r.Known) hclaim).room_le
    have hlevel := Context.room_start r.index hnew hdepth
    obtain ⟨inner, hinner⟩ : ∃ inner, levels = inner + 1 :=
      Nat.exists_eq_succ_of_ne_zero (by omega)
    exact ⟨inner, by omega, h inner hinner⟩
  refine ⟨hpasses.useName (persistent_grows r), fun s hroom => ?_,
    fun s e t events hroom heq => ?_⟩
  · rw [run_useName, run_useName]
    cases hclaim : s.context.claim i.name i.location with
    | error fault => rfl
    | ok c =>
      dsimp only
      split
      · rfl
      · split
        · rfl
        · next hnew =>
          split
          · rfl
          · next hdepth =>
            obtain ⟨inner, hinner, hbounded⟩ :=
              hstart hroom hclaim (by simpa using hnew) (Nat.lt_of_not_ge hdepth)
            rw [hbounded.same { s with context := c.start i.name } hinner]
  · -- The events do not matter for the error, so the outcomes of a plain run are all there are.
    have hrun := congrArg Prod.fst heq
    rw [← run_plain, plain_useName] at hrun
    dsimp only at hrun
    generalize ho : (Except.error e : Except Error Schema) = o at hrun
    cases Resolver.useOutcome_iff.1 hrun with
    | known | deferred | built => exact nomatch ho
    | refused hclaim =>
      rw [Except.error.inj ho]
      exact .inl (raised_of_claim hclaim fun _ => True).1.ordinary
    | tooDeep =>
      rw [Except.error.inj ho]
      exact .inl (by simp [Error.ofFault])
    | @failed c _ u hclaim hnone hnew hdepth hconstruct =>
      obtain ⟨inner, hinner, hbounded⟩ := hstart hroom hclaim hnew hdepth
      rw [Except.error.inj ho]
      exact hbounded.expected _ _ _ _ hinner (Prod.ext hconstruct rfl)

/-- An enum is finished at once, without any bound. -/
theorem enumReference {d : EnumDecl} (hi : r.Known i) (hd : i.declaration.declaration = .ofEnum d) :
    Bounded r levels A Schema.Within (Resolver.enumReference i.declaration d : Traced shapes Schema)
      (Resolver.enumReference i.declaration d) := by
  refine .of_passes (.enumReference (persistent_grows r) hi hd)
    fun s e t events heq => ?_
  have hrun := congrArg Prod.fst heq
  rw [← run_plain, plain_enumReference] at hrun
  generalize ho : (Except.error e : Except Error Schema) = o at hrun
  cases (Resolver.run_enumReference_iff hd).1 hrun with
  | known | built => exact nomatch ho
  | refused hclaim =>
    rw [Except.error.inj ho]
    exact .inl (raised_of_claim hclaim fun _ => True).1.ordinary

end Bounded

/-! ## Chains of inheritance -/

namespace Resolver

variable {m : Type → Type} [Monad m] [MonadExceptOf Error m] [MonadSession m] {parts : Parts m}

/-- A parent is looked at only where it has members and does not stand in the chain yet. -/
theorem inheritedShape_congr {structural structural' : Located → Scope → m ObjectShape}
    {chain : List String} {parent : TypeExpr}
    (h : ∀ other arguments, r.structuralParent? parent = some (other, arguments) →
      other.qualifiedName ∉ chain →
      structural other (Scope.bind other.declaration.typeParameters arguments) =
        structural' other (Scope.bind other.declaration.typeParameters arguments)) :
    r.inheritedShape parts structural chain parent =
      r.inheritedShape parts structural' chain parent := by
  unfold inheritedShape
  split
  · next name arguments =>
    split
    · next located hfind =>
      split
      · next hdeclaration =>
        split
        · rfl
        -- The only branch that calls the function: a structural parent that is new in the chain.
        · next hchain =>
          refine h located arguments ?_ (by simpa using hchain)
          simp [structuralParent?, hfind, hdeclaration]
      · rfl
    · rfl
    · rfl
  · rfl

/-- The chain of a declaration never comes to its end, so that more links change nothing. -/
theorem structuralShape_eq_of_le {links links' : Nat} {chain : List String} {located : Located}
    {scope : Scope} (hchain : Chain r links chain) (hd : located ∈ r.index.declarations)
    (hnew : located.qualifiedName ∉ chain) (hle : links ≤ links') :
    r.structuralShape parts links' chain located scope =
      r.structuralShape parts links chain located scope := by
  -- Induction on the links that are left. The chain shows that there is one, so both walks go on.
  induction links generalizing links' chain located scope with
  | zero => exact absurd hchain.links_pos (by omega)
  | succ links ih =>
    obtain ⟨links', rfl⟩ : ∃ n, links' = n + 1 := Nat.exists_eq_succ_of_ne_zero (by omega)
    have hnext := hchain.append hd hnew
    unfold structuralShape
    dsimp only
    -- Only the walk through the parents has links; own members are resolved without them.
    congr 1
    refine List.foldlM_congr_of_mem (fun parent _ shape => ?_) _
    rw [inheritedShape_congr fun other arguments hother hnot => ?_]
    exact ih hnext (mem_of_structuralParent? hother) hnot (by omega)

end Resolver

/-! ## Resolution -/

namespace Index

variable (index : Index)

/-- The bound that a type of some height needs with some levels of room. -/
def need (levels height : Nat) : Nat :=
  (levels + 1) * (height + levels * (index.maxChain * index.height) + 1)

private theorem bound_eq_need (type : TypeExpr) :
    index.bound type = index.need index.levels type.height :=
  rfl

private theorem need_pos (levels height : Nat) : 0 < index.need levels height :=
  Nat.mul_pos (Nat.succ_pos _) (Nat.succ_pos _)

private theorem need_lt (levels : Nat) {height height' : Nat} (h : height < height') :
    index.need levels height < index.need levels height' :=
  Nat.mul_lt_mul_of_pos_left (by omega) (Nat.succ_pos _)

private theorem need_le {levels levels' height height' : Nat} (h : levels ≤ levels')
    (hheight : height ≤ height') : index.need levels height ≤ index.need levels' height' := by
  have hadded := Nat.mul_le_mul_right (index.maxChain * index.height) h
  exact Nat.mul_le_mul (by omega) (by omega)

/-- A level is worth as much as a construction adds to the height. -/
private theorem need_construct_lt (levels height : Nat) :
    index.need levels (height + index.maxChain * index.height) <
      index.need (levels + 1) height := by
  unfold need
  rw [Nat.succ_mul levels (index.maxChain * index.height)]
  have heq : height + index.maxChain * index.height + levels * (index.maxChain * index.height) + 1 =
      height + (levels * (index.maxChain * index.height) + index.maxChain * index.height) + 1 := by
    omega
  rw [heq]
  exact Nat.mul_lt_mul_of_pos_right (by omega) (Nat.succ_pos _)

end Index

namespace Resolver

variable {type : TypeExpr}

/-- A step stays within the levels if it does so for all types that need less. -/
theorem step_bounded {p q : Parts (Traced shapes)} {levels : Nat}
    (hq : ∀ part A hints, Passes r Grows A Schema.Within (q part hints))
    (h : ∀ inner part, inner ≤ levels →
      r.index.need inner part.height < r.index.need levels type.height →
      (boundComposition shapes r inner).Resolves p q part) (A : Set Handle) (hints : Hints) :
    Bounded r levels A Schema.Within (r.step p type hints) (r.step q type hints) := by
  have hlower (part : TypeExpr) (hpart : part.height < type.height) :
      (boundComposition shapes r levels).Resolves p q part :=
    h levels part le_rfl (r.index.need_lt levels hpart)
  refine (boundSimulation r levels p q).rel_step (fun _ _ _ _ _ => trivial)
    (fun _ _ => Schema.within_intersectionSchema_nil)
    (fun part hpart => hlower part hpart.height_lt) ?_
  -- Only a name leads out of the type, to the declaration that it stands for.
  rintro name arguments located rfl hfind
  have hheight : (TypeExpr.reference name arguments).height = typesHeight arguments + 2 := rfl
  refine (boundComposition shapes r levels).rel_declared (.all r) trivial hfind ?_ ?_ ?_
  · exact fun i d hi hd => Bounded.enumReference hi hd
  · intro d hd hinlined
    -- A union of literals has no name of its own, and is low.
    refine hlower _ ?_
    have hliteral : (d.type.substitute (Instantiation.of located arguments).scope).isLiteralUnion
        = true := by
      simpa [Instantiation.isInlined, Instantiation.of, hd] using hinlined
    have := TypeExpr.height_le_of_isLiteralUnion hliteral
    omega
  · rintro i rfl hi _
    refine Bounded.useName (construct_passes (persistent_grows r) hq hi.declared A) ?_
    -- Inside the construction there is one level less, and the types are higher.
    rintro inner rfl
    refine (boundSimulation r inner p q).rel_construct hi.declared fun part hpart => ?_
    have hpartHeight : part.height ≤
        typesHeight arguments + 2 + r.index.maxChain * r.index.height := by
      have := hpart.height_le hi.declared
      omega
    have hmono := r.index.need_le (Nat.le_refl inner) hpartHeight
    have hlevel := r.index.need_construct_lt inner (typesHeight arguments + 2)
    exact h inner part (Nat.le_succ inner) (by rw [hheight]; omega)

/-- With bounds that suffice for the height and the levels, resolution does not reach them. -/
private theorem traceWithin_bounded {bound bound' levels : Nat}
    (h : r.index.need levels type.height ≤ bound) (h' : r.index.need levels type.height ≤ bound') :
    (boundComposition shapes r levels).Resolves (r.traceWithin shapes bound)
      (r.traceWithin shapes bound') type := by
  have hpos := r.index.need_pos levels type.height
  -- Induction on the bound: each call takes one off, and each part needs less by at least one.
  induction bound generalizing bound' levels type with
  | zero => omega
  | succ bound ih =>
    obtain ⟨bound', rfl⟩ : ∃ n, bound' = n + 1 := Nat.exists_eq_succ_of_ne_zero (by omega)
    intro A hints
    refine Bounded.call ?_ type hints
    refine step_bounded (traceWithin_passes (persistent_grows r) bound')
      (fun inner part _ hpart => ?_) A hints
    exact ih (by omega) (by omega) (r.index.need_pos inner part.height)

private theorem traceWithin_eq_trace {bound : Nat} (h : r.index.bound type ≤ bound)
    (hints : Hints) : r.traceWithin shapes bound type hints = r.trace shapes type hints := by
  have hbounded : Bounded r r.index.levels ∅ Schema.Within (r.traceWithin shapes bound type hints)
      (r.trace shapes type hints) := traceWithin_bounded h le_rfl ∅ hints
  ext s : 2
  exact hbounded.same s (Context.room_le_levels r.index s.context)

/-- The traces satisfy the equation of the recursion, in which no bound occurs. -/
private theorem trace_eq_step (type : TypeExpr) (hints : Hints) :
    r.trace shapes type hints = (do
      Traced.call type hints
      r.step (r.trace shapes) type hints) := by
  obtain ⟨bound, hbound⟩ : ∃ n, r.index.bound type = n + 1 :=
    Nat.exists_eq_succ_of_ne_zero (r.index.need_pos r.index.levels type.height).ne'
  have hstep : Bounded r r.index.levels ∅ Schema.Within
      (r.step (r.traceWithin shapes bound) type hints) (r.step (r.trace shapes) type hints) := by
    refine step_bounded (fun part => traceWithin_passes (persistent_grows r) _ part)
      (fun inner part hinner hpart => ?_) ∅ hints
    -- Each part has its own bound, which is large enough for the levels that are left.
    rw [← r.index.bound_eq_need, hbound] at hpart
    intro A hints
    exact traceWithin_bounded (Nat.le_of_lt_succ hpart) (r.index.need_le hinner le_rfl) A hints
  ext s : 2
  rw [trace, hbound]
  exact (hstep.call type hints).same s (Context.room_le_levels r.index s.context)

private theorem trace_expected {hints : Hints} {s t : Session} {e : Error} {events : List Event}
    (h : (r.trace shapes type hints).run s = ((.error e, t), events)) :
    e.fault.Expected shapes := by
  have hbounded : Bounded r r.index.levels ∅ Schema.Within (r.trace shapes type hints)
      (r.trace shapes type hints) := traceWithin_bounded le_rfl le_rfl ∅ hints
  exact hbounded.expected s e t events (Context.room_le_levels r.index s.context) h

private theorem plain_traceWithin (bound : Nat) (type : TypeExpr) (hints : Hints) :
    (r.traceWithin Context.shapeOf bound type hints).plain = r.resolveWithin bound type hints :=
  (traceWithin_observes (persistent_grows r) bound type ∅ hints).plain rfl

theorem resolveWithin_eq_resolve {bound : Nat} (h : r.index.bound type ≤ bound) (hints : Hints) :
    r.resolveWithin bound type hints = r.resolve type hints := by
  rw [resolve, ← plain_traceWithin, ← plain_traceWithin, traceWithin_eq_trace h]
  rfl

/-- Resolution satisfies the equation of the recursion, too. -/
theorem resolve_eq_step (type : TypeExpr) (hints : Hints) :
    r.resolve type hints = r.step r.resolve type hints := by
  have hparts (part : TypeExpr) :
      (observeComposition Context.shapeOf (persistent_grows r)).Resolves
        (r.trace Context.shapeOf) r.resolve part := by
    intro A hints
    rw [trace, resolve]
    exact traceWithin_observes (persistent_grows r) _ part A hints
  have hstep := step_observes (persistent_grows r) hparts type ∅ hints
  rw [← (hparts type ∅ hints).plain rfl, trace_eq_step, plain_bind, plain_call,
    pure_bind, hstep.plain rfl]

theorem resolve_ordinary {hints : Hints} {s t : Session} {e : Error}
    (h : (r.resolve type hints).run s = (.error e, t)) : e.fault.Ordinary := by
  have hrun := (trace_observes (persistent_grows r) type hints s).1.trans h
  rcases trace_expected (Prod.ext hrun rfl) with hordinary | ⟨c, schema, hshape⟩
  · exact hordinary
  · exact shapeOf_ordinary hshape

end Resolver

/-- Resolution terminates, whatever the program, and however shapes are read. The recursion without
a bound has a solution. Unrolled as deep as `Index.bound` says or deeper, it always gives this one,
with the same finite list of calls, so that none of them lies where the unrolling ends; and if it
fails, then for a reason of its own. Inside a call, the walk through the parents of a declaration
does not come to the end of its links either. With the shapes that entries have, this is `resolve`.
-/
theorem resolution_terminates (r : Resolver) (shapes : Shapes) (type : TypeExpr) (hints : Hints) :
    (r.trace shapes type hints = do
      Traced.call type hints
      r.step (r.trace shapes) type hints) ∧
    (∀ bound, r.index.bound type ≤ bound →
      r.traceWithin shapes bound type hints = r.trace shapes type hints) ∧
    (∀ s e, ((r.trace shapes type hints).run s).1.1 = .error e →
      e.fault.Ordinary ∨ ∃ c schema, shapes c schema = .error e.fault) ∧
    (∀ (parts : Parts (Traced shapes)) located scope links, located ∈ r.index.declarations →
      r.index.maxChain ≤ links → r.structuralShape parts links [] located scope =
        r.structuralShape parts r.index.maxChain [] located scope) ∧
    (shapes = Context.shapeOf → (r.trace shapes type hints).plain = r.resolve type hints) := by
  refine ⟨Resolver.trace_eq_step type hints, ?_, ?_, ?_, ?_⟩
  · exact fun bound hbound => Resolver.traceWithin_eq_trace hbound hints
  · exact fun s e he => Resolver.trace_expected (t := _) (Prod.ext (Prod.ext he rfl) rfl)
  · intro parts located scope links hd hle
    -- A chain without repetition is no longer than the index.
    exact Resolver.structuralShape_eq_of_le (.nil r) hd (by simp) hle
  · rintro rfl
    exact Resolver.plain_traceWithin _ type hints

end Endpoints
