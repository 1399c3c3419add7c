import Endpoints.Proofs.Track

/-!
# Resolution confined to a region

Resolution can be confined to a region of types: it then refuses all others. A run that never leaves
the region does not notice. This is so for some runs, which the region `Covers`, and for all runs if
the region has all parts of its types.
-/

namespace Endpoints

namespace Region

variable {r : Resolver}

/-- Resolution of types and their parts within the region. -/
noncomputable def resolve (E : Region r) (type : TypeExpr) (hints : Hints) : Resolve Schema :=
  E.resolveWithin (r.index.bound type) type hints

/-- The run resolves no type outside the region: it is the same where all these are refused. -/
def Covers (E : Region r) (type : TypeExpr) (hints : Hints) (s : Session) : Prop :=
  (E.resolve type hints).run s = (r.resolve type hints).run s

/-- With a type, the region has everything that is resolved for it. -/
def HasParts (E : Region r) : Prop :=
  ∀ {type part : TypeExpr}, E.Contains type → r.Part type part → E.Contains part

end Region

variable {r : Resolver} {A : Set Handle} {α β : Type}

/-- The two computations are the same, and tracked. -/
def Same (r : Resolver) (A : Set Handle) (Q : Set Handle → α → Prop) (x y : Resolve α) : Prop :=
  x = y ∧ Tracks r.Known A Q y

/-- What follows has to be the same only for values that can come before. -/
theorem Same.bind {Q : Set Handle → α → Prop} {R : Set Handle → β → Prop} {x y : Resolve α}
    {f g : α → Resolve β} (hx : Same r A Q x y)
    (hf : ∀ B, A ⊆ B → ∀ a, Q B a → Same r B R (f a) (g a)) :
    Same r A R (x >>= f) (y >>= g) := by
  obtain ⟨rfl, htracks⟩ := hx
  refine ⟨?_, htracks.bind fun B hB a ha => (hf B hB a ha).2⟩
  refine Resolve.bind_congr_of_run fun s a t hrun => ?_
  obtain ⟨B, hB, ha, _⟩ := (htracks s _ _ hrun).value a rfl
  exact (hf B hB a ha).1

def sameComposition (r : Resolver) : Composition Resolve Resolve where
  Rel := Same r
  rel_pure h := ⟨rfl, .pure h⟩
  rel_bind := .bind
  formed := Schema.formed_within

/-- The steps of resolution are the same if their parts are. -/
private theorem sameSimulation (r : Resolver) (p q : Parts Resolve) :
    (sameComposition r).Simulation p q where
  rel_fail _ := ⟨rfl, .fail⟩
  rel_inside h := ⟨by rw [h.1], h.2.inside⟩
  rel_warn A warning := ⟨rfl, (trackSimulation r.Known q).rel_warn A warning⟩
  rel_shapeOf A schema hs := ⟨rfl, (trackSimulation r.Known q).rel_shapeOf A schema hs⟩
  rel_union A members hints h :=
    .bind ((sameComposition r).rel_resolveAll (A := A) h) fun _ _ _ hs => ⟨rfl, .toSchema hs.2⟩

namespace Region

variable {E : Region r}

/-- In a region, resolution is what it is without it, by induction on the bound. -/
private theorem same_resolveWithin (h : E.HasParts) (bound : Nat) {type : TypeExpr}
    (htype : E.Contains type) :
    (sameComposition r).Resolves (E.resolveWithin bound) (r.resolveWithin bound) type := by
  induction bound generalizing type with
  | zero => exact fun A hints => ⟨rfl, .fail⟩
  | succ bound ih =>
    intro A hints
    have S := sameSimulation r (E.resolveWithin bound) (r.resolveWithin bound)
    rw [E.resolveWithin_of_contains htype]
    refine S.rel_step (fun _ _ _ _ _ => trivial) (fun _ _ => Schema.within_intersectionSchema_nil)
      (fun part hpart => ih (h htype (.piece hpart))) ?_
    -- What is left is the use of a declaration, whose target or entry is made from parts again.
    rintro name arguments located rfl hfind
    refine (sameComposition r).rel_declared (all r) trivial hfind ?_ ?_ ?_
    · exact fun i d hi hd => ⟨rfl, .enumReference hi hd⟩
    · exact fun d hd _ => ih (h htype (.declared hfind (.target hd)))
    · rintro i rfl hi hreferent
      obtain ⟨heq, htracks⟩ := S.rel_construct (A := A) hi.declared fun part hpart =>
        ih (h htype (.declared hfind hpart))
      exact ⟨by rw [heq], .useName hi hreferent htracks⟩

theorem resolveWithin_eq (h : E.HasParts) (bound : Nat) {type : TypeExpr}
    (htype : E.Contains type) (hints : Hints) :
    E.resolveWithin bound type hints = r.resolveWithin bound type hints :=
  (same_resolveWithin h bound htype ∅ hints).1

theorem ofTypes_resolve {types : List TypeExpr} {type : TypeExpr} (h : type ∈ types)
    (hints : Hints) : (ofTypes r types).resolve type hints = r.resolve type hints :=
  resolveWithin_eq Resolver.Reaches.part _ (Resolver.Reaches.of_mem h) hints

theorem ofTypes_covers {types : List TypeExpr} {type : TypeExpr} (h : type ∈ types) (hints : Hints)
    (s : Session) : (ofTypes r types).Covers type hints s := by
  rw [Covers, ofTypes_resolve h]

end Region

end Endpoints
