import Endpoints.Proofs.Context
import Endpoints.Resolution.Shape
import Mathlib.Data.List.Perm.Subperm
import Mathlib.Data.Nat.Find

/-!
# Shapes in different contexts

The shape of a schema is read from the entries of the names that it leads to. Two contexts that
agree on those entries give the same shape, although they follow aliases a different number of
times: one hop more than there are entries is always enough, since a chain of aliases that needs
more goes in a circle.
-/

namespace Endpoints

/-! ## Shapes and the way in which names are followed -/

/-- The second result is the same if the first is a value, or it is one of the faults `Bad`. -/
def Matches {α : Type} (Bad : Fault → Prop) (x y : Except Fault α) : Prop :=
  ∀ a, x = .ok a → y = .ok a ∨ ∃ fault, Bad fault ∧ y = .error fault

/-- The result is not that a name stands for itself. -/
def Settled {α : Type} (x : Except Fault α) : Prop :=
  ∀ name, x ≠ .error (.unsupportedType (.circularAlias name))

section Follow

variable {Bad : Fault → Prop} {follow follow' : String → Except Fault ObjectShape}

mutual

private theorem Schema.shape_matches (h : ∀ name, Matches Bad (follow name) (follow' name))
    (schema : Schema) : Matches Bad (schema.shape follow) (schema.shape follow') := by
  match schema with
  | ⟨kind, nullable⟩ =>
    simp only [Schema.shape]
    exact kind.shape_matches h

/-- So do those of a kind, by its constructors. -/
private theorem Kind.shape_matches (h : ∀ name, Matches Bad (follow name) (follow' name))
    (kind : Kind) :
    Matches Bad (kind.shape follow) (kind.shape follow') := by
  match kind with
  | .object properties additional => exact fun shape hshape => .inl hshape
  | .reference .object name => exact h name
  | .reference .typeAlias name => exact h name
  | .intersection types =>
    simp only [Kind.shape]
    exact mergeShapes_matches h types .empty
  | .reference .enum _ | .scalar _ | .array _ | .enum _ | .union _ =>
    intro shape hshape
    simp [Kind.shape] at hshape

/-- So do merged shapes, by the list of schemas. -/
private theorem mergeShapes_matches (h : ∀ name, Matches Bad (follow name) (follow' name))
    (schemas : List Schema) (merged : ObjectShape) :
    Matches Bad (mergeShapes follow merged schemas) (mergeShapes follow' merged schemas) := by
  match schemas with
  | [] => exact fun shape hshape => .inl hshape
  | schema :: schemas =>
    intro shape hshape
    simp only [mergeShapes, bind, Except.bind] at hshape ⊢
    cases hfirst : schema.shape follow with
    | error fault => simp [hfirst] at hshape
    | ok first =>
      simp only [hfirst] at hshape
      -- The first schema has the same shape, or a fault that ends the merge.
      rcases schema.shape_matches h first hfirst with hsame | ⟨fault, hbad, herror⟩
      · simp only [hsame]
        exact mergeShapes_matches h schemas (merged.inherit first) shape hshape
      · simp only [herror]
        exact .inr ⟨fault, hbad, rfl⟩

end

mutual

private theorem Schema.shape_of_settled
    (h : ∀ name, Settled (follow name) → follow' name = follow name)
    (schema : Schema) (hs : Settled (schema.shape follow)) :
    schema.shape follow' = schema.shape follow := by
  match schema with
  | ⟨kind, nullable⟩ =>
    simp only [Schema.shape] at hs ⊢
    exact kind.shape_of_settled h hs

/-- The same for a kind. -/
private theorem Kind.shape_of_settled
    (h : ∀ name, Settled (follow name) → follow' name = follow name)
    (kind : Kind) (hs : Settled (kind.shape follow)) : kind.shape follow' = kind.shape follow := by
  match kind with
  | .object properties additional => rfl
  | .reference .object name => exact h name hs
  | .reference .typeAlias name => exact h name hs
  | .intersection types =>
    simp only [Kind.shape] at hs ⊢
    exact mergeShapes_of_settled h types .empty hs
  | .reference .enum _ | .scalar _ | .array _ | .enum _ | .union _ => rfl

/-- The same for merged shapes. -/
private theorem mergeShapes_of_settled
    (h : ∀ name, Settled (follow name) → follow' name = follow name)
    (schemas : List Schema) (merged : ObjectShape)
    (hs : Settled (mergeShapes follow merged schemas)) :
    mergeShapes follow' merged schemas = mergeShapes follow merged schemas := by
  match schemas with
  | [] => rfl
  | schema :: schemas =>
    simp only [mergeShapes, bind, Except.bind] at hs ⊢
    -- If the first schema fails, its fault is that of the merge, so that it is settled, too.
    cases hfirst : schema.shape follow with
    | error fault =>
      have hsettled : Settled (schema.shape follow) := by
        rw [hfirst] at hs ⊢
        exact fun name heq => hs name (by rw [Except.error.inj heq])
      rw [schema.shape_of_settled h hsettled, hfirst]
    | ok first =>
      have hsettled : Settled (schema.shape follow) := by
        rw [hfirst]
        exact fun name heq => nomatch heq
      rw [schema.shape_of_settled h hsettled, hfirst]
      simp only [hfirst] at hs ⊢
      exact mergeShapes_of_settled h schemas _ hs

end

variable (Expected : Fault → Prop)

mutual

/-- A shape fails because the schema has no properties, or as a name that it leads to. -/
private theorem Schema.shape_fault
    (hkind : ∀ text, Expected (.unsupportedType (.noProperties text)))
    (h : ∀ name fault, follow name = .error fault → Expected fault) (schema : Schema)
    {fault : Fault}
    (hf : schema.shape follow = .error fault) : Expected fault := by
  match schema with
  | ⟨kind, nullable⟩ =>
    simp only [Schema.shape] at hf
    exact kind.shape_fault hkind h hf

/-- The same for a kind. -/
private theorem Kind.shape_fault (hkind : ∀ text, Expected (.unsupportedType (.noProperties text)))
    (h : ∀ name fault, follow name = .error fault → Expected fault) (kind : Kind) {fault : Fault}
    (hf : kind.shape follow = .error fault) : Expected fault := by
  match kind with
  | .object properties additional => simp [Kind.shape] at hf
  | .reference .object name => exact h name fault hf
  | .reference .typeAlias name => exact h name fault hf
  | .intersection types =>
    simp only [Kind.shape] at hf
    exact mergeShapes_fault hkind h types .empty hf
  | .reference .enum _ | .scalar _ | .array _ | .enum _ | .union _ =>
    simp only [Kind.shape, Except.error.injEq] at hf
    exact hf ▸ hkind _

/-- The same for merged shapes. -/
private theorem mergeShapes_fault (hkind : ∀ text, Expected (.unsupportedType (.noProperties text)))
    (h : ∀ name fault, follow name = .error fault → Expected fault) (schemas : List Schema)
    (merged : ObjectShape) {fault : Fault}
    (hf : mergeShapes follow merged schemas = .error fault) : Expected fault := by
  match schemas with
  | [] => simp [mergeShapes] at hf
  | schema :: schemas =>
    simp only [mergeShapes, bind, Except.bind] at hf
    -- The fault is the first one met.
    cases hfirst : schema.shape follow with
    | error first =>
      simp only [hfirst, Except.error.injEq] at hf
      exact hf ▸ schema.shape_fault hkind h hfirst
    | ok first =>
      simp only [hfirst] at hf
      exact mergeShapes_fault hkind h schemas _ hf

end

end Follow

/-! ## Hops -/

/-- A key with a value is one of the keys. -/
private theorem Dict.mem_keys_of_get? {α : Type} {d : Dict α} {key : String} {value : α}
    (h : d.get? key = some value) : key ∈ d.keys := by
  unfold Dict.get? at h
  unfold Dict.keys
  generalize d.entries = entries at h ⊢
  induction entries with
  | nil => simp [lookupEntry] at h
  | cons entry entries ih =>
    unfold lookupEntry at h
    split at h
    · next heq => exact heq ▸ List.mem_cons_self
    · exact List.mem_cons_of_mem _ (ih h)

namespace Context

section Hops

variable {c : Context} {name : String}

theorem shapeOfName_succ (c : Context) (hops : Nat) (name : String) :
    c.shapeOfName (hops + 1) name = match c.reference? name with
      | none => .error (.unsupportedType (.incomplete name))
      | some type => match type.shape with
        | .object properties additional => .ok ⟨properties, additional⟩
        | .typeAlias target _ _ _ => target.shape (c.shapeOfName hops)
        | .enum _ _ => .error (.unsupportedType (.enumProperties name)) := rfl

theorem not_settled_zero : ¬ Settled (c.shapeOfName 0 name) := fun h => h name rfl

variable {hops : Nat}

/-- A settled shape of a name depends only on the settled shapes it is made of. -/
private theorem shapeOfName_congr {hops' : Nat} (h : ∀ other, Settled (c.shapeOfName hops other) →
      c.shapeOfName hops' other = c.shapeOfName hops other)
    (hs : Settled (c.shapeOfName (hops + 1) name)) :
    c.shapeOfName (hops' + 1) name = c.shapeOfName (hops + 1) name := by
  rw [shapeOfName_succ] at hs ⊢
  rw [shapeOfName_succ]
  -- Only an alias leads to further names.
  cases htype : c.reference? name with
  | none => rfl
  | some type =>
    simp only [htype] at hs ⊢
    cases hshape : type.shape with
    | object properties additional => rfl
    | enum members names => rfl
    | typeAlias target format validators default =>
      simp only [hshape] at hs ⊢
      exact target.shape_of_settled h hs

private theorem shapeOfName_add_one (hs : Settled (c.shapeOfName hops name)) :
    c.shapeOfName (hops + 1) name = c.shapeOfName hops name := by
  induction hops generalizing name with
  | zero => exact absurd hs not_settled_zero
  | succ hops ih => exact shapeOfName_congr (fun other ho => ih ho) hs

theorem shapeOfName_of_settled {hops' : Nat} (hle : hops ≤ hops')
    (hs : Settled (c.shapeOfName hops name)) :
    c.shapeOfName hops' name = c.shapeOfName hops name := by
  induction hle with
  | refl => rfl
  | step hle ih => rw [shapeOfName_add_one (by rwa [ih]), ih]

/-- The name needs exactly this many hops. -/
def NeedsHops (c : Context) (name : String) (hops : Nat) : Prop :=
  Settled (c.shapeOfName (hops + 1) name) ∧ ¬ Settled (c.shapeOfName hops name)

/-- A name needs one number of hops. -/
private theorem NeedsHops.unique {hops' : Nat} (h : c.NeedsHops name hops)
    (h' : c.NeedsHops name hops') : hops = hops' := by
  -- Whichever is smaller would settle the other one too early.
  have hle {a b : Nat} (ha : c.NeedsHops name a) (hb : c.NeedsHops name b) : b ≤ a := by
    by_contra hlt
    have hsame := shapeOfName_of_settled (by omega : a + 1 ≤ b) ha.1
    exact hb.2 (hsame ▸ ha.1)
  exact le_antisymm (hle h' h) (hle h h')

/-- A name that needs more than one hop leads to one that needs one hop less. -/
private theorem NeedsHops.pred (h : c.NeedsHops name (hops + 1)) :
    ∃ other, c.NeedsHops other hops := by
  by_contra hnone
  -- Otherwise every name would be settled one hop earlier, this one included.
  have hsettled : ∀ other, Settled (c.shapeOfName (hops + 1) other) →
      c.shapeOfName hops other = c.shapeOfName (hops + 1) other := by
    intro other hs
    by_cases hbefore : Settled (c.shapeOfName hops other)
    · exact (shapeOfName_add_one hbefore).symm
    · exact absurd ⟨other, hs, hbefore⟩ hnone
  exact h.2 (shapeOfName_congr hsettled h.1 ▸ h.1)

/-- A name that needs more than one hop is in the table. -/
private theorem NeedsHops.mem_keys (h : c.NeedsHops name (hops + 1)) : name ∈ c.table.keys := by
  cases htype : c.reference? name with
  | some type => exact Dict.mem_keys_of_get? htype
  | none =>
    -- A name without entry needs a single hop.
    refine absurd ?_ h.2
    rw [shapeOfName_succ, htype]
    exact fun other heq => nomatch heq

/-- A name that needs some hops comes with as many different names of the table. -/
private theorem NeedsHops.exists_names (h : c.NeedsHops name hops) :
    ∃ names : List String, names.Nodup ∧ names.length = hops ∧ names ⊆ c.table.keys ∧
      ∀ other ∈ names, ∃ hops' ≤ hops, c.NeedsHops other hops' := by
  induction hops generalizing name with
  | zero => exact ⟨[], List.nodup_nil, rfl, List.nil_subset _, by simp⟩
  | succ hops ih =>
    obtain ⟨next, hnext⟩ := h.pred
    obtain ⟨names, hnodup, hlength, hkeys, hneeds⟩ := ih hnext
    -- The names found so far need fewer hops.
    have hnew : name ∉ names := by
      intro hmem
      obtain ⟨hops', hle, hneed⟩ := hneeds name hmem
      have heq := h.unique hneed
      omega
    refine ⟨name :: names, List.nodup_cons.2 ⟨hnew, hnodup⟩, by simp [hlength], ?_, ?_⟩
    · exact List.cons_subset.2 ⟨h.mem_keys, hkeys⟩
    · intro other ho
      rcases List.mem_cons.1 ho with rfl | ho
      · exact ⟨hops + 1, le_rfl, h⟩
      · obtain ⟨hops', hle, hneed⟩ := hneeds other ho
        exact ⟨hops', by omega, hneed⟩

/-- One hop more than there are entries is enough. -/
theorem hops_suffice (hs : Settled (c.shapeOfName hops name)) :
    c.shapeOfName (c.table.entries.length + 1) name = c.shapeOfName hops name := by
  classical
  have hexists : ∃ k, Settled (c.shapeOfName k name) := ⟨hops, hs⟩
  have hfirst := Nat.find_spec hexists
  have hleast : Nat.find hexists ≤ hops := Nat.find_min' hexists hs
  obtain ⟨k, hk⟩ : ∃ k, Nat.find hexists = k + 1 := by
    refine Nat.exists_eq_succ_of_ne_zero fun hzero => ?_
    rw [hzero] at hfirst
    exact not_settled_zero hfirst
  rw [hk] at hfirst hleast
  -- The least number of hops that settles the name comes with so many names of the table, all
  -- different.
  have hneeds : c.NeedsHops name k := ⟨hfirst, Nat.find_min hexists (by omega)⟩
  obtain ⟨names, hnodup, hlength, hkeys, _⟩ := hneeds.exists_names
  have hcount : k ≤ c.table.entries.length := by
    have hle := (List.subperm_of_subset hnodup hkeys).length_le
    rwa [hlength, Dict.keys, List.length_map] at hle
  rw [shapeOfName_of_settled (by omega : k + 1 ≤ c.table.entries.length + 1) hfirst,
    shapeOfName_of_settled hleast hfirst]

/-- Reading a shape fails for a reason that lies in the type. -/
theorem shapeOf_raised {schema : Schema} {fault : Fault} (h : c.shapeOf schema = .error fault)
    (Missing : String → Prop) : fault.Raised Missing := by
  -- By induction on the handles that are still followed.
  have hname (hops : Nat) (name : String) (fault : Fault)
      (h : c.shapeOfName hops name = .error fault) : fault.Raised Missing := by
    induction hops generalizing name fault with
    | zero => exact Except.error.inj h ▸ by simp
    | succ hops ih =>
      rw [shapeOfName_succ] at h
      split at h
      · exact Except.error.inj h ▸ by simp
      · split at h
        · exact nomatch h
        · next target _ _ _ _ => exact target.shape_fault _ (by simp) ih h
        · exact Except.error.inj h ▸ by simp
  exact schema.shape_fault (Fault.Raised Missing) (by simp) (hname _) h

theorem shapeOf_ordinary {schema : Schema} {fault : Fault} (h : c.shapeOf schema = .error fault) :
    fault.Ordinary :=
  (shapeOf_raised h fun _ => True).1.ordinary

end Hops

/-! ## Two contexts -/

variable (Bad : Fault → Prop) {c c' : Context}

/-- Shapes of a name match for equal hops, if entries are the same or missing. -/
private theorem shapeOfName_matches
    (h : ∀ name type, c.reference? name = some type → c'.reference? name = some type ∨
      (c'.reference? name = none ∧ Bad (.unsupportedType (.incomplete name))))
    (hops : Nat) (name : String) :
    Matches Bad (c.shapeOfName hops name) (c'.shapeOfName hops name) := by
  induction hops generalizing name with
  | zero => exact fun shape hshape => nomatch hshape
  | succ hops ih =>
    intro shape hshape
    rw [shapeOfName_succ] at hshape ⊢
    cases htype : c.reference? name with
    | none =>
      rw [htype] at hshape
      exact nomatch hshape
    | some type =>
      rw [htype] at hshape
      -- The name has the same entry in the second context, or none.
      rcases h name type htype with htype' | ⟨hnone, hbad⟩
      · rw [htype']
        dsimp only at hshape ⊢
        cases htypeShape : type.shape with
        | object properties additional =>
          simp only [htypeShape] at hshape
          exact .inl hshape
        | enum members names =>
          simp only [htypeShape] at hshape
          exact nomatch hshape
        | typeAlias target format validators default =>
          simp only [htypeShape] at hshape
          exact target.shape_matches ih shape hshape
      · rw [hnone]
        exact .inr ⟨_, hbad, rfl⟩

/-- A shape in one context is the shape in another one that has the same entries, or one of them is
missing there. -/
theorem shapeOf_matches
    (h : ∀ name type, c.reference? name = some type → c'.reference? name = some type ∨
      (c'.reference? name = none ∧ Bad (.unsupportedType (.incomplete name))))
    (hcircular : ∀ name, ¬ Bad (.unsupportedType (.circularAlias name))) (schema : Schema) :
    Matches Bad (c.shapeOf schema) (c'.shapeOf schema) := by
  refine schema.shape_matches fun name shape hshape => ?_
  -- The second context may follow aliases less often; its own hops are enough all the same.
  rcases shapeOfName_matches Bad h _ name shape hshape with hsame | ⟨fault, hbad, herror⟩
  · left
    rw [← hsame]
    exact hops_suffice (hsame ▸ fun other heq => nomatch heq)
  · refine .inr ⟨fault, hbad, herror ▸ hops_suffice fun other heq => ?_⟩
    rw [herror] at heq
    exact hcircular other (Except.error.inj heq ▸ hbad)

end Context

end Endpoints
