import Endpoints.Resolution.Context
import Mathlib.Data.List.Basic

/-!
# Operations on contexts

What each operation on a context changes, and two ways in which a context can be a later stage of
another:

* `Context.Keeps`: no name, origin or deferred name is lost; an entry may have been replaced
* `Context.Grows`: entries are kept as they are, too
-/

namespace Endpoints

/-- Whether types are refused with the fault. Two faults are kept apart: a bound that was too small
is no fault of the type, and only the end of a run shows that a name was never finished. -/
@[simp] def Fault.Ordinary (fault : Fault) : Prop :=
  fault ≠ .unsupportedType .unbounded ∧ ∀ name, fault ≠ .unfinishedReference name

/-- Whether the fault is one of a type itself, whatever it is used for. -/
@[simp] def Fault.OfType : Fault → Prop
  | .ambiguousDeclaration _ _ | .duplicateReferenceName _ _ _ | .unsupportedIndexSignature _
  | .unresolvableType _ => True
  | .unsupportedType type => type ≠ .unbounded
  | _ => False

/-- The fault is one of a type itself. If it is that a name stands for nothing, then the name is one
of those that are missing. -/
@[simp] def Fault.Raised (Missing : String → Prop) (fault : Fault) : Prop :=
  fault.OfType ∧ ∀ name, fault = .unresolvableType name → Missing name

theorem Fault.OfType.ordinary {fault : Fault} (h : fault.OfType) : fault.Ordinary := by
  constructor
  · rintro rfl
    exact h rfl
  · rintro name rfl
    exact h

namespace Context

variable {c c' : Context} {name other origin : String} {type : ReferenceType}

/-! ## The view of a context after an operation -/

/-- A claim is granted if the name has the same origin already, or none; then it gets it. -/
theorem claim_eq_ok : c.claim name origin = .ok c' ↔
    (c.origins.get? name = some origin ∧ c' = c) ∨
      (c.origins.get? name = none ∧ c' = { c with origins := c.origins.insert name origin }) := by
  unfold claim
  cases hfirst : c.origins.get? name with
  | none => simp [eq_comm]
  | some first =>
    by_cases horigin : first = origin
    · simp [horigin, eq_comm]
    · simp [horigin]

/-- A claim is refused only for a name that has another origin. -/
theorem claim_eq_error {fault : Fault} (h : c.claim name origin = .error fault) :
    ∃ first, c.origins.get? name = some first ∧ first ≠ origin ∧
      fault = .duplicateReferenceName name first origin := by
  unfold claim at h
  cases hfirst : c.origins.get? name with
  | none => simp [hfirst] at h
  | some first =>
    simp only [hfirst] at h
    split at h
    · exact nomatch h
    · next horigin => exact ⟨first, rfl, horigin, (Except.error.inj h).symm⟩

theorem raised_of_claim {fault : Fault} (h : c.claim name origin = .error fault)
    (Missing : String → Prop) : fault.Raised Missing := by
  obtain ⟨_, _, _, rfl⟩ := claim_eq_error h
  simp

theorem reference?_claim (h : c.claim name origin = .ok c') :
    c'.reference? other = c.reference? other := by
  rcases claim_eq_ok.1 h with ⟨_, rfl⟩ | ⟨_, rfl⟩ <;> rfl

theorem inProgress_claim (h : c.claim name origin = .ok c') : c'.inProgress = c.inProgress := by
  rcases claim_eq_ok.1 h with ⟨_, rfl⟩ | ⟨_, rfl⟩ <;> rfl

theorem deferred_claim (h : c.claim name origin = .ok c') : c'.deferred = c.deferred := by
  rcases claim_eq_ok.1 h with ⟨_, rfl⟩ | ⟨_, rfl⟩ <;> rfl

theorem origin_claim (h : c.claim name origin = .ok c') : c'.origins.get? name = some origin := by
  rcases claim_eq_ok.1 h with ⟨hfirst, rfl⟩ | ⟨_, rfl⟩
  · exact hfirst
  · simp

private theorem origins_claim (h : c.claim name origin = .ok c') {first : String}
    (hother : c.origins.get? other = some first) : c'.origins.get? other = some first := by
  -- A new origin is entered only for a name that has none.
  rcases claim_eq_ok.1 h with ⟨_, rfl⟩ | ⟨hnone, rfl⟩
  · exact hother
  · have hne : other ≠ name := fun heq => by simp [heq ▸ hother] at hnone
    simpa [hne] using hother

@[simp] theorem reference?_start : (c.start name).reference? other = c.reference? other := by
  unfold start
  split <;> rfl

@[simp] theorem origins_start : (c.start name).origins = c.origins := by
  unfold start
  split <;> rfl

@[simp] theorem deferred_start : (c.start name).deferred = c.deferred := by
  unfold start
  split <;> rfl

theorem inProgress_start (h : c.isInProgress name = false) :
    (c.start name).inProgress = name :: c.inProgress := by
  simp [start, h]

theorem mem_inProgress_start :
    other ∈ (c.start name).inProgress ↔ other = name ∨ other ∈ c.inProgress := by
  cases hname : c.isInProgress name with
  | false => rw [inProgress_start hname, List.mem_cons]
  | true =>
    have hmem : name ∈ c.inProgress := by simpa [isInProgress] using hname
    rw [show c.start name = c from if_pos hname]
    exact ⟨.inr, fun h => h.elim (· ▸ hmem) id⟩

theorem reference?_claim_start (h : c.claim name origin = .ok c') :
    (c'.start name).reference? other = c.reference? other := by
  rw [reference?_start, reference?_claim h]

@[simp] theorem reference?_abandon : (c.abandon name).reference? other = c.reference? other := rfl

@[simp] theorem origins_abandon : (c.abandon name).origins = c.origins := rfl

@[simp] theorem deferred_abandon : (c.abandon name).deferred = c.deferred := rfl

theorem inProgress_abandon : (c.abandon name).inProgress = c.inProgress.filter (· != name) := rfl

@[simp] theorem reference?_complete : (c.complete type).reference? other =
    if other = type.name then some type else c.reference? other :=
  Dict.get?_insert _ _ _ _

@[simp] theorem origins_complete : (c.complete type).origins = c.origins := rfl

@[simp] theorem deferred_complete : (c.complete type).deferred = c.deferred := rfl

theorem inProgress_complete :
    (c.complete type).inProgress = c.inProgress.filter (· != type.name) := rfl

@[simp] theorem reference?_defer : (c.defer name).reference? other = c.reference? other := rfl

@[simp] theorem origins_defer : (c.defer name).origins = c.origins := rfl

@[simp] theorem deferred_defer : (c.defer name).deferred = c.deferred ++ [name] := rfl

@[simp] theorem inProgress_defer : (c.defer name).inProgress = c.inProgress := rfl

@[simp] theorem isInProgress_eq_true : c.isInProgress name = true ↔ name ∈ c.inProgress := by
  simp [isInProgress]

theorem contains_table : c.table.contains name = (c.reference? name).isSome := rfl

/-- A run ends well exactly if every name that was referred to early has an entry. -/
theorem finish_eq_ok {table : Dict ReferenceType} :
    c.finish = .ok table ↔ table = c.table ∧ ∀ name ∈ c.deferred, (c.reference? name).isSome := by
  unfold finish
  -- The search finds the first deferred name without an entry, if there is one.
  cases hfind : c.deferred.find? (!c.table.contains ·) with
  | some name =>
    have hmem := List.mem_of_find?_eq_some hfind
    have hnot : (!c.table.contains name) = true :=
      List.find?_some (p := fun n => !c.table.contains n) hfind
    simp only [reduceCtorEq, false_iff, not_and, not_forall]
    refine fun _ => ⟨name, hmem, ?_⟩
    simpa [contains_table] using hnot
  | none =>
    have hall := List.find?_eq_none.1 hfind
    simp only [Except.ok.injEq]
    refine ⟨fun h => ⟨h.symm, fun name hname => ?_⟩, fun h => h.1.symm⟩
    simpa [contains_table, Option.isSome_iff_ne_none] using hall name hname

/-- A run ends badly if a deferred name has no entry; the first such name is reported. -/
theorem finish_eq_error {fault : Fault} : c.finish = .error fault ↔
    ∃ before name after, c.deferred = before ++ name :: after ∧
      fault = .unfinishedReference name ∧ ¬(c.reference? name).isSome = true ∧
      ∀ earlier ∈ before, (c.reference? earlier).isSome = true := by
  unfold finish
  constructor
  · intro h
    cases hfind : c.deferred.find? (!c.table.contains ·) with
    | none =>
      rw [hfind] at h
      cases h
    | some name =>
      rw [hfind] at h
      -- The fault names the first deferred name without an entry.
      obtain ⟨hname, before, after, hdeferred, hbefore⟩ := List.find?_eq_some_iff_append.1 hfind
      refine ⟨before, name, after, hdeferred, (Except.error.inj h).symm, ?_, fun earlier hmem => ?_⟩
      · simpa [contains_table] using hname
      · simpa [contains_table] using hbefore earlier hmem
  · rintro ⟨before, name, after, hdeferred, rfl, hname, hbefore⟩
    have hfind : c.deferred.find? (!c.table.contains ·) = some name := by
      refine List.find?_eq_some_iff_append.2 ⟨?_, before, after, hdeferred, fun earlier hmem => ?_⟩
      · simpa [contains_table] using hname
      · simpa [contains_table] using hbefore earlier hmem
    rw [hfind]

/-! ## Later stages of a context -/

/-- Nothing that is known in the first context is forgotten in the second. -/
structure Keeps (c c' : Context) : Prop where
  names : ∀ name, (c.reference? name).isSome → (c'.reference? name).isSome
  origins : ∀ name origin, c.origins.get? name = some origin → c'.origins.get? name = some origin
  deferred : ∀ name ∈ c.deferred, name ∈ c'.deferred

namespace Keeps

theorem refl (c : Context) : c.Keeps c :=
  ⟨fun _ h => h, fun _ _ h => h, fun _ h => h⟩

theorem trans {c₁ c₂ c₃ : Context} (h : c₁.Keeps c₂) (h' : c₂.Keeps c₃) : c₁.Keeps c₃ :=
  ⟨fun name hn => h'.names name (h.names name hn),
    fun name origin ho => h'.origins name origin (h.origins name origin ho),
    fun name hd => h'.deferred name (h.deferred name hd)⟩

theorem claim (h : c.claim name origin = .ok c') : c.Keeps c' :=
  ⟨fun _ hn => by rwa [reference?_claim h], fun _ _ ho => origins_claim h ho,
    fun _ hd => by rwa [deferred_claim h]⟩

theorem start (c : Context) (name : String) : c.Keeps (c.start name) :=
  ⟨fun _ hn => by simpa using hn, fun _ _ ho => by simpa using ho, fun _ hd => by simpa using hd⟩

theorem claim_start (h : c.claim name origin = .ok c') : c.Keeps (c'.start name) :=
  (claim h).trans (start c' name)

theorem abandon (c : Context) (name : String) : c.Keeps (c.abandon name) :=
  ⟨fun _ hn => hn, fun _ _ ho => ho, fun _ hd => hd⟩

theorem defer (c : Context) (name : String) : c.Keeps (c.defer name) :=
  ⟨fun _ hn => hn, fun _ _ ho => ho, fun _ hd => by simp [hd]⟩

theorem complete (c : Context) (type : ReferenceType) : c.Keeps (c.complete type) := by
  refine ⟨fun name hn => ?_, fun _ _ ho => ho, fun _ hd => hd⟩
  rw [reference?_complete]
  split
  · rfl
  · exact hn

end Keeps

/-- The second context has all entries and origins of the first, and goes on from its deferred
names. -/
structure Grows (c c' : Context) : Prop where
  table : ∀ name type, c.reference? name = some type → c'.reference? name = some type
  origins : ∀ name origin, c.origins.get? name = some origin → c'.origins.get? name = some origin
  deferred : c.deferred <+: c'.deferred

namespace Grows

theorem refl (c : Context) : c.Grows c :=
  ⟨fun _ _ h => h, fun _ _ h => h, List.prefix_rfl⟩

theorem trans {c₁ c₂ c₃ : Context} (h : c₁.Grows c₂) (h' : c₂.Grows c₃) : c₁.Grows c₃ :=
  ⟨fun name type hn => h'.table name type (h.table name type hn),
    fun name origin ho => h'.origins name origin (h.origins name origin ho),
    h.deferred.trans h'.deferred⟩

theorem keeps (h : c.Grows c') : c.Keeps c' := by
  refine ⟨fun name hn => ?_, h.origins, fun name hd => h.deferred.subset hd⟩
  obtain ⟨type, htype⟩ := Option.isSome_iff_exists.1 hn
  exact Option.isSome_iff_exists.2 ⟨type, h.table name type htype⟩

theorem claim (h : c.claim name origin = .ok c') : c.Grows c' :=
  ⟨fun _ _ hn => by rwa [reference?_claim h], fun _ _ ho => origins_claim h ho,
    deferred_claim h ▸ List.prefix_rfl⟩

theorem start (c : Context) (name : String) : c.Grows (c.start name) :=
  ⟨fun _ _ hn => by simpa using hn, fun _ _ ho => by simpa using ho, by simp⟩

theorem abandon (c : Context) (name : String) : c.Grows (c.abandon name) :=
  ⟨fun _ _ hn => hn, fun _ _ ho => ho, List.prefix_rfl⟩

theorem defer (c : Context) (name : String) : c.Grows (c.defer name) :=
  ⟨fun _ _ hn => hn, fun _ _ ho => ho, List.prefix_append _ _⟩

theorem complete (h : c.reference? type.name = none) : c.Grows (c.complete type) := by
  refine ⟨fun name old hn => ?_, fun _ _ ho => ho, List.prefix_rfl⟩
  rw [reference?_complete]
  -- An entry of the same name would have been there before.
  split
  · next heq => simp [heq ▸ hn] at h
  · exact hn

end Grows

end Context

end Endpoints
