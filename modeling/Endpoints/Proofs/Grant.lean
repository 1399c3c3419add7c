import Endpoints.Proofs.Simulation

/-!
# Where names and handles come from

Resolution takes the types of a region, which name certain instantiations. Every name that it claims
and every handle that it gives out belongs to one of these. `Context.Grants` says this of one
handle, `Context.Sound` of a whole table, and `Context.Advances` describes what a run may do to a
context at all. They are about contexts only; that runs obey them is shown elsewhere.
-/

namespace Endpoints

/-! ## Grants -/

variable {P : Instantiation → Prop}

namespace Context

/-- The context has given out the handle, for one of the instantiations `P`. -/
structure Grants (P : Instantiation → Prop) (c : Context) (handle : Handle) : Prop where
  origin : ∃ i, P i ∧ i.handle = handle ∧ c.origins.get? handle.name = some i.location
  /-- Enums are finished at once. -/
  finished : handle.referent = .enum → (c.reference? handle.name).isSome
  known : (c.reference? handle.name).isSome ∨ handle.name ∈ c.deferred

/-- The handles that a context has given out. -/
def granted (P : Instantiation → Prop) (c : Context) : Set Handle := {handle | c.Grants P handle}

/-- The entry stands under its own name; its handle and all handles in it have been given out. -/
structure SoundEntry (P : Instantiation → Prop) (c : Context) (key : String)
    (type : ReferenceType) : Prop where
  name : type.name = key
  own : c.Grants P ⟨type.shape.referent, key⟩
  within : type.Within (c.granted P)

/-- All entries of the table are sound. -/
def Sound (P : Instantiation → Prop) (c : Context) : Prop :=
  ∀ name type, c.reference? name = some type → c.SoundEntry P name type

variable {c c' c'' : Context} {name : String} {type : ReferenceType}

theorem Grants.keeps {handle : Handle} (h : c.Grants P handle) (hc : c.Keeps c') :
    c'.Grants P handle := by
  refine ⟨?_, fun he => hc.names _ (h.finished he), h.known.imp (hc.names _) (hc.deferred _)⟩
  obtain ⟨i, hi, hhandle, horigin⟩ := h.origin
  exact ⟨i, hi, hhandle, hc.origins _ _ horigin⟩

theorem granted_mono (hc : c.Keeps c') : c.granted P ⊆ c'.granted P :=
  fun _ h => Grants.keeps h hc

theorem SoundEntry.keeps {key : String} (h : c.SoundEntry P key type) (hc : c.Keeps c') :
    c'.SoundEntry P key type :=
  ⟨h.name, h.own.keeps hc, h.within.mono (granted_mono hc)⟩

theorem sound_empty : Sound P .empty := fun _ _ h => nomatch h

theorem Sound.of_table (h : c.Sound P) (hc : c.Keeps c')
    (htable : ∀ name, c'.reference? name = c.reference? name) : c'.Sound P :=
  fun name type htype => (h name type (htable name ▸ htype)).keeps hc

theorem Sound.claim_start {origin : String} (h : c.Sound P)
    (hclaim : c.claim name origin = .ok c') : (c'.start name).Sound P :=
  h.of_table (.claim_start hclaim) fun _ => reference?_claim_start hclaim

/-- The table stays sound with one more sound entry. -/
theorem Sound.complete (h : c.Sound P)
    (htype : (c.complete type).SoundEntry P type.name type) : (c.complete type).Sound P := by
  intro name found hfound
  rw [reference?_complete] at hfound
  split at hfound
  · next heq =>
    obtain rfl := Option.some.inj hfound
    exact heq ▸ htype
  · exact (h name found hfound).keeps (.complete c type)

/-! ## Runs -/

/-- What a run of resolution with the instantiations `P` may do to a context. -/
structure Advances (P : Instantiation → Prop) (c c' : Context) : Prop extends c.Grows c' where
  /-- A name is only taken out of construction by an enum, which then has its entry. -/
  inProgress : ∃ finished : List String, c'.inProgress = c.inProgress.filter (· ∉ finished) ∧
    ∀ name ∈ finished, c.reference? name = none ∧ c'.Grants P ⟨.enum, name⟩
  /-- A name under construction gets no entry before its construction ends. -/
  unfinished : ∀ name ∈ c'.inProgress, c'.reference? name = c.reference? name

namespace Advances

theorem refl (c : Context) : c.Advances P c where
  toGrows := .refl c
  inProgress := ⟨[], by simp, by simp⟩
  unfinished _ _ := rfl

theorem sublist (h : c.Advances P c') : c'.inProgress.Sublist c.inProgress := by
  obtain ⟨finished, heq, _⟩ := h.inProgress
  rw [heq]
  exact List.filter_sublist

theorem idle (h : c.Advances P c') (hidle : c.inProgress = []) : c'.inProgress = [] :=
  List.sublist_nil.1 (hidle ▸ h.sublist)

/-- Runs may follow each other. -/
theorem trans (h : c.Advances P c') (h' : c'.Advances P c'') : c.Advances P c'' where
  toGrows := h.toGrows.trans h'.toGrows
  inProgress := by
    -- The names that were taken out on the way are those of both parts.
    obtain ⟨first, hfirst, hnames⟩ := h.inProgress
    obtain ⟨second, hsecond, hnames'⟩ := h'.inProgress
    refine ⟨first ++ second, ?_, fun name hname => ?_⟩
    · rw [hsecond, hfirst, List.filter_filter]
      refine List.filter_congr fun name _ => ?_
      simp only [List.mem_append, not_or, Bool.decide_and, Bool.and_comm]
    · rcases List.mem_append.1 hname with hname | hname
      · obtain ⟨hnone, hgrants⟩ := hnames name hname
        exact ⟨hnone, hgrants.keeps h'.toGrows.keeps⟩
      · obtain ⟨hnone, hgrants⟩ := hnames' name hname
        refine ⟨Option.eq_none_iff_forall_ne_some.2 fun type htype => ?_, hgrants⟩
        simp [h.table name type htype] at hnone
  unfinished name hname := by
    rw [h'.unfinished name hname, h.unfinished name (h'.sublist.subset hname)]

/-- A run that leads back to where it began has changed nothing. -/
theorem antisymm (h : c.Advances P c') (h' : c'.Advances P c) : c = c' := by
  -- Each part only grows, so it is the same on both ends.
  have htable : c.table = c'.table := Dict.ext_get? fun name => Option.ext fun type =>
    ⟨h.table name type, h'.table name type⟩
  have horigins : c.origins = c'.origins := Dict.ext_get? fun name => Option.ext fun origin =>
    ⟨h.origins name origin, h'.origins name origin⟩
  have hdeferred : c.deferred = c'.deferred :=
    h.deferred.eq_of_length_le h'.deferred.length_le
  have hprogress : c.inProgress = c'.inProgress := h'.sublist.antisymm h.sublist
  obtain ⟨table, origins, inProgress, deferred⟩ := c
  obtain ⟨table', origins', inProgress', deferred'⟩ := c'
  dsimp only at htable horigins hdeferred hprogress
  rw [htable, horigins, hdeferred, hprogress]

theorem claim {origin : String} (h : c.claim name origin = .ok c') : c.Advances P c' where
  toGrows := .claim h
  inProgress := ⟨[], by simp [inProgress_claim h], by simp⟩
  unfinished _ _ := reference?_claim h

theorem defer (c : Context) (name : String) : c.Advances P (c.defer name) where
  toGrows := .defer c name
  inProgress := ⟨[], by simp, by simp⟩
  unfinished _ _ := rfl

/-- An enum is finished without having been under construction. -/
theorem completeEnum (hnone : c.reference? type.name = none)
    (hgrants : (c.complete type).Grants P ⟨.enum, type.name⟩) :
    c.Advances P (c.complete type) where
  toGrows := .complete hnone
  inProgress := by
    -- The name of the enum is the only one that can have been finished.
    refine ⟨[type.name], ?_, ?_⟩
    · rw [inProgress_complete]
      refine List.filter_congr fun name _ => ?_
      simp only [List.mem_singleton, bne, decide_not]
      rfl
    · intro name hname
      obtain rfl := List.mem_singleton.1 hname
      exact ⟨hnone, hgrants⟩
  unfinished name hname := by
    have hne : name ≠ type.name := bne_iff_ne.1 (List.mem_filter.1 hname).2
    simp [hne]

private theorem filter_started {names finished : List String} (h : name ∉ names) :
    ((name :: names).filter (· ∉ finished)).filter (· != name) =
      names.filter (· ∉ finished) := by
  rw [List.filter_filter, List.filter_cons_of_neg (by simp)]
  refine List.filter_congr fun other ho => ?_
  have hne : other ≠ name := fun heq => h (heq ▸ ho)
  simp [hne]

/-- A construction that is given up. -/
theorem abandon (hnew : name ∉ c.inProgress) (h : (c.start name).Advances P c') :
    c.Advances P (c'.abandon name) where
  toGrows := (Grows.start c name).trans (h.toGrows.trans (.abandon c' name))
  inProgress := by
    obtain ⟨finished, heq, hnames⟩ := h.inProgress
    rw [inProgress_start (by simpa [isInProgress] using hnew)] at heq
    refine ⟨finished, ?_, fun other ho => ?_⟩
    · rw [inProgress_abandon, heq, filter_started hnew]
    · obtain ⟨hnone, hgrants⟩ := hnames other ho
      exact ⟨by simpa using hnone, hgrants.keeps (.abandon c' name)⟩
  unfinished other ho := by
    have hprogress := (List.mem_filter.1 ho).1
    rw [reference?_abandon, h.unfinished other hprogress, reference?_start]

/-- A construction that ends with an entry. -/
theorem complete (hnone : c.reference? name = none) (hnew : name ∉ c.inProgress)
    (h : (c.start name).Advances P c') (htype : type.name = name) :
    c.Advances P (c'.complete type) where
  -- An entry that was there has another name.
  table other old hold := by
    have hne : other ≠ type.name := by
      rintro rfl
      simp [htype ▸ hold] at hnone
    simpa [hne] using h.table other old (by simpa using hold)
  origins other origin horigin := h.origins other origin (by simpa using horigin)
  deferred := by simpa using h.deferred
  -- Starting put the name in front of those in progress, and completing takes it out.
  inProgress := by
    obtain ⟨finished, heq, hnames⟩ := h.inProgress
    rw [inProgress_start (by simpa [isInProgress] using hnew)] at heq
    refine ⟨finished, ?_, fun other ho => ?_⟩
    · rw [inProgress_complete, heq, htype, filter_started hnew]
    · obtain ⟨hold, hgrants⟩ := hnames other ho
      exact ⟨by simpa using hold, hgrants.keeps (.complete c' type)⟩
  -- The other names are still without an entry.
  unfinished other ho := by
    have hmem := List.mem_filter.1 ho
    have hne : other ≠ type.name := bne_iff_ne.1 hmem.2
    rw [reference?_complete, if_neg hne, h.unfinished other hmem.1, reference?_start]

end Advances

end Context

/-! ## Distinct names -/

/-- Two instantiations of declarations in one place do not have the same name. -/
def NamesDistinct (P : Instantiation → Prop) : Prop :=
  ∀ i j, P i → P j → i.location = j.location → i.name = j.name → i = j

namespace NamesDistinct

variable (h : NamesDistinct P) {c c' : Context} {i : Instantiation}
include h

/-- Where names are distinct, no enum ends the construction of a type. -/
private theorem mem_inProgress (hi : P i) (hreferent : i.referent ≠ .enum)
    (horigin : c.origins.get? i.name = some i.location) (hmem : i.name ∈ c.inProgress)
    (hadvances : c.Advances P c') : i.name ∈ c'.inProgress := by
  obtain ⟨finished, heq, hfinished⟩ := hadvances.inProgress
  rw [heq, List.mem_filter, decide_eq_true_eq]
  refine ⟨hmem, fun hgone => ?_⟩
  -- The enum would have the same name and come from the same place.
  obtain ⟨j, hj, hhandle, horigin'⟩ := (hfinished _ hgone).2.origin
  have hlocation := (hadvances.origins _ _ horigin).symm.trans horigin'
  have hname : j.name = i.name := congrArg Handle.name hhandle
  rw [h i j hi hj (Option.some.inj hlocation) hname.symm] at hreferent
  exact hreferent (congrArg Handle.referent hhandle)

/-- So a run leaves the names under construction as they are, if all belong to types. -/
theorem inProgress_eq (hc : ∀ name ∈ c.inProgress, ∃ i, P i ∧ i.referent ≠ .enum ∧ i.name = name ∧
      c.origins.get? name = some i.location)
    (hadvances : c.Advances P c') : c'.inProgress = c.inProgress := by
  obtain ⟨finished, heq, _⟩ := hadvances.inProgress
  rw [heq, List.filter_eq_self]
  intro name hname
  obtain ⟨i, hi, hreferent, rfl, horigin⟩ := hc name hname
  -- A name that an enum had finished would be missing at the end.
  have hkept := h.mem_inProgress hi hreferent horigin hname hadvances
  rw [heq] at hkept
  exact (List.mem_filter.1 hkept).2

/-- Where names are distinct, a type gets no entry during its own construction. -/
theorem reference?_of_start (hi : P i) (hreferent : i.referent ≠ .enum)
    (horigin : c.origins.get? i.name = some i.location)
    (hnone : c.reference? i.name = none) (hnew : i.name ∉ c.inProgress)
    (hadvances : (c.start i.name).Advances P c') : c'.reference? i.name = none := by
  have hprogress : c.isInProgress i.name = false := by simpa [Context.isInProgress] using hnew
  have hstarted : i.name ∈ (c.start i.name).inProgress := by
    rw [Context.inProgress_start hprogress]
    exact List.mem_cons_self
  have hkept := h.mem_inProgress hi hreferent (by simpa using horigin) hstarted hadvances
  rw [hadvances.unfinished _ hkept, Context.reference?_start, hnone]

end NamesDistinct

end Endpoints
