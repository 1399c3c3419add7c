/-! # Dictionaries

A `Dict α` maps names to values and lists its entries in increasing order of the names (by code
points). The order is part of the type, so two dictionaries with the same look-ups are equal:

* `get?_insert`   `(d.insert k v).get? j = if j = k then some v else d.get? j`
* `get?_empty`    `Dict.empty.get? j = none`
* `ext_get?`      `(∀ k, d.get? k = e.get? k) → d = e`
-/

namespace Endpoints

/-- Puts an entry into a list of entries ordered by name, in place of an entry of the same name. -/
def insertEntry (key : String) (value : α) : List (String × α) → List (String × α)
  | [] => [(key, value)]
  | (k, v) :: entries =>
    if key < k then (key, value) :: (k, v) :: entries
    else if key = k then (key, value) :: entries
    else (k, v) :: insertEntry key value entries

/-- The value of the first entry with the name. -/
def lookupEntry (key : String) : List (String × α) → Option α
  | [] => none
  | (k, v) :: entries => if key = k then some v else lookupEntry key entries

/-- The names of the entries increase. -/
def Ordered (entries : List (String × α)) : Prop :=
  entries.Pairwise fun a b => a.1 < b.1

/-- A map from names to values, kept in the order of the names. -/
structure Dict (α : Type u) where
  entries : List (String × α)
  ordered : Ordered entries

theorem lt_of_not_lt_of_ne {a b : String} (h : ¬ a < b) (hne : a ≠ b) : b < a := by
  by_cases hba : b < a
  · exact hba
  · exact absurd (String.le_antisymm (String.not_lt.1 hba) (String.not_lt.1 h)) hne

/-- An entry after an insertion is the inserted one or was there before. -/
theorem mem_insertEntry {key : String} {value : α} {entries : List (String × α)} {e : String × α}
    (h : e ∈ insertEntry key value entries) : e = (key, value) ∨ e ∈ entries := by
  induction entries with
  | nil => simpa [insertEntry] using h
  | cons entry entries ih =>
    obtain ⟨k, v⟩ := entry
    unfold insertEntry at h
    split at h
    · simpa using h
    · split at h
      · rcases List.mem_cons.1 h with h | h
        · exact .inl h
        · exact .inr (List.mem_cons_of_mem _ h)
      · rcases List.mem_cons.1 h with h | h
        · exact .inr (h ▸ List.mem_cons_self)
        · exact (ih h).imp id (List.mem_cons_of_mem _)

/-- An insertion keeps the entries in the order of their keys. -/
theorem ordered_insertEntry (key : String) (value : α) {entries : List (String × α)}
    (h : Ordered entries) : Ordered (insertEntry key value entries) := by
  induction entries with
  | nil => simp [insertEntry, Ordered]
  | cons entry entries ih =>
    obtain ⟨k, v⟩ := entry
    have hk : ∀ e ∈ entries, k < e.1 := (List.pairwise_cons.1 h).1
    have ht : Ordered entries := (List.pairwise_cons.1 h).2
    unfold insertEntry
    split
    · next hlt =>
      refine List.pairwise_cons.2 ⟨fun e he => ?_, h⟩
      rcases List.mem_cons.1 he with rfl | he
      · exact hlt
      · exact String.lt_trans hlt (hk e he)
    · next hlt =>
      split
      · next heq => exact List.pairwise_cons.2 ⟨fun e he => heq ▸ hk e he, ht⟩
      · next hne =>
        refine List.pairwise_cons.2 ⟨fun e he => ?_, ih ht⟩
        rcases mem_insertEntry he with rfl | he
        · exact lt_of_not_lt_of_ne hlt hne
        · exact hk e he

/-- A value that is found stands in the entries under its key. -/
theorem mem_of_lookupEntry {key : String} {entries : List (String × α)} {value : α}
    (h : lookupEntry key entries = some value) : (key, value) ∈ entries := by
  induction entries with
  | nil => exact nomatch h
  | cons entry entries ih =>
    rw [lookupEntry] at h
    split at h
    · next heq =>
      rw [heq, ← Option.some.inj h]
      exact List.mem_cons_self
    · exact List.mem_cons_of_mem _ (ih h)

namespace Dict

def empty : Dict α := ⟨[], List.Pairwise.nil⟩

instance : EmptyCollection (Dict α) := ⟨empty⟩

instance : Inhabited (Dict α) := ⟨empty⟩

def get? (d : Dict α) (key : String) : Option α :=
  lookupEntry key d.entries

def contains (d : Dict α) (key : String) : Bool :=
  (d.get? key).isSome

/-- The names, in increasing order. -/
def keys (d : Dict α) : List String :=
  d.entries.map (·.1)

def isEmpty (d : Dict α) : Bool :=
  d.entries.isEmpty

/-- The dictionary with `value` under `key`. -/
def insert (d : Dict α) (key : String) (value : α) : Dict α :=
  ⟨insertEntry key value d.entries, ordered_insertEntry key value d.ordered⟩

/-- The dictionary of a list of entries; of entries with one name the last counts. -/
def ofList (entries : List (String × α)) : Dict α :=
  entries.foldl (fun d (key, value) => d.insert key value) empty

instance [BEq α] : BEq (Dict α) where
  beq a b := a.entries == b.entries

@[simp] theorem get?_empty (key : String) : (empty : Dict α).get? key = none := rfl

theorem ext {d e : Dict α} (h : d.entries = e.entries) : d = e := by
  cases d; cases e; cases h; rfl

/-- A look-up after an insertion sees the inserted value, and all others as before. -/
theorem lookup_insertEntry (key : String) (value : α) (entries : List (String × α)) (j : String) :
    lookupEntry j (insertEntry key value entries) =
      if j = key then some value else lookupEntry j entries := by
  induction entries with
  | nil => simp [insertEntry, lookupEntry]
  | cons entry entries ih =>
    obtain ⟨k, v⟩ := entry
    unfold insertEntry
    split
    · simp [lookupEntry]
    · split
      · next heq => subst heq; by_cases hj : j = key <;> simp [lookupEntry, hj]
      · next hne =>
        simp only [lookupEntry, ih]
        by_cases hj : j = key
        · subst hj; simp [hne]
        · simp [hj]

@[simp] theorem get?_insert (d : Dict α) (key : String) (value : α) (j : String) :
    (d.insert key value).get? j = if j = key then some value else d.get? j :=
  lookup_insertEntry key value d.entries j

/-- A key below all the keys of the entries is not found. -/
theorem lookupEntry_eq_none {key : String} {entries : List (String × α)}
    (h : ∀ e ∈ entries, key < e.1) : lookupEntry key entries = none := by
  induction entries with
  | nil => rfl
  | cons entry entries ih =>
    have hk : key < entry.1 := h entry List.mem_cons_self
    have hne : key ≠ entry.1 := fun heq => String.lt_irrefl _ (heq ▸ hk)
    simp only [lookupEntry, hne, ↓reduceIte]
    exact ih fun e he => h e (List.mem_cons_of_mem _ he)

/-- Ordered entries are determined by their look-ups. -/
theorem entries_eq_of_lookup {a b : List (String × α)} (ha : Ordered a) (hb : Ordered b)
    (h : ∀ key, lookupEntry key a = lookupEntry key b) : a = b := by
  induction a generalizing b with
  | nil =>
    cases b with
    | nil => rfl
    | cons entry b => simpa [lookupEntry] using h entry.1
  | cons x a ih =>
    cases b with
    | nil => simpa [lookupEntry] using h x.1
    | cons y b =>
      obtain ⟨kx, vx⟩ := x
      obtain ⟨ky, vy⟩ := y
      have hx := List.pairwise_cons.1 ha
      have hy := List.pairwise_cons.1 hb
      have hkey : kx = ky := by
        by_cases hlt : kx < ky
        · have := h kx
          rw [lookupEntry, if_pos rfl, lookupEntry_eq_none] at this
          · simp at this
          · intro e he
            rcases List.mem_cons.1 he with rfl | he
            · exact hlt
            · exact String.lt_trans hlt (hy.1 e he)
        · by_cases hgt : ky < kx
          · have := h ky
            rw [lookupEntry_eq_none, lookupEntry, if_pos rfl] at this
            · simp at this
            · intro e he
              rcases List.mem_cons.1 he with rfl | he
              · exact hgt
              · exact String.lt_trans hgt (hx.1 e he)
          · exact String.le_antisymm (String.not_lt.1 hgt) (String.not_lt.1 hlt)
      subst hkey
      have hval : vx = vy := by simpa [lookupEntry] using h kx
      subst hval
      congr 1
      refine ih hx.2 hy.2 fun key => ?_
      by_cases hk : key = kx
      · subst hk
        rw [lookupEntry_eq_none hx.1, lookupEntry_eq_none hy.1]
      · simpa [lookupEntry, hk] using h key

/-- Dictionaries with the same look-ups are equal. -/
theorem ext_get? {d e : Dict α} (h : ∀ key, d.get? key = e.get? key) : d = e :=
  ext (entries_eq_of_lookup d.ordered e.ordered h)

end Dict

end Endpoints
