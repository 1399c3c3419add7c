import Mathlib.Data.List.Forall2
import Mathlib.Data.List.Induction
import Mathlib.Data.List.TakeWhile

/-!
# General lemmas for the standard library

Facts about lists, options, results and characters that are not about endpoints. They stand here
because several modules need them, and each would fit beside the library's own lemmas.
-/

theorem ite_eq_of_imp {α : Type} {p : Prop} [Decidable p] {a b a' b' x x' : α}
    (h : (if p then a else b) = x) (htrue : p → a = x → a' = x') (hfalse : ¬p → b = x → b' = x') :
    (if p then a' else b') = x' := by
  split
  · next hp => exact htrue hp (by rwa [if_pos hp] at h)
  · next hp => exact hfalse hp (by rwa [if_neg hp] at h)

namespace List

variable {α β : Type}

/-! ## Items and positions -/

theorem forall_head?_cons {P : α → Prop} {a : α} {rest : List α} (h : P a) :
    ∀ b ∈ (a :: rest).head?, P b :=
  fun _ hb => Option.some.inj hb ▸ h

variable {items : List α}

/-- What `getElem?` finds in a list with one more item at its end. -/
theorem getElem?_concat_eq_some {last item : α} {number : Nat} :
    (items ++ [last])[number]? = some item ↔
      items[number]? = some item ∨ number = items.length ∧ item = last := by
  -- Before the last item, at it, and behind it.
  rcases Nat.lt_trichotomy number items.length with hlt | rfl | hlt
  · simp [getElem?_append_left hlt, Nat.ne_of_lt hlt]
  · simp [eq_comm]
  · rw [getElem?_eq_none (by simp; omega), getElem?_eq_none (by omega)]
    simp [Nat.ne_of_gt hlt]

/-- Following the positions of some items of a list with `filterMap` gives these items. -/
theorem filterMap_filter_range (items : List α) (p : α → Bool) :
    ((range items.length).filter fun position => (items[position]?).any p).filterMap
      (items[·]?) = items.filter p := by
  induction items using reverseRecOn with
  | nil => rfl
  | append_singleton items last ih =>
    rw [length_append, length_singleton, range_succ, filter_append, filterMap_append, filter_append,
      ← ih]
    congr 1
    · -- Up to the last item both lists are read alike.
      have hsame : ∀ position ∈ range items.length,
          (items ++ [last])[position]? = items[position]? :=
        fun position hposition => getElem?_append_left (mem_range.1 hposition)
      rw [filter_congr fun position hposition => by rw [hsame position hposition]]
      refine filterMap_congr fun position hposition => ?_
      exact hsame position (mem_of_mem_filter hposition)
    · by_cases hlast : p last = true <;> simp [hlast]

/-! ## Lists that correspond -/

/-- A function that tells apart the items of two lists also tells the lists apart. -/
theorem eq_of_map_eq {f : α → β} {as bs : List α}
    (hf : ∀ a ∈ as, ∀ b ∈ bs, f a = f b → a = b) (h : as.map f = bs.map f) : as = bs := by
  induction as generalizing bs with
  | nil => exact (map_eq_nil_iff.1 h.symm).symm
  | cons a as ih =>
    cases bs with
    | nil => cases h
    | cons b bs =>
      obtain ⟨hfirst, hrest⟩ := cons.inj h
      rw [hf a mem_cons_self b mem_cons_self hfirst,
        ih (fun a ha b hb => hf a (mem_cons_of_mem _ ha) b (mem_cons_of_mem _ hb)) hrest]

/-- What corresponds by `Forall₂` to two lists is made of what corresponds to each. -/
theorem exists_append_of_forall₂ {R : α → β → Prop} {first second : List α} {both : List β}
    (h : Forall₂ R (first ++ second) both) :
    ∃ first' second', both = first' ++ second' ∧ Forall₂ R first first' ∧
      Forall₂ R second second' := by
  induction first generalizing both with
  | nil => exact ⟨[], both, rfl, .nil, h⟩
  | cons a first ih =>
    obtain ⟨b, both, hab, hrest, rfl⟩ := forall₂_cons_left_iff.1 h
    obtain ⟨first', second', rfl, hfirst, hsecond⟩ := ih hrest
    exact ⟨b :: first', second', rfl, .cons hab hfirst, hsecond⟩

/-! ## Searches and parts -/

theorem isSome_findSome?_of_same {f : α → Option β} {others : List α}
    (hsame : ∀ item, item ∈ items ↔ item ∈ others) :
    (items.findSome? f).isSome = (others.findSome? f).isSome := by
  rw [Bool.eq_iff_iff, findSome?_isSome_iff, findSome?_isSome_iff]
  simp only [hsame]

/-- Where all items that give something give the same, the order does not matter to `findSome?`. -/
theorem findSome?_of_same {f : α → Option β} {others : List α}
    (hsame : ∀ item, item ∈ items ↔ item ∈ others)
    (hagree : ∀ item other a b, f item = some a → f other = some b → a = b) :
    items.findSome? f = others.findSome? f := by
  have hisSome := isSome_findSome?_of_same (f := f) hsame
  cases hitems : items.findSome? f with
  | none =>
    rw [hitems] at hisSome
    exact (Option.isNone_iff_eq_none.1 (by simpa using hisSome.symm)).symm
  | some a =>
    rw [hitems] at hisSome
    obtain ⟨b, hothers⟩ := Option.isSome_iff_exists.1 hisSome.symm
    -- The first hits may be different items, but all hits agree.
    obtain ⟨item, _, hitem⟩ := exists_of_findSome?_eq_some hitems
    obtain ⟨other, _, hother⟩ := exists_of_findSome?_eq_some hothers
    rw [hothers, hagree item other a b hitem hother]

/-- If `takeWhile` stops inside a list, what is appended to the list does not matter to it. -/
theorem takeWhile_append_of_dropWhile_ne_nil {p : α → Bool} (h : items.dropWhile p ≠ [])
    (after : List α) :
    (items ++ after).takeWhile p = items.takeWhile p ∧
      (items ++ after).dropWhile p = items.dropWhile p ++ after := by
  constructor
  · rw [takeWhile_append, if_neg]
    intro hlength
    have happend := congrArg length (takeWhile_append_dropWhile (p := p) (l := items))
    rw [length_append, hlength, Nat.add_eq_left, length_eq_zero_iff] at happend
    exact h happend
  · rw [dropWhile_append, if_neg (by simpa using h)]

theorem dropWhile_ne_nil_of_getLast? {p : α → Bool} {a : α} (ha : a ∈ items.getLast?)
    (h : p a = false) : items.dropWhile p ≠ [] := by
  intro hnil
  have hall := dropWhile_eq_nil_iff.1 hnil a (mem_of_getLast? ha)
  rw [h] at hall
  cases hall

/-! ## Sequences of computations -/

variable {m : Type → Type} [Monad m]

theorem foldlM_congr_of_mem {f g : β → α → m β} (h : ∀ item ∈ items, ∀ b, f b item = g b item)
    (init : β) : items.foldlM f init = items.foldlM g init := by
  induction items generalizing init with
  | nil => rfl
  | cons item items ih =>
    obtain ⟨hfirst, hrest⟩ := forall_mem_cons.1 h
    rw [foldlM_cons, foldlM_cons, hfirst]
    exact congrArg _ (funext fun b => ih hrest b)

theorem mapM_congr_of_mem [LawfulMonad m] {f g : α → m β} (h : ∀ item ∈ items, f item = g item) :
    items.mapM f = items.mapM g := by
  induction items with
  | nil => rfl
  | cons item items ih =>
    obtain ⟨hfirst, hrest⟩ := forall_mem_cons.1 h
    rw [mapM_cons, mapM_cons, hfirst, ih hrest]

end List

/-- A function that tells apart what two options hold also tells the options apart. -/
theorem Option.eq_of_map_eq {α β : Type} {f : α → β} {a b : Option α}
    (hf : ∀ x, a = some x → ∀ y, b = some y → f x = f y → x = y) (h : a.map f = b.map f) :
    a = b := by
  cases a with
  | none => cases b with
    | none => rfl
    | some y => cases h
  | some x => cases b with
    | none => cases h
    | some y => rw [hf x rfl y rfl (Option.some.inj h)]

/-! ## Results -/

namespace Except

variable {ε α β : Type} {outcome : Except ε α}

theorem exists_ok_of_isOk (h : outcome.isOk = true) : ∃ a, outcome = .ok a := by
  cases outcome with
  | error e => cases h
  | ok a => exact ⟨a, rfl⟩

theorem exists_ok_of_toOption {f : α → β} {b : β} (h : outcome.toOption.map f = some b) :
    ∃ a, outcome = .ok a ∧ f a = b := by
  cases outcome with
  | error e => cases h
  | ok a => exact ⟨a, rfl, Option.some.inj h⟩

theorem exists_ok_of_any {P : α → Prop} [DecidablePred P]
    (h : (outcome.toOption.any fun a => decide (P a)) = true) : ∃ a, outcome = .ok a ∧ P a := by
  cases outcome with
  | error e => cases h
  | ok a => exact ⟨a, rfl, of_decide_eq_true h⟩

end Except

/-! ## Characters and strings -/

namespace Char

theorem of_toNat_lt {bound : Nat} {P : Char → Prop} (h : ∀ n : Fin bound, P (Char.ofNat n))
    {c : Char} (hc : c.toNat < bound) : P c := by
  have hn := h ⟨c.toNat, hc⟩
  rwa [Char.ofNat_toNat] at hn

theorem toNat_lt_of_isDigit {c : Char} (h : c.isDigit = true) : c.toNat < 58 := by
  simp only [Char.isDigit, Bool.and_eq_true, decide_eq_true_eq] at h
  exact Nat.lt_succ_of_le (UInt32.le_iff_toNat_le.1 h.2)

/-- The characters of `isAlphanum` are all below 128. -/
theorem toNat_lt_of_isAlphanum {c : Char} (h : c.isAlphanum = true) : c.toNat < 0x80 := by
  have hupper : c.isUpper = decide ('A'.val ≤ c.val ∧ c.val ≤ 'Z'.val) := rfl
  have hlower : c.isLower = (decide ('a'.val ≤ c.val) && decide (c.val ≤ 'z'.val)) := rfl
  have hclasses : c.isAlphanum = ((c.isUpper || c.isLower) || c.isDigit) := rfl
  rw [hclasses, hupper, hlower] at h
  simp only [Char.isDigit, Bool.or_eq_true, Bool.and_eq_true, decide_eq_true_eq,
    UInt32.le_iff_toNat_le] at h
  have h90 : 'Z'.val.toNat = 90 := rfl
  have h122 : 'z'.val.toNat = 122 := rfl
  have h57 : '9'.val.toNat = 57 := rfl
  simp only [Char.toNat]
  omega

end Char

/-- `startsWith` by the rest of the text. -/
theorem String.startsWith_iff_exists {text start : String} :
    text.startsWith start = true ↔ ∃ rest, text = start ++ rest := by
  rw [String.startsWith_string_iff]
  constructor
  · rintro ⟨rest, hrest⟩
    exact ⟨String.ofList rest, by rw [← String.toList_inj]; simpa using hrest.symm⟩
  · rintro ⟨rest, rfl⟩
    simp

/-- `endsWith` by what stands before the ending. -/
theorem String.endsWith_iff_exists {text ending : String} :
    text.endsWith ending = true ↔ ∃ stem, text = stem ++ ending := by
  rw [← String.endsWith_toSlice, String.Slice.endsWith_string_iff, String.copy_toSlice]
  constructor
  · rintro ⟨stem, hstem⟩
    exact ⟨String.ofList stem, by rw [← String.toList_inj]; simpa using hstem.symm⟩
  · rintro ⟨stem, rfl⟩
    simp
