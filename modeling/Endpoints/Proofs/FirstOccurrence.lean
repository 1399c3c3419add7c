import Endpoints.Schema.Basic
import Mathlib.Data.List.Induction
import Mathlib.Data.List.Nodup

/-!
# First occurrences

Items are gathered one by one, and one that is there already is not added again. What is gathered is
the list of items at their first occurrence (`List.eraseDups`). This is so for every equality of
items. If the equality is an equivalence, repetitions within a part do not matter either, and an
item may be replaced by an equal one: this covers values of documents, where two zeros are equal.
-/

namespace Endpoints

variable {α β : Type} [BEq α]

variable {items : List α}

private theorem addNew_of_contains {item : α} (h : items.contains item = true) :
    addNew items item = items :=
  if_pos h

private theorem addNew_of_not_contains {item : α} (h : items.contains item = false) :
    addNew items item = items ++ [item] :=
  if_neg (by simp [h])

variable {acc : List α}

/-- Nothing is gathered only if there was nothing and nothing is added. -/
theorem foldl_addNew_eq_nil : items.foldl addNew acc = [] ↔ acc = [] ∧ items = [] := by
  induction items generalizing acc with
  | nil => simp
  | cons item items ih =>
    have hadd : addNew acc item ≠ [] := by
      cases h : acc.contains item with
      | false => simp [addNew_of_not_contains h]
      | true =>
        obtain ⟨other, hother, _⟩ := List.contains_iff_exists_mem_beq.1 h
        rw [addNew_of_contains h]
        exact List.ne_nil_of_mem hother
    simp [ih, hadd]

/-- Nothing is gathered but what was there and what is added. -/
theorem mem_foldl_addNew {item : α} (h : item ∈ items.foldl addNew acc) :
    item ∈ acc ∨ item ∈ items := by
  induction items generalizing acc with
  | nil => exact .inl h
  | cons first items ih =>
    -- The item is a later one, or it is there once the first one was added.
    rcases ih h with hadd | hitems
    · cases hcontains : acc.contains first with
      | true =>
        rw [addNew_of_contains hcontains] at hadd
        exact .inl hadd
      | false =>
        rw [addNew_of_not_contains hcontains, List.mem_append, List.mem_singleton] at hadd
        exact hadd.imp_right fun hfirst => List.mem_cons.2 (.inl hfirst)
    · exact .inr (List.mem_cons_of_mem _ hitems)

/-- The loop of `List.eraseDups` gathers in reverse. -/
private theorem eraseDupsBy_loop_eq (items acc : List α) :
    List.eraseDupsBy.loop (· == ·) items acc = items.foldl addNew acc.reverse := by
  induction items generalizing acc with
  | nil => rfl
  | cons item items ih =>
    rw [List.eraseDupsBy.loop, List.foldl_cons]
    cases h : acc.any (item == ·) with
    | true => rw [addNew_of_contains (by simpa [List.contains_eq_any_beq] using h), ← ih]
    | false =>
      rw [addNew_of_not_contains (by simpa [List.contains_eq_any_beq] using h),
        ← List.reverse_cons, ← ih]

theorem foldl_addNew_nil (items : List α) : items.foldl addNew [] = items.eraseDups :=
  (eraseDupsBy_loop_eq items []).symm

theorem eraseDups_eq_nil : items.eraseDups = [] ↔ items = [] := by
  rw [← foldl_addNew_nil, foldl_addNew_eq_nil, and_iff_right rfl]

theorem mem_of_mem_eraseDups {item : α} (h : item ∈ items.eraseDups) : item ∈ items :=
  (mem_foldl_addNew (foldl_addNew_nil items ▸ h)).resolve_left List.not_mem_nil

theorem eraseDups_append (items others : List α) :
    (items ++ others).eraseDups = others.foldl addNew items.eraseDups := by
  rw [← foldl_addNew_nil, ← foldl_addNew_nil, List.foldl_append]

private theorem eraseDups_concat (items : List α) (item : α) :
    (items ++ [item]).eraseDups = addNew items.eraseDups item :=
  eraseDups_append items [item]

private theorem foldl_addNew_of_contains (h : ∀ item ∈ items, acc.contains item = true) :
    items.foldl addNew acc = acc := by
  induction items with
  | nil => rfl
  | cons item items ih =>
    obtain ⟨hitem, hitems⟩ := List.forall_mem_cons.1 h
    rw [List.foldl_cons, addNew_of_contains hitem, ih hitems]

/-- At most all of the items are added. -/
private theorem length_foldl_addNew_le (items acc : List α) :
    (items.foldl addNew acc).length ≤ acc.length + items.length := by
  induction items generalizing acc with
  | nil => exact Nat.le_refl _
  | cons item items ih =>
    -- One step adds at most one item to the collected ones.
    have hrest := ih (addNew acc item)
    rw [List.foldl_cons, List.length_cons]
    cases h : acc.contains item with
    | true =>
      rw [addNew_of_contains h] at hrest ⊢
      omega
    | false =>
      rw [addNew_of_not_contains h] at hrest ⊢
      rw [List.length_append, List.length_singleton] at hrest
      omega

/-- All items are added exactly if none of them is there and each is new among the items. -/
theorem length_foldl_addNew :
    (items.foldl addNew acc).length = acc.length + items.length ↔
      (∀ item ∈ items, acc.contains item = false) ∧
        items.Pairwise fun first second => (second == first) = false := by
  induction items generalizing acc with
  | nil => simp
  | cons item items ih =>
    rw [List.foldl_cons, List.length_cons, List.forall_mem_cons, List.pairwise_cons]
    cases h : acc.contains item with
    | true =>
      -- The item is left out, and the others cannot make up for it.
      have hle := length_foldl_addNew_le items acc
      rw [addNew_of_contains h]
      refine iff_of_false (by omega) fun hnew => ?_
      cases hnew.1.1
    | false =>
      have hrest := @ih (acc ++ [item])
      rw [List.length_append, List.length_singleton, Nat.add_assoc, Nat.add_comm 1] at hrest
      rw [addNew_of_not_contains h, hrest]
      simp only [List.contains_append, List.contains_cons, List.contains_nil, Bool.or_false,
        Bool.or_eq_false_iff]
      constructor
      · rintro ⟨hnew, hpairs⟩
        exact ⟨⟨trivial, fun other hother => (hnew other hother).1⟩,
          fun other hother => (hnew other hother).2, hpairs⟩
      · rintro ⟨⟨-, hacc⟩, hitem, hpairs⟩
        exact ⟨fun other hother => ⟨hacc other hother, hitem other hother⟩, hpairs⟩

/-- Items are gathered alike through a function that keeps their equality. -/
theorem foldl_addNew_map [BEq β] {f : α → β} (hf : ∀ a b, (f a == f b) = (a == b))
    (items acc : List α) :
    (items.map f).foldl addNew (acc.map f) = (items.foldl addNew acc).map f := by
  induction items generalizing acc with
  | nil => rfl
  | cons item items ih =>
    -- The map keeps and reflects equality, so both sides add an item in the same steps.
    have hcontains : (acc.map f).contains (f item) = acc.contains item := by
      simp [List.contains_eq_any_beq, hf, Function.comp_def]
    rw [List.map_cons, List.foldl_cons, List.foldl_cons, ← ih]
    cases h : acc.contains item with
    | true => rw [addNew_of_contains h, addNew_of_contains (hcontains.trans h)]
    | false =>
      rw [addNew_of_not_contains h, addNew_of_not_contains (hcontains.trans h), List.map_append]
      rfl

/-! ## Equivalences -/

section Equivalence

variable [EquivBEq α]

variable (items : List α)

/-- `addNew` makes one more item, and all equal ones, be there. -/
private theorem contains_addNew (item other : α) :
    (addNew items item).contains other = (items.contains other || other == item) := by
  cases h : items.contains item with
  | false => simp [addNew_of_not_contains h]
  | true =>
    rw [addNew_of_contains h]
    -- The item was there, and so was what is equal to it.
    cases heq : other == item with
    | false => simp
    | true => simp [List.contains_congr heq, h]

private theorem contains_foldl_addNew (acc : List α) (other : α) :
    (items.foldl addNew acc).contains other = (acc.contains other || items.contains other) := by
  induction items generalizing acc with
  | nil => simp
  | cons item items ih =>
    rw [List.foldl_cons, ih, contains_addNew, List.contains_cons, Bool.or_assoc]

/-- What is added does not depend on repetitions among the items themselves. -/
theorem foldl_addNew_eraseDups (acc : List α) :
    items.eraseDups.foldl addNew acc = items.foldl addNew acc := by
  -- From the end: the last item is new among all or was met before.
  induction items using List.reverseRecOn with
  | nil => rfl
  | append_singleton items item ih =>
    rw [eraseDups_concat, List.foldl_append, ← ih, List.foldl_cons, List.foldl_nil]
    cases h : items.eraseDups.contains item with
    | true =>
      rw [addNew_of_contains h, addNew_of_contains]
      rw [contains_foldl_addNew, h, Bool.or_true]
    | false => rw [addNew_of_not_contains h, List.foldl_append, List.foldl_cons, List.foldl_nil]

theorem eraseDups_eraseDups : items.eraseDups.eraseDups = items.eraseDups := by
  rw [← foldl_addNew_nil, foldl_addNew_eraseDups, foldl_addNew_nil]

theorem eraseDups_append_eraseDups_append (before items after : List α) :
    (before ++ items.eraseDups ++ after).eraseDups = (before ++ items ++ after).eraseDups := by
  rw [← foldl_addNew_nil, ← foldl_addNew_nil (before ++ items ++ after)]
  simp only [List.foldl_append, foldl_addNew_eraseDups]

variable (lists : List (List α))

theorem eraseDups_flatten_map :
    (lists.map List.eraseDups).flatten.eraseDups = lists.flatten.eraseDups := by
  rw [← foldl_addNew_nil, ← foldl_addNew_nil, List.foldl_flatten, List.foldl_flatten,
    List.foldl_map]
  simp only [foldl_addNew_eraseDups]

omit [EquivBEq α] in
/-- Equal lists have equal items. -/
private theorem exists_mem_of_beq {items others : List α} (h : (items == others) = true) {item : α}
    (hitem : item ∈ items) : ∃ other ∈ others, (item == other) = true := by
  induction items generalizing others with
  | nil => cases hitem
  | cons first items ih =>
    cases others with
    | nil => cases h
    | cons second others =>
      obtain ⟨hfirst, hrest⟩ : (first == second) = true ∧ (items == others) = true := by
        simpa using h
      rcases List.mem_cons.1 hitem with rfl | hitem
      · exact ⟨second, List.mem_cons_self, hfirst⟩
      · obtain ⟨other, hother, heq⟩ := ih hrest hitem
        exact ⟨other, List.mem_cons_of_mem _ hother, heq⟩

/-- A list that is there already has nothing new. -/
private theorem eraseDups_flatten_addNew (list : List α) :
    (addNew lists list).flatten.eraseDups = list.foldl addNew lists.flatten.eraseDups := by
  cases h : lists.contains list with
  | false => simp [addNew_of_not_contains h, eraseDups_append]
  | true =>
    obtain ⟨other, hother, heq⟩ := List.contains_iff_exists_mem_beq.1 h
    rw [addNew_of_contains h, foldl_addNew_of_contains]
    intro item hitem
    obtain ⟨same, hsame, hitem⟩ := exists_mem_of_beq heq hitem
    rw [← foldl_addNew_nil, contains_foldl_addNew, List.contains_iff_exists_mem_beq.2
      ⟨same, List.mem_flatten.2 ⟨other, hother, hsame⟩, hitem⟩, Bool.or_true]

theorem eraseDups_flatten_eraseDups :
    lists.eraseDups.flatten.eraseDups = lists.flatten.eraseDups := by
  induction lists using List.reverseRecOn with
  | nil => rfl
  | append_singleton lists list ih =>
    rw [eraseDups_concat, eraseDups_flatten_addNew, ih, List.flatten_append,
      List.flatten_singleton, eraseDups_append]

end Equivalence

/-! ## Lawful equalities -/

section Lawful

variable [LawfulBEq α]

theorem addNew_of_mem {items : List α} {item : α} (h : item ∈ items) :
    addNew items item = items :=
  addNew_of_contains (List.contains_iff_mem.2 h)

theorem addNew_of_not_mem {items : List α} {item : α} (h : item ∉ items) :
    addNew items item = items ++ [item] :=
  addNew_of_not_contains (Bool.eq_false_iff.2 (mt List.contains_iff_mem.1 h))

/-- No item is there twice. -/
theorem nodup_eraseDups (items : List α) : items.eraseDups.Nodup := by
  induction items using List.reverseRecOn with
  | nil => exact List.nodup_nil
  | append_singleton items item ih =>
    rw [eraseDups_concat]
    by_cases h : item ∈ items.eraseDups
    · rwa [addNew_of_mem h]
    · rw [addNew_of_not_mem h]
      exact List.nodup_append'.2 ⟨ih, List.nodup_singleton item, by simpa using h⟩

end Lawful

end Endpoints
