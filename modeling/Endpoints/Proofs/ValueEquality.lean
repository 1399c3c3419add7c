import Endpoints.Json.Basic

/-!
# Equality of values

Values of documents are compared as values: the two zeros of the doubles are equal, though they are
not the same double. So this equality is no identity, but it is an equivalence, and what only asks
for an equivalence holds of values.
-/

namespace Endpoints

private theorem equivBEq_of_euclidean {α : Type} [BEq α] (hrefl : ∀ a : α, (a == a) = true)
    (h : ∀ {a b c : α}, (a == b) = true → (a == c) = true → (b == c) = true) : EquivBEq α where
  rfl := hrefl _
  symm hab := h hab (hrefl _)
  trans hab hbc := h (h hab (hrefl _)) hbc

theorem Double.beq_iff {a b : Double} : (a == b) = true ↔ a.significand = b.significand ∧
    (a.significand = 0 ∨ (a.negative = b.negative ∧ a.exponent = b.exponent)) := by
  change (a.significand == b.significand && (a.significand == 0 ||
    (a.negative == b.negative && a.exponent == b.exponent))) = true ↔ _
  simp

instance : EquivBEq Double := by
  refine equivBEq_of_euclidean Double.beq_self fun hab hac => ?_
  rw [Double.beq_iff] at hab hac ⊢
  grind

instance : EquivBEq Number := by
  refine equivBEq_of_euclidean (fun a => ?_) fun {a b c} hab hac => ?_
  · cases a with
    | integer n => exact beq_self_eq_true n
    | double x => exact BEq.rfl (a := x)
  · cases a with
    | integer n =>
      obtain ⟨k⟩ | ⟨y⟩ := b
      · obtain ⟨l⟩ | ⟨z⟩ := c
        · exact BEq.trans (α := Int) (BEq.symm (α := Int) hab) hac
        · cases hac
      · cases hab
    | double x =>
      obtain ⟨k⟩ | ⟨y⟩ := b
      · cases hab
      · obtain ⟨l⟩ | ⟨z⟩ := c
        · cases hac
        · exact BEq.trans (α := Double) (BEq.symm (α := Double) hab) hac

namespace Json

mutual

/-- Every value is equal to itself. -/
theorem same_refl (a : Json) : same a a = true := by
  cases a with
  | null => rfl
  | bool value => exact beq_self_eq_true value
  | number value => exact BEq.rfl (a := value)
  | string value => exact beq_self_eq_true value
  | array items => exact sameList_refl items
  | object fields => exact sameFields_refl fields

private theorem sameList_refl (items : List Json) : sameList items items = true := by
  cases items with
  | nil => rfl
  | cons item items => simp [sameList, same_refl item, sameList_refl items]

private theorem sameFields_refl (fields : List (String × Json)) :
    sameFields fields fields = true := by
  cases fields with
  | nil => rfl
  | cons field fields =>
    obtain ⟨name, value⟩ := field
    simp [sameFields, same_refl value, sameFields_refl fields]

end

mutual

/-- Values that are equal to a third one are equal. -/
theorem same_euclidean {a b c : Json} (hab : same a b = true) (hac : same a c = true) :
    same b c = true := by
  -- A value of the same form stands in all three places; the other cases are excluded by an
  -- equality.
  cases a with
  | null =>
    cases b with
    | null => exact hac
    | _ => cases hab
  | bool value =>
    cases b with
    | bool other =>
      obtain rfl : value = other := eq_of_beq hab
      exact hac
    | _ => cases hab
  | string value =>
    cases b with
    | string other =>
      obtain rfl : value = other := eq_of_beq hab
      exact hac
    | _ => cases hab
  | number value =>
    cases b with
    | number second => cases c with
      | number third => exact BEq.trans (α := Number) (BEq.symm (α := Number) hab) hac
      | _ => cases hac
    | _ => cases hab
  | array items =>
    cases b with
    | array second => cases c with
      | array third => exact sameList_euclidean hab hac
      | _ => cases hac
    | _ => cases hab
  | object fields =>
    cases b with
    | object second => cases c with
      | object third => exact sameFields_euclidean hab hac
      | _ => cases hac
    | _ => cases hab
termination_by structural a

/-- The same for lists, item by item. -/
private theorem sameList_euclidean {a b c : List Json} (hab : sameList a b = true)
    (hac : sameList a c = true) : sameList b c = true := by
  cases a with
  | nil =>
    cases b with
    | nil => exact hac
    | cons => cases hab
  | cons first a =>
    cases b with
    | nil => cases hab
    | cons second b => cases c with
      | nil => cases hac
      | cons third c =>
        -- All three have a first item, and these are compared pairwise.
        simp only [sameList, Bool.and_eq_true] at hab hac ⊢
        exact ⟨same_euclidean hab.1 hac.1, sameList_euclidean hab.2 hac.2⟩
termination_by structural a

/-- The same for fields, which have equal names, too. -/
private theorem sameFields_euclidean {a b c : List (String × Json)} (hab : sameFields a b = true)
    (hac : sameFields a c = true) : sameFields b c = true := by
  cases a with
  | nil =>
    cases b with
    | nil => exact hac
    | cons => cases hab
  | cons first a =>
    cases b with
    | nil => cases hab
    | cons second b => cases c with
      | nil => cases hac
      | cons third c =>
        -- Names are compared as texts, values by recursion.
        obtain ⟨name, value⟩ := first
        obtain ⟨name', value'⟩ := second
        obtain ⟨name'', value''⟩ := third
        simp only [sameFields, Bool.and_eq_true, beq_iff_eq] at hab hac ⊢
        exact ⟨⟨hab.1.1.symm.trans hac.1.1, same_euclidean hab.1.2 hac.1.2⟩,
          sameFields_euclidean hab.2 hac.2⟩
termination_by structural a

end

instance : EquivBEq Json := equivBEq_of_euclidean same_refl same_euclidean

end Json

end Endpoints
