import Endpoints.Text.Trim
import Mathlib.Data.List.TakeWhile

/-!
# Parts of texts

What cutting a text at a separator and trimming white space at its ends leave. Cutting undoes the
joining of parts that do not hold the separator, and trimming leaves a text alone whose ends are not
white.
-/

namespace Endpoints

/-! ## Joining parts -/

section Intercalate

variable {α : Type}

theorem intercalate_cons (separator first : List α) (rest : List (List α)) :
    separator.intercalate (first :: rest) = first ++ rest.flatMap (separator ++ ·) := by
  induction rest generalizing first with
  | nil => simp
  | cons second rest ih =>
    rw [List.intercalate_cons_cons, ih, List.flatMap_cons, List.append_assoc, List.append_assoc]

theorem intercalate_append (separator : List α) {parts : List (List α)} (h : parts ≠ [])
    (more : List (List α)) : separator.intercalate (parts ++ more) =
      separator.intercalate parts ++ more.flatMap (separator ++ ·) := by
  obtain ⟨first, rest, rfl⟩ := List.exists_cons_of_ne_nil h
  rw [List.cons_append, intercalate_cons, intercalate_cons, List.flatMap_append, List.append_assoc]

end Intercalate

namespace Text

/-! ## Cutting at a separator -/

/-- A text without the separator is its only part. -/
theorem splitOn_of_not_mem {separator : Char} {text : List Char} (h : separator ∉ text) :
    splitOn separator text = [text] := by
  induction text with
  | nil => rfl
  | cons c cs ih =>
    have hc : (c == separator) = false := by
      rw [beq_eq_false_iff_ne]
      exact fun heq => h (List.mem_cons.2 (.inl heq.symm))
    have hcs : separator ∉ cs := fun hmem => h (List.mem_cons_of_mem c hmem)
    simp [splitOn, hc, ih hcs]

variable (separator : Char)

/-- There is at least one part. -/
theorem splitOn_ne_nil (text : List Char) : splitOn separator text ≠ [] := by
  cases text with
  | nil => simp [splitOn]
  | cons c cs =>
    rw [splitOn]
    split
    · simp
    · split <;> simp

/-- `splitOn` at a separator gives the parts before it and those after it. -/
theorem splitOn_append_cons (before after : List Char) :
    splitOn separator (before ++ separator :: after) =
      splitOn separator before ++ splitOn separator after := by
  induction before with
  | nil => simp [splitOn]
  | cons c cs ih =>
    rw [List.cons_append, splitOn, splitOn, ih]
    split
    · rfl
    · -- The first part goes on with the character, and it is not that of the text after.
      obtain ⟨part, parts, hparts⟩ := List.exists_cons_of_ne_nil (splitOn_ne_nil separator cs)
      rw [hparts]
      rfl

/-- `Text.splitOn` is the library's. -/
theorem splitOn_eq (text : List Char) : splitOn separator text = text.splitOn separator := by
  rw [List.splitOn_eq_splitOnP]
  induction text with
  | nil => rfl
  | cons c cs ih =>
    rw [splitOn, List.splitOnP_cons_eq_if_modifyHead, ih]
    split
    · rfl
    · cases hparts : cs.splitOnP (· == separator) with
      | nil => exact absurd hparts (List.splitOnP_ne_nil _ _)
      | cons part parts => rfl

/-- No part holds the separator. -/
theorem not_mem_of_mem_splitOn {separator : Char} {text part : List Char}
    (h : part ∈ splitOn separator text) : separator ∉ part := by
  induction text generalizing part with
  | nil =>
    obtain rfl := List.mem_singleton.1 h
    exact List.not_mem_nil
  | cons c cs ih =>
    rw [splitOn] at h
    split at h
    · rcases List.mem_cons.1 h with rfl | hmem
      · exact List.not_mem_nil
      · exact ih hmem
    · next hc =>
      -- The character is put in front of the first part.
      obtain ⟨first, parts, hparts⟩ := List.exists_cons_of_ne_nil (splitOn_ne_nil separator cs)
      simp only [hparts] at h
      rcases List.mem_cons.1 h with rfl | hmem
      · have hfirst : separator ∉ first := ih (hparts ▸ List.mem_cons_self)
        have hne : separator ≠ c := fun heq => hc (beq_iff_eq.2 heq.symm)
        exact fun hmem => (List.mem_cons.1 hmem).elim hne hfirst
      · exact ih (hparts ▸ List.mem_cons_of_mem first hmem)

/-- A text without the separator, or what follows its last one. -/
theorem exists_last_part (text : List Char) : ∃ last, separator ∉ last ∧
    (text = last ∨ ∃ before, text = before ++ separator :: last) := by
  -- The last separator is in the rest of the text, or it is the first character, or there is none.
  induction text with
  | nil => exact ⟨[], List.not_mem_nil, .inl rfl⟩
  | cons c cs ih =>
    obtain ⟨last, hlast, rfl | ⟨before, rfl⟩⟩ := ih
    · by_cases hc : c = separator
      · exact ⟨cs, hlast, .inr ⟨[], by rw [hc]; rfl⟩⟩
      · exact ⟨c :: cs, by simp [Ne.symm hc, hlast], .inl rfl⟩
    · exact ⟨last, hlast, .inr ⟨c :: before, rfl⟩⟩

/-! ## Trimming -/

variable {cs : List Char}

theorem trimStart_eq_self (h : ∀ c ∈ cs.head?, isWhite c = false) : trimStart cs = cs := by
  cases cs with
  | nil => rfl
  | cons c cs => exact List.dropWhile_cons_of_neg (by simp [h c rfl])

theorem trimEnd_eq_self (h : ∀ c ∈ cs.getLast?, isWhite c = false) : trimEnd cs = cs := by
  have hreverse : trimStart cs.reverse = cs.reverse :=
    trimStart_eq_self fun c hc => h c (List.head?_reverse ▸ hc)
  rw [trimEnd, ← trimStart, hreverse, List.reverse_reverse]

theorem trimEnd_append_eq_self {before : List Char} (hne : cs ≠ [])
    (h : ∀ c ∈ cs.getLast?, isWhite c = false) : trimEnd (before ++ cs) = before ++ cs := by
  have hlast := List.getLast?_eq_some_getLast hne
  have happend : (before ++ cs).getLast? = cs.getLast? := by
    rw [List.getLast?_append, hlast, Option.some_or]
  exact trimEnd_eq_self fun c hc => h c (happend ▸ hc)

theorem trimEnd_append {white : List Char} (h : ∀ c ∈ white, isWhite c = true) :
    trimEnd (cs ++ white) = trimEnd cs := by
  rw [trimEnd, trimEnd, List.reverse_append,
    List.dropWhile_append_of_pos fun c hc => h c (List.mem_reverse.1 hc)]

theorem exists_white_end (cs : List Char) :
    ∃ white, (∀ c ∈ white, isWhite c = true) ∧ cs = trimEnd cs ++ white := by
  refine ⟨(cs.reverse.takeWhile isWhite).reverse, fun c hc => ?_, ?_⟩
  · exact List.mem_takeWhile_imp (List.mem_reverse.1 hc)
  · rw [trimEnd, ← List.reverse_append, List.takeWhile_append_dropWhile, List.reverse_reverse]

theorem isWhite_getLast?_trimEnd {c : Char} (h : c ∈ (trimEnd cs).getLast?) :
    isWhite c = false := by
  rw [trimEnd, List.getLast?_reverse] at h
  have hnot := List.head?_dropWhile_not isWhite cs.reverse
  rw [h] at hnot
  simpa using hnot

theorem trim_of_white (h : ∀ c ∈ cs, isWhite c = true) : trim cs = [] := by
  rw [trim, trimStart, List.dropWhile_eq_nil_iff.2 h]
  rfl

end Text

end Endpoints
