import Endpoints.Proofs.Lexing

/-!
# Strings in double quotes

`Literal.Unescapes` says which value the text of a string stands for. Here this is shown to be all:
every such text is read, with the value it stands for. Hence a string can be written with whatever
escapes one likes, as long as the text stands for it; `quoted` is one way to do so.
-/

namespace Endpoints

namespace Literal

variable {quote c u : Char} {escape next : Escape} {lines : Nat}
  {cs known values later rest text value : List Char}

/-! ## Reading a text that stands for a value -/

private theorem stringBody_of_more (hstep : stringStep quote escape c = .more known next)
    (h : stringBody quote next (countLine lines c) cs = .ok (values, later, rest)) :
    stringBody quote escape lines (c :: cs) = .ok (known ++ values, c :: later, rest) := by
  simp only [stringBody, hstep, h, Except.map]

/-- A character that ends an escape is read as after a complete one. -/
private theorem stringBody_withValue
    (hstep : stringStep quote escape c = (plainStep quote c).withValue [u])
    (h : stringBody quote .none lines (c :: cs) = .ok (values, later, rest)) :
    stringBody quote escape lines (c :: cs) = .ok (u :: values, later, rest) := by
  rcases stringBody_cons h with
    ⟨hclosed, rfl, rfl⟩ | ⟨known, next, more, text, hmore, hrest, rfl, rfl⟩
  · have hplain : plainStep quote c = .closed values := hclosed
    simp only [stringBody, hstep, hplain, StringStep.withValue, List.singleton_append]
  · have hplain : plainStep quote c = .more known next := hmore
    rw [hplain] at hstep
    exact stringBody_of_more hstep hrest

/-- The state after `\u` and these digits, of which there are less than four. -/
def Escape.ofDigits (digits : List Char) : Escape :=
  if digits.isEmpty then .unicode else .hex digits

/-- A digit behind `\u` is kept, or completes the escape if it is the fourth. -/
private theorem stringStep_ofDigits {seen : List Char} (hseen : seen.length < 4)
    (hhex : isHex c = true) :
    stringStep quote (.ofDigits seen) c =
      if seen.length = 3 then .more [unicodeChar (seen ++ [c])] .none
      else .more [] (.ofDigits (seen ++ [c])) := by
  have hbrace : c ≠ '{' := by
    rintro rfl
    exact absurd hhex (by decide)
  cases seen with
  | nil => simp [Escape.ofDigits, stringStep, hbrace, hhex]
  | cons d seen => simp [Escape.ofDigits, stringStep, hhex]

private theorem stringStep_ofDigits_end {seen : List Char} (hhex : isHex c = false)
    (hbrace : seen = [] → c ≠ '{') :
    stringStep quote (.ofDigits seen) c = (plainStep quote c).withValue [unicodeChar seen] := by
  cases seen with
  | nil => simp [Escape.ofDigits, stringStep, hbrace, hhex]
  | cons d seen => simp [Escape.ofDigits, stringStep, hhex]

/-- An escape of at most four digits, as many as there are. -/
private theorem stringBody_digits {seen digits : List Char} (hdigits : ∀ d ∈ digits, isHex d = true)
    (hseen : seen.length < 4) (hlength : (seen ++ digits).length ≤ 4)
    (hend : (seen ++ digits).length < 4 → ∀ c, cs.head? = some c → isHex c = false)
    (hbrace : seen ++ digits = [] → cs.head? ≠ some '{')
    (h : ∀ lines, stringBody quote .none lines cs = .ok (values, later, rest)) (lines : Nat) :
    stringBody quote (.ofDigits seen) lines (digits ++ cs) =
      .ok (unicodeChar (seen ++ digits) :: values, digits ++ later, rest) := by
  induction digits generalizing seen lines with
  | nil =>
    rw [List.append_nil] at hend hbrace ⊢
    -- There is a next character, the closing quote at the latest.
    cases cs with
    | nil => cases h 0
    | cons c cs =>
      have hstep := @stringStep_ofDigits_end quote c seen (hend hseen c rfl)
        fun hnil hc => hbrace hnil (congrArg some hc)
      exact stringBody_withValue hstep (h lines)
  | cons d digits ih =>
    obtain ⟨hd, hdigits⟩ := List.forall_mem_cons.1 hdigits
    have hstep := @stringStep_ofDigits quote d seen hseen hd
    rw [List.length_append, List.length_cons] at hlength
    by_cases hthree : seen.length = 3
    · -- The fourth digit.
      obtain rfl : digits = [] := List.length_eq_zero_iff.1 (by omega)
      rw [if_pos hthree] at hstep
      exact stringBody_of_more hstep (h _)
    · rw [if_neg hthree] at hstep
      have hmore : seen ++ d :: digits = seen ++ [d] ++ digits := by simp
      rw [hmore] at hend hbrace ⊢
      refine stringBody_of_more hstep (ih hdigits ?_ ?_ hend hbrace _)
      · rw [List.length_append, List.length_singleton]
        omega
      · rw [List.length_append, List.length_append, List.length_singleton]
        omega

/-- An escape with its digits in braces. -/
private theorem stringBody_braced {seen digits : List Char} (hdigits : '}' ∉ digits)
    (h : ∀ lines, stringBody quote .none lines cs = .ok (values, later, rest)) (lines : Nat) :
    stringBody quote (.braced seen) lines (digits ++ '}' :: cs) =
      .ok (unicodeChar (seen ++ digits) :: values, digits ++ '}' :: later, rest) := by
  induction digits generalizing seen lines with
  | nil =>
    have hstep : stringStep quote (.braced seen) '}' = .more [unicodeChar seen] .none := rfl
    rw [List.append_nil]
    exact stringBody_of_more hstep (h _)
  | cons d digits ih =>
    rw [List.mem_cons, not_or] at hdigits
    -- A digit joins those seen before it; only the closing brace gives a character.
    have hstep : stringStep quote (.braced seen) d = .more [] (.braced (seen ++ [d])) := by
      simp [stringStep, Ne.symm hdigits.1]
    have hrest := @ih (seen ++ [d]) hdigits.2 (countLine lines d)
    rw [List.append_assoc, List.singleton_append] at hrest
    exact stringBody_of_more hstep hrest

/-- A text that stands for a value is read up to the quote behind it, with this value. -/
theorem stringBody_of_unescapes (hslash : quote ≠ '\\') (hbreak : quote ≠ '\n')
    (h : Unescapes quote text value) (lines : Nat) (after : List Char) :
    stringBody quote .none lines (text ++ quote :: after) =
      .ok (value, text ++ [quote], after) := by
  -- A backslash leads into an escape, whatever comes after it.
  have hescape : stringStep quote .none '\\' = .more [] .backslash := rfl
  have hunicode : stringStep quote .backslash 'u' = .more [] (.ofDigits []) := rfl
  induction h generalizing lines with
  | nil => simp [stringBody, stringStep, plainStep, hslash, hbreak]
  | @plain c text value hquote hback hline _ ih =>
    have hstep : stringStep quote .none c = .more [c] .none := by
      simp [stringStep, plainStep, hquote, hback, hline]
    exact stringBody_of_more hstep (ih _)
  | lineEnd _ ih =>
    have hstep : stringStep quote .backslash '\n' = .more [] .none := rfl
    exact stringBody_of_more hescape (stringBody_of_more hstep (ih _))
  | @escape c text value hu hline _ ih =>
    have hstep : stringStep quote .backslash c = .more [escaped c] .none := by
      rw [stringStep_backslash, if_neg hu, if_neg hline]
    exact stringBody_of_more hescape (stringBody_of_more hstep (ih _))
  | @braced digits text value hdigits _ ih =>
    have hopen : stringStep quote .unicode '{' = .more [] (.braced []) := rfl
    have hrest := @stringBody_braced quote _ _ _ _ [] digits hdigits ih
    simp only [List.cons_append, List.append_assoc]
    exact stringBody_of_more hescape (stringBody_of_more hunicode
      (stringBody_of_more hopen (hrest _)))
  | @hex digits text value hdigits hlength hend hbrace _ ih =>
    -- The character behind the digits is the first one of the text or the quote.
    have hhead : (text ++ quote :: after).head? = (text ++ [quote]).head? := by
      cases text <;> rfl
    rw [← hhead] at hbrace
    have hrest := @stringBody_digits quote _ _ _ _ [] digits hdigits (by decide) hlength
      (fun hlt c hc => hend hlt c (hhead ▸ hc)) hbrace ih
    simp only [List.cons_append, List.append_assoc]
    exact stringBody_of_more hescape (stringBody_of_more hunicode (hrest _))

end Literal

/-- A string in double quotes whose text lies on one line. -/
theorem Lexes.quoted {text value after : List Char} (h : Literal.Unescapes '"' text value)
    (hline : '\n' ∉ text) :
    Lexes ('"' :: (text ++ ['"'])) [.string (String.ofList value)] after := by
  refine token (fun previous => ?_) ?_
  · have hbody := Literal.stringBody_of_unescapes (by decide) (by decide) h 0 after
    rw [List.append_assoc, List.singleton_append]
    show (Literal.stringBody '"' .none 0 (text ++ '"' :: after)).map _ = _
    rw [hbody, Except.map]
  · simp only [List.mem_cons, List.mem_append, not_or]
    exact ⟨by decide, hline, by decide⟩

/-! ## Writing a string -/

/-- The characters that are written with a backslash, and what is written behind it. -/
def quoteMarks : List (Char × Char) :=
  [('\\', '\\'), ('"', '"'), ('\n', 'n'), ('\r', 'r'), ('\t', 't')]

/-- A character as it is written between double quotes. -/
def quoteChar (c : Char) : List Char :=
  match quoteMarks.find? (·.1 == c) with
  | some (_, mark) => ['\\', mark]
  | none => [c]

/-- A string in double quotes. -/
def quoted (text : String) : String :=
  "\"" ++ String.ofList (text.toList.flatMap quoteChar) ++ "\""

/-- The two ways in which a character is written. -/
private theorem quoteChar_cases (c : Char) :
    (∃ mark, quoteChar c = ['\\', mark] ∧ mark ≠ 'u' ∧ mark ≠ '\n' ∧ Literal.escaped mark = c) ∨
      (quoteChar c = [c] ∧ c ≠ '"' ∧ c ≠ '\\' ∧ c ≠ '\n') := by
  -- A fact about the finitely many marks of the table.
  have hmarks : ∀ entry ∈ quoteMarks,
      entry.2 ≠ 'u' ∧ entry.2 ≠ '\n' ∧ Literal.escaped entry.2 = entry.1 := by decide
  unfold quoteChar
  cases h : quoteMarks.find? (·.1 == c) with
  | some entry =>
    obtain ⟨hu, hline, hescaped⟩ := hmarks entry (List.mem_of_find?_eq_some h)
    have hc : entry.1 = c := by simpa using List.find?_some h
    exact .inl ⟨entry.2, rfl, hu, hline, hescaped.trans hc⟩
  | none =>
    -- A character without a mark is none of those that would end or break the string.
    have hne : ∀ entry ∈ quoteMarks, c ≠ entry.1 := fun entry hentry heq =>
      List.find?_eq_none.1 h entry hentry (beq_iff_eq.2 heq.symm)
    exact .inr ⟨rfl, hne ('"', '"') (by decide), hne ('\\', '\\') (by decide),
      hne ('\n', 'n') (by decide)⟩

/-- What `quoteChar` writes stands for the characters themselves. -/
theorem unescapes_quoteChar (cs : List Char) :
    Literal.Unescapes '"' (cs.flatMap quoteChar) cs := by
  induction cs with
  | nil => exact .nil
  | cons c cs ih =>
    rw [List.flatMap_cons]
    obtain ⟨mark, hquote, hu, hline, hescaped⟩ | ⟨hquote, hmark, hslash, hline⟩ := quoteChar_cases c
    · rw [hquote, ← hescaped]
      exact .escape hu hline ih
    · rw [hquote]
      exact .plain hmark hslash hline ih

/-- `quoteChar` writes no line break. -/
private theorem newline_not_mem_quoteChar (cs : List Char) : '\n' ∉ cs.flatMap quoteChar := by
  intro hmem
  obtain ⟨c, -, hc⟩ := List.mem_flatMap.1 hmem
  obtain ⟨mark, hquote, -, hline, -⟩ | ⟨hquote, -, -, hline⟩ := quoteChar_cases c
  · rw [hquote, List.mem_cons, List.mem_singleton] at hc
    exact hc.elim (by decide) fun heq => hline heq.symm
  · rw [hquote, List.mem_singleton] at hc
    exact hline hc.symm

theorem lexes_quoted (text : String) (after : List Char) :
    Lexes (quoted text).toList [.string text] after := by
  have hlexes := @Lexes.quoted _ _ after (unescapes_quoteChar text.toList)
    (newline_not_mem_quoteChar text.toList)
  rw [String.ofList_toList] at hlexes
  simpa [quoted] using hlexes

end Endpoints
