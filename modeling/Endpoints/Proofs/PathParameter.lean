import Endpoints.Endpoint.Path
import Endpoints.Proofs.Lexing

/-!
# Parameters in a path

A path has a parameter if it holds its name in braces, or after a colon where the name ends. Where a
name ends is a matter of two alphabets: a word of a source text goes on with letters and numbers of
all scripts, but a name in a path only with those of ASCII. So a name counts as ended before
a letter such as `é`, with which the word would go on, and a path can have a parameter by a longer
name that is not its own.
-/

namespace Endpoints

open Lexeme

theorem Text.occursIn_iff_infix (part text : List Char) :
    occursIn part text = true ↔ part <:+: text := by
  induction text with
  | nil => simp [occursIn, List.isEmpty_iff]
  | cons c cs ih =>
    rw [occursIn, Bool.or_eq_true, List.isPrefixOf_iff_prefix, ih]
    exact List.infix_cons_iff.symm

namespace Route

/-! ## Occurrences -/

/-- A text whose first character is not in it again does not overlap itself. -/
private theorem length_le_of_overlap {mark : Char} {name before rest rest' : List Char}
    (hmark : mark ∉ name) (h : mark :: name ++ rest = before ++ mark :: name ++ rest')
    (hbefore : before ≠ []) : (mark :: name).length ≤ before.length := by
  by_contra hshort
  rw [List.append_assoc] at h
  -- The later occurrence would start inside the name, which does not hold the mark.
  have hlt : before.length < (mark :: name).length := by omega
  have hpos : 0 < before.length := List.length_pos_iff.2 hbefore
  have hlater : (before ++ (mark :: name ++ rest'))[before.length]? = some mark := by
    simp
  rw [← h, List.getElem?_append_left hlt] at hlater
  obtain ⟨k, hk⟩ : ∃ k, before.length = k + 1 := Nat.exists_eq_succ_of_ne_zero hpos.ne'
  rw [hk, List.getElem?_cons_succ] at hlater
  exact hmark (List.mem_of_getElem? hlater)

/-- An occurrence past the first character is one in the tail. -/
private theorem exists_occurrence_cons {c : Char} {word cs rest : List Char} {n : Nat} :
    (∃ before, c :: cs = before ++ word ++ rest ∧ n + 1 ≤ before.length) ↔
      ∃ before, cs = before ++ word ++ rest ∧ n ≤ before.length := by
  constructor
  · rintro ⟨before, htext, hlength⟩
    cases before with
    | nil => simp at hlength
    | cons d ds =>
      obtain ⟨_, hrest⟩ := List.cons.inj htext
      exact ⟨ds, hrest, Nat.le_of_succ_le_succ hlength⟩
  · rintro ⟨before, htext, hlength⟩
    exact ⟨c :: before, by simp [htext], Nat.succ_le_succ hlength⟩

/-- What is found behind the occurrences, from some place on. -/
private theorem mem_afterOccurrences_skip {mark : Char} {name : List Char} (hmark : mark ∉ name)
    (skip : Nat) (text rest : List Char) :
    rest ∈ afterOccurrences (mark :: name) skip text ↔
      ∃ before, text = before ++ mark :: name ++ rest ∧ skip ≤ before.length := by
  -- The induction is on the text; `skip` says how much of it belongs to an earlier occurrence.
  induction text generalizing skip with
  | nil => simp [afterOccurrences]
  | cons c cs ih =>
    cases skip with
    | succ skip =>
      rw [afterOccurrences, ih, exists_occurrence_cons]
    | zero =>
      rw [afterOccurrences]
      cases hstart : Text.dropStart? (mark :: name) (c :: cs) with
      -- No occurrence starts here.
      | none =>
        have hnot : ∀ rest', c :: cs ≠ mark :: name ++ rest' := by
          intro rest' heq
          rw [Text.dropStart?_eq_some.2 heq] at hstart
          cases hstart
        dsimp only
        rw [ih, ← exists_occurrence_cons (c := c)]
        constructor
        · rintro ⟨before, htext, _⟩
          exact ⟨before, htext, Nat.zero_le _⟩
        · rintro ⟨before, htext, _⟩
          refine ⟨before, htext, ?_⟩
          cases before with
          | nil => exact absurd htext (hnot rest)
          | cons d ds => simp
      -- An occurrence starts here. The next one is looked for behind it, and none can start inside.
      | some found =>
        have hfound := Text.dropStart?_eq_some.1 hstart
        dsimp only
        rw [List.mem_cons, ih, List.length_cons, Nat.add_sub_cancel,
          ← exists_occurrence_cons (c := c)]
        constructor
        · rintro (rfl | ⟨before, htext, _⟩)
          · exact ⟨[], hfound, Nat.zero_le _⟩
          · exact ⟨before, htext, Nat.zero_le _⟩
        · rintro ⟨before, htext, _⟩
          by_cases hnil : before = []
          · subst hnil
            rw [hfound] at htext
            exact .inl (List.append_cancel_left htext).symm
          · rw [hfound] at htext
            have hlength := length_le_of_overlap hmark htext hnil
            rw [← hfound] at htext
            exact .inr ⟨before, htext, hlength⟩

theorem mem_afterOccurrences {mark : Char} {name : List Char} (hmark : mark ∉ name)
    (text rest : List Char) : rest ∈ afterOccurrences (mark :: name) 0 text ↔
      ∃ before, text = before ++ mark :: name ++ rest := by
  simp [mem_afterOccurrences_skip hmark]

/-! ## Where a name ends -/

/-- The letters and numbers beyond ASCII. -/
def isForeign (c : Char) : Bool :=
  !(c.toNat < 0x80) && Text.isLetterOrNumber c

private theorem toNat_lt_of_continuesName {c : Char} (h : continuesName c = true) :
    c.toNat < 0x80 := by
  by_contra hge
  have hne (d : Char) (hd : d.toNat < 0x80) : c ≠ d := fun heq => hge (heq ▸ hd)
  have halpha : c.isAlphanum = true := by
    simpa [continuesName, hne '_' (by decide), hne '$' (by decide)] using h
  exact hge (Char.toNat_lt_of_isAlphanum halpha)

/-- A word goes on with what a name in a path goes on with, and with letters and numbers beyond
ASCII. -/
theorem isWordPart_iff (c : Char) :
    isWordPart c = true ↔ continuesName c = true ∨ isForeign c = true := by
  by_cases hascii : c.toNat < 0x80
  · -- Within ASCII the two alphabets are the same.
    have hsame : isWordPart c = continuesName c := by
      simp only [isWordPart, Text.isLetterOrNumber, Text.isLetter, Text.isNumber, hascii,
        if_true, continuesName, Char.isAlphanum]
      cases c.isAlpha <;> cases c.isDigit <;> cases c == '_' <;> cases c == '$' <;> rfl
    simp [hsame, isForeign, hascii]
  · have hends : continuesName c = false :=
      Bool.eq_false_iff.2 fun h => hascii (toNat_lt_of_continuesName h)
    have hne (d : Char) (hd : d.toNat < 0x80) : c ≠ d := fun heq => hascii (heq ▸ hd)
    simp [isWordPart, isForeign, hascii, hends, hne '_' (by decide), hne '$' (by decide)]

/-! ## Parameters -/

/-- The path holds the name in braces. -/
def InBraces (path name : String) : Prop :=
  ('{' :: name.toList ++ ['}']) <:+: path.toList

/-- The path holds a colon and the name, followed by `rest`. -/
def AfterColon (path name : String) (rest : List Char) : Prop :=
  ∃ before, path.toList = before ++ ':' :: name.toList ++ rest

/-- The path holds the name in braces, or after a colon where the name ends: it does not go on with
a character of the alphabet. -/
def Mentions (continues : Char → Bool) (path name : String) : Prop :=
  InBraces path name ∨
    ∃ rest, AfterColon path name rest ∧ ∀ c ∈ rest.head?, continues c = false

/-- A smaller alphabet ends names earlier. -/
theorem Mentions.mono {continues continues' : Char → Bool} {path name : String}
    (h : ∀ c, continues' c = true → continues c = true) (hmentions : Mentions continues path name) :
    Mentions continues' path name := by
  rcases hmentions with hbraces | ⟨rest, hcolon, hend⟩
  · exact .inl hbraces
  · refine .inr ⟨rest, hcolon, fun c hc => Bool.eq_false_iff.2 fun hcontinues => ?_⟩
    have hlarger := h c hcontinues
    rw [hend c hc] at hlarger
    cases hlarger

/-- A word holds no colon. -/
private theorem colon_not_mem_of_isName {name : String} (h : isName name = true) :
    ':' ∉ name.toList := by
  obtain ⟨c, cs, heq, hc, hcs⟩ := exists_cons_of_isName h
  have hcolon : isWordStart ':' = false ∧ isWordPart ':' = false := by decide
  rw [heq, List.mem_cons, not_or]
  constructor
  · rintro rfl
    rw [hcolon.1] at hc
    cases hc
  · intro hmem
    have hpart := hcs ':' hmem
    rw [hcolon.2] at hpart
    cases hpart

theorem hasParameter_iff (path : String) {name : String} (hname : isName name = true) :
    hasParameter path name = true ↔ Mentions continuesName path name := by
  have hends (rest : List Char) : (!(rest.head?.any continuesName)) = true ↔
      ∀ c ∈ rest.head?, continuesName c = false := by
    cases rest <;> simp
  rw [hasParameter, Bool.or_eq_true, Text.occursIn_iff_infix, List.any_eq_true]
  simp only [mem_afterOccurrences (colon_not_mem_of_isName hname), hends]
  rfl

end Route

/-- For every path and every word, the path has the word as a parameter exactly if it holds it in
braces, or after a colon where no ASCII letter or digit, underscore or dollar sign follows. Wherever
the word ends in the sense of source texts, it counts. But it also counts before a letter or
number beyond ASCII, with which the word would go on: the two senses agree unless every place where
the path has the word after a colon goes on with a character of a word, one of them beyond ASCII,
and the word is not in braces. -/
theorem path_names_end_at_ascii (path name : String) (hname : isName name = true) :
    (Route.hasParameter path name = true ↔ Route.Mentions Route.continuesName path name) ∧
    (Route.Mentions isWordPart path name → Route.hasParameter path name = true) ∧
    ((Route.hasParameter path name = true ↔ Route.Mentions isWordPart path name) ↔
      ¬ (¬ Route.InBraces path name ∧
        (∃ c rest, Route.AfterColon path name (c :: rest) ∧ Route.isForeign c = true) ∧
        ∀ rest, Route.AfterColon path name rest →
          ∃ c ∈ rest.head?, isWordPart c = true)) := by
  have hcode := Route.hasParameter_iff path hname
  have hweaker : Route.Mentions isWordPart path name →
      Route.Mentions Route.continuesName path name :=
    Route.Mentions.mono fun c hc => (Route.isWordPart_iff c).2 (.inl hc)
  refine ⟨hcode, fun h => hcode.2 (hweaker h), ?_⟩
  rw [hcode]
  constructor
  · rintro hagree ⟨hbraces, ⟨c, rest, hcolon, hforeign⟩, hall⟩
    -- Before a foreign letter the name ends in the path, but no word ends there or anywhere else.
    have hends : Route.continuesName c = false := by
      refine Bool.eq_false_iff.2 fun hcontinues => ?_
      have hascii := Route.toNat_lt_of_continuesName hcontinues
      simp [Route.isForeign, hascii] at hforeign
    have hmentions : Route.Mentions Route.continuesName path name := by
      refine .inr ⟨c :: rest, hcolon, fun d hd => ?_⟩
      rw [← Option.some.inj hd]
      exact hends
    rcases hagree.1 hmentions with hin | ⟨rest', hcolon', hend'⟩
    · exact hbraces hin
    · obtain ⟨d, hd, hpart⟩ := hall rest' hcolon'
      rw [hend' d hd] at hpart
      cases hpart
  · intro hnot
    refine ⟨fun hmentions => ?_, hweaker⟩
    by_contra hno
    have hbraces : ¬ Route.InBraces path name := fun hin => hno (.inl hin)
    have hall : ∀ rest, Route.AfterColon path name rest →
        ∃ c ∈ rest.head?, isWordPart c = true := by
      intro rest hcolon
      by_contra hnone
      refine hno (.inr ⟨rest, hcolon, fun c hc => Bool.eq_false_iff.2 fun hpart => ?_⟩)
      exact hnone ⟨c, hc, hpart⟩
    refine hnot ⟨hbraces, ?_, hall⟩
    -- The place that counts in the path goes on as a word, so with a foreign character.
    rcases hmentions with hin | ⟨rest, hcolon, hend⟩
    · exact absurd hin hbraces
    · obtain ⟨c, hc, hpart⟩ := hall rest hcolon
      cases rest with
      | nil => cases hc
      | cons d rest =>
        obtain rfl : d = c := Option.some.inj hc
        refine ⟨d, rest, hcolon, ?_⟩
        rcases (Route.isWordPart_iff d).1 hpart with hcontinues | hforeign
        · rw [hend d hc] at hcontinues
          cases hcontinues
        · exact hforeign

/-- A path whose only parameter is a longer word has the shorter one, too. -/
theorem longer_word_as_parameter :
    Route.hasParameter "users/:idé" "id" = true ∧
      ¬ Route.Mentions isWordPart "users/:idé" "id" := by
  have hname : isName "id" = true := by decide
  have hhas : Route.hasParameter "users/:idé" "id" = true := by decide +kernel
  have hbraces : ¬ Route.InBraces "users/:idé" "id" := by
    rw [Route.InBraces, ← Text.occursIn_iff_infix]
    decide +kernel
  have hfound : Route.afterOccurrences ":id".toList 0 "users/:idé".toList = [['é']] := by
    decide +kernel
  -- The name stands behind a colon at one place, and there a letter follows.
  have hcolon (rest : List Char) : Route.AfterColon "users/:idé" "id" rest ↔ rest = ['é'] := by
    have hmem := Route.mem_afterOccurrences (Route.colon_not_mem_of_isName hname)
      "users/:idé".toList rest
    rw [Route.AfterColon, ← hmem, ← List.mem_singleton, ← hfound]
    rfl
  have hletter : Route.isForeign 'é' = true ∧ isWordPart 'é' = true := by decide +kernel
  refine ⟨hhas, fun hmentions => ?_⟩
  -- If the two notions agreed, that letter would be part of no word.
  have hagree := (path_names_end_at_ascii "users/:idé" "id" hname).2.2.1 ⟨fun _ => hmentions,
    fun _ => hhas⟩
  refine hagree ⟨hbraces, ⟨'é', [], (hcolon _).2 rfl, hletter.1⟩, fun rest hrest => ?_⟩
  rw [(hcolon rest).1 hrest]
  exact ⟨'é', rfl, hletter.2⟩

end Endpoints
