import Endpoints.Proofs.RegexFree

/-!
# Division

Whether a slash divides or starts a regular expression is decided by the token before it, and not by
the expression that it stands in. `Operand` is the syntax of operands and `Operand.ending` says what
scanning meets at the end of one. A slash divides after an operand that ends in a word, a string,
a number or a bracket. After one that ends in an increment, a decrement, an assertion that it is not
null, or a member with the name of an operator it is taken for the start of a regular expression.

A number takes in the member after it, as far as its name has the characters of a number. What is
left of the name is a word of its own, if it can start one.
-/

namespace Endpoints

open TokenStream Literal

/-! ## Operands -/

/-- The texts of numbers: a digit, or a point and a digit, and other characters of numbers. In a
decimal number a sign may stand after the letter of the exponent. -/
inductive Literal.IsNumber : (text : List Char) → Prop
  | plain {text : List Char} : Lexeme.startsNumber text = true →
      (∀ c ∈ text, isNumberPart c = true) → IsNumber text
  | signed {text digits : List Char} {e sign : Char} : Lexeme.startsNumber text = true →
      (∀ c ∈ text, isNumberPart c = true) → isHexNumber text = false → e ∈ ['e', 'E'] →
      sign ∈ ['+', '-'] → (∀ c ∈ digits, isNumberPart c = true) →
      IsNumber (text ++ e :: sign :: digits)

/-- White space between the parts of an operand. -/
abbrev Blanks := { blanks : List Char // ∀ c ∈ blanks, Text.isWhite c = true }

/-- An operand of a division. -/
inductive Operand where
  | name (name : String) (isName : isName name = true) (notOperator : name ∉ Lexeme.regexWords)
  | number (text : List Char) (isNumber : Literal.IsNumber text)
  | string (quote : Char) (text value : List Char) (isQuote : quote = '"' ∨ quote = '\x27')
      (unescapes : Literal.Unescapes quote text value)
  | padded (before : Blanks) (x : Operand) (after : Blanks)
  | parens (x : Operand)
  | member (x : Operand) (before : Blanks) (name : String) (isName : isName name = true)
  | call (x : Operand) (args : List Operand) (after : Blanks)
  | index (x i : Operand)
  | step (x : Operand) (sign : Char) (isSign : sign = '+' ∨ sign = '-')
  /-- The assertion that the operand is not null. -/
  | nonNull (x : Operand)

/-- What scanning meets at the end of an operand. -/
inductive Ending where
  /-- A number, which what follows may still belong to. -/
  | number
  /-- A token after which a slash divides. -/
  | operand
  /-- A token after which a slash starts a regular expression. -/
  | operator
  /-- A character that no token starts with, somewhere in the operand. -/
  | broken
deriving DecidableEq, Repr

namespace Ending

/-- White space ends a number. -/
def pad (x : Ending) (after : List Char) : Ending :=
  if x = number ∧ after ≠ [] then operand else x

/-- A member of this name. -/
def word (name : String) : Ending :=
  if name ∈ Lexeme.regexWords then operator else operand

/-- What a number does not take of a name has to start a word. -/
def split (name : String) : Ending :=
  match name.toList.dropWhile Literal.isNumberPart with
  | [] => number
  | c :: _ => if Lexeme.isWordStart c then operand else broken

/-- A member after an operand that ends so. -/
def member (before : List Char) (name : String) : Ending → Ending
  | broken => broken
  | number => if before = [] then split name else word name
  | operand | operator => word name

/-- After the operand stands something that ends so and does not belong to a number. -/
def followed (x next : Ending) : Ending :=
  if x = broken then broken else next

end Ending

namespace Operand

mutual

/-- The text of an operand. -/
def text : Operand → List Char
  | name text _ _ => text.toList
  | number text _ => text
  | string quote text _ _ _ => quote :: (text ++ [quote])
  | padded before x after => before.1 ++ (x.text ++ after.1)
  | parens x => '(' :: (x.text ++ [')'])
  | member x before text _ => x.text ++ '.' :: (before.1 ++ text.toList)
  | call x args after => x.text ++ '(' :: textOfAll after args
  | index x i => x.text ++ '[' :: (i.text ++ [']'])
  | step x sign _ => x.text ++ [sign, sign]
  | nonNull x => x.text ++ ['!']

def textOfAll (after : Blanks) : List Operand → List Char
  | [] => after.1 ++ [')']
  | x :: args => x.text ++ ((if args.isEmpty then [] else [',']) ++ textOfAll after args)

end

mutual

/-- How an operand ends. -/
def ending : Operand → Ending
  | name _ _ _ => .operand
  | number _ _ => .number
  | string _ _ _ _ _ => .operand
  | padded _ x after => x.ending.pad after.1
  | parens x => x.ending.followed .operand
  | member x before text _ => x.ending.member before.1 text
  | call x args _ => x.ending.followed (endingOfAll args)
  | index x i => x.ending.followed (i.ending.followed .operand)
  | step x _ _ => x.ending.followed .operator
  | nonNull x => x.ending.followed .operator

def endingOfAll : List Operand → Ending
  | [] => .operand
  | x :: args => x.ending.followed (endingOfAll args)

end

end Operand

/-! ## After an operand -/

/-- How scanning goes on after a text that ends so. -/
def Ending.Leaves (text : List Char) : Ending → Prop
  | number => ∃ hex last, ∀ allowed rest, Lexeme.Stops rest →
      (Tame allowed (text ++ rest) ↔ Tame false (Literal.numberBody hex last rest).2)
  | operand => ∀ allowed rest, Lexeme.Stops rest → (Tame allowed (text ++ rest) ↔ Tame false rest)
  | operator => ∀ allowed rest, Lexeme.Stops rest → (Tame allowed (text ++ rest) ↔ Tame true rest)
  | broken => ∀ allowed rest, Lexeme.Stops rest → ¬ Tame allowed (text ++ rest)

namespace Ending

open Lexeme

variable {x : Ending} {text rest : List Char} {allowed : Bool}

/-- Whatever the operand ends in, scanning goes on with what stands behind it. -/
private theorem Leaves.next (h : x.Leaves text) (hx : x ≠ broken) (hrest : Breaks rest) :
    Tame allowed (text ++ rest) ↔ Tame (x == operator) rest := by
  cases x with
  | number =>
    obtain ⟨hex, last, h⟩ := h
    rw [h allowed rest hrest.stops, Literal.numberBody_breaks hrest]
    rfl
  | operand => exact h allowed rest hrest.stops
  | operator => exact h allowed rest hrest.stops
  | broken => exact absurd rfl hx

/-- Texts after which scanning comes to the same. -/
theorem Leaves.of_iff {text' : List Char} (h : x.Leaves text)
    (hiff : ∀ allowed, ∃ allowed', ∀ rest, Stops rest →
      (Tame allowed (text' ++ rest) ↔ Tame allowed' (text ++ rest))) : x.Leaves text' := by
  -- For each ending the claim about `text'` is the one about `text` with another flag.
  cases x with
  | number =>
    obtain ⟨hex, last, h⟩ := h
    refine ⟨hex, last, fun allowed rest hrest => ?_⟩
    obtain ⟨allowed', hiff⟩ := hiff allowed
    rw [hiff rest hrest, h allowed' rest hrest]
  | operand =>
    intro allowed rest hrest
    obtain ⟨allowed', hiff⟩ := hiff allowed
    rw [hiff rest hrest, h allowed' rest hrest]
  | operator =>
    intro allowed rest hrest
    obtain ⟨allowed', hiff⟩ := hiff allowed
    rw [hiff rest hrest, h allowed' rest hrest]
  | broken =>
    intro allowed rest hrest
    obtain ⟨allowed', hiff⟩ := hiff allowed
    rw [hiff rest hrest]
    exact h allowed' rest hrest

/-- Behind an operand stands something that does not belong to it. -/
theorem Leaves.append {tail : List Char} {next : Ending} (h : x.Leaves text)
    (htail : next.Leaves tail) (hbreaks : ∀ rest, Stops rest → Breaks (tail ++ rest)) :
    (x.followed next).Leaves (text ++ tail) := by
  unfold Ending.followed
  split
  -- If the operand is broken, so is all that it stands in.
  · next hx =>
    subst hx
    intro allowed rest hrest
    rw [List.append_assoc]
    exact h allowed _ (hbreaks rest hrest).stops
  · next hx =>
    refine htail.of_iff fun allowed => ⟨x == operator, fun rest hrest => ?_⟩
    rw [List.append_assoc]
    exact h.next hx (hbreaks rest hrest)

theorem Leaves.mark {c : Char} (h : x.Leaves text) (hc : c ∈ marks) : x.Leaves (c :: text) :=
  h.of_iff fun _ => ⟨c != ')' && c != ']', fun _ _ => tame_single hc⟩

private theorem Leaves.blanks {before : List Char} (h : x.Leaves text)
    (hbefore : ∀ c ∈ before, Text.isWhite c = true) : x.Leaves (before ++ text) := by
  refine h.of_iff fun allowed => ⟨allowed, fun rest hrest => ?_⟩
  rw [List.append_assoc]
  exact tame_blanks hbefore

/-- White space behind an operand. -/
private theorem Leaves.pad {after : List Char} (h : x.Leaves text)
    (hafter : ∀ c ∈ after, Text.isWhite c = true) : (x.pad after).Leaves (text ++ after) := by
  cases after with
  | nil =>
    rw [List.append_nil]
    simpa [Ending.pad] using h
  | cons c after =>
    have hbreaks : ∀ rest, Breaks (c :: after ++ rest) :=
      fun _ => breaks_white (hafter c List.mem_cons_self)
    -- Blanks behind a text that can be followed change nothing of what comes next.
    have hpad : ∀ {allowed rest}, x ≠ broken →
        (Tame allowed (text ++ (c :: after) ++ rest) ↔ Tame (x == operator) rest) := by
      intro allowed rest hx
      rw [List.append_assoc, h.next hx (hbreaks rest), tame_blanks hafter]
    cases x with
    | number => exact fun allowed rest _ => hpad (by decide)
    | operand => exact fun allowed rest _ => hpad (by decide)
    | operator => exact fun allowed rest _ => hpad (by decide)
    | broken =>
      intro allowed rest hrest
      rw [List.append_assoc]
      exact h allowed _ (hbreaks rest).stops

private theorem leaves_close {c : Char} (h : c = ')' ∨ c = ']') : operand.Leaves [c] := by
  intro allowed rest _
  rcases h with rfl | rfl <;> exact tame_single (by simp [marks])

private theorem breaks_mark {c : Char} (h : c ∈ [')', ']', ',', '(', '[', '!']) (rest : List Char) :
    Breaks (c :: rest) := by
  refine List.forall_head?_cons ?_
  simp only [List.mem_cons, List.not_mem_nil, or_false] at h
  rcases h with rfl | rfl | rfl | rfl | rfl | rfl <;> decide

private theorem Leaves.brackets {c d : Char} (h : x.Leaves text) (hc : c ∈ marks)
    (hd : d = ')' ∨ d = ']') : (x.followed operand).Leaves (c :: (text ++ [d])) := by
  have hbreaks : ∀ rest, Breaks ([d] ++ rest) := by
    intro rest
    rcases hd with rfl | rfl <;> exact breaks_mark (by simp) rest
  exact (h.append (leaves_close hd) fun rest _ => hbreaks rest).mark hc

/-- An increment or a decrement. A number that ends in the letter of an exponent takes the first
sign. -/
theorem Leaves.step {sign : Char} (h : x.Leaves text) (hsign : sign = '+' ∨ sign = '-') :
    (x.followed operator).Leaves (text ++ [sign, sign]) := by
  have hone : ∀ {allowed rest}, Tame allowed (sign :: rest) ↔ Tame true rest := by
    intro allowed rest
    rcases hsign with rfl | rfl <;> exact tame_single (by simp [marks])
  have hstops : ∀ rest, Stops ([sign, sign] ++ rest) := by
    intro rest
    rcases hsign with rfl | rfl <;> exact List.forall_head?_cons (by decide)
  -- Only a number may take the first sign; both signs are operators otherwise.
  cases x with
  | number =>
    obtain ⟨hex, last, h⟩ := h
    intro allowed rest hrest
    rw [List.append_assoc, h allowed _ (hstops rest)]
    rcases @Literal.numberBody_signs hex last rest sign hsign with hbody | hbody
    · exact hbody ▸ hone
    · exact hbody ▸ hone.trans hone
  | operand =>
    intro allowed rest hrest
    rw [List.append_assoc, h allowed _ (hstops rest)]
    exact hone.trans hone
  | operator =>
    intro allowed rest hrest
    rw [List.append_assoc, h allowed _ (hstops rest)]
    exact hone.trans hone
  | broken =>
    intro allowed rest hrest
    rw [List.append_assoc]
    exact h allowed _ (hstops rest)

/-- A name is a word, after which a slash divides unless the word is an operator. -/
private theorem leaves_name {name : String} (h : isName name = true) :
    (word name).Leaves name.toList := by
  unfold word
  split
  · next hmem =>
    intro allowed rest hrest
    rw [tame_name h hrest, List.contains_iff_mem.2 hmem]
  · next hmem =>
    intro allowed rest hrest
    have hfree : Lexeme.regexWords.contains name = false :=
      Bool.eq_false_iff.2 fun hcontains => hmem (List.contains_iff_mem.1 hcontains)
    rw [tame_name h hrest, hfree]

private theorem leaves_string {quote : Char} {text value : List Char}
    (hquote : quote = '"' ∨ quote = '\x27') (h : Unescapes quote text value) :
    operand.Leaves (quote :: (text ++ [quote])) := by
  intro allowed rest _
  rw [List.cons_append, List.append_assoc]
  exact tame_string hquote h

/-- What follows a number may belong to it, and a slash divides behind that. -/
private theorem leaves_number (h : Literal.IsNumber text) : number.Leaves text := by
  cases h with
  | plain hnumber hparts =>
    cases text with
    | nil => cases hnumber
    | cons c cs =>
      refine ⟨isHexNumber (c :: cs), cs.getLastD c, fun allowed rest hrest => ?_⟩
      -- What follows does not turn the number into a hexadecimal one.
      have hbase : ∀ d ∈ rest.head?, d ≠ 'x' ∧ d ≠ 'X' := by
        intro d hd
        constructor <;> rintro rfl <;> exact absurd (hrest _ hd).1 (by decide)
      rw [List.cons_append, tame_number (Lexeme.startsNumber_append hnumber),
        isHexNumber_append hbase,
        numberBody_parts (List.forall_mem_cons.1 hparts).2]
  | @signed text digits e sign hnumber hparts hdecimal he hsign hdigits =>
    cases text with
    | nil => cases hnumber
    | cons c cs =>
      have hletter : isNumberPart e = true ∧ e ≠ 'x' ∧ e ≠ 'X' := by
        simp only [List.mem_cons, List.not_mem_nil, or_false] at he
        rcases he with rfl | rfl <;> decide
      -- After the letter of the exponent the sign belongs to the number.
      have hexponent : ∀ {rest}, (numberBody false e (sign :: rest)).2 =
          (numberBody false sign rest).2 := by
        intro rest
        simp only [List.mem_cons, List.not_mem_nil, or_false] at he hsign
        simp [numberBody, he, hsign]
      refine ⟨false, digits.getLastD sign, fun allowed rest hrest => ?_⟩
      simp only [List.cons_append, List.append_assoc]
      rw [tame_number (Lexeme.startsNumber_append hnumber),
        isHexNumber_append (List.forall_head?_cons hletter.2), hdecimal,
        numberBody_parts (List.forall_mem_cons.1 hparts).2,
        ← List.singleton_append, numberBody_parts (List.forall_mem_singleton.2 hletter.1)]
      show Tame false (numberBody false e (sign :: (digits ++ rest))).2 ↔ _
      rw [hexponent, numberBody_parts hdigits]

/-- What a number leaves of a name is scanned by itself. -/
private theorem leaves_split {hex : Bool} {last : Char} {name : String} (h : isName name = true)
    (hnumber : ∀ allowed rest, Stops rest → (Tame allowed (text ++ '.' :: (name.toList ++ rest)) ↔
      Tame false (numberBody hex last (name.toList ++ rest)).2)) :
    (split name).Leaves (text ++ '.' :: name.toList) := by
  obtain ⟨c, cs, heq, hc, hcs⟩ := exists_cons_of_isName h
  have hparts : ∀ d ∈ name.toList, Lexeme.isWordPart d = true := by
    rw [heq]
    exact List.forall_mem_cons.2 ⟨Lexeme.isWordPart_of_isWordStart hc, hcs⟩
  -- The number takes the name up to the first character that no number has.
  have htaken : ∀ d ∈ name.toList.takeWhile isNumberPart, isNumberPart d = true :=
    fun d hd => List.mem_takeWhile_imp hd
  have hleft : ∀ allowed rest, Stops rest → (Tame allowed (text ++ '.' :: name.toList ++ rest) ↔
      Tame false (numberBody hex
        ((name.toList.takeWhile isNumberPart).getLastD last)
          (name.toList.dropWhile isNumberPart ++ rest)).2) := by
    intro allowed rest hrest
    rw [List.append_assoc, List.cons_append, hnumber allowed rest hrest,
      ← numberBody_parts htaken, ← List.append_assoc, List.takeWhile_append_dropWhile]
  unfold split
  split
  · next hall =>
    rw [hall] at hleft
    exact ⟨_, _, hleft⟩
  · next d ds hdrop =>
    -- The number ends before `d`.
    have hd : isNumberPart d = false := by
      have hne : name.toList.dropWhile isNumberPart ≠ [] := hdrop ▸ List.cons_ne_nil d ds
      simpa [hdrop] using List.head_dropWhile_not isNumberPart hne
    have hmem : ∀ e ∈ d :: ds, Lexeme.isWordPart e = true :=
      fun e he => hparts e ((List.dropWhile_sublist _).mem (hdrop ▸ he))
    obtain ⟨hword, hmore⟩ := List.forall_mem_cons.1 hmem
    have hsign : d ≠ '+' ∧ d ≠ '-' := by
      constructor <;> rintro rfl <;> exact absurd hword (by decide)
    have hstop : ∀ allowed rest, Stops rest → (Tame allowed (text ++ '.' :: name.toList ++ rest) ↔
        Tame false (d :: ds ++ rest)) := by
      intro allowed rest hrest
      rw [hleft allowed rest hrest, hdrop, List.cons_append, numberBody_stop hd hsign]
    split
    · next hstart =>
      intro allowed rest hrest
      have hname : isName (String.ofList (d :: ds)) = true := by
        rw [isName, String.toList_ofList]
        simpa [hstart] using hmore
      rw [hstop allowed rest hrest]
      have htame := @tame_name false rest _ hname hrest
      rwa [String.toList_ofList, Lexeme.contains_regexWords hd] at htame
    · next hstart =>
      intro allowed rest hrest
      rw [hstop allowed rest hrest]
      exact not_tame_unexpected hword (Bool.eq_false_iff.2 hstart) hd

/-- A member. -/
private theorem Leaves.member {before : List Char} {name : String} (h : x.Leaves text)
    (hbefore : ∀ c ∈ before, Text.isWhite c = true) (hname : isName name = true) :
    (x.member before name).Leaves (text ++ '.' :: (before ++ name.toList)) := by
  have hstops : ∀ rest : List Char, Stops ('.' :: rest) :=
    fun _ => List.forall_head?_cons (by decide)
  cases x with
  | number =>
    obtain ⟨hex, last, h⟩ := h
    have hdot : ∀ rest, (numberBody hex last ('.' :: rest)).2 =
        (numberBody hex '.' rest).2 := fun _ => rfl
    -- With white space behind the point the number ends there.
    cases before with
    | nil =>
      refine @leaves_split _ hex '.' name hname fun allowed rest hrest => ?_
      rw [h allowed _ (hstops _), hdot]
    | cons c before =>
      refine (leaves_name hname).of_iff fun allowed => ⟨false, fun rest hrest => ?_⟩
      have hwhite : Breaks (c :: (before ++ (name.toList ++ rest))) :=
        breaks_white (hbefore c List.mem_cons_self)
      simp only [List.append_assoc, List.cons_append]
      rw [h allowed _ (hstops _), hdot, numberBody_breaks hwhite]
      exact tame_blanks hbefore
  | operand =>
    refine (leaves_name hname).of_iff fun allowed => ⟨true, fun rest hrest => ?_⟩
    simp only [List.append_assoc, List.cons_append]
    rw [h allowed _ (hstops _), tame_dot hbefore hname]
  | operator =>
    refine (leaves_name hname).of_iff fun allowed => ⟨true, fun rest hrest => ?_⟩
    simp only [List.append_assoc, List.cons_append]
    rw [h allowed _ (hstops _), tame_dot hbefore hname]
  | broken =>
    intro allowed rest hrest
    simp only [List.append_assoc, List.cons_append]
    exact h allowed _ (hstops _)

end Ending

namespace Operand

open Ending Lexeme

mutual

/-- After every operand scanning goes on as its ending says. -/
theorem leaves : (x : Operand) → x.ending.Leaves x.text
  | .name text hname hfree => by
    have h := leaves_name hname
    rwa [word, if_neg hfree] at h
  | .number _ hnumber => leaves_number hnumber
  | .string _ _ _ hquote hvalue => leaves_string hquote hvalue
  -- Blanks inside an operand leave its ending as it is, brackets hide it.
  | .padded before x after => (x.leaves.pad after.2).blanks before.2
  | .parens x => x.leaves.brackets (by simp [marks]) (.inl rfl)
  | .member x before _ hname => x.leaves.member before.2 hname
  | .call x args after => by
    have hargs := (leaves_all after args).mark (by simp [marks] : '(' ∈ marks)
    exact x.leaves.append hargs fun _ _ => breaks_mark (by simp) _
  | .index x i => by
    have hindex := i.leaves.brackets (by simp [marks] : '[' ∈ marks) (.inr rfl)
    exact x.leaves.append hindex fun _ _ => breaks_mark (by simp) _
  | .step x _ hsign => x.leaves.step hsign
  | .nonNull x => by
    have hbang : Ending.operator.Leaves ['!'] := fun _ _ hrest => tame_bang hrest
    exact x.leaves.append hbang fun _ _ => breaks_mark (by simp) _

/-- Arguments stand before a comma or, after white space, before the bracket. -/
private theorem leaves_all (after : Blanks) :
    (args : List Operand) → (endingOfAll args).Leaves (textOfAll after args)
  | [] => (leaves_close (.inl rfl)).blanks after.2
  -- The last argument is followed by blanks and the closing parenthesis.
  | [x] => by
    have hclose : Ending.operand.Leaves (after.1 ++ [')']) :=
      (leaves_close (.inl rfl)).blanks after.2
    have hbreaks : ∀ rest, Breaks (after.1 ++ [')'] ++ rest) := by
      intro rest
      rw [List.append_assoc]
      exact (breaks_mark (by simp) rest : Breaks (')' :: rest)).blanks after.2
    exact x.leaves.append hclose fun rest _ => hbreaks rest
  | x :: y :: args => by
    have hmore := (leaves_all after (y :: args)).mark (by simp [marks] : ',' ∈ marks)
    exact x.leaves.append hmore fun _ _ => breaks_mark (by simp) _

end

/-- The source text of an operand. -/
def source (x : Operand) : String :=
  String.ofList x.text

end Operand

/-- Whether a slash after an operand that ends so divides. -/
def Ending.divides : Ending → Bool
  | number | operand => true
  | operator | broken => false

namespace Ending

open Lexeme

variable {x : Ending} {text : List Char} {allowed : Bool}

private theorem Leaves.tame (h : x.Leaves text) : Tame allowed text ↔ x ≠ broken := by
  have hnil : Breaks [] := fun _ hd => by cases hd
  rw [← List.append_nil text]
  by_cases hx : x = broken
  · subst hx
    exact iff_of_false (h allowed [] hnil.stops) (fun hne => hne rfl)
  · exact iff_of_true ((h.next hx hnil).2 tame_nil) hx

/-- An operand before a slash. -/
theorem Leaves.tame_slash {rest : List Char} (h : x.Leaves text) :
    Tame allowed (text ++ (' ' :: '/' :: ' ' :: rest)) ↔ x.divides = true ∧ Tame true rest := by
  have hwhite : Text.isWhite ' ' = true := by decide
  have hbreaks : ∀ {rest}, Breaks (' ' :: rest) := breaks_white hwhite
  have hnext : x ≠ broken → (Tame allowed (text ++ (' ' :: '/' :: ' ' :: rest)) ↔
      Tame (x == operator) ('/' :: ' ' :: rest)) := by
    intro hx
    rw [h.next hx hbreaks, tame_blank hwhite]
  -- Behind an operand the slash divides, and an operand may follow it.
  have hdivides : Tame false ('/' :: ' ' :: rest) ↔ Tame true rest := by
    rw [Endpoints.tame_slash, tame_blank hwhite]
  cases x with
  | number => simpa [divides] using (hnext (by decide)).trans hdivides
  | operand => simpa [divides] using (hnext (by decide)).trans hdivides
  | operator => simpa [divides] using (hnext (by decide)).not.2 not_tame_slash
  | broken => simpa [divides] using h allowed _ hbreaks.stops

end Ending

/-- A division is scanned as such, without a regular expression, exactly if a slash divides after
each operand that has one behind it, and the last operand can be scanned. -/
theorem division_scanned_iff (e f : Operand) :
    (IsPlain (ofText (e.source ++ " / " ++ f.source)) ↔
      e.ending.divides = true ∧ f.ending ≠ .broken) ∧
    (IsPlain (ofText (e.source ++ " / " ++ f.source ++ " / " ++ e.source)) ↔
      e.ending.divides = true ∧ f.ending.divides = true) := by
  have hplain : ∀ source : String, IsPlain (ofText source) ↔ Tame true source.toList :=
    fun _ => tame_iff.symm
  have hslash : " / ".toList = [' ', '/', ' '] := rfl
  -- What can be divided is not broken off.
  have hwhole : e.ending.divides = true → e.ending ≠ .broken := by
    intro hdivides hbroken
    rw [hbroken] at hdivides
    cases hdivides
  simp only [hplain, String.toList_append, Operand.source, String.toList_ofList, hslash,
    List.append_assoc, List.cons_append, List.nil_append, e.leaves.tame_slash, f.leaves.tame_slash,
    e.leaves.tame, f.leaves.tame, true_and]
  exact and_congr_right fun hdivides => and_iff_left (hwhole hdivides)

/-- An assertion or an increment before a slash makes it the start of a regular expression, unless
it stands in brackets. -/
theorem assertion_before_slash :
    ¬ IsPlain (ofText "a! / b") ∧ ¬ IsPlain (ofText "a++ / b / a++") ∧
      IsPlain (ofText "f(a!, 1e5)[b] / (a++) / f(a!, 1e5)[b]") := by
  let a : Operand := .name "a" (by decide +kernel) (by decide +kernel)
  let b : Operand := .name "b" (by decide +kernel) (by decide +kernel)
  let f : Operand := .name "f" (by decide +kernel) (by decide +kernel)
  let one : Operand := .number "1e5".toList (.plain rfl (List.all_eq_true.1 rfl))
  let blank : Blanks := ⟨[' '], List.forall_mem_singleton.2 (by decide)⟩
  let none : Blanks := ⟨[], List.forall_mem_nil _⟩
  let call : Operand := .call f [.nonNull a, .padded blank one none] none
  -- Behind an assertion or a step the slash is taken for a regular expression; brackets hide both.
  have hassertion := (division_scanned_iff (.nonNull a) b).1
  have hincrement := (division_scanned_iff (.step a '+' (.inl rfl)) b).2
  have hbrackets := (division_scanned_iff (.index call b) (.parens (.step a '+' (.inl rfl)))).2
  exact ⟨hassertion.not.2 (by decide), hincrement.not.2 (by decide), hbrackets.2 (by decide)⟩

end Endpoints
