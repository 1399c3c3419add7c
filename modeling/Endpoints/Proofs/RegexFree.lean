import Endpoints.Proofs.Quotation

/-!
# Scanning without regular expressions

Whether a slash divides or starts a regular expression is decided by the token before it alone.
`Tame` says of a text that scanning it gives tokens and no regular expression among them, where it
is known whether the text may start with one; it goes on from lexeme to lexeme.
-/

namespace Endpoints

open TokenStream Lexeme Text

/-! ## Scanning without regular expressions -/

/-- There are tokens, and none is a regular expression. -/
def TokenStream.IsPlain (result : Except LexError TokenStream) : Prop :=
  ∃ stream, result = .ok stream ∧ ∀ t ∈ stream.tokens, ∀ text, t.kind ≠ .regex text

namespace Lexeme

/-- Whether the lexeme is a regular expression. -/
def isRegex : Lexeme → Bool
  | token (.regex _) _ => true
  | _ => false

/-- Whether a slash after this lexeme starts a regular expression, if `allowed` says so for the text
before it. -/
def allows (allowed : Bool) : Lexeme → Bool
  | token kind _ => regexAllowed (some kind)
  | _ => allowed

private theorem scan_congr {previous previous' : Option TokenKind}
    (h : regexAllowed previous = regexAllowed previous') (c : Char) (cs : List Char) :
    scan previous c cs = scan previous' c cs := by
  rw [scan, scan, h]

end Lexeme

namespace TokenStream

private theorem allowed_after (p : Progress) (lexeme : Lexeme) :
    regexAllowed ((p.after lexeme).previous.map (·.1)) =
      lexeme.allows (regexAllowed (p.previous.map (·.1))) := by
  cases lexeme <;> rfl

/-- One lexeme at a time. -/
theorem isPlain_scanFrom_cons {p : Progress} {c : Char} {cs : List Char} :
    IsPlain (scanFrom p (c :: cs)) ↔ ∃ lexeme rest,
      Lexeme.scan (p.previous.map (·.1)) c cs = .ok (lexeme, rest) ∧ lexeme.isRegex = false ∧
        IsPlain (scanFrom (p.after lexeme) rest) := by
  rw [scanFrom]
  split
  · next hscan =>
    rw [hscan]
    constructor
    · rintro ⟨_, h, _⟩
      cases h
    · rintro ⟨_, _, h, _⟩
      cases h
  · next lexeme rest hscan =>
    have hone : (∃ lexeme' rest', Lexeme.scan (p.previous.map (·.1)) c cs = .ok (lexeme', rest') ∧
        lexeme'.isRegex = false ∧ IsPlain (scanFrom (p.after lexeme') rest')) ↔
        lexeme.isRegex = false ∧ IsPlain (scanFrom (p.after lexeme) rest) := by
      simp [hscan]
    rw [hone]
    -- The tokens are those of the rest, and this one in front if the lexeme is a token.
    cases hnext : scanFrom (p.after lexeme) rest with
    | error e => simp [IsPlain]
    | ok stream =>
      cases lexeme with
      | blank c => simp [IsPlain, Lexeme.isRegex]
      | comment text doc => simp [IsPlain, Lexeme.isRegex]
      | token kind text =>
        cases kind <;> simp [IsPlain, Lexeme.isRegex, Progress.token]

/-- Only whether a regular expression may come next is of importance. -/
private theorem isPlain_scanFrom_congr {p p' : Progress} {text : List Char}
    (h : regexAllowed (p.previous.map (·.1)) = regexAllowed (p'.previous.map (·.1)))
    (hp : IsPlain (scanFrom p text)) : IsPlain (scanFrom p' text) := by
  obtain ⟨n, hn⟩ : ∃ n, text.length = n := ⟨_, rfl⟩
  -- By induction on the length of the text, as a lexeme leaves less of it.
  induction n using Nat.strong_induction_on generalizing p p' text with
  | _ n ih =>
    cases text with
    | nil =>
      rw [scanFrom]
      exact ⟨_, rfl, List.forall_mem_nil _⟩
    | cons c cs =>
      obtain ⟨lexeme, rest, hscan, hregex, hplain⟩ := isPlain_scanFrom_cons.1 hp
      have hlt : rest.length < n := hn ▸ length_scan_lt hscan
      rw [Lexeme.scan_congr h] at hscan
      refine isPlain_scanFrom_cons.2 ⟨lexeme, rest, hscan, hregex, ?_⟩
      exact ih _ hlt (by rw [allowed_after, allowed_after, h]) hplain rfl

end TokenStream

/-- Scanning the text gives tokens and no regular expression, where `allowed` says whether one may
come first. -/
def Tame (allowed : Bool) (text : List Char) : Prop :=
  ∀ p : Progress, regexAllowed (p.previous.map (·.1)) = allowed → IsPlain (scanFrom p text)

section Tame

variable {allowed : Bool} {c : Char} {cs rest : List Char}

theorem tame_iff {p : Progress} {text : List Char} :
    Tame (regexAllowed (p.previous.map (·.1))) text ↔ IsPlain (scanFrom p text) :=
  ⟨fun h => h p rfl, fun h _ hp' => isPlain_scanFrom_congr hp'.symm h⟩

private theorem exists_progress (allowed : Bool) :
    ∃ p : Progress, regexAllowed (p.previous.map (·.1)) = allowed := by
  cases allowed with
  | true => exact ⟨.start, rfl⟩
  | false => exact ⟨{ Progress.start with previous := some (.endOfFile, 1) }, rfl⟩

theorem tame_nil : Tame allowed [] := by
  intro p _
  rw [scanFrom]
  exact ⟨_, rfl, List.forall_mem_nil _⟩

/-- Scanning goes on after a lexeme. -/
theorem tame_cons {lexeme : Lexeme}
    (hscan : ∀ previous, regexAllowed previous = allowed →
      Lexeme.scan previous c cs = .ok (lexeme, rest)) (hregex : lexeme.isRegex = false) :
    Tame allowed (c :: cs) ↔ Tame (lexeme.allows allowed) rest := by
  obtain ⟨p, rfl⟩ := exists_progress allowed
  rw [tame_iff, isPlain_scanFrom_cons, hscan _ rfl, ← allowed_after, tame_iff]
  constructor
  · rintro ⟨lexeme', rest', heq, -, hplain⟩
    obtain ⟨rfl, rfl⟩ := Prod.mk.inj (Except.ok.inj heq)
    exact hplain
  · exact fun hplain => ⟨lexeme, rest, rfl, hregex, hplain⟩

theorem tame_blank (h : isWhite c = true) : Tame allowed (c :: cs) ↔ Tame allowed cs := by
  have hscan : ∀ previous, Lexeme.scan previous c cs = .ok (.blank c, cs) := by
    intro previous
    rw [Lexeme.scan, if_pos h]
  exact tame_cons (fun previous _ => hscan previous) rfl

theorem tame_blanks {blanks : List Char} (h : ∀ c ∈ blanks, isWhite c = true) :
    Tame allowed (blanks ++ cs) ↔ Tame allowed cs := by
  induction blanks with
  | nil => exact Iff.rfl
  | cons c blanks ih =>
    obtain ⟨hc, hblanks⟩ := List.forall_mem_cons.1 h
    rw [List.cons_append, tame_blank hc, ih hblanks]

private theorem tame_token {kind : TokenKind} {raw : List Char}
    (hscan : ∀ previous, Lexeme.scan previous c cs = .ok (.token kind raw, rest))
    (hregex : (Lexeme.token kind raw).isRegex = false) :
    Tame allowed (c :: cs) ↔ Tame (regexAllowed (some kind)) rest :=
  tame_cons (fun previous _ => hscan previous) hregex

private theorem tame_mark {mark : Punct}
    (hc : (!startsOther c && !isWordStart c) = true)
    (hnumber : startsNumber (c :: cs) = false)
    (hmark : punct? (c :: cs) = some (mark, [c], cs)) :
    Tame allowed (c :: cs) ↔ Tame (!mark.closes) cs := by
  simp only [Bool.and_eq_true, Bool.not_eq_true'] at hc
  exact tame_token (fun _ => scan_mark hc.1 hc.2 hnumber hmark) rfl

/-- A slash after an operand divides. -/
theorem tame_slash : Tame false ('/' :: ' ' :: cs) ↔ Tame true (' ' :: cs) := by
  have hscan : ∀ previous, regexAllowed previous = false →
      Lexeme.scan previous '/' (' ' :: cs) = .ok (.token (.punct .slash) ['/'], ' ' :: cs) := by
    intro previous hprevious
    have hmark : punct? ('/' :: ' ' :: cs) = some (.slash, ['/'], ' ' :: cs) := rfl
    have hnumber : startsNumber ('/' :: ' ' :: cs) = false := rfl
    have hstart : isWhite '/' = false ∧ isWordStart '/' = false := ⟨rfl, rfl⟩
    simp [Lexeme.scan, hprevious, hmark, hnumber, hstart]
  exact tame_cons hscan rfl

/-- A slash anywhere else starts a regular expression. -/
theorem not_tame_slash : ¬ Tame true ('/' :: ' ' :: cs) := by
  intro h
  obtain ⟨lexeme, rest, hscan, hregex, -⟩ := isPlain_scanFrom_cons.1 (h .start rfl)
  have hnumber : startsNumber ('/' :: ' ' :: cs) = false := rfl
  have hstart : isWhite '/' = false ∧ isWordStart '/' = false := ⟨rfl, rfl⟩
  have hallowed : regexAllowed (Progress.start.previous.map (·.1)) = true := rfl
  simp only [Lexeme.scan, hallowed, hnumber, hstart] at hscan
  -- The regular expression has an end or not, and either way there are no plain tokens.
  cases hbody : Literal.regexBody false false 0 (' ' :: cs) with
  | error e => simp [hbody, Except.map] at hscan
  | ok r =>
    simp [hbody, Except.map] at hscan
    obtain ⟨rfl, rfl⟩ := hscan
    cases hregex

end Tame

/-! ## Characters -/

/-- The characters of a number, but for the sign of an exponent. -/
def Literal.isNumberPart (c : Char) : Bool :=
  c.isAlphanum || c == '_' || c == '.'

namespace Lexeme

variable {c : Char}

theorem isWordPart_of_isAlphanum (h : c.isAlphanum = true) : isWordPart c = true := by
  have hascii := Char.toNat_lt_of_isAlphanum h
  simp only [isWordPart, isLetterOrNumber, isLetter, isNumber, hascii, if_true]
  rw [Char.isAlphanum] at h
  simp [h]

theorem isWordPart_of_isWordStart (h : isWordStart c = true) : isWordPart c = true := by
  simp only [isWordStart, Bool.or_eq_true] at h
  simp only [isWordPart, isLetterOrNumber, Bool.or_eq_true]
  exact h.imp_right .inl

variable {cs rest : List Char}

/-- A number starts in the same way if more text follows. -/
theorem startsNumber_append (h : startsNumber (c :: cs) = true) :
    startsNumber (c :: (cs ++ rest)) = true := by
  cases cs with
  | nil =>
    have hc : c.isDigit = true := by simpa [startsNumber] using h
    unfold startsNumber
    split <;> simp_all
  | cons d cs =>
    -- A point starts a number if a digit follows, which is there already.
    by_cases hdot : c = '.'
    · subst hdot
      exact h
    · simpa [startsNumber, hdot] using h

/-- White space does not stand in words. -/
private theorem isWordPart_of_isWhite (h : isWhite c = true) : isWordPart c = false := by
  -- The characters of ASCII are checked one by one, the others by the ranges of the tables.
  by_cases hascii : c.toNat < 0x80
  · exact Char.of_toNat_lt (P := fun c => isWhite c = true → isWordPart c = false)
      (by decide +kernel) hascii h
  · have hne : ∀ d : Char, d.toNat < 0x80 → c ≠ d := fun d hd heq => hascii (heq ▸ hd)
    have hletter : inRanges letterRanges c = false :=
      inRanges_of_disjoint (by decide +kernel) h
    have hnumber : inRanges numberRanges c = false :=
      inRanges_of_disjoint (by decide +kernel) h
    simp [isWordPart, isLetterOrNumber, isLetter, isNumber, hascii, hletter, hnumber,
      hne '_' (by decide), hne '$' (by decide)]

/-- The words before a regular expression start with characters that numbers take. -/
theorem contains_regexWords (h : Literal.isNumberPart c = false) :
    regexWords.contains (String.ofList (c :: cs)) = false := by
  -- The words are checked one by one.
  have hheads : (regexWords.all fun word => word.toList.head?.all Literal.isNumberPart) = true := by
    decide +kernel
  refine Bool.eq_false_iff.2 fun hcontains => ?_
  have hhead := List.all_eq_true.1 hheads _ (List.contains_iff_mem.1 hcontains)
  rw [String.toList_ofList] at hhead
  exact absurd hhead (by simp [h])

/-- No mark starts with a character beyond ASCII. -/
private theorem punct?_of_toNat_ge (h : ¬ c.toNat < 0x80) : punct? (c :: cs) = none := by
  -- So are the marks.
  have hheads : (Punct.table.all fun entry =>
      entry.2.toList.head?.all (·.toNat < 0x80)) = true := by
    decide +kernel
  refine List.findSome?_eq_none_iff.2 fun entry hentry => ?_
  have hhead := List.all_eq_true.1 hheads entry hentry
  cases htext : entry.2.toList with
  | nil => simp [htext]
  | cons d ds =>
    have hne : d ≠ c := by
      rintro rfl
      simp [htext, h] at hhead
    simp [htext, hne]

/-- A number character of another script starts no token. -/
private theorem scan_unexpected {previous : Option TokenKind} (hpart : isWordPart c = true)
    (hstart : isWordStart c = false) (hnumber : Literal.isNumberPart c = false) :
    scan previous c cs = .error (.unexpected c, 0) := by
  -- In ASCII each character that goes on with a word starts one or belongs to numbers.
  have hascii : ¬ c.toNat < 0x80 := by
    intro hascii
    have hclasses := Char.of_toNat_lt (P := fun c => isWordPart c = true → isWordStart c = false →
      Literal.isNumberPart c = true) (by decide +kernel) hascii hpart hstart
    rw [hnumber] at hclasses
    cases hclasses
  have hne : ∀ d : Char, d.toNat < 0x80 → c ≠ d := fun d hd heq => hascii (heq ▸ hd)
  have hwhite : isWhite c = false := by
    refine Bool.eq_false_iff.2 fun hwhite => ?_
    rw [isWordPart_of_isWhite hwhite] at hpart
    cases hpart
  have hdigit : c.isDigit = false := by
    refine Bool.eq_false_iff.2 fun hdigit => hascii ?_
    exact Nat.lt_trans (Char.toNat_lt_of_isDigit hdigit) (by decide)
  have hstarts : startsNumber (c :: cs) = false := by
    unfold startsNumber
    split <;> simp_all
  simp [scan, hwhite, hstart, hstarts, punct?_of_toNat_ge hascii, hne '/' (by decide),
    hne '"' (by decide), hne '\x27' (by decide), hne '\x60' (by decide)]

/-- What may stand after an operand: a word does not go on there, nor is it an inequality. -/
def Stops (rest : List Char) : Prop :=
  ∀ d ∈ rest.head?, Lexeme.isWordPart d = false ∧ d ≠ '='

/-- What may stand after an operand and does not belong to a number. -/
def Breaks (rest : List Char) : Prop :=
  ∀ d ∈ rest.head?, Lexeme.isWordPart d = false ∧ d ∉ ['=', '.', '+', '-']

theorem Breaks.stops (h : Breaks rest) : Stops rest :=
  fun d hd => ⟨(h d hd).1, fun heq => (h d hd).2 (heq ▸ List.mem_cons_self)⟩

theorem breaks_white (h : Text.isWhite c = true) : Breaks (c :: rest) := by
  refine List.forall_head?_cons ⟨Lexeme.isWordPart_of_isWhite h, ?_⟩
  intro hmem
  simp only [List.mem_cons, List.not_mem_nil, or_false] at hmem
  rcases hmem with rfl | rfl | rfl | rfl <;> exact absurd h (by decide)

theorem Breaks.blanks {blanks : List Char} (hblanks : ∀ c ∈ blanks, Text.isWhite c = true)
    (h : Breaks rest) : Breaks (blanks ++ rest) := by
  cases blanks with
  | nil => exact h
  | cons c blanks => exact breaks_white (hblanks c List.mem_cons_self)

end Lexeme

namespace Literal

variable {hex : Bool} {before : Char} {cs rest : List Char}

private theorem isWordPart_of_isNumberPart {c : Char} (h : isNumberPart c = true) :
    Lexeme.isWordPart c = true ∨ c = '.' := by
  simp only [isNumberPart, Bool.or_eq_true, beq_iff_eq] at h
  rcases h with (h | rfl) | rfl
  · exact .inl (Lexeme.isWordPart_of_isAlphanum h)
  · exact .inl (by decide)
  · exact .inr rfl

/-- A number is hexadecimal by its first two characters. -/
theorem isHexNumber_append {c : Char} (h : ∀ d ∈ rest.head?, d ≠ 'x' ∧ d ≠ 'X') :
    isHexNumber (c :: (cs ++ rest)) = isHexNumber (c :: cs) := by
  cases cs with
  | nil =>
    cases rest with
    | nil => rfl
    | cons d rest =>
      have hd := h d rfl
      simp [isHexNumber, hd]
  | cons d cs =>
    by_cases hzero : c = '0' <;> by_cases hx : d = 'x' <;> by_cases hX : d = 'X' <;>
      simp [isHexNumber, hzero, hx, hX]

/-- A number goes on over the characters of numbers. -/
theorem numberBody_parts (h : ∀ c ∈ cs, isNumberPart c = true) :
    (numberBody hex before (cs ++ rest)).2 = (numberBody hex (cs.getLastD before) rest).2 := by
  induction cs generalizing before with
  | nil => rfl
  | cons c cs ih =>
    obtain ⟨hc, hcs⟩ := List.forall_mem_cons.1 h
    have hstep : (numberBody hex before (c :: (cs ++ rest))).2 =
        (numberBody hex c (cs ++ rest)).2 := by
      simp only [isNumberPart] at hc
      simp [numberBody, hc]
    rw [List.cons_append, hstep, ih hcs, List.getLastD_cons]

theorem numberBody_stop {c : Char} (hpart : isNumberPart c = false) (hsign : c ≠ '+' ∧ c ≠ '-') :
    (numberBody hex before (c :: rest)).2 = c :: rest := by
  simp only [isNumberPart] at hpart
  simp [numberBody, hpart, hsign]

/-- Of two signs a number takes at most one. -/
theorem numberBody_signs {sign : Char} (hsign : sign = '+' ∨ sign = '-') :
    (numberBody hex before (sign :: sign :: rest)).2 = sign :: rest ∨
      (numberBody hex before (sign :: sign :: rest)).2 = sign :: sign :: rest := by
  have hpart : (sign.isAlphanum || sign == '_' || sign == '.') = false := by
    rcases hsign with rfl | rfl <;> decide
  have he : sign ≠ 'e' ∧ sign ≠ 'E' := by
    rcases hsign with rfl | rfl <;> decide
  -- A sign is taken only after the letter of an exponent, so never after a sign.
  have hsecond : (numberBody hex sign (sign :: rest)).2 = sign :: rest := by
    simp [numberBody, hpart, he]
  rw [numberBody]
  split
  · exact .inl hsecond
  · exact .inr rfl

/-- A number ends at a text that breaks it. -/
theorem numberBody_breaks (h : Lexeme.Breaks rest) : (numberBody hex before rest).2 = rest := by
  cases rest with
  | nil => rfl
  | cons d rest =>
    obtain ⟨hword, hother⟩ := h d rfl
    simp only [List.mem_cons, List.not_mem_nil, or_false, not_or] at hother
    refine numberBody_stop (Bool.eq_false_iff.2 fun hpart => ?_) ⟨hother.2.2.1, hother.2.2.2⟩
    rcases isWordPart_of_isNumberPart hpart with hpart | hdot
    · rw [hpart] at hword
      cases hword
    · exact hother.2.1 hdot

end Literal

/-! ## Pieces -/

section Pieces

variable {allowed : Bool} {rest : List Char}

theorem tame_name {name : String} (h : isName name = true) (hrest : Lexeme.Stops rest) :
    Tame allowed (name.toList ++ rest) ↔ Tame (Lexeme.regexWords.contains name) rest := by
  obtain ⟨c, cs, heq, hc, hcs⟩ := exists_cons_of_isName h
  have hscan := fun previous =>
    @Lexeme.scan_word previous c cs rest hc hcs fun d hd => (hrest d hd).1
  rw [heq, List.cons_append, tame_token hscan rfl, ← heq, String.ofList_toList]
  rfl

/-- A string is one token and an operand. -/
theorem tame_string {quote : Char} {text value : List Char} (hquote : quote = '"' ∨ quote = '\x27')
    (h : Literal.Unescapes quote text value) :
    Tame allowed (quote :: (text ++ quote :: rest)) ↔ Tame false rest := by
  have hbody : Literal.stringBody quote .none 0 (text ++ quote :: rest) =
      .ok (value, text ++ [quote], rest) := by
    rcases hquote with rfl | rfl <;>
      exact Literal.stringBody_of_unescapes (by decide) (by decide) h 0 rest
  -- What stands before the quote does not matter to the scanner.
  have hscan : ∀ previous, Lexeme.scan previous quote (text ++ quote :: rest) =
      .ok (.token (.string (String.ofList value)) (quote :: (text ++ [quote])), rest) := by
    intro previous
    rcases hquote with rfl | rfl
    · show (Literal.stringBody '"' .none 0 _).map _ = _
      rw [hbody, Except.map]
    · show (Literal.stringBody '\x27' .none 0 _).map _ = _
      rw [hbody, Except.map]
  exact tame_token hscan rfl

/-- A number goes on as far as the text has characters for it. -/
theorem tame_number {c : Char} {cs : List Char} (h : Lexeme.startsNumber (c :: cs) = true) :
    Tame allowed (c :: cs) ↔
      Tame false (Literal.numberBody (Literal.isHexNumber (c :: cs)) c cs).2 := by
  -- A number starts with a digit or a point, so no other lexeme is tried before it.
  have hc : Lexeme.startsOther c = false := by
    unfold Lexeme.startsNumber at h
    split at h
    · next heq => obtain ⟨rfl, -⟩ := List.cons.inj heq; decide
    · next heq => obtain ⟨rfl, -⟩ := List.cons.inj heq; exact Lexeme.startsOther_of_isDigit h
    · next heq => cases heq
  simp only [Lexeme.startsOther, Bool.or_eq_false_iff] at hc
  have hscan : ∀ previous, Lexeme.scan previous c cs =
      let number := Literal.numberBody (Literal.isHexNumber (c :: cs)) c cs
      .ok (.token (.number (String.ofList ((c :: number.1).filter (· != '_')))) (c :: number.1),
        number.2) := by
    intro previous
    simp [Lexeme.scan, hc, h]
  exact tame_token hscan rfl

/-- A character that starts no token ends the scan. -/
theorem not_tame_unexpected {c : Char} {cs : List Char} (hpart : Lexeme.isWordPart c = true)
    (hstart : Lexeme.isWordStart c = false) (hnumber : Literal.isNumberPart c = false) :
    ¬ Tame allowed (c :: cs) := by
  intro h
  obtain ⟨p, rfl⟩ := exists_progress allowed
  obtain ⟨lexeme, rest, hscan, -⟩ := isPlain_scanFrom_cons.1 (tame_iff.1 h)
  rw [Lexeme.scan_unexpected hpart hstart hnumber] at hscan
  cases hscan

/-- Brackets, commas and signs. -/
def Lexeme.marks : List Char :=
  ['(', ')', '[', ']', ',', '+', '-']

/-- Each of `Lexeme.marks` is one token, and only closing brackets end an operand. -/
theorem tame_single {c : Char} (h : c ∈ Lexeme.marks) :
    Tame allowed (c :: rest) ↔ Tame (c != ')' && c != ']') rest := by
  simp only [Lexeme.marks, List.mem_cons, List.not_mem_nil, or_false] at h
  rcases h with rfl | rfl | rfl | rfl | rfl | rfl | rfl
  · exact @tame_mark allowed '(' rest .leftParen rfl rfl rfl
  · exact @tame_mark allowed ')' rest .rightParen rfl rfl rfl
  · exact @tame_mark allowed '[' rest .leftBracket rfl rfl rfl
  · exact @tame_mark allowed ']' rest .rightBracket rfl rfl rfl
  · exact @tame_mark allowed ',' rest .comma rfl rfl rfl
  · exact @tame_mark allowed '+' rest .plus rfl rfl rfl
  · exact @tame_mark allowed '-' rest .minus rfl rfl rfl

/-- An exclamation mark is one token, unless it starts an inequality. -/
theorem tame_bang (h : Lexeme.Stops rest) : Tame allowed ('!' :: rest) ↔ Tame true rest := by
  have hmark : Lexeme.punct? ('!' :: rest) = some (.bang, ['!'], rest) := by
    cases rest with
    | nil => rfl
    | cons d rest =>
      -- The longer marks go on with an equals sign.
      have hne : ('=' == d) = false := beq_false_of_ne (Ne.symm (h d rfl).2)
      have hstrict : "!==".toList.isPrefixOf ('!' :: d :: rest) = false := by
        show (true && ('=' == d && _)) = false
        rw [hne]
        rfl
      have hunequal : "!=".toList.isPrefixOf ('!' :: d :: rest) = false := by
        show (true && ('=' == d && _)) = false
        rw [hne]
        rfl
      rw [Lexeme.punct?, Punct.table]
      simp only [List.findSome?_cons, hstrict, hunequal]
      rfl
  exact @tame_mark allowed '!' rest .bang rfl rfl hmark

/-- A point before white space or a name. -/
theorem tame_dot {blanks : List Char} {name : String}
    (hblanks : ∀ c ∈ blanks, Text.isWhite c = true) (h : isName name = true) :
    Tame allowed ('.' :: (blanks ++ (name.toList ++ rest))) ↔ Tame true (name.toList ++ rest) := by
  obtain ⟨c, cs, heq, hc, -⟩ := exists_cons_of_isName h
  -- Behind the point stands no digit and no other point.
  obtain ⟨d, ds, htext, hdigit, hdot⟩ : ∃ d ds, blanks ++ (name.toList ++ rest) = d :: ds ∧
      d.isDigit = false ∧ d ≠ '.' := by
    cases blanks with
    | nil => exact ⟨c, cs ++ rest, by rw [heq]; rfl, (Lexeme.only_word hc).2⟩
    | cons d blanks =>
      have hd := hblanks d List.mem_cons_self
      refine ⟨d, _, rfl, Bool.eq_false_iff.2 fun hdigit => ?_, ?_⟩
      · have hother := Lexeme.startsOther_of_isDigit hdigit
        simp [Lexeme.startsOther, hd] at hother
      · rintro rfl
        exact absurd hd (by decide)
  have hellipsis : "...".toList.isPrefixOf ('.' :: d :: ds) = false := by
    show (true && ('.' == d && _)) = false
    rw [beq_false_of_ne (Ne.symm hdot)]
    rfl
  have hmark : punct? ('.' :: d :: ds) = some (.dot, ['.'], d :: ds) := by
    rw [punct?, Punct.table, List.findSome?_cons]
    simp only [hellipsis]
    rfl
  rw [htext, @tame_mark allowed '.' (d :: ds) .dot rfl hdigit hmark, ← htext]
  exact tame_blanks hblanks

end Pieces

end Endpoints
