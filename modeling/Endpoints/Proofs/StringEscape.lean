import Endpoints.Proofs.IntegerText
import Endpoints.Proofs.Quotation
import Endpoints.Proofs.Recognition
import Mathlib.Data.Nat.Digits.Lemmas

/-!
# JSON strings in source texts and in documentation

A JSON string can stand as the argument of a decorator, where it is a token, and behind a tag, where
it is read as JSON. `StringPiece` is what stands between its quotes: a character for itself, a short
escape, a code of four digits, or two codes for one character beyond them. Both readers take such a
string as a whole. They give the same characters for every piece but three: the short escapes of
backspace and form feed, which a token reads as the letters, and a pair of codes, of which a token
reads each half as U+FFFD.
-/

namespace Endpoints

open Json

/-! ## Codes of four digits -/

/-- Four hexadecimal digits. -/
structure HexWord where
  digits : List Char
  length_eq : digits.length = 4
  digits_lt : ∀ d ∈ digits, digitValue d < 16

namespace HexWord

/-- The number that the digits stand for. -/
def value (word : HexWord) : Nat := Nat.ofDigits 16 (word.digits.reverse.map digitValue)

variable (word : HexWord)

theorem digits_ne_nil : word.digits ≠ [] := by
  intro hnil
  exact absurd word.length_eq (by rw [hnil]; decide)

theorem natural?_digits : Numeral.natural? 16 word.digits = some word.value :=
  Numeral.natural?_digits (.inr rfl) word.digits_ne_nil word.digits_lt

private theorem value_lt : word.value < 0x10000 := by
  have hlt := Nat.ofDigits_lt_base_pow_length (b := 16) (by decide)
    (l := word.digits.reverse.map digitValue) (by simpa using word.digits_lt)
  rw [List.length_map, List.length_reverse, word.length_eq] at hlt
  exact hlt

private theorem isHex (d : Char) (hd : d ∈ word.digits) : Literal.isHex d = true := by
  rw [Literal.isHex, Numeral.digit?_eq (.inr rfl) (word.digits_lt d hd)]
  rfl

theorem hex4?_append (rest : List Char) :
    hex4? (word.digits ++ rest) = some (word.value, rest) := by
  have hvalue := word.natural?_digits
  obtain ⟨a, b, c, d, hdigits⟩ := List.length_eq_four.1 word.length_eq
  rw [hdigits] at hvalue ⊢
  simp [hex4?, hvalue]

/-- The character of a code, where it has one. -/
private theorem unicodeChar : Literal.unicodeChar word.digits =
    if word.value < 0xD800 ∨ 0xE000 ≤ word.value then Char.ofNat word.value else '�' := by
  -- A sign would be passed over, but no digit is one.
  have hplus : ∀ rest, word.digits ≠ '+' :: rest := by
    intro rest heq
    have hlt := word.digits_lt '+' (heq ▸ List.mem_cons_self)
    exact absurd hlt (by decide)
  have hlt := word.value_lt
  unfold Literal.unicodeChar
  split
  · next heq => exact absurd heq (hplus _)
  -- With four digits, the upper end of all codes is not reached.
  · have hscalar : (decide (word.value < 0xD800) ||
        decide (0xDFFF < word.value) && decide (word.value < 0x110000)) = true ↔
        word.value < 0xD800 ∨ 0xE000 ≤ word.value := by
      simp only [Bool.or_eq_true, Bool.and_eq_true, decide_eq_true_eq]
      omega
    simp only [word.natural?_digits, hscalar]

end HexWord

/-! ## Strings and their pieces -/

/-- The escapes of one character behind a backslash. -/
inductive ShortEscape where
  | quote | backslash | slash | backspace | formFeed | lineFeed | carriageReturn | tab
deriving DecidableEq, Repr

namespace ShortEscape

/-- The character behind the backslash. -/
def mark : ShortEscape → Char
  | quote => '"'
  | backslash => '\\'
  | slash => '/'
  | backspace => 'b'
  | formFeed => 'f'
  | lineFeed => 'n'
  | carriageReturn => 'r'
  | tab => 't'

/-- The character that the escape stands for in JSON. -/
def char : ShortEscape → Char
  | backspace => '\x08'
  | formFeed => '\x0c'
  | lineFeed => '\n'
  | carriageReturn => '\r'
  | tab => '\t'
  | escape => escape.mark

/-- Whether a token knows the escape. -/
def isCommon (escape : ShortEscape) : Bool :=
  escape != backspace && escape != formFeed

end ShortEscape

/-- What can stand between the quotes of a JSON string. -/
inductive StringPiece where
  | plain (c : Char) (isPlain : c ≠ '"' ∧ c ≠ '\\' ∧ 0x20 ≤ c.toNat)
  | short (escape : ShortEscape)
  /-- The code of a character. -/
  | code (word : HexWord) (isScalar : word.value < 0xD800 ∨ 0xE000 ≤ word.value)
  /-- The two surrogates of a character beyond the codes. -/
  | pair (high low : HexWord) (isHigh : 0xD800 ≤ high.value ∧ high.value < 0xDC00)
      (isLow : 0xDC00 ≤ low.value ∧ low.value < 0xE000)

namespace StringPiece

/-- The text of the piece. -/
def chars : StringPiece → List Char
  | plain c _ => [c]
  | short escape => ['\\', escape.mark]
  | code word _ => '\\' :: 'u' :: word.digits
  | pair high low _ _ => '\\' :: 'u' :: (high.digits ++ '\\' :: 'u' :: low.digits)

/-- The character that the piece stands for in JSON. -/
def jsonChar : StringPiece → Char
  | plain c _ => c
  | short escape => escape.char
  | code word _ => Char.ofNat word.value
  | pair high low _ _ =>
    Char.ofNat (0x10000 + (high.value - 0xD800) * 0x400 + (low.value - 0xDC00))

/-- The characters that the piece stands for in a token. -/
def sourceChars : StringPiece → List Char
  | plain c _ => [c]
  | short escape => [if escape.isCommon then escape.char else escape.mark]
  | code word _ => [Char.ofNat word.value]
  | pair _ _ _ _ => ['�', '�']

/-- Whether a token and JSON give the same for the piece. -/
def agrees : StringPiece → Bool
  | short escape => escape.isCommon
  | pair _ _ _ _ => false
  | _ => true

/-! ## The value in JSON -/

theorem chars_ne_nil (piece : StringPiece) : piece.chars ≠ [] := by
  cases piece <;> exact List.cons_ne_nil _ _

private theorem escape?_code (word : HexWord) (rest : List Char) :
    escape? ('u' :: (word.digits ++ rest)) = unicode? word.value rest := by
  simp [escape?, word.hex4?_append]

/-- A piece is read, and then the rest. -/
theorem stringBody?_append {fuel : Nat} {rest text after : List Char} (piece : StringPiece)
    (h : stringBody? fuel rest = some (text, after)) :
    stringBody? (fuel + 1) (piece.chars ++ rest) = some (piece.jsonChar :: text, after) := by
  -- Behind a backslash the escape is read first.
  have hescape : ∀ {more : List Char} {c : Char}, escape? more = some (c, rest) →
      stringBody? (fuel + 1) ('\\' :: more) = some (c :: text, after) := by
    intro more c hmore
    simp [stringBody?, hmore, h]
  cases piece with
  | plain c hplain =>
    obtain ⟨hquote, hback, hcontrol⟩ := hplain
    have hnot : ¬ c.toNat < 0x20 := Nat.not_lt.2 hcontrol
    simp [chars, jsonChar, stringBody?, hquote, hback, hnot, h]
  | short escape => cases escape <;> exact hescape rfl
  | code word hscalar =>
    refine hescape ((escape?_code word rest).trans ?_)
    have hhigh : ¬ (0xD800 ≤ word.value ∧ word.value < 0xDC00) := by omega
    have hlow : ¬ (0xDC00 ≤ word.value ∧ word.value < 0xE000) := by omega
    simp [unicode?, hhigh, hlow, jsonChar]
  -- The second code is read as a part of the first escape.
  | pair high low hhigh hlow =>
    have hsecond : unicode? high.value ('\\' :: 'u' :: (low.digits ++ rest)) =
        some ((pair high low hhigh hlow).jsonChar, rest) := by
      simp [unicode?, hhigh, hlow, low.hex4?_append, jsonChar]
    have hread := hescape ((escape?_code high _).trans hsecond)
    simpa [chars] using hread

/-- The pieces are read up to the closing quote. -/
private theorem stringBody?_pieces (pieces : List StringPiece) (after : List Char) {fuel : Nat}
    (hfuel : pieces.length < fuel) :
    stringBody? fuel (pieces.flatMap chars ++ '"' :: after) =
      some (pieces.map jsonChar, after) := by
  induction pieces generalizing fuel with
  | nil =>
    obtain ⟨fuel, rfl⟩ := Nat.exists_eq_add_one.2 hfuel
    rfl
  | cons piece pieces ih =>
    obtain ⟨fuel, rfl⟩ := Nat.exists_eq_add_one.2 (Nat.zero_lt_of_lt hfuel)
    rw [List.flatMap_cons, List.append_assoc, List.map_cons]
    exact piece.stringBody?_append (ih (Nat.lt_of_succ_lt_succ hfuel))

/-- There are no more pieces than characters. -/
private theorem length_le_chars (pieces : List StringPiece) :
    pieces.length ≤ (pieces.flatMap chars).length := by
  induction pieces with
  | nil => exact Nat.le_refl 0
  | cons piece pieces ih =>
    have hpos := List.length_pos_iff.2 piece.chars_ne_nil
    rw [List.flatMap_cons, List.length_append, List.length_cons]
    omega

end StringPiece

namespace Json

/-- Only digits are read as digits. -/
private theorem digitValue_lt_of_digit? {c : Char} {n : Nat} (h : Numeral.digit? 16 c = some n) :
    digitValue c < 16 := by
  -- There are no digits beyond ASCII, and the characters of ASCII are checked one by one.
  have hascii : c.toNat < 0x80 := by
    by_contra hlarge
    have hnot : ∀ d : Char, d.toNat < 0x80 → ¬ c ≤ d := by
      intro d hd hle
      have := UInt32.le_iff_toNat_le.1 hle
      exact hlarge (Nat.lt_of_le_of_lt this hd)
    simp [Numeral.digit?, hnot '9' (by decide), hnot 'f' (by decide), hnot 'F' (by decide)] at h
  exact Char.of_toNat_lt (P := fun c => (Numeral.digit? 16 c).isSome = true → digitValue c < 16)
    (by decide +kernel) hascii (by rw [h]; rfl)

/-- So are all digits of a number that is read. -/
private theorem digitValue_lt_of_foldlM {digits : List Char} {start n : Nat}
    (h : digits.foldlM (fun n c => (Numeral.digit? 16 c).map (16 * n + ·)) start = some n) :
    ∀ d ∈ digits, digitValue d < 16 := by
  induction digits generalizing start with
  | nil => exact List.forall_mem_nil _
  | cons d digits ih =>
    rw [List.foldlM_cons] at h
    obtain ⟨next, hd, hrest⟩ := Option.bind_eq_some_iff.1 h
    obtain ⟨k, hk, -⟩ := Option.map_eq_some_iff.1 hd
    exact List.forall_mem_cons.2 ⟨digitValue_lt_of_digit? hk, ih hrest⟩

variable {cs : List Char}

/-- What is read as a code consists of four digits. -/
private theorem exists_word_of_hex4? {rest : List Char} {n : Nat} (h : hex4? cs = some (n, rest)) :
    ∃ word : HexWord, cs = word.digits ++ rest ∧ n = word.value := by
  unfold hex4? at h
  split at h
  · next a b c d tail =>
    obtain ⟨k, hk, heq⟩ := Option.map_eq_some_iff.1 h
    obtain ⟨rfl, rfl⟩ := Prod.mk.inj heq
    -- Reading them as a number succeeded, so all four are digits.
    have hdigits : ∀ e ∈ [a, b, c, d], digitValue e < 16 := by
      rw [Numeral.natural?, if_neg (by simp)] at hk
      exact digitValue_lt_of_foldlM hk
    let word : HexWord := ⟨[a, b, c, d], rfl, hdigits⟩
    have hvalue := word.natural?_digits
    exact ⟨word, rfl, Option.some.inj (hk.symm.trans hvalue)⟩
  · cases h

/-- What is read behind a backslash is a piece. -/
private theorem exists_piece_of_escape? {rest : List Char} {c : Char}
    (h : escape? cs = some (c, rest)) :
    ∃ piece : StringPiece, '\\' :: cs = piece.chars ++ rest ∧ c = piece.jsonChar := by
  have hshort : ∀ {escape : ShortEscape} {tail : List Char},
      some (escape.char, tail) = some (c, rest) → ∃ piece : StringPiece,
        '\\' :: escape.mark :: tail = piece.chars ++ rest ∧ c = piece.jsonChar := by
    intro escape tail heq
    obtain ⟨rfl, rfl⟩ := Prod.mk.inj (Option.some.inj heq)
    exact ⟨.short escape, rfl, rfl⟩
  -- Eight short escapes, and then the codes.
  unfold escape? at h
  split at h
  · exact @hshort .quote _ h
  · exact @hshort .backslash _ h
  · exact @hshort .slash _ h
  · exact @hshort .backspace _ h
  · exact @hshort .formFeed _ h
  · exact @hshort .lineFeed _ h
  · exact @hshort .carriageReturn _ h
  · exact @hshort .tab _ h
  · obtain ⟨⟨code, more⟩, hcode, h⟩ := Option.bind_eq_some_iff.1 h
    obtain ⟨word, rfl, rfl⟩ := exists_word_of_hex4? hcode
    dsimp only at h
    unfold unicode? at h
    split at h
    · -- A high surrogate, and its partner.
      next hhigh =>
      simp only [Bool.and_eq_true, decide_eq_true_eq] at hhigh
      split at h
      · obtain ⟨⟨code, more⟩, hcode, h⟩ := Option.bind_eq_some_iff.1 h
        obtain ⟨low, rfl, rfl⟩ := exists_word_of_hex4? hcode
        obtain ⟨hlow, h⟩ := Option.ite_none_right_eq_some.1 h
        simp only [Bool.and_eq_true, decide_eq_true_eq] at hlow
        obtain ⟨rfl, rfl⟩ := Prod.mk.inj (Option.some.inj h)
        exact ⟨.pair word low hhigh hlow, by simp [StringPiece.chars], rfl⟩
      · cases h
    · next hhigh =>
      obtain ⟨hlow, h⟩ := Option.ite_none_left_eq_some.1 h
      simp only [Bool.and_eq_true, decide_eq_true_eq] at hhigh hlow
      obtain ⟨rfl, rfl⟩ := Prod.mk.inj (Option.some.inj h)
      exact ⟨.code word (by omega), rfl, rfl⟩
  · cases h

/-- What is read as a string consists of pieces and a closing quote. -/
private theorem exists_pieces_of_stringBody? {fuel : Nat} {text rest : List Char}
    (h : stringBody? fuel cs = some (text, rest)) : ∃ pieces : List StringPiece,
      cs = pieces.flatMap StringPiece.chars ++ '"' :: rest ∧
        text = pieces.map StringPiece.jsonChar := by
  -- A quote, an escape, or a character for itself.
  induction fuel generalizing cs text with
  | zero => cases h
  | succ fuel ih =>
    cases cs with
    | nil => cases h
    | cons c cs =>
      rw [stringBody?] at h
      split at h
      · next hquote =>
        obtain ⟨rfl, rfl⟩ := Prod.mk.inj (Option.some.inj h)
        exact ⟨[], by rw [beq_iff_eq.1 hquote]; rfl, rfl⟩
      · next hquote =>
        split at h
        · next hback =>
          obtain ⟨⟨value, more⟩, hescape, h⟩ := Option.bind_eq_some_iff.1 h
          obtain ⟨⟨later, rest'⟩, hlater, h⟩ := Option.bind_eq_some_iff.1 h
          obtain ⟨rfl, rfl⟩ := Prod.mk.inj (Option.some.inj h)
          obtain ⟨piece, hpiece, rfl⟩ := exists_piece_of_escape? hescape
          obtain ⟨pieces, rfl, rfl⟩ := ih hlater
          refine ⟨piece :: pieces, ?_, rfl⟩
          rw [beq_iff_eq.1 hback, hpiece, List.flatMap_cons, List.append_assoc]
        · next hback =>
          obtain ⟨hcontrol, h⟩ := Option.ite_none_left_eq_some.1 h
          obtain ⟨⟨later, rest'⟩, hlater, h⟩ := Option.bind_eq_some_iff.1 h
          obtain ⟨rfl, rfl⟩ := Prod.mk.inj (Option.some.inj h)
          obtain ⟨pieces, rfl, rfl⟩ := ih hlater
          rw [beq_iff_eq] at hquote hback
          exact ⟨.plain c ⟨hquote, hback, Nat.not_lt.1 hcontrol⟩ :: pieces, rfl, rfl⟩

/-- The strings of JSON, behind their opening quote, are made of pieces. -/
theorem string?_iff {value : String} :
    string? cs = some (value, []) ↔ ∃ pieces : List StringPiece,
      cs = pieces.flatMap StringPiece.chars ++ ['"'] ∧
        value = String.ofList (pieces.map StringPiece.jsonChar) := by
  constructor
  · intro h
    obtain ⟨⟨text, rest⟩, hbody, heq⟩ := Option.map_eq_some_iff.1 h
    obtain ⟨rfl, rfl⟩ := Prod.mk.inj heq
    obtain ⟨pieces, rfl, rfl⟩ := exists_pieces_of_stringBody? hbody
    exact ⟨pieces, rfl, rfl⟩
  · rintro ⟨pieces, rfl, rfl⟩
    -- The length of the text is enough for all its pieces.
    have hfuel : pieces.length < (pieces.flatMap StringPiece.chars ++ ['"']).length + 1 := by
      have hlength := StringPiece.length_le_chars pieces
      rw [List.length_append]
      omega
    rw [string?, StringPiece.stringBody?_pieces pieces [] hfuel, Option.map_some]

/-- A string is a document. -/
private theorem ofText_string {value : String} (h : string? cs = some (value, [])) :
    ofText (String.ofList ('"' :: cs)) = .string value := by
  have hvalue : value? maxDepth ('"' :: cs) = some (.string value, []) := by
    have hstart : skipBlanks ('"' :: cs) = '"' :: cs := rfl
    rw [value?, hstart]
    simp [h]
  have hraw : parseRaw? (String.ofList ('"' :: cs)) = some (.string value) := by
    rw [parseRaw?, String.toList_ofList, hvalue]
    rfl
  rw [ofText, parse?, hraw]
  rfl

end Json

/-! ## The value of a token -/

namespace StringPiece

private theorem escaped_mark (escape : ShortEscape) : escape.mark ≠ 'u' ∧ escape.mark ≠ '\n' ∧
    Literal.escaped escape.mark = if escape.isCommon then escape.char else escape.mark := by
  cases escape <;> decide

private theorem unescapes_code (word : HexWord) {text value : List Char}
    (h : Literal.Unescapes '"' text value) :
    Literal.Unescapes '"' ('\\' :: 'u' :: (word.digits ++ text))
      (Literal.unicodeChar word.digits :: value) :=
  .hex word.isHex (by rw [word.length_eq]) (fun hlt => absurd hlt (by rw [word.length_eq]; decide))
    (fun hnil => absurd hnil word.digits_ne_nil) h

variable (pieces : List StringPiece)

/-- Pieces stand for their characters in a token. -/
theorem unescapes : Literal.Unescapes '"' (pieces.flatMap chars) (pieces.flatMap sourceChars) := by
  induction pieces with
  | nil => exact .nil
  | cons piece pieces ih =>
    rw [List.flatMap_cons, List.flatMap_cons]
    cases piece with
    | plain c hplain =>
      obtain ⟨hquote, hback, hcontrol⟩ := hplain
      refine .plain hquote hback ?_ ih
      rintro rfl
      exact absurd hcontrol (by decide)
    | short escape =>
      obtain ⟨hu, hline, hescaped⟩ := escaped_mark escape
      rw [sourceChars, ← hescaped]
      exact .escape hu hline ih
    | code word hscalar =>
      have hcode := unescapes_code word ih
      rw [word.unicodeChar, if_pos hscalar] at hcode
      exact hcode
    | pair high low hhigh hlow =>
      -- Each half is a code that has no character.
      have hfirst : Literal.unicodeChar high.digits = '�' := by
        rw [high.unicodeChar, if_neg (by omega)]
      have hsecond : Literal.unicodeChar low.digits = '�' := by
        rw [low.unicodeChar, if_neg (by omega)]
      have hpair := unescapes_code high (unescapes_code low ih)
      rw [hfirst, hsecond] at hpair
      simpa [chars, sourceChars] using hpair

/-- No piece has a line break in its text. -/
private theorem newline_not_mem : '\n' ∉ pieces.flatMap chars := by
  have hdigits : ∀ word : HexWord, '\n' ∉ word.digits := fun word hmem =>
    absurd (word.digits_lt _ hmem) (by decide)
  intro hmem
  obtain ⟨piece, -, hpiece⟩ := List.mem_flatMap.1 hmem
  cases piece with
  | plain c hplain =>
    obtain rfl := List.mem_singleton.1 hpiece
    exact absurd hplain.2.2 (by decide)
  | short escape => exact absurd hpiece (by cases escape <;> decide)
  | code word _ => simp [chars, hdigits] at hpiece
  | pair high low _ _ => simp [chars, hdigits] at hpiece

/-! ## Where they agree -/

/-- A piece on which the two agree stands for one character, the one in JSON. -/
private theorem sourceChars_of_agrees {piece : StringPiece} (h : piece.agrees = true) :
    piece.sourceChars = [piece.jsonChar] := by
  cases piece with
  | plain c _ => rfl
  | short escape =>
    have hcommon : escape.isCommon = true := h
    rw [sourceChars, if_pos hcommon, jsonChar]
  | code word _ => rfl
  | pair high low _ _ => cases h

/-- A piece on which the two differ makes a difference at once, whatever comes after it. -/
private theorem agrees_of_append_eq {piece : StringPiece} {later text : List Char}
    (h : piece.sourceChars ++ later = piece.jsonChar :: text) : piece.agrees = true := by
  cases piece with
  | plain c _ => rfl
  -- The two escapes that are not common stand for a letter on one side only.
  | short escape =>
    have hfirst := (List.cons.inj h).1
    revert hfirst
    cases escape <;> decide
  | code word _ => rfl
  | pair high low hhigh hlow =>
    have hfirst := congrArg Char.toNat (List.cons.inj h).1
    have hvalid : (0x10000 + (high.value - 0xD800) * 0x400 + (low.value - 0xDC00)).isValidChar := by
      right
      omega
    -- The character of a pair lies beyond U+FFFF, so it is not U+FFFD.
    have hbeyond : (pair high low hhigh hlow).jsonChar.toNat =
        0x10000 + (high.value - 0xD800) * 0x400 + (low.value - 0xDC00) := by
      rw [jsonChar, Char.ofNat, dif_pos hvalid]
      rfl
    have hreplacement : '�'.toNat = 0xFFFD := by decide
    omega

/-- The values are the same if and only if this holds of all pieces. -/
theorem sourceChars_eq_iff :
    pieces.flatMap sourceChars = pieces.map jsonChar ↔ ∀ piece ∈ pieces, piece.agrees = true := by
  induction pieces with
  | nil => simp
  | cons piece pieces ih =>
    rw [List.flatMap_cons, List.map_cons, List.forall_mem_cons, ← ih]
    constructor
    · intro h
      -- The first piece must agree by itself, and then it is one character on both sides.
      have hpiece := agrees_of_append_eq h
      rw [sourceChars_of_agrees hpiece] at h
      exact ⟨hpiece, (List.cons.inj h).2⟩
    · rintro ⟨hpiece, hrest⟩
      rw [sourceChars_of_agrees hpiece, hrest]
      rfl

end StringPiece

/-! ## Behind a tag -/

/-- A comment of one line with a quoted text behind its tag. -/
private theorem DocComment.parse_example {body : List Char} (hline : '\n' ∉ body) :
    DocComment.parse (" @example " ++ String.ofList ('"' :: (body ++ ['"'])) ++ " ") =
      ⟨none, [⟨"example", String.ofList ('"' :: (body ++ ['"']))⟩]⟩ := by
  generalize htext : '"' :: (body ++ ['"']) = text
  have hquote : Text.isWhite '"' = false := by decide
  -- Neither white space in front of the text nor behind it is left.
  have hend : ∀ before, Text.trimEnd (before ++ text) = before ++ text := by
    intro before
    have hlast : before ++ text = (before ++ '"' :: body) ++ ['"'] := by simp [← htext]
    refine Text.trimEnd_eq_self fun c hc => ?_
    rw [hlast, List.getLast?_concat] at hc
    exact Option.some.inj hc ▸ hquote
  have htrim : Text.trim (' ' :: text) = text := by
    have hstart : Text.trimStart (' ' :: text) = text := by
      rw [← htext]
      rfl
    rw [Text.trim, hstart]
    exact hend []
  have hraw : (" @example " ++ String.ofList text ++ " ").toList =
      " @example ".toList ++ text ++ [' '] := by
    simp
  have hsplit : Text.splitOn '\n' (" @example ".toList ++ text ++ [' ']) =
      [" @example ".toList ++ text ++ [' ']] := by
    refine Text.splitOn_of_not_mem ?_
    simp [← htext, hline]
  have hlineText : DocComment.lineText (" @example ".toList ++ text ++ [' ']) =
      "@example ".toList ++ text := by
    have hstart : Text.trimStart (" @example ".toList ++ text ++ [' ']) =
        "@example ".toList ++ text ++ [' '] := rfl
    have hkept : Text.trim (" @example ".toList ++ text ++ [' ']) = "@example ".toList ++ text := by
      rw [Text.trim, hstart, Text.trimEnd_append (List.forall_mem_singleton.2 (by decide)), hend]
    rw [DocComment.lineText, hkept]
    exact hend "@example ".toList
  have htag : DocComment.tagOf ("example ".toList ++ text) [] =
      ⟨"example", String.ofList text⟩ := by
    have hname : ("example ".toList ++ text).takeWhile (!Text.isWhite ·) = "example".toList := rfl
    have hvalue : ("example ".toList ++ text).dropWhile (!Text.isWhite ·) = ' ' :: text := rfl
    have hne : text.isEmpty = false := by rw [← htext]; rfl
    rw [DocComment.tagOf, hname, hvalue, htrim, DocComment.joinLines]
    simp [hne]
  rw [DocComment.parse, hraw, hsplit, List.map_singleton, hlineText]
  have hadd : DocComment.addLine ("@example ".toList ++ text) ([], []) =
      ([], [⟨"example", String.ofList text⟩]) :=
    congrArg (fun tag => ([], [tag])) htag
  simp only [List.foldr_cons, List.foldr_nil, hadd]
  rfl

/-- The value of the tag is that of the quoted text. -/
private theorem DocComment.tagValue?_example {body : List Char} (hline : '\n' ∉ body) :
    DocComment.tagValue? (some (DocComment.parse
      (" @example " ++ String.ofList ('"' :: (body ++ ['"'])) ++ " "))) "example" =
      some (Json.ofText (String.ofList ('"' :: (body ++ ['"'])))) := by
  rw [DocComment.parse_example hline]
  generalize htext : String.ofList ('"' :: (body ++ ['"'])) = text
  have hne : ¬ text.isEmpty = true := by
    rw [String.isEmpty_iff, ← htext, ← String.toList_inj, String.toList_ofList]
    exact List.cons_ne_nil _ _
  have htag : DocComment.tag? ⟨none, [⟨"example", text⟩]⟩ "example" = some text := rfl
  simp only [DocComment.tagValue?, Option.bind_some, htag]
  rw [if_neg hne]

/-! ## In both places -/

/-- A text behind a double quote is the rest of a JSON string if and only if it is made of pieces
and a closing quote. Such a string is one token, and it is read as JSON as a whole. The argument of
a decorator has the value of the token, and the text of a tag has the value in JSON; these are the
same if and only if no piece is the short escape of backspace or form feed or a pair of
surrogates. -/
theorem string_escape_agreement (cs : List Char) :
    (∀ value, Json.string? cs = some (value, []) ↔ ∃ pieces : List StringPiece,
      cs = pieces.flatMap StringPiece.chars ++ ['"'] ∧
        value = String.ofList (pieces.map StringPiece.jsonChar)) ∧
    ∀ pieces : List StringPiece, cs = pieces.flatMap StringPiece.chars ++ ['"'] →
      let text := String.ofList ('"' :: cs)
      let scanned := String.ofList (pieces.flatMap StringPiece.sourceChars)
      let written := String.ofList (pieces.map StringPiece.jsonChar)
      (∃ token last, TokenStream.ofText text = .ok ⟨[token], last⟩ ∧
        token.kind = .string scanned ∧ last.kind = .endOfFile) ∧
      ofText text = .string written ∧
      SourceFile.parse ("@Example(" ++ text ++ ") class C \x7b\x7d") =
        .ok ⟨[.classDecl ⟨"C", [⟨"Example", [.string scanned], [], 1⟩], [], none, [], [], none, 1,
          false⟩], []⟩ ∧
      DocComment.tagValue? (some (DocComment.parse (" @example " ++ text ++ " "))) "example" =
        some (.string written) ∧
      (scanned = written ↔ ∀ piece ∈ pieces, piece.agrees = true) := by
  refine ⟨fun value => Json.string?_iff, ?_⟩
  rintro pieces rfl text scanned written
  have hjson : ofText text = .string written :=
    Json.ofText_string (Json.string?_iff.2 ⟨pieces, rfl, rfl⟩)
  have hlexes : ∀ after, Lexes text.toList [.string scanned] after := by
    intro after
    rw [String.toList_ofList]
    exact .quoted (StringPiece.unescapes pieces) (StringPiece.newline_not_mem pieces)
  -- The token, the argument of the decorator, the value of the tag, and where they agree.
  refine ⟨?_, hjson, ?_, ?_, ?_⟩
  · obtain ⟨⟨tokens, last⟩, hstream, htokens, hlast⟩ := (hlexes []).exists_stream
    obtain ⟨token, rest, htoken, hrest, rfl⟩ := List.forall₂_cons_left_iff.1 htokens
    obtain rfl := List.forall₂_nil_left_iff.1 hrest
    exact ⟨token, last, hstream, htoken.kind_eq, hlast⟩
  · have hstart : "@Example(" = "@" ++ "Example" ++ "(" := by decide
    rw [hstart]
    exact (Placed.string scanned).parse_decorated (by decide +kernel) (hlexes _)
  · rw [← hjson]
    exact DocComment.tagValue?_example (StringPiece.newline_not_mem pieces)
  · rw [← StringPiece.sourceChars_eq_iff]
    exact ⟨fun heq => String.ofList_injective heq, congrArg String.ofList⟩

/-- The escape of a backspace, and the two codes of one character. -/
theorem backspace_and_pair_scanned :
    ofText "\"\\b\\uD83D\\uDE00\"" = .string "\x08😀" ∧
    ∃ token last, TokenStream.ofText "\"\\b\\uD83D\\uDE00\"" = .ok ⟨[token], last⟩ ∧
      token.kind = .string "b��" ∧ last.kind = .endOfFile := by
  let high : HexWord := ⟨"D83D".toList, rfl, List.all_iff_forall_prop.1 (by decide)⟩
  let low : HexWord := ⟨"DE00".toList, rfl, List.all_iff_forall_prop.1 (by decide)⟩
  let pieces : List StringPiece := [.short .backspace, .pair high low (by decide) (by decide)]
  let cs : List Char := "\\b\\uD83D\\uDE00\"".toList
  -- The text consists of two pieces on which the two readings differ.
  have hcs : cs = pieces.flatMap StringPiece.chars ++ ['"'] := by decide
  have htext : String.ofList ('"' :: cs) = "\"\\b\\uD83D\\uDE00\"" := by decide
  have hscanned : String.ofList (pieces.flatMap StringPiece.sourceChars) = "b��" := by decide
  have hwritten : String.ofList (pieces.map StringPiece.jsonChar) = "\x08😀" := by decide
  obtain ⟨hstream, hjson, -⟩ := (string_escape_agreement cs).2 pieces hcs
  rw [htext, hscanned] at hstream
  rw [htext, hwritten] at hjson
  exact ⟨hjson, hstream⟩

end Endpoints
