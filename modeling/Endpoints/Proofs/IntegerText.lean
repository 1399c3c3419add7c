import Endpoints.Proofs.EnumNumbering
import Endpoints.Proofs.Placement
import Mathlib.Data.Bool.AllAny
import Mathlib.Data.Nat.Digits.Defs

/-!
# Integers as they are written

`IntegerText` is an integer as it stands in a source text: decimal digits, or hexadecimal digits
after `0x` or `0X`. Its value is that of its digits in their base. As the value of an enum member,
the argument of a decorator or a literal type, with a minus sign or without, it is read as a number
with this text. A number text gives the integer it stands for, with one exception: behind a minus
sign the lead of a hexadecimal number is not recognized, and the text is kept as a string.
-/

namespace Endpoints

open Numeral

/-! ## Digits -/

/-- The value of a digit; sixteen if the character is none. -/
def digitValue (c : Char) : Nat :=
  let lower := "0123456789abcdef".toList.idxOf c
  if lower < 16 then lower else "0123456789ABCDEF".toList.idxOf c

/-- What has a value below sixteen is one of the digits. -/
private theorem mem_of_digitValue_lt {c : Char} (h : digitValue c < 16) :
    c ∈ "0123456789abcdefABCDEF".toList := by
  have hlower : "0123456789abcdef".toList ⊆ "0123456789abcdefABCDEF".toList := by decide
  have hupper : "0123456789ABCDEF".toList ⊆ "0123456789abcdefABCDEF".toList := by decide
  by_cases hlt : "0123456789abcdef".toList.idxOf c < 16
  · exact hlower (List.idxOf_lt_length_iff.1 hlt)
  · have hindex : digitValue c = "0123456789ABCDEF".toList.idxOf c := if_neg hlt
    rw [hindex] at h
    exact hupper (List.idxOf_lt_length_iff.1 h)

/-- The digits of a base that there is a notation for. -/
theorem Numeral.digit?_eq {base : Nat} (hbase : base = 10 ∨ base = 16) {c : Char}
    (h : digitValue c < base) : digit? base c = some (digitValue c) := by
  have hread : ∀ c ∈ "0123456789abcdefABCDEF".toList,
      (digitValue c < 10 → digit? 10 c = some (digitValue c)) ∧
        digit? 16 c = some (digitValue c) := List.all_iff_forall_prop.1 (by decide)
  have hc := hread c (mem_of_digitValue_lt (by omega))
  rcases hbase with rfl | rfl
  · exact hc.1 h
  · exact hc.2

/-- Digits are read as the number they stand for. -/
theorem Numeral.natural?_digits {base : Nat} (hbase : base = 10 ∨ base = 16) {digits : List Char}
    (hne : digits ≠ []) (hdigits : ∀ d ∈ digits, digitValue d < base) :
    natural? base digits = some (Nat.ofDigits base (digits.reverse.map digitValue)) := by
  rw [natural?, if_neg (by simpa using hne)]
  clear hne
  -- The last digit is read last and is the first one of the digits from the right.
  induction digits using List.reverseRecOn with
  | nil => rfl
  | append_singleton digits d ih =>
    have hlast := digit?_eq hbase (hdigits d (by simp))
    have hfirst := ih fun e he => hdigits e (List.mem_append_left _ he)
    rw [List.foldlM_append, hfirst, List.reverse_append, List.reverse_singleton,
      List.singleton_append, List.map_cons, Nat.ofDigits_cons]
    simp [hlast, Nat.add_comm]

/-! ## Integers -/

/-- How an integer is written. -/
inductive Radix where
  | decimal
  | hexadecimal (upper : Bool)
deriving DecidableEq, Repr

namespace Radix

def base : Radix → Nat
  | decimal => 10
  | hexadecimal _ => 16

/-- What stands before the digits. -/
def lead : Radix → List Char
  | decimal => []
  | hexadecimal upper => ['0', if upper then 'X' else 'x']

private theorem base_eq (radix : Radix) : radix.base = 10 ∨ radix.base = 16 := by
  cases radix
  · exact .inl rfl
  · exact .inr rfl

end Radix

/-- An integer as it is written, without a sign. -/
structure IntegerText where
  radix : Radix
  digits : List Char
  digits_ne_nil : digits ≠ []
  digits_lt : ∀ d ∈ digits, digitValue d < radix.base

namespace IntegerText

variable (n : IntegerText) (negative : Bool)

def chars : List Char := n.radix.lead ++ n.digits

/-- The number that the digits stand for. -/
def value : Nat := Nat.ofDigits n.radix.base (n.digits.reverse.map digitValue)

/-- The text with a minus sign or without. -/
def signed : String := String.ofList (if negative then '-' :: n.chars else n.chars)

/-- The number with a minus sign or without. -/
def signedValue : Int := if negative then -n.value else n.value

/-! ## Tokens -/

/-- No sign or underscore is among the characters, and a digit comes first. -/
private theorem chars_eq : ∃ c cs, n.chars = c :: cs ∧ c.isDigit = true ∧
    ∀ d ∈ c :: cs, d.isAlphanum = true ∧ d ≠ '_' := by
  have hdigit : ∀ c ∈ "0123456789abcdefABCDEF".toList, c.isAlphanum = true ∧ c ≠ '_' ∧
      (digitValue c < 10 → c.isDigit = true) := List.all_iff_forall_prop.1 (by decide)
  have hdigits : ∀ d ∈ n.digits, d.isAlphanum = true ∧ d ≠ '_' := by
    intro d hd
    have hlt := n.digits_lt d hd
    have hbase := n.radix.base_eq
    have hmem := hdigit d (mem_of_digitValue_lt (by omega))
    exact ⟨hmem.1, hmem.2.1⟩
  obtain ⟨radix, digits, hne, hlt⟩ := n
  -- A hexadecimal number starts with a zero, and a decimal one with any of its digits.
  cases radix with
  | decimal =>
    obtain ⟨c, cs, rfl⟩ := List.exists_cons_of_ne_nil hne
    have hc : digitValue c < 10 := hlt c List.mem_cons_self
    exact ⟨c, cs, rfl, (hdigit c (mem_of_digitValue_lt (by omega))).2.2 hc, hdigits⟩
  | hexadecimal upper =>
    refine ⟨'0', (if upper then 'X' else 'x') :: digits, rfl, by decide, ?_⟩
    simp only [List.forall_mem_cons]
    exact ⟨by decide, by cases upper <;> decide, hdigits⟩

end IntegerText

/-- The letters and digits of a number up to something that cannot stand in one. -/
private theorem Literal.numberBody_alphanum {hex : Bool} {before : Char} {text after : List Char}
    (htext : ∀ d ∈ text, d.isAlphanum = true)
    (hafter : ∀ d ∈ after.head?, d.isAlphanum = false ∧ d ∉ ['_', '.', '+', '-']) :
    numberBody hex before (text ++ after) = (text, after) := by
  induction text generalizing before with
  | nil =>
    cases after with
    | nil => rfl
    | cons d ds =>
      obtain ⟨halnum, hmark⟩ := hafter d rfl
      -- Whatever follows ends the number.
      simp only [List.mem_cons, List.not_mem_nil, or_false, not_or] at hmark
      simp [numberBody, halnum, hmark]
  | cons d text ih =>
    obtain ⟨hd, htext⟩ := List.forall_mem_cons.1 htext
    have hrest := @ih d htext
    simp [numberBody, hd, hrest]

namespace IntegerText

variable (n : IntegerText) (negative : Bool)

/-- The characters of an integer are one token. -/
private theorem lexes_chars {after : List Char}
    (hafter : ∀ d ∈ after.head?, d.isAlphanum = false ∧ d ∉ ['_', '.', '+', '-']) :
    Lexes n.chars [.number (String.ofList n.chars)] after := by
  obtain ⟨c, cs, heq, hc, hcs⟩ := n.chars_eq
  -- There are no underscores to be left out.
  have hkeep : (c :: cs).filter (· != '_') = c :: cs :=
    List.filter_eq_self.2 fun d hd => bne_iff_ne.2 (hcs d hd).2
  have hline : '\n' ∉ c :: cs := fun hmem => absurd (hcs _ hmem).1 (by decide)
  rw [heq]
  refine .token (fun previous => ?_) hline
  rw [Lexeme.scan_number hc fun _ => Literal.numberBody_alphanum
    (fun d hd => (hcs d (List.mem_cons_of_mem c hd)).1) hafter, hkeep]

/-- The tokens of an integer: its sign is one of its own. -/
theorem lexes_signed {after : List Char}
    (hafter : ∀ d ∈ after.head?, d.isAlphanum = false ∧ d ∉ ['_', '.', '+', '-']) :
    Lexes (n.signed negative).toList (TypeExpr.numeralKinds (n.signed negative)) after := by
  have hchars := n.lexes_chars hafter
  cases negative with
  | true =>
    have hminus := Lexes.singleMark (by decide : ('-', Punct.minus) ∈ singleMarks)
    have hkinds : TypeExpr.numeralKinds (n.signed true) =
        [.punct .minus, .number (String.ofList n.chars)] := by
      simp [TypeExpr.numeralKinds, signed]
    rw [hkinds, signed, String.toList_ofList]
    exact (hminus _).append hchars
  | false =>
    have hkinds : TypeExpr.numeralKinds (n.signed false) = [.number (String.ofList n.chars)] := by
      obtain ⟨c, cs, heq, hc, -⟩ := n.chars_eq
      -- A number without sign starts with a digit.
      have hminus : c ≠ '-' := by
        rintro rfl
        exact absurd hc (by decide)
      simp [TypeExpr.numeralKinds, signed, heq, hminus]
    rw [hkinds, signed, String.toList_ofList]
    exact hchars

/-! ## Values -/

theorem natural?_digits :
    natural? n.radix.base n.digits = some n.value :=
  Numeral.natural?_digits n.radix.base_eq n.digits_ne_nil n.digits_lt

/-- Digits with a minus sign or without, in the base they are written in. -/
private theorem integer?_digits (h : n.value < Word.count 63) :
    integer? n.radix.base (if negative then '-' :: n.digits else n.digits) =
      some (n.signedValue negative) := by
  -- A digit is no sign, so the sign is the one that was put in front.
  have hsign : sign (if negative then '-' :: n.digits else n.digits) =
      (negative, n.digits) := by
    cases negative with
    | true => rfl
    | false =>
      have hfirst : ∀ c ∈ ['-', '+'], c ∉ n.digits := by
        intro c hc hmem
        have hlt := n.digits_lt c hmem
        have hbase := n.radix.base_eq
        have hnone : ∀ c ∈ ['-', '+'], digitValue c = 16 :=
          List.all_iff_forall_prop.1 (by decide)
        rw [hnone c hc] at hlt
        omega
      show sign n.digits = _
      unfold sign
      split
      · next heq => exact absurd (heq ▸ List.mem_cons_self) (hfirst '-' (by decide))
      · next heq => exact absurd (heq ▸ List.mem_cons_self) (hfirst '+' (by decide))
      · rfl
  have hfits : Word.fitsSigned 64 (n.signedValue negative) = true := by
    rw [Word.fitsSigned_iff, signedValue]
    split <;> omega
  rw [integer?, hsign]
  simp only [n.natural?_digits, Option.bind_eq_bind, Option.bind_some]
  exact if_pos hfits

/-- A decimal integer has the value of its digits. -/
private theorem toJson_decimal (hradix : n.radix = .decimal) (h : n.value < Word.count 63) :
    toJson (n.signed negative) = .int (n.signedValue negative) := by
  have hchars : n.chars = n.digits := by rw [chars, hradix, Radix.lead, List.nil_append]
  have hinteger := n.integer?_digits negative h
  rw [hradix, ← hchars] at hinteger
  -- The text does not start like a hexadecimal number, since an `x` is no decimal digit.
  have hlead : ∀ c ∈ ['x', 'X'], ∀ rest,
      (if negative then '-' :: n.chars else n.chars) ≠ '0' :: c :: rest := by
    intro c hc rest heq
    cases negative with
    | true => cases heq
    | false =>
      have hmem : c ∈ n.digits := by
        rw [← hchars, show n.chars = '0' :: c :: rest from heq]
        simp
      have hlt := n.digits_lt c hmem
      have hnone : ∀ c ∈ ['x', 'X'], digitValue c = 16 := List.all_iff_forall_prop.1 (by decide)
      rw [hnone c hc, hradix] at hlt
      exact absurd hlt (by decide)
  unfold toJson
  rw [signed, String.toList_ofList]
  split
  · next heq => exact absurd heq (hlead 'x' (by decide) _)
  · next heq => exact absurd heq (hlead 'X' (by decide) _)
  · rw [show integer? 10 _ = _ from hinteger]
    rfl

/-- A hexadecimal integer without a sign has the value of its digits. -/
private theorem toJson_hexadecimal {upper : Bool} (hradix : n.radix = .hexadecimal upper)
    (h : n.value < Word.count 63) :
    toJson (n.signed false) = .int (n.signedValue false) := by
  have hinteger := n.integer?_digits false h
  have hchars : (n.signed false).toList = '0' :: (if upper then 'X' else 'x') :: n.digits := by
    simp [signed, chars, hradix, Radix.lead]
  rw [hradix] at hinteger
  unfold toJson
  rw [hchars]
  cases upper <;>
    simp only [Bool.false_eq_true, if_false, if_true, Radix.base] at hinteger ⊢ <;>
    rw [hinteger] <;> rfl

/-- Behind a minus sign, a hexadecimal number is neither an integer nor a decimal. -/
private theorem toJson_negative_hexadecimal {upper : Bool} (hradix : n.radix = .hexadecimal upper) :
    toJson (n.signed true) = .string (n.signed true) := by
  have hchars : (n.signed true).toList =
      '-' :: '0' :: (if upper then 'X' else 'x') :: n.digits := by
    simp [signed, chars, hradix, Radix.lead]
  unfold toJson
  rw [hchars]
  -- Reading stops at the letter behind the zero, in either notation.
  cases upper <;> rfl

/-- The value of the text of an integer. -/
theorem toJson_signed (h : n.value < Word.count 63) :
    toJson (n.signed negative) =
      if negative = true ∧ n.radix ≠ .decimal then .string (n.signed negative)
      else .int (n.signedValue negative) := by
  cases hradix : n.radix with
  | decimal => simpa using n.toJson_decimal negative hradix h
  | hexadecimal upper =>
    cases negative with
    | true => simpa using n.toJson_negative_hexadecimal hradix
    | false => simpa using n.toJson_hexadecimal hradix h

end IntegerText

/-! ## From the source text to the value -/

/-- An integer of 63 bits, with a minus sign or without, stands as the value of an enum member, as
the argument of a decorator and as a literal type. Each is read as a number with this text. Its JSON
value is the integer itself, unless it has a minus sign and is hexadecimal: then it is the text. -/
theorem integer_literal_value (n : IntegerText) (negative : Bool) (h : n.value < Word.count 63) :
    let text := n.signed negative
    SourceFile.parse ("enum E \x7b A = " ++ text ++ " \x7d") =
      .ok ⟨[.enumDecl ⟨"E", [⟨"A", some (.number text), none⟩], false, none, 1⟩], []⟩ ∧
    SourceFile.parse ("@D(" ++ text ++ ") class C \x7b\x7d") =
      .ok ⟨[.classDecl ⟨"C", [⟨"D", [.number text], [], 1⟩], [], none, [], [], none, 1, false⟩],
        []⟩ ∧
    SourceFile.parse ("type T = " ++ text ++ ";") =
      .ok ⟨[.aliasDecl ⟨"T", [], .literal (.number text), none, 1⟩], []⟩ ∧
    ∃ value, (Expr.number text).toJson = value ∧ (LiteralType.number text).value = value ∧
      (value = .int (n.signedValue negative) ↔ ¬ (negative = true ∧ n.radix ≠ .decimal)) ∧
      (negative = true ∧ n.radix ≠ .decimal → value = .string text) := by
  intro text
  have hplaced := Placed.number text
  -- The three places where the literal is written, then its value.
  refine ⟨?_, ?_, ?_, toJson text, ?_, rfl, ?_⟩
  · exact hplaced.parse_enum (n.lexes_signed negative (List.forall_head?_cons (by decide)))
  · have hstart : "@D(" = "@" ++ "D" ++ "(" := by decide
    rw [hstart]
    exact hplaced.parse_decorated (by decide +kernel)
      (n.lexes_signed negative (List.forall_head?_cons (by decide)))
  · refine (Written.number text).parse_alias ?_
    rw [TypeExpr.kinds]
    exact n.lexes_signed negative (List.forall_head?_cons (by decide))
  · rw [Expr.toJson]
  · rw [n.toJson_signed negative h]
    -- A sign in front of a number that is not decimal keeps it from being read as one.
    by_cases hhex : negative = true ∧ n.radix ≠ .decimal
    · rw [if_pos hhex]
      refine ⟨iff_of_false (fun heq => ?_) (not_not_intro hhex), fun _ => rfl⟩
      cases heq
    · rw [if_neg hhex]
      exact ⟨iff_of_true rfl hhex, fun h => absurd h hhex⟩

/-- The same hexadecimal number with a minus sign and without. -/
theorem hexadecimal_literal_values :
    ∃ n : IntegerText, n.signed true = "-0x1F" ∧ n.value < Word.count 63 ∧
      SourceFile.parse "enum E \x7b A = -0x1F \x7d" =
        .ok ⟨[.enumDecl ⟨"E", [⟨"A", some (.number "-0x1F"), none⟩], false, none, 1⟩], []⟩ ∧
      (Expr.number "-0x1F").toJson = .string "-0x1F" ∧ (Expr.number "0x1F").toJson = .int 31 := by
  let n : IntegerText := ⟨.hexadecimal false, "1F".toList, by decide,
    List.all_iff_forall_prop.1 (by decide)⟩
  have hvalue : n.value < Word.count 63 := by decide
  -- With the sign the text stays a text, without it it is a number.
  obtain ⟨hparse, -, -, -, rfl, -, -, hstring⟩ := integer_literal_value n true hvalue
  obtain ⟨-, -, -, -, rfl, -, hinteger, -⟩ := integer_literal_value n false hvalue
  have hsource : "enum E \x7b A = " ++ n.signed true ++ " \x7d" = "enum E \x7b A = -0x1F \x7d" := by
    decide
  have hnegative : n.signed true = "-0x1F" := by decide
  have hpositive : n.signed false = "0x1F" := by decide
  rw [hsource, hnegative] at hparse
  rw [hnegative] at hstring
  rw [hpositive] at hinteger
  exact ⟨n, hnegative, hvalue, hparse, hstring ⟨rfl, by decide⟩, hinteger.2 (by decide)⟩

end Endpoints
