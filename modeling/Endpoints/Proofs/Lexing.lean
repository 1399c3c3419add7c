import Endpoints.Proofs.TextParts
import Endpoints.Proofs.Tiling
import Endpoints.Syntax.Type
import Mathlib.Data.List.Basic
import Mathlib.Data.List.Forall2

/-!
# The tokens of a written type

`TypeExpr.display` writes a type expression as text. `TypeExpr.Printable` says which type
expressions have a text of their own, and `TypeExpr.kinds` which tokens it consists of. `Lexes` says
of a piece of text on one line that scanning it gives certain tokens, where the text after it is
known; pieces are put together with `Lexes.append`.

## Key results

- `Lexes.word`, `Lexes.number`, `Lexes.string`, `Lexes.mark`: the pieces
- `Lexes.intercalate`: pieces with a separator between them
- `TypeExpr.Printable.lexes`: the text of a type expression gives its tokens
-/

namespace Endpoints

open TokenStream Lexeme

/-! ## Printable types -/

/-- Whether the text is a word. -/
def isName (text : String) : Bool :=
  match text.toList with
  | [] => false
  | c :: cs => isWordStart c && cs.all isWordPart

/-- A name starts with a character of words and goes on with parts of words. -/
theorem exists_cons_of_isName {text : String} (h : isName text = true) :
    ∃ c cs, text.toList = c :: cs ∧ isWordStart c = true ∧
      ∀ d ∈ cs, isWordPart d = true := by
  unfold isName at h
  split at h
  · exact absurd h Bool.false_ne_true
  · next c cs heq =>
    rw [Bool.and_eq_true, List.all_eq_true] at h
    exact ⟨c, cs, heq, h⟩

/-- Whether the text is a sequence of digits, with a minus sign or without. -/
def isSignedNumeral (text : String) : Bool :=
  match text.toList with
  | '-' :: digits => !digits.isEmpty && digits.all Char.isDigit
  | digits => !digits.isEmpty && digits.all Char.isDigit

/-- Whether the text can stand between single quotes as it is. -/
def isQuotable (text : String) : Bool :=
  text.toList.all fun c => c != '\x27' && c != '\\' && c != '\n'

namespace TypeExpr

/-- Words that mean something else than a name where a type starts. The keywords do, too. -/
def operatorWords : List String :=
  ["true", "false", "keyof", "unique", "infer", "typeof", "readonly", "this", "new", "abstract"]

/-- Whether the type expression is a union. -/
def isUnion : TypeExpr → Bool
  | union _ => true
  | _ => false

/-- The type expressions that are written unambiguously. -/
inductive Printable : TypeExpr → Prop
  | keyword (word : Keyword) : Printable (keyword word)
  | boolean (value : Bool) : Printable (literal (.boolean value))
  | number {text : String} : isSignedNumeral text = true → Printable (literal (.number text))
  | string {value : String} : isQuotable value = true → Printable (literal (.string value))
  | reference {first : String} {rest : List String} {arguments : List TypeExpr} :
      (∀ part ∈ first :: rest, isName part = true) → (∀ word : Keyword, first ≠ word.text) →
      first ∉ operatorWords → (∀ type ∈ arguments, Printable type) →
      Printable (reference (".".intercalate (first :: rest)) arguments)
  | array {element : TypeExpr} : Printable element → Printable (array element)
  | tuple {elements : List TypeExpr} :
      (∀ type ∈ elements, Printable type) → Printable (tuple elements)
  | union {members : List TypeExpr} : 2 ≤ members.length →
      (∀ type ∈ members, Printable type) → (∀ type ∈ members, type.isUnion = false) →
      Printable (union members)
  | intersection {members : List TypeExpr} : 2 ≤ members.length →
      (∀ type ∈ members, Printable type) → (∀ type ∈ members, type.isCompound = false) →
      Printable (intersection members)

/-- The tokens of a name whose parts are joined by points. -/
def nameKinds (name : String) : List TokenKind :=
  [.punct .dot].intercalate ((name.toList.splitOn '.').map fun part => [.word (String.ofList part)])

/-- The tokens of a number, of which the sign is one of its own. -/
def numeralKinds (text : String) : List TokenKind :=
  match text.toList with
  | '-' :: digits => [.punct .minus, .number (String.ofList digits)]
  | _ => [.number text]

mutual

/-- The tokens of the notation of a printable type expression. -/
def kinds : TypeExpr → List TokenKind
  | keyword word => [.word word.text]
  | literal (.string value) => [.string value]
  | literal (.number text) => numeralKinds text
  | literal (.boolean value) => [.word (if value then "true" else "false")]
  | reference name arguments =>
    if arguments.isEmpty then nameKinds name
    else nameKinds name ++
      .punct .less :: ([.punct .comma].intercalate (kindsList arguments) ++ [.punct .greater])
  | array element =>
    if element.isCompound then
      .punct .leftParen ::
        (kinds element ++ [.punct .rightParen, .punct .leftBracket, .punct .rightBracket])
    else
      kinds element ++ [.punct .leftBracket, .punct .rightBracket]
  | tuple elements =>
    .punct .leftBracket ::
      ([.punct .comma].intercalate (kindsList elements) ++ [.punct .rightBracket])
  | union members => [.punct .bar].intercalate (kindsList members)
  | intersection members => [.punct .ampersand].intercalate (kindsList members)
  | object _ | unsupported _ => []

def kindsList : List TypeExpr → List (List TokenKind)
  | [] => []
  | type :: types => kinds type :: kindsList types

end

@[simp] theorem kindsList_eq (types : List TypeExpr) : kindsList types = types.map kinds := by
  induction types with
  | nil => rfl
  | cons type types ih => rw [kindsList, ih, List.map_cons]

@[simp] theorem displayList_eq (types : List TypeExpr) :
    displayList types = types.map display := by
  induction types with
  | nil => rfl
  | cons type types ih => rw [displayList, ih, List.map_cons]

end TypeExpr

/-! ## Scanning on one line -/

/-- A token of this kind on the first line, without documentation. -/
structure Token.Plain (kind : TokenKind) (t : Token) : Prop where
  kind_eq : t.kind = kind
  line_eq : t.line = 1
  freshLine_eq : t.freshLine = false
  doc_eq : t.doc = none

/-- Nothing but tokens and blanks of the first line have been read. -/
structure TokenStream.Progress.Flat (p : Progress) : Prop where
  line_eq : p.line = 1
  doc_eq : p.doc = none
  previous_eq : ∀ before ∈ p.previous, before.2 = 1

namespace TokenStream

/-- Scanning goes on after a token. -/
private theorem scanFrom_token {p : Progress} {kind : TokenKind} {c : Char}
    {cs raw rest : List Char} {stream : TokenStream}
    (hscan : Lexeme.scan (p.previous.map (·.1)) c cs = .ok (.token kind raw, rest))
    (hrest : scanFrom (p.after (.token kind raw)) rest = .ok stream) :
    scanFrom p (c :: cs) = .ok ⟨p.token kind raw :: stream.tokens, stream.last⟩ := by
  rw [scanFrom]
  split
  · next h => rw [hscan] at h; cases h
  · next h =>
    rw [hscan] at h
    obtain ⟨rfl, rfl⟩ := Prod.mk.inj (Except.ok.inj h)
    rw [hrest]

/-- Scanning goes on after a blank. -/
private theorem scanFrom_blank {p : Progress} {c : Char} {cs : List Char}
    (hwhite : Text.isWhite c = true) :
    scanFrom p (c :: cs) = scanFrom (p.after (.blank c)) cs := by
  have hscan : Lexeme.scan (p.previous.map (·.1)) c cs = .ok (.blank c, cs) := by
    rw [Lexeme.scan, if_pos hwhite]
  rw [scanFrom]
  split
  · next h => rw [hscan] at h; cases h
  · next h =>
    rw [hscan] at h
    obtain ⟨rfl, rfl⟩ := Prod.mk.inj (Except.ok.inj h)
    cases scanFrom (p.after (.blank c)) cs <;> rfl

end TokenStream

/-- On the first line, scanning `text` with `after` behind it gives tokens of these kinds and goes
on with `after`. -/
def Lexes (text : List Char) (kinds : List TokenKind) (after : List Char) : Prop :=
  ∀ p : Progress, p.Flat → ∃ tokens p', List.Forall₂ Token.Plain kinds tokens ∧ p'.Flat ∧
    ∀ stream, scanFrom p' after = .ok stream →
      scanFrom p (text ++ after) = .ok ⟨tokens ++ stream.tokens, stream.last⟩

namespace Lexes

variable {text text' after : List Char} {kinds kinds' : List TokenKind}

theorem nil : Lexes [] [] after :=
  fun p hp => ⟨[], p, .nil, hp, fun _ hstream => hstream⟩

theorem append (h : Lexes text kinds (text' ++ after)) (h' : Lexes text' kinds' after) :
    Lexes (text ++ text') (kinds ++ kinds') after := by
  intro p hp
  obtain ⟨tokens, p', htokens, hp', hscan⟩ := h p hp
  obtain ⟨tokens', p'', htokens', hp'', hscan'⟩ := h' p' hp'
  refine ⟨tokens ++ tokens', p'', List.rel_append htokens htokens', hp'', fun stream hstream => ?_⟩
  rw [List.append_assoc, hscan _ (hscan' stream hstream), List.append_assoc]

private theorem blank : Lexes [' '] [] after := by
  intro p hp
  refine ⟨[], p.after (.blank ' '), .nil, ⟨hp.line_eq, hp.doc_eq, hp.previous_eq⟩, ?_⟩
  intro stream hstream
  exact (scanFrom_blank (by decide)).trans hstream

theorem spaced (h : Lexes text kinds after) : Lexes (' ' :: text) kinds after :=
  blank.append h

/-- A piece of text that is one token, whatever token stands before it. -/
theorem token {kind : TokenKind} {c : Char}
    (hscan : ∀ previous, Lexeme.scan previous c (text ++ after) =
      .ok (.token kind (c :: text), after))
    (hline : '\n' ∉ c :: text) : Lexes (c :: text) [kind] after := by
  intro p hp
  refine ⟨[p.token kind (c :: text)], p.after (.token kind (c :: text)), .cons ?_ .nil, ?_, ?_⟩
  -- The token stands on the first line, like the one before it.
  · refine ⟨rfl, hp.line_eq, ?_, by rw [Progress.token, hp.doc_eq]; rfl⟩
    cases hprevious : p.previous with
    | none => simp [Progress.token, hprevious]
    | some before => simp [Progress.token, hprevious, hp.line_eq, hp.previous_eq before hprevious]
  -- Its text has no line feed, so the next one stands there too.
  · refine ⟨?_, rfl, ?_⟩
    · show p.line + countLines (c :: text) = 1
      rw [countLines_eq, List.count_eq_zero.2 hline, hp.line_eq]
    · intro before hbefore
      obtain rfl := Option.some.inj hbefore
      exact hp.line_eq
  · intro stream hstream
    exact scanFrom_token (hscan _) hstream

/-- A source text of which all is known. -/
theorem exists_stream {source : String} (h : Lexes source.toList kinds []) :
    ∃ stream, ofText source = .ok stream ∧ List.Forall₂ Token.Plain kinds stream.tokens ∧
      stream.last.kind = .endOfFile := by
  obtain ⟨tokens, p, htokens, -, hscan⟩ := h .start ⟨rfl, rfl, nofun⟩
  have hend : scanFrom p [] = .ok ⟨[], p.token .endOfFile []⟩ := by rw [scanFrom]
  have htext := hscan _ hend
  rw [List.append_nil, List.append_nil] at htext
  exact ⟨_, htext, htokens, rfl⟩

end Lexes

/-! ## Words, numbers, strings and marks -/

theorem Text.inRanges_of_disjoint {ranges others : List (Nat × Nat)} {c : Char}
    (hdisjoint : ∀ r ∈ ranges, ∀ o ∈ others, r.2 < o.1 ∨ o.2 < r.1)
    (hc : inRanges ranges c = true) : inRanges others c = false := by
  obtain ⟨r, hr, hin⟩ := List.any_eq_true.1 hc
  refine List.any_eq_false.2 fun o ho hin' => ?_
  simp only [Bool.and_eq_true, decide_eq_true_eq] at hin hin'
  have hapart := hdisjoint r hr o ho
  omega

namespace Lexeme

/-- Whether what starts with this character is no number, word or mark. -/
def startsOther (c : Char) : Bool :=
  Text.isWhite c || c == '/' || c == '"' || c == '\x27' || c == '\x60'

theorem startsOther_of_isDigit {c : Char} (h : c.isDigit = true) : startsOther c = false :=
  Char.of_toNat_lt (P := fun c => c.isDigit = true → startsOther c = false) (by decide +kernel)
    (Char.toNat_lt_of_isDigit h) h

/-- Only words start with a character that can start a word. -/
theorem only_word {c : Char} (h : isWordStart c = true) :
    startsOther c = false ∧ c.isDigit = false ∧ c ≠ '.' := by
  -- The first 128 characters are gone through; beyond them only letters start words.
  by_cases hascii : c.toNat < 0x80
  · exact Char.of_toNat_lt (P := fun c => isWordStart c = true →
      startsOther c = false ∧ c.isDigit = false ∧ c ≠ '.') (by decide +kernel) hascii h
  · have hne : ∀ d : Char, d.toNat < 0x80 → c ≠ d := fun d hd heq => hascii (heq ▸ hd)
    have hdigit : c.isDigit = false := by
      refine Bool.eq_false_iff.2 fun hdigit => hascii ?_
      have hlt := Char.toNat_lt_of_isDigit hdigit
      omega
    have hletter : Text.inRanges Text.letterRanges c = true := by
      simpa [isWordStart, Text.isLetter, hascii, hne '_' (by decide), hne '$' (by decide)] using h
    have hwhite : Text.isWhite c = false :=
      Text.inRanges_of_disjoint (by decide +kernel) hletter
    refine ⟨?_, hdigit, hne '.' (by decide)⟩
    simp [startsOther, hwhite, hne '/' (by decide), hne '"' (by decide), hne '\x27' (by decide),
      hne '\x60' (by decide)]

section Scan

variable {previous : Option TokenKind} {c : Char} {cs after : List Char}

/-- `scan` of a word, up to what cannot stand in one. -/
theorem scan_word (hc : isWordStart c = true) (hcs : ∀ d ∈ cs, isWordPart d = true)
    (hafter : ∀ d ∈ after.head?, isWordPart d = false) :
    scan previous c (cs ++ after) =
      .ok (.token (.word (String.ofList (c :: cs))) (c :: cs), after) := by
  obtain ⟨hother, hdigit, hdot⟩ := only_word hc
  -- A character that starts a word starts nothing else.
  have hnumber : startsNumber (c :: (cs ++ after)) = false := by
    unfold startsNumber
    split <;> simp_all
  have hstop : after.takeWhile isWordPart = [] ∧ after.dropWhile isWordPart = after := by
    cases after with
    | nil => simp
    | cons d ds => simp [hafter d rfl]
  simp only [startsOther, Bool.or_eq_false_iff] at hother
  simp [scan, hother, hnumber, hc, List.takeWhile_append_of_pos hcs,
    List.dropWhile_append_of_pos hcs, hstop]

/-- `scan` of a number, by its body. -/
theorem scan_number {text : List Char} (hc : c.isDigit = true)
    (hbody : ∀ hex, Literal.numberBody hex c cs = (text, after)) :
    scan previous c cs =
      .ok (.token (.number (String.ofList ((c :: text).filter (· != '_')))) (c :: text),
        after) := by
  have hother := startsOther_of_isDigit hc
  have hnumber : startsNumber (c :: cs) = true := by
    unfold startsNumber
    split <;> simp_all
  simp only [startsOther, Bool.or_eq_false_iff] at hother
  simp [scan, hother, hnumber, hbody]

theorem scan_mark {mark : Punct} (hc : startsOther c = false) (hword : isWordStart c = false)
    (hnumber : startsNumber (c :: after) = false)
    (hmark : punct? (c :: after) = some (mark, [c], after)) :
    scan previous c after = .ok (.token (.punct mark) [c], after) := by
  simp only [startsOther, Bool.or_eq_false_iff] at hc
  simp [scan, hc, hword, hnumber, hmark]

end Scan

end Lexeme

namespace Literal

/-- The digits of a number up to something that cannot stand in one. -/
private theorem numberBody_digits {hex : Bool} {before : Char} {digits after : List Char}
    (hbefore : before.isDigit = true) (hdigits : ∀ d ∈ digits, d.isDigit = true)
    (hafter : ∀ d ∈ after.head?, d.isAlphanum = false ∧ d ≠ '_' ∧ d ≠ '.') :
    numberBody hex before (digits ++ after) = (digits, after) := by
  induction digits generalizing before with
  | nil =>
    -- A sign is read on only behind an exponent mark, and a digit is none.
    have he : before ≠ 'e' ∧ before ≠ 'E' := by
      constructor <;> rintro rfl <;> exact absurd hbefore (by decide)
    cases after with
    | nil => rfl
    | cons d ds =>
      obtain ⟨halnum, hunder, hdot⟩ := hafter d rfl
      simp [numberBody, halnum, hunder, hdot, he]
  | cons d ds ih =>
    have hd : d.isDigit = true := hdigits d List.mem_cons_self
    have hds := ih hd fun e he => hdigits e (List.mem_cons_of_mem d he)
    simp [numberBody, Char.isAlphanum, hd, hds]

/-- A string without quotes, backslashes and line breaks has the value as written. -/
private theorem stringBody_plain {lines : Nat} {value after : List Char}
    (h : ∀ c ∈ value, c ≠ '\x27' ∧ c ≠ '\\' ∧ c ≠ '\n') :
    stringBody '\x27' .none lines (value ++ '\x27' :: after) =
      .ok (value, value ++ ['\x27'], after) := by
  induction value generalizing lines with
  | nil => rfl
  | cons c cs ih =>
    obtain ⟨hquote, hback, hline⟩ := h c List.mem_cons_self
    have hcs := @ih (countLine lines c) fun d hd => h d (List.mem_cons_of_mem c hd)
    simp [stringBody, stringStep, plainStep, hquote, hback, hline, hcs, Except.map]

end Literal

namespace Lexes

variable {after : List Char}

/-- A name is one token. -/
theorem word {text : String} (htext : isName text = true)
    (hafter : ∀ d ∈ after.head?, isWordPart d = false) :
    Lexes text.toList [.word text] after := by
  obtain ⟨c, cs, heq, hc, hcs⟩ := exists_cons_of_isName htext
  have hline : '\n' ∉ c :: cs := by
    rw [List.mem_cons, not_or]
    refine ⟨?_, fun hmem => absurd (hcs _ hmem) (by decide)⟩
    rintro rfl
    exact absurd hc (by decide)
  have htoken := token (fun _ => Lexeme.scan_word hc hcs hafter) hline
  rwa [← heq, String.ofList_toList] at htoken

/-- Digits are one token. -/
theorem number {digits : List Char} (hne : digits ≠ [])
    (hdigits : ∀ d ∈ digits, d.isDigit = true)
    (hafter : ∀ d ∈ after.head?, d.isAlphanum = false ∧ d ≠ '_' ∧ d ≠ '.') :
    Lexes digits [.number (String.ofList digits)] after := by
  obtain ⟨c, cs, rfl⟩ := List.exists_cons_of_ne_nil hne
  obtain ⟨hc, hcs⟩ := List.forall_mem_cons.1 hdigits
  -- There are no underscores to be left out.
  have hkeep : (c :: cs).filter (· != '_') = c :: cs := by
    refine List.filter_eq_self.2 fun d hd => ?_
    rw [bne_iff_ne]
    rintro rfl
    exact absurd (hdigits _ hd) (by decide)
  refine token (fun previous => ?_) fun hmem => absurd (hdigits _ hmem) (by decide)
  rw [Lexeme.scan_number hc fun _ => Literal.numberBody_digits hc hcs hafter, hkeep]

/-- A text in single quotes is one token. -/
theorem string {value : String} (h : isQuotable value = true) :
    Lexes ('\x27' :: (value.toList ++ ['\x27'])) [.string value] after := by
  have hchars : ∀ c ∈ value.toList, c ≠ '\x27' ∧ c ≠ '\\' ∧ c ≠ '\n' := by
    simpa [isQuotable, and_assoc] using h
  refine token (fun previous => ?_) ?_
  · have hbody := @Literal.stringBody_plain 0 value.toList after hchars
    rw [List.append_assoc, List.singleton_append]
    show (Literal.stringBody '\x27' .none 0 (value.toList ++ '\x27' :: after)).map _ = _
    rw [hbody, Except.map]
    simp only [String.ofList_toList]
  · simp only [List.mem_cons, List.mem_append, not_or]
    exact ⟨by decide, fun hmem => (hchars _ hmem).2.2 rfl, by decide⟩

/-- A mark of one character. -/
theorem mark {c : Char} {mark : Punct}
    (hc : (!Lexeme.startsOther c && !isWordStart c && c != '\n') = true)
    (hnumber : startsNumber (c :: after) = false)
    (hmark : punct? (c :: after) = some (mark, [c], after)) :
    Lexes [c] [.punct mark] after := by
  simp only [Bool.and_eq_true, Bool.not_eq_true', bne_iff_ne] at hc
  refine token (fun previous => Lexeme.scan_mark hc.1.1 hc.1.2 hnumber hmark) ?_
  rw [List.mem_singleton]
  exact fun heq => hc.2 heq.symm

/-- Pieces with a separator between them. The separator ends each piece, as does what stands after
the last one. -/
theorem intercalate {α : Type} {write : α → List Char} {kinds : α → List TokenKind}
    {separator : List Char} {mark : TokenKind} {E : List Char → Prop}
    (hseparator : ∀ rest, E (separator ++ rest)) {pieces : List α}
    (hpieces : ∀ a ∈ pieces, ∀ rest, E rest → Lexes (write a) (kinds a) rest)
    (hmark : ∀ a ∈ pieces, ∀ rest, Lexes separator [mark] (write a ++ rest))
    (hafter : E after) :
    Lexes (separator.intercalate (pieces.map write)) ([mark].intercalate (pieces.map kinds))
      after := by
  -- Without pieces there is no separator either. Then by induction on the pieces after the first.
  cases pieces with
  | nil => exact nil
  | cons a pieces =>
    rw [List.map_cons, List.map_cons, intercalate_cons, intercalate_cons]
    induction pieces generalizing a with
    | nil => simpa using hpieces a List.mem_cons_self after hafter
    | cons b pieces ih =>
      have hrest := ih b (fun c hc => hpieces c (List.mem_cons_of_mem a hc))
        fun c hc => hmark c (List.mem_cons_of_mem a hc)
      have hb : b ∈ a :: b :: pieces := List.mem_cons_of_mem a List.mem_cons_self
      simp only [List.map_cons, List.flatMap_cons, List.append_assoc] at hrest ⊢
      refine append ?_ (append ?_ hrest)
      · rw [List.append_assoc]
        exact hpieces a List.mem_cons_self _ (hseparator _)
      · rw [List.append_assoc]
        exact hmark b hb _

end Lexes

/-! ## Types -/

/-- Where the text of a type ends. -/
def TypeExpr.Ends (after : List Char) : Prop :=
  ∃ c ∈ ['[', ',', ' ', ']', '>', ')', ';'], ∃ rest, after = c :: rest

namespace TypeExpr

variable {after : List Char}

theorem Ends.cons {c : Char} (rest : List Char) (h : c ∈ ['[', ',', ' ', ']', '>', ')', ';']) :
    Ends (c :: rest) :=
  ⟨c, h, rest, rfl⟩

private theorem Ends.head? (h : Ends after) : ∀ d ∈ after.head?,
    isWordPart d = false ∧ d.isAlphanum = false ∧ d ≠ '_' ∧ d ≠ '.' := by
  obtain ⟨c, hc, rest, rfl⟩ := h
  refine List.forall_head?_cons ?_
  simp only [List.mem_cons, List.not_mem_nil, or_false] at hc
  rcases hc with rfl | rfl | rfl | rfl | rfl | rfl | rfl <;> decide

/-- The tokens of a name, by its parts. -/
theorem nameKinds_intercalate {parts : List String} (hne : parts ≠ [])
    (h : ∀ part ∈ parts, isName part = true) : nameKinds (".".intercalate parts) =
      [.punct .dot].intercalate (parts.map fun part => [.word part]) := by
  -- No part has a point in it, so the name is split where it was joined.
  have hdots : ∀ text ∈ parts.map String.toList, '.' ∉ text := by
    intro text htext hmem
    obtain ⟨part, hpart, rfl⟩ := List.mem_map.1 htext
    obtain ⟨c, cs, heq, hc, hcs⟩ := exists_cons_of_isName (h part hpart)
    rw [heq] at hmem
    obtain rfl | hmem := List.mem_cons.1 hmem
    · exact absurd hc (by decide)
    · exact absurd (hcs _ hmem) (by decide)
  rw [nameKinds, String.toList_intercalate]
  show [_].intercalate (((['.'].intercalate _).splitOn '.').map _) = _
  rw [List.splitOn_intercalate '.' hdots (by simpa using hne), List.map_map]
  simp [Function.comp_def]

/-- A name with points is made of the tokens of its parts. -/
private theorem lexes_name {parts : List String} (h : ∀ part ∈ parts, isName part = true)
    (hafter : ∀ d ∈ after.head?, isWordPart d = false) :
    Lexes (".".intercalate parts).toList
      ([.punct .dot].intercalate (parts.map fun part => [.word part])) after := by
  rw [String.toList_intercalate]
  refine .intercalate (E := fun after => ∀ d ∈ after.head?, isWordPart d = false)
    (fun rest => List.forall_head?_cons (by decide))
    (fun part hpart rest hrest => .word (h part hpart) hrest) (fun part hpart rest => ?_) hafter
  -- A point before a digit would start a number, and one before a point an ellipsis.
  obtain ⟨c, cs, heq, hc, -⟩ := exists_cons_of_isName (h part hpart)
  obtain ⟨-, hdigit, hdot⟩ := Lexeme.only_word hc
  rw [heq]
  have hellipsis : "...".toList.isPrefixOf ('.' :: c :: (cs ++ rest)) = false := by
    show (true && ('.' == c && _)) = false
    rw [beq_false_of_ne (Ne.symm hdot)]
    rfl
  refine .mark (by decide +kernel) hdigit ?_
  show punct? ('.' :: c :: (cs ++ rest)) = _
  rw [punct?, Punct.table, List.findSome?_cons]
  simp only [hellipsis]
  rfl

/-- A number with a minus sign or without. -/
theorem lexes_numeral {text : String} (h : isSignedNumeral text = true)
    (hafter : ∀ d ∈ after.head?, d.isAlphanum = false ∧ d ≠ '_' ∧ d ≠ '.') :
    Lexes text.toList (numeralKinds text) after := by
  have hdigits : ∀ digits : List Char, (!digits.isEmpty && digits.all Char.isDigit) = true →
      Lexes digits [.number (String.ofList digits)] after := by
    intro digits hdigits
    simp only [Bool.and_eq_true, Bool.not_eq_true', List.isEmpty_eq_false_iff,
      List.all_eq_true] at hdigits
    exact .number hdigits.1 hdigits.2 hafter
  unfold isSignedNumeral at h
  unfold numeralKinds
  -- The numeral has a sign or not.
  split at h
  · next digits heq =>
    rw [heq]
    exact .append (.mark (by decide +kernel) rfl rfl) (hdigits digits h)
  · next hsign =>
    have hnumber := hdigits _ h
    rw [String.ofList_toList] at hnumber
    exact hnumber

/-- Types with commas between them, and bars or ampersands. -/
private theorem lexes_list {separator : String} {mark : TokenKind} {types : List TypeExpr}
    (hends : ∀ rest, Ends (separator.toList ++ rest))
    (hmark : ∀ rest, Lexes separator.toList [mark] rest)
    (ih : ∀ type ∈ types, ∀ {after : List Char}, Ends after →
      Lexes type.display.toList type.kinds after) (hafter : Ends after) :
    Lexes (separator.intercalate (types.map display)).toList
      ([mark].intercalate (types.map kinds)) after := by
  rw [String.toList_intercalate, List.map_map]
  exact .intercalate hends (fun type htype _ hrest => ih type htype hrest)
    (fun _ _ _ => hmark _) hafter

/-- Types with commas between them, in brackets. -/
private theorem lexes_bracketed {types : List TypeExpr} {left right : Char}
    {leftMark rightMark : Punct} (hleft : ∀ rest, Lexes [left] [.punct leftMark] rest)
    (hright : Lexes [right] [.punct rightMark] after) (hend : Ends (right :: after))
    (ih : ∀ type ∈ types, ∀ {after : List Char}, Ends after →
      Lexes type.display.toList type.kinds after) :
    Lexes (left :: ((", ".intercalate (types.map display)).toList ++ [right]))
      (.punct leftMark ::
        ([.punct .comma].intercalate (types.map kinds) ++ [.punct rightMark])) after := by
  have hcomma : ∀ rest, Lexes ", ".toList [.punct .comma] rest := fun rest =>
    .append (.mark (by decide +kernel) rfl rfl) .blank
  have hends : ∀ rest, Ends (", ".toList ++ rest) := fun rest => .cons (' ' :: rest) (by decide)
  exact .append (hleft _) (.append (lexes_list hends hcomma ih hend) hright)

/-- The text of a printable type consists of its tokens. -/
theorem Printable.lexes {type : TypeExpr} (h : type.Printable) (hafter : Ends after) :
    Lexes type.display.toList type.kinds after := by
  induction h generalizing after with
  | keyword word =>
    refine .word ?_ fun d hd => (hafter.head? d hd).1
    cases word <;> decide +kernel
  | boolean value =>
    refine .word ?_ fun d hd => (hafter.head? d hd).1
    cases value <;> decide +kernel
  | number htext => exact lexes_numeral htext fun d hd => (hafter.head? d hd).2
  | @string value hvalue =>
    have hstring := @Lexes.string after value hvalue
    have htext : (display (literal (.string value))).toList =
        '\x27' :: (value.toList ++ ['\x27']) := by
      simp [display, LiteralType.display]
    rwa [htext]
  | @reference first rest arguments hparts _ _ _ ih =>
    have hne : first :: rest ≠ [] := List.cons_ne_nil _ _
    rw [display, kinds, nameKinds_intercalate hne hparts]
    split
    · exact lexes_name hparts fun d hd => (hafter.head? d hd).1
    -- With arguments: the name ends before the bracket, and the arguments stand inside it.
    · have htext : (".".intercalate (first :: rest) ++ "<" ++
          ", ".intercalate (displayList arguments) ++ ">").toList =
          (".".intercalate (first :: rest)).toList ++
            '<' :: ((", ".intercalate (arguments.map display)).toList ++ ['>']) := by
        simp [String.toList_append]
      rw [htext, kindsList_eq]
      exact .append (lexes_name hparts (List.forall_head?_cons (by decide))) (lexes_bracketed
        (fun _ => .mark (by decide +kernel) rfl rfl) (.mark (by decide +kernel) rfl rfl)
        (.cons after (by decide)) ih)
  | @array element _ ih =>
    -- The brackets behind the element; a compound element stands in parentheses.
    have hbrackets : ∀ rest, Lexes "[]".toList [.punct .leftBracket, .punct .rightBracket] rest :=
      fun rest => .append (.mark (by decide +kernel) rfl rfl) (.mark (by decide +kernel) rfl rfl)
    rw [display, kinds]
    split
    · have htext : ("(" ++ element.display ++ ")[]").toList =
          '(' :: (element.display.toList ++ ')' :: "[]".toList) := by
        simp [String.toList_append]
      rw [htext]
      exact .append (.mark (by decide +kernel) rfl rfl) (.append (ih (.cons _ (by decide)))
        (.append (.mark (by decide +kernel) rfl rfl) (hbrackets after)))
    · rw [String.toList_append]
      exact .append (ih (.cons _ (by decide))) (hbrackets after)
  | @tuple elements _ ih =>
    have htext : ("[" ++ ", ".intercalate (displayList elements) ++ "]").toList =
        '[' :: ((", ".intercalate (elements.map display)).toList ++ [']']) := by
      simp [String.toList_append]
    rw [display, kinds, htext, kindsList_eq]
    exact lexes_bracketed (fun _ => .mark (by decide +kernel) rfl rfl)
      (.mark (by decide +kernel) rfl rfl) (.cons after (by decide)) ih
  -- Unions and intersections are lists with a mark between blanks.
  | union _ _ _ ih =>
    rw [display, kinds, displayList_eq, kindsList_eq]
    exact lexes_list (fun rest => .cons _ (by decide))
      (fun _ => .spaced (.append (.mark (by decide +kernel) rfl rfl) .blank)) ih hafter
  | intersection _ _ _ ih =>
    rw [display, kinds, displayList_eq, kindsList_eq]
    exact lexes_list (fun rest => .cons _ (by decide))
      (fun _ => .spaced (.append (.mark (by decide +kernel) rfl rfl) .blank)) ih hafter

end TypeExpr

end Endpoints
