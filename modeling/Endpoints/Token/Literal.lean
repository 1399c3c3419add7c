import Endpoints.Json.Numeral
import Endpoints.Text.Letter
import Endpoints.Text.White

/-! # Literals and comments of the source

Readers for the pieces of source text whose end is not found by a character class: comments,
strings, templates, regular expressions and numbers. Each is a machine that looks at one character
at a time and gives the text it consumed and the rest. A reader that meets the end of its input
first fails with a `LexFault` and the number of line breaks before the line to be reported.
-/

namespace Endpoints

/-- Why a source text has no tokens. -/
inductive LexFault where
  | unterminatedComment
  | unterminatedString
  | unterminatedTemplate
  | unterminatedSubstitution
  | unterminatedRegex
  | unexpected (c : Char)
deriving DecidableEq, Repr

def LexFault.message : LexFault → String
  | unterminatedComment => "unterminated block comment"
  | unterminatedString => "unterminated string literal"
  | unterminatedTemplate => "unterminated template literal"
  | unterminatedSubstitution => "unterminated template substitution"
  | unterminatedRegex => "unterminated regular expression"
  | unexpected c => "unexpected character '" ++ String.ofList [c] ++ "'"

namespace Literal

/-- One more line break if `c` is one. -/
def countLine (lines : Nat) (c : Char) : Nat :=
  if c == '\n' then lines + 1 else lines

/-! ## Comments -/

/-- The body of a block comment up to `*/`, and the text after it. -/
def commentBody : List Char → Option (List Char × List Char)
  | [] => none
  | '*' :: '/' :: rest => some ([], rest)
  | c :: cs => (commentBody cs).map fun (body, rest) => (c :: body, rest)

/-- The documentation text of a block comment: a body that starts with a star, without it. -/
def docOfBody : List Char → Option (List Char)
  | '*' :: text => some text
  | _ => none

/-! ## Strings -/

/-- How far the machine is in an escape of a string. -/
inductive Escape where
  | none
  | backslash
  /-- After `\u`. -/
  | unicode
  /-- After `\u` and some hexadecimal digits, of which there may be four. -/
  | hex (digits : List Char)
  /-- After `\u` and an opening brace. -/
  | braced (digits : List Char)
deriving DecidableEq, Repr

/-- The character of a hexadecimal code; U+FFFD where it names none. A plus sign before the digits
is allowed. -/
def unicodeChar (digits : List Char) : Char :=
  let digits := match digits with
    | '+' :: digits => digits
    | digits => digits
  match Numeral.natural? 16 digits with
  | some code =>
    if code < 0xD800 || (0xDFFF < code && code < 0x110000) then Char.ofNat code else '�'
  | none => '�'

/-- What one character does to a string. -/
inductive StringStep where
  /-- The characters of the value that are now known, and the state after it. -/
  | more (value : List Char) (next : Escape)
  | closed (value : List Char)
  /-- A line break, which a string may not hold. -/
  | broken
deriving DecidableEq, Repr

/-- A character outside escapes. -/
def plainStep (quote c : Char) : StringStep :=
  if c == '\n' then .broken
  else if c == '\\' then .more [] .backslash
  else if c == quote then .closed []
  else .more [c] .none

/-- Puts characters of the value in front of what a step gives. -/
def StringStep.withValue (value : List Char) : StringStep → StringStep
  | more rest next => more (value ++ rest) next
  | closed rest => closed (value ++ rest)
  | broken => broken

def isHex (c : Char) : Bool :=
  (Numeral.digit? 16 c).isSome

/-- One character of a string. A `\u` escape without a brace ends after four digits or before the
first character that is none. -/
def stringStep (quote : Char) (escape : Escape) (c : Char) : StringStep :=
  match escape with
  | .none => plainStep quote c
  | .backslash =>
    match c with
    | 'n' => .more ['\n'] .none
    | 't' => .more ['\t'] .none
    | 'r' => .more ['\r'] .none
    | '0' => .more ['\x00'] .none
    | 'u' => .more [] .unicode
    | '\n' => .more [] .none
    | c => .more [c] .none
  | .unicode =>
    if c == '{' then .more [] (.braced [])
    else if isHex c then .more [] (.hex [c])
    else (plainStep quote c).withValue [unicodeChar []]
  | .hex digits =>
    if isHex c then
      if digits.length = 3 then .more [unicodeChar (digits ++ [c])] .none
      else .more [] (.hex (digits ++ [c]))
    else
      (plainStep quote c).withValue [unicodeChar digits]
  | .braced digits =>
    if c == '}' then .more [unicodeChar digits] .none else .more [] (.braced (digits ++ [c]))

/-- A string after its opening quote: its value, the text consumed and the rest. A missing end is
reported on the first line of the string, or on the last line of the text if that ends in a
backslash. -/
def stringBody (quote : Char) :
    (escape : Escape) → (lines : Nat) → List Char →
      Except (LexFault × Nat) (List Char × List Char × List Char)
  | escape, lines, [] => .error (.unterminatedString, if escape = .backslash then lines else 0)
  | escape, lines, c :: cs =>
    match stringStep quote escape c with
    | .broken => .error (.unterminatedString, 0)
    | .closed value => .ok (value, [c], cs)
    | .more value next =>
      (stringBody quote next (countLine lines c) cs).map fun (values, text, rest) =>
        (value ++ values, c :: text, rest)

/-! ## Templates -/

/-- What a template literal is inside of. Line numbers count from the start of the outermost
template. -/
inductive Frame where
  /-- The text of a template. `escaped`: after a backslash; `dollar`: after a dollar sign. -/
  | template (line : Nat) (escaped dollar : Bool)
  /-- Braces in a substitution. -/
  | braces
  | string (line : Nat) (quote : Char) (escape : Escape)
deriving DecidableEq, Repr

/-- One character of a template, given the frames from the innermost outwards. -/
def templateStep (lines : Nat) (c : Char) : List Frame → Except (LexFault × Nat) (List Frame)
  | .template line escaped dollar :: below =>
    if escaped then .ok (.template line false false :: below)
    else if c == '\\' then .ok (.template line true false :: below)
    else if c == '\x60' then .ok below
    else if c == '{' && dollar then .ok (.braces :: .template line false false :: below)
    else .ok (.template line false (c == '$') :: below)
  | .braces :: below =>
    if c == '{' then .ok (.braces :: .braces :: below)
    else if c == '}' then .ok below
    else if c == '"' || c == '\x27' then .ok (.string lines c .none :: .braces :: below)
    else if c == '\x60' then .ok (.template lines false false :: .braces :: below)
    else .ok (.braces :: below)
  | .string line quote escape :: below =>
    match stringStep quote escape c with
    | .broken => .error (.unterminatedString, line)
    | .closed _ => .ok below
    | .more _ next => .ok (.string line quote next :: below)
  | [] => .ok []

/-- The fault of a template that does not end: that of its innermost frame. -/
def unterminated (lines : Nat) : List Frame → LexFault × Nat
  | .template line _ _ :: _ => (.unterminatedTemplate, line)
  | .string line _ escape :: _ => (.unterminatedString, if escape = .backslash then lines else line)
  | _ => (.unterminatedSubstitution, lines)

/-- A template after its opening back quote: the text consumed, with the closing one, and the
rest. -/
def templateBody :
    (frames : List Frame) → (lines : Nat) → List Char →
      Except (LexFault × Nat) (List Char × List Char)
  | frames, lines, [] => .error (unterminated lines frames)
  | frames, lines, c :: cs =>
    match templateStep lines c frames with
    | .error fault => .error fault
    | .ok [] => .ok ([c], cs)
    | .ok frames =>
      (templateBody frames (countLine lines c) cs).map fun (text, rest) => (c :: text, rest)

/-! ## Regular expressions -/

/-- A regular expression after its opening slash, up to the closing one. `inClass`: inside brackets;
`escaped`: after a backslash. -/
def regexBody :
    (inClass escaped : Bool) → (lines : Nat) → List Char →
      Except (LexFault × Nat) (List Char × List Char)
  | _, _, lines, [] => .error (.unterminatedRegex, lines)
  | inClass, escaped, lines, c :: cs =>
    let next (inClass escaped : Bool) :=
      (regexBody inClass escaped (countLine lines c) cs).map fun (text, rest) => (c :: text, rest)
    if escaped then next inClass false
    else if c == '\n' then .error (.unterminatedRegex, lines + 1)
    else if c == '\\' then next inClass true
    else if c == '[' then next true false
    else if c == ']' then next false false
    else if c == '/' && !inClass then .ok ([c], cs)
    else next inClass false

/-! ## Numbers -/

/-- The characters of a number after `before`: ASCII letters and digits, underscores and points, and
a sign after an `e` that is no hexadecimal digit. -/
def numberBody (hex : Bool) : (before : Char) → List Char → List Char × List Char
  | _, [] => ([], [])
  | before, c :: cs =>
    let exponentSign := !hex && (c == '+' || c == '-') && (before == 'e' || before == 'E')
    if c.isAlphanum || c == '_' || c == '.' || exponentSign then
      let (text, rest) := numberBody hex c cs
      (c :: text, rest)
    else
      ([], c :: cs)

def isHexNumber : List Char → Bool
  | '0' :: 'x' :: _ => true
  | '0' :: 'X' :: _ => true
  | _ => false

end Literal

theorem exists_of_map_eq_ok {ε α β : Type} {x : Except ε α} {f : α → β} {b : β}
    (h : x.map f = .ok b) : ∃ a, x = .ok a ∧ f a = b := by
  cases x with
  | error e => cases h
  | ok a => exact ⟨a, rfl, Except.ok.inj h⟩

/-! ## Nothing is lost

Each reader splits its input: the text consumed followed by the rest is the input. -/

namespace Literal

/-- A comment is its body, the marks that close it, and what follows. -/
theorem commentBody_append {cs body rest : List Char} (h : commentBody cs = some (body, rest)) :
    body ++ '*' :: '/' :: rest = cs := by
  fun_induction commentBody cs generalizing body with
  | case1 => simp at h
  | case2 rest' => simp_all
  | case3 c cs _ ih =>
    obtain ⟨⟨body', rest'⟩, hb, heq⟩ := Option.map_eq_some_iff.1 h
    simp only [Prod.mk.injEq] at heq
    obtain ⟨rfl, rfl⟩ := heq
    simp [ih hb]

/-- A string consumes a start of its input. -/
theorem stringBody_append {quote : Char} {escape : Escape} {lines : Nat}
    {cs value text rest : List Char}
    (h : stringBody quote escape lines cs = .ok (value, text, rest)) : text ++ rest = cs := by
  induction cs generalizing escape lines value text with
  | nil => cases h
  | cons c cs ih =>
    unfold stringBody at h
    split at h
    · cases h
    · cases h
      rfl
    · obtain ⟨⟨values, later, rest'⟩, hbody, heq⟩ := exists_of_map_eq_ok h
      cases heq
      rw [List.cons_append, ih hbody]

/-- A template consumes a start of its input. -/
theorem templateBody_append {frames : List Frame} {lines : Nat} {cs text rest : List Char}
    (h : templateBody frames lines cs = .ok (text, rest)) : text ++ rest = cs := by
  induction cs generalizing frames lines text with
  | nil => cases h
  | cons c cs ih =>
    unfold templateBody at h
    split at h
    · cases h
    · cases h
      rfl
    · obtain ⟨⟨later, rest'⟩, hbody, heq⟩ := exists_of_map_eq_ok h
      cases heq
      rw [List.cons_append, ih hbody]

/-- What a character does in a regular expression: it ends it, it goes into it, or it breaks it
off. -/
theorem regexBody_step (inClass escaped : Bool) (lines : Nat) (c : Char) :
    (c = '/' ∧ ∀ cs, regexBody inClass escaped lines (c :: cs) = .ok ([c], cs)) ∨
    (∃ inClass' escaped', ∀ cs, regexBody inClass escaped lines (c :: cs) =
      (regexBody inClass' escaped' (countLine lines c) cs).map
        fun (text, rest) => (c :: text, rest)) ∨
    ∃ fault, ∀ cs, regexBody inClass escaped lines (c :: cs) = .error fault := by
  by_cases hescaped : escaped = true
  · exact .inr (.inl ⟨_, _, fun cs => by rw [regexBody, if_pos hescaped]⟩)
  by_cases hline : (c == '\n') = true
  · exact .inr (.inr ⟨_, fun cs => by rw [regexBody, if_neg hescaped, if_pos hline]⟩)
  by_cases hescape : (c == '\\') = true
  · exact .inr (.inl ⟨_, _, fun cs => by
      rw [regexBody, if_neg hescaped, if_neg hline, if_pos hescape]⟩)
  by_cases hopen : (c == '[') = true
  · exact .inr (.inl ⟨_, _, fun cs => by
      rw [regexBody, if_neg hescaped, if_neg hline, if_neg hescape, if_pos hopen]⟩)
  by_cases hclose : (c == ']') = true
  · exact .inr (.inl ⟨_, _, fun cs => by
      rw [regexBody, if_neg hescaped, if_neg hline, if_neg hescape, if_neg hopen, if_pos hclose]⟩)
  by_cases hslash : (c == '/' && !inClass) = true
  · refine .inl ⟨eq_of_beq (Bool.and_eq_true_iff.1 hslash).1, fun cs => ?_⟩
    rw [regexBody, if_neg hescaped, if_neg hline, if_neg hescape, if_neg hopen, if_neg hclose,
      if_pos hslash]
  · exact .inr (.inl ⟨_, _, fun cs => by
      rw [regexBody, if_neg hescaped, if_neg hline, if_neg hescape, if_neg hopen, if_neg hclose,
        if_neg hslash]⟩)

/-- A regular expression consumes a start of its input. -/
theorem regexBody_append {inClass escaped : Bool} {lines : Nat} {cs text rest : List Char}
    (h : regexBody inClass escaped lines cs = .ok (text, rest)) : text ++ rest = cs := by
  induction cs generalizing inClass escaped lines text with
  | nil => cases h
  | cons c cs ih =>
    rcases regexBody_step inClass escaped lines c with ⟨-, hstep⟩ | ⟨_, _, hstep⟩ | ⟨_, hstep⟩ <;>
      rw [hstep] at h
    · cases h
      rfl
    · obtain ⟨⟨later, rest'⟩, hbody, heq⟩ := exists_of_map_eq_ok h
      cases heq
      rw [List.cons_append, ih hbody]
    · cases h

/-- A number consumes a start of its input. -/
theorem numberBody_append (hex : Bool) (before : Char) (cs : List Char) :
    (numberBody hex before cs).1 ++ (numberBody hex before cs).2 = cs := by
  induction cs generalizing before with
  | nil => rfl
  | cons c cs ih =>
    unfold numberBody
    simp only
    split
    · simp [ih c]
    · rfl

end Literal

end Endpoints
