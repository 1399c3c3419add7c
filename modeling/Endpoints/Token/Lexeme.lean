import Endpoints.Token.Basic
import Endpoints.Token.Literal

/-! # Lexemes

A source text is a sequence of lexemes: single white space characters, comments and tokens.
`Lexeme.scan` takes the first one off a text. Whether a slash starts a regular expression is decided
by the token before it.
-/

namespace Endpoints

/-- A piece of source text. -/
inductive Lexeme where
  | blank (c : Char)
  /-- A comment, with its documentation text if it is a documentation comment. -/
  | comment (text : List Char) (doc : Option (List Char))
  | token (kind : TokenKind) (text : List Char)
deriving Repr

namespace Lexeme

def text : Lexeme → List Char
  | blank c => [c]
  | comment text _ => text
  | token _ text => text

/-- Whether `c` can start a word. -/
def isWordStart (c : Char) : Bool :=
  c == '_' || c == '$' || Text.isLetter c

/-- Whether `c` can stand in a word after its start. -/
def isWordPart (c : Char) : Bool :=
  c == '_' || c == '$' || Text.isLetterOrNumber c

/-- Words after which a slash starts a regular expression. -/
def regexWords : List String :=
  ["return", "typeof", "case", "do", "else", "in", "of", "new", "delete", "void", "throw",
   "instanceof", "yield", "await"]

/-- Whether a slash after this token starts a regular expression. -/
def regexAllowed : (previous : Option TokenKind) → Bool
  | none => true
  | some (.punct mark) => !mark.closes
  | some (.word text) => regexWords.contains text
  | some _ => false

/-- The first mark of the table that the text starts with, and the rest. -/
def punct? (cs : List Char) : Option (Punct × List Char × List Char) :=
  Punct.table.findSome? fun (mark, text) =>
    if text.toList.isPrefixOf cs && !text.toList.isEmpty then
      some (mark, text.toList, cs.drop text.toList.length)
    else
      none

/-- Whether a number starts here: a digit, or a point and a digit. -/
def startsNumber : List Char → Bool
  | '.' :: d :: _ => d.isDigit
  | c :: _ => c.isDigit
  | [] => false

/-- Takes the first lexeme off the text `c :: cs`. -/
def scan (previous : Option TokenKind) (c : Char) (cs : List Char) :
    Except (LexFault × Nat) (Lexeme × List Char) :=
  if Text.isWhite c then
    .ok (.blank c, cs)
  else if c == '/' && cs.head? == some '/' then
    .ok (.comment (c :: cs.takeWhile (· != '\n')) none, cs.dropWhile (· != '\n'))
  else if c == '/' && cs.head? == some '*' then
    match Literal.commentBody (cs.drop 1) with
    | some (body, rest) =>
      .ok (.comment ('/' :: '*' :: body ++ ['*', '/']) (Literal.docOfBody body), rest)
    | none => .error (.unterminatedComment, 0)
  else if c == '"' || c == '\x27' then
    (Literal.stringBody c .none 0 cs).map fun (value, text, rest) =>
      (.token (.string (String.ofList value)) (c :: text), rest)
  else if c == '\x60' then
    (Literal.templateBody [.template 0 false false] 0 cs).map fun (text, rest) =>
      (.token (.template (String.ofList text.dropLast)) (c :: text), rest)
  else if startsNumber (c :: cs) then
    let (text, rest) := Literal.numberBody (Literal.isHexNumber (c :: cs)) c cs
    .ok (.token (.number (String.ofList ((c :: text).filter (· != '_')))) (c :: text), rest)
  else if isWordStart c then
    let text := c :: cs.takeWhile isWordPart
    .ok (.token (.word (String.ofList text)) text, cs.dropWhile isWordPart)
  else if c == '/' && regexAllowed previous then
    (Literal.regexBody false false 0 cs).map fun (text, rest) =>
      let text := c :: text ++ rest.takeWhile Char.isAlpha
      (.token (.regex (String.ofList text)) text, rest.dropWhile Char.isAlpha)
  else
    match punct? (c :: cs) with
    | some (mark, text, rest) => .ok (.token (.punct mark) text, rest)
    | none => .error (.unexpected c, 0)

/-- The text of a mark is not empty and starts the input. -/
theorem punct?_append {cs text rest : List Char} {mark : Punct}
    (h : punct? cs = some (mark, text, rest)) :
    text ++ rest = cs ∧ text ≠ [] := by
  unfold punct? at h
  obtain ⟨⟨m, t⟩, _, hm⟩ := List.exists_of_findSome?_eq_some h
  simp only [Option.ite_none_right_eq_some, Option.some.injEq, Prod.mk.injEq, Bool.and_eq_true,
    Bool.not_eq_eq_eq_not, Bool.not_true] at hm
  obtain ⟨⟨hp, hne⟩, rfl, rfl, rfl⟩ := hm
  refine ⟨?_, by simpa [List.isEmpty_iff] using hne⟩
  obtain ⟨tail, rfl⟩ := List.isPrefixOf_iff_prefix.1 hp
  simp

/-- What a block comment takes off a text, behind its slash. -/
theorem blockComment_append {cs body rest : List Char} (h : cs.head? = some '*')
    (hbody : Literal.commentBody (cs.drop 1) = some (body, rest)) :
    '*' :: body ++ ['*', '/'] ++ rest = cs := by
  cases cs with
  | nil => cases h
  | cons d ds =>
    obtain rfl : d = '*' := Option.some.inj h
    simpa using Literal.commentBody_append hbody

/-- A lexeme is a nonempty piece of the text: its text followed by the rest is the text scanned. -/
theorem scan_append {previous : Option TokenKind} {c : Char} {cs rest : List Char} {lexeme : Lexeme}
    (h : scan previous c cs = .ok (lexeme, rest)) :
    lexeme.text ++ rest = c :: cs ∧ lexeme.text ≠ [] := by
  unfold scan at h
  split at h
  · cases h
    exact ⟨rfl, List.cons_ne_nil _ _⟩
  split at h
  · cases h
    exact ⟨congrArg (c :: ·) List.takeWhile_append_dropWhile, List.cons_ne_nil _ _⟩
  split at h
  · next hblock =>
    simp only [Bool.and_eq_true, beq_iff_eq] at hblock
    obtain ⟨rfl, hstar⟩ := hblock
    split at h
    · next body _ hbody =>
      cases h
      exact ⟨congrArg ('/' :: ·) (blockComment_append hstar hbody), List.cons_ne_nil _ _⟩
    · cases h
  split at h
  · obtain ⟨⟨value, body, rest'⟩, hbody, heq⟩ := exists_of_map_eq_ok h
    cases heq
    exact ⟨congrArg (c :: ·) (Literal.stringBody_append hbody), List.cons_ne_nil _ _⟩
  split at h
  · obtain ⟨⟨body, rest'⟩, hbody, heq⟩ := exists_of_map_eq_ok h
    cases heq
    exact ⟨congrArg (c :: ·) (Literal.templateBody_append hbody), List.cons_ne_nil _ _⟩
  split at h
  · cases h
    exact ⟨congrArg (c :: ·) (Literal.numberBody_append ..), List.cons_ne_nil _ _⟩
  split at h
  · cases h
    exact ⟨congrArg (c :: ·) List.takeWhile_append_dropWhile, List.cons_ne_nil _ _⟩
  split at h
  · obtain ⟨⟨body, rest'⟩, hbody, heq⟩ := exists_of_map_eq_ok h
    cases heq
    refine ⟨?_, List.cons_ne_nil _ _⟩
    simp [text, Literal.regexBody_append hbody]
  split at h
  · next hmark =>
    cases h
    exact punct?_append hmark
  · cases h

/-- Scanning shortens the text. -/
theorem length_scan_lt {previous : Option TokenKind} {c : Char} {cs rest : List Char}
    {lexeme : Lexeme}
    (h : scan previous c cs = .ok (lexeme, rest)) : rest.length < (c :: cs).length := by
  obtain ⟨happ, hne⟩ := scan_append h
  have := congrArg List.length happ
  have hpos := List.length_pos_iff.2 hne
  simp only [List.length_append] at this
  omega

end Lexeme

end Endpoints
