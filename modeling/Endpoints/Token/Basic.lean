/-! # Tokens

A token is a piece of source text that the declaration grammar sees: a word, a literal or a
punctuation mark. A token keeps the text it was read from (`raw`) and the white space and comments
before it (`gap`), so that the text of a run of tokens can be put together again from the tokens
alone.
-/

namespace Endpoints

inductive Punct where
  | ellipsis | strictEqual | strictUnequal | arrow | equal | unequal | and | or | coalesce | power
  | leftBrace | rightBrace | leftParen | rightParen | leftBracket | rightBracket | less | greater
  | comma | semicolon | colon | question | dot | assign | bar | ampersand | atSign | bang
  | plus | minus | star | slash | percent | caret | tilde | hash
deriving DecidableEq, Repr

namespace Punct

/-- The marks with their texts. Of two marks the one that the longer text names stands first. -/
def table : List (Punct × String) := [
  (ellipsis, "..."), (strictEqual, "==="), (strictUnequal, "!=="), (arrow, "=>"), (equal, "=="),
  (unequal, "!="), (and, "&&"), (or, "||"), (coalesce, "??"), (power, "**"),
  (leftBrace, "\x7b"), (rightBrace, "\x7d"), (leftParen, "("), (rightParen, ")"),
  (leftBracket, "["), (rightBracket, "]"), (less, "<"), (greater, ">"), (comma, ","),
  (semicolon, ";"), (colon, ":"), (question, "?"), (dot, "."), (assign, "="), (bar, "|"),
  (ampersand, "&"), (atSign, "@"), (bang, "!"), (plus, "+"), (minus, "-"), (star, "*"),
  (slash, "/"), (percent, "%"), (caret, "^"), (tilde, "~"), (hash, "#")]

def text (p : Punct) : String :=
  match table.find? (·.1 == p) with
  | some (_, text) => text
  | none => ""

/-- Whether the mark opens a bracket of any kind. -/
def opens : Punct → Bool
  | leftParen | leftBracket | leftBrace => true
  | _ => false

/-- Whether the mark closes a bracket of any kind. -/
def closes : Punct → Bool
  | rightParen | rightBracket | rightBrace => true
  | _ => false

end Punct

inductive TokenKind where
  /-- An identifier or keyword. -/
  | word (text : String)
  | string (value : String)
  /-- A template literal, by the text between the back quotes. -/
  | template (raw : String)
  /-- A number literal, by its text without underscores. -/
  | number (text : String)
  | regex (text : String)
  | punct (mark : Punct)
  | endOfFile
deriving DecidableEq, Repr

structure Token where
  kind : TokenKind
  /-- The source text of the token. -/
  raw : String
  /-- The white space and comments between the token before and this one. -/
  gap : String
  /-- The position of the first character, in bytes. -/
  start : Nat
  /-- The line of the first character, from 1. -/
  line : Nat
  /-- Whether the token before this one starts on an earlier line. -/
  freshLine : Bool
  /-- The text of the last documentation comment in the gap. -/
  doc : Option String
deriving DecidableEq, Repr

namespace Token

/-- The position after the last character, in bytes. -/
def stop (t : Token) : Nat :=
  t.start + t.raw.utf8ByteSize

/-- The source text of a run of tokens, from the start of the first to the end of the last. -/
def textOf : List Token → String
  | [] => ""
  | first :: rest => rest.foldl (fun text t => text ++ t.gap ++ t.raw) first.raw

end Token

end Endpoints
