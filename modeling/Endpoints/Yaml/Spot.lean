import Endpoints.Yaml.Character

/-! # Positions in YAML text

A `Spot` is what is left of a text, with the line and the column where it starts.
-/

namespace Endpoints.Yaml

/-- A position in a text. -/
structure Spot where
  rest : List Char
  offset : Nat
  line : Nat
  column : Nat

namespace Spot

def ofText (text : String) : Spot := ⟨text.toList, 0, 0, 0⟩

/-- The position after some characters of the line. -/
def skip (n : Nat) (s : Spot) : Spot :=
  { s with rest := s.rest.drop n, offset := s.offset + n, column := s.column + n }

/-- The position after an end of line, which may have two characters. -/
def nextLine (s : Spot) : Spot :=
  match s.rest with
  | '\r' :: '\n' :: rest => ⟨rest, s.offset + 2, s.line + 1, 0⟩
  | _ :: rest => ⟨rest, s.offset + 1, s.line + 1, 0⟩
  | [] => s

/-- Whether a mark of three characters between documents stands here. -/
def isMark (mark : Char) (s : Spot) : Bool :=
  s.column == 0 &&
  match s.rest with
  | a :: b :: c :: rest => a == mark && b == mark && c == mark && endsWord rest
  | _ => false

/-- Whether documents are divided here. -/
def isDivider (s : Spot) : Bool :=
  s.isMark '-' || s.isMark '.'

end Spot

/-! ## Folding -/

/-- The character that an end of line stands for. -/
def lineEnd (c : Char) : Char :=
  if c == '\u2028' || c == '\u2029' then c else '\n'

/-- White space between two words. -/
structure Gap where
  blanks : List Char
  breaks : List Char

namespace Gap

def empty : Gap := ⟨[], []⟩

/-- What a gap becomes in a text. One end of line is a space, and of several the first does not
count. -/
def fold (g : Gap) : List Char :=
  match g.breaks with
  | [] => g.blanks
  | ['\n'] => [' ']
  | '\n' :: breaks => breaks
  | breaks => breaks

/-- Reads a gap. Blanks at the start of a line do not count, and tabs must not stand there before
column `indent`. Every step reads a character, so that the number of characters is enough fuel. -/
def read? (indent : Nat) (g : Gap) : (fuel : Nat) → Spot → Option (Gap × Spot)
  | 0, s => some (g, s)
  | fuel + 1, s =>
    match s.rest with
    | [] => some (g, s)
    | c :: _ =>
      if isBlank c then
        if g.breaks.isEmpty then
          read? indent { g with blanks := g.blanks ++ [c] } fuel (s.skip 1)
        else if c == '\t' && s.column < indent then
          none
        else
          read? indent g fuel (s.skip 1)
      else if isBreak c then
        read? indent { g with breaks := g.breaks ++ [lineEnd c] } fuel s.nextLine
      else
        some (g, s)

end Gap

end Endpoints.Yaml
