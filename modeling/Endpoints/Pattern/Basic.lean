import Endpoints.Text.Trim

/-! # File name patterns

In a pattern `?` stands for one character, `*` for any characters, `[a-z]` and `[!a-z]` for one
character inside or outside a set, and `**`, as a whole component of a path, for any number of
directories. `Pattern.parse` reads a pattern and `Pattern.accepts` compares it with a text.
-/

namespace Endpoints

/-- Characters of a set: all from `first` to `last`. -/
structure CharRange where
  first : Char
  last : Char
deriving DecidableEq, Repr

/-- A part of a pattern. -/
inductive PatternPart where
  | char (c : Char)
  | anyChar
  | within (ranges : List CharRange)
  | except (ranges : List CharRange)
  | anyText
  | anyDirectories
deriving DecidableEq, Repr

/-- A pattern: its parts, in order. -/
structure Pattern where
  parts : List PatternPart
deriving DecidableEq, Repr

/-- What is wrong with a pattern. -/
inductive PatternFault where
  | tooManyStars
  | partOfComponent
  | badRange
deriving DecidableEq, Repr

def PatternFault.message : PatternFault → String
  | tooManyStars => "wildcards are either regular `*` or recursive `**`"
  | partOfComponent => "recursive wildcards must form a single path component"
  | badRange => "invalid range pattern"

/-- A fault and its position, counted in characters. -/
structure PatternError where
  position : Nat
  fault : PatternFault
deriving DecidableEq, Repr

def PatternError.message (e : PatternError) : String :=
  "Pattern syntax error near position " ++ toString e.position ++ ": " ++ e.fault.message

namespace Pattern

/-- The ranges between brackets. -/
def ranges : List Char → List CharRange
  | a :: '-' :: b :: cs => ⟨a, b⟩ :: ranges cs
  | a :: cs => ⟨a, a⟩ :: ranges cs
  | [] => []

/-- A set in brackets, after the opening one: the part and the rest of the text. A bracket that
closes may also be the first character of the set. -/
def bracket? : List Char → Option (PatternPart × List Char)
  | '!' :: c :: cs =>
    (Text.cutAt? (· == ']') cs).map fun (set, rest) => (.except (ranges (c :: set)), rest)
  | c :: cs =>
    (Text.cutAt? (· == ']') cs).map fun (set, rest) => (.within (ranges (c :: set)), rest)
  | [] => none

/-- Adds `**` to the parts read so far, last one first. One that follows another has no effect,
unless that is the first part. -/
def addDirectories (done : List PatternPart) : List PatternPart :=
  match done with
  | .anyDirectories :: _ :: _ => done
  | _ => .anyDirectories :: done

/-- Reads the parts of a pattern. `before` is the character before the text, `done` what has been
read, last part first. Every step reads at least one character, so that the length of the text is
enough fuel. -/
def readParts (position : Nat) (before : Option Char) (done : List PatternPart) :
    (fuel : Nat) → List Char → Except PatternError (List PatternPart)
  | 0, _ => .ok done.reverse
  | _, [] => .ok done.reverse
  | fuel + 1, c :: cs =>
    if c == '?' then
      readParts (position + 1) (some c) (.anyChar :: done) fuel cs
    else if c == '*' then
      match cs with
      | '*' :: '*' :: _ => .error ⟨position + 2, .tooManyStars⟩
      | '*' :: rest =>
        if before.all (· == '/') then
          match rest with
          | '/' :: rest => readParts (position + 3) (some '/') (addDirectories done) fuel rest
          | [] => .ok (addDirectories done).reverse
          | _ => .error ⟨position + 2, .partOfComponent⟩
        else
          .error ⟨position - 1, .partOfComponent⟩
      | cs => readParts (position + 1) (some c) (.anyText :: done) fuel cs
    else if c == '[' then
      match bracket? cs with
      | some (part, rest) =>
        readParts (position + 1 + (cs.length - rest.length)) (some ']') (part :: done) fuel rest
      | none => .error ⟨position, .badRange⟩
    else
      readParts (position + 1) (some c) (.char c :: done) fuel cs

def parse (text : String) : Except PatternError Pattern :=
  let cs := text.toList
  (readParts 0 none [] cs.length cs).map Pattern.mk

/-- Whether some directories stand in the pattern. -/
def isRecursive (pattern : Pattern) : Bool :=
  pattern.parts.contains .anyDirectories

/-- The character that a part stands for, if it is a plain one. -/
def plainChar? : PatternPart → Option Char
  | .char c => some c
  | _ => none

/-- The text of a pattern that stands for one text only. -/
def literal? (pattern : Pattern) : Option String :=
  (pattern.parts.mapM plainChar?).map String.ofList

/-- Whether a character is in one of the ranges. -/
def inRanges (set : List CharRange) (c : Char) : Bool :=
  set.any fun range => range.first ≤ c && c ≤ range.last

/-- Whether a part that stands for one character accepts it. -/
def acceptsChar : PatternPart → Char → Bool
  | .char d, c => c == d
  | .anyChar, _ => true
  | .within set, c => inRanges set c
  | .except set, c => !inRanges set c
  | _, _ => false

/-- How the comparison of a text with the rest of a pattern ends. -/
inductive Outcome where
  | accepted
  | rejected
  /-- The text is too short, also for any attempt that starts later in it. -/
  | tooShort
deriving DecidableEq, Repr

/-- The first outcome of `attempt` on what is left of the text after some characters that is not a
rejection. If `wholeDirectories`, only complete directories or the whole text are taken off. -/
def attempts (attempt : List Char → Outcome) (wholeDirectories : Bool) : List Char → Outcome
  | [] => attempt []
  | c :: cs =>
    if wholeDirectories && c != '/' then
      attempts attempt wholeDirectories cs
    else
      match attempt cs with
      | .rejected => attempts attempt wholeDirectories cs
      | outcome => outcome

/-- Compares a text with parts of a pattern. -/
def compare : List PatternPart → List Char → Outcome
  | [], cs => if cs.isEmpty then .accepted else .rejected
  | .anyText :: parts, cs =>
    match compare parts cs with
    | .rejected => attempts (compare parts) false cs
    | outcome => outcome
  | .anyDirectories :: parts, cs =>
    match compare parts cs with
    | .rejected => attempts (compare parts) true cs
    | outcome => outcome
  | _ :: _, [] => .tooShort
  | part :: parts, c :: cs => if acceptsChar part c then compare parts cs else .rejected

/-- Whether a pattern stands for a text. Every part but a plain character may also stand for a
`/`. -/
def accepts (pattern : Pattern) (text : String) : Bool :=
  compare pattern.parts text.toList == .accepted

end Pattern

end Endpoints
