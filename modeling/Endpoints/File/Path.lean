import Endpoints.Text.Trim

/-! # Paths

A `Path` keeps the text that it was written with; two texts with the same parts lead to the same
file. `Path.key` orders paths part by part.
-/

namespace Endpoints

/-- A part of a path. -/
inductive PathPart where
  | root
  /-- The mark for the working directory. It is a part only at the start of a path. -/
  | here
  | up
  | name (text : String)
deriving DecidableEq, Repr

/-- A text whose order is that of the parts: marks first, then names. -/
def PathPart.key : PathPart → String
  | root => "0"
  | here => "1"
  | up => "2"
  | name text => "3" ++ text

structure Path where
  text : String
deriving DecidableEq, Repr, Inhabited

namespace Path

/-! ## Parts -/

/-- The texts between the slashes of a path. -/
def pieces (p : Path) : List String :=
  (Text.splitOn '/' p.text.toList).map String.ofList

/-- Whether a path starts at the root. -/
def isAbsolute (p : Path) : Bool :=
  p.text.toList.head? == some '/'

/-- The part for a text between slashes that is not the first. -/
def part? (piece : String) : Option PathPart :=
  if piece.isEmpty || piece == "." then none
  else if piece == ".." then some .up
  else some (.name piece)

def parts (p : Path) : List PathPart :=
  match p.pieces with
  | [] => []
  | piece :: pieces =>
    let first :=
      if p.isAbsolute then some .root
      else if piece == "." then some .here
      else part? piece
    first.toList ++ pieces.filterMap part?

/-- The key by which paths are ordered. -/
def key (p : Path) : List String :=
  p.parts.map PathPart.key

/-- Whether a path is the working directory as such. -/
def isHere (p : Path) : Bool :=
  p.parts == [.here]

/-- The last name in a path. -/
def name? (p : Path) : Option String :=
  match p.parts.getLast? with
  | some (.name text) => some text
  | _ => none

/-- The part of a name after its last dot. A dot at the start does not count. -/
def extension? (p : Path) : Option String := do
  let (after, before) ← Text.cutAt? (· == '.') (← p.name?).toList.reverse
  if before.isEmpty then none else some (String.ofList after.reverse)

/-! ## New paths -/

/-- A path inside another one. -/
def join (base : Path) (inner : String) : Path :=
  if inner.toList.head? == some '/' || base.text.isEmpty then ⟨inner⟩
  else if base.text.toList.getLast? == some '/' then ⟨base.text ++ inner⟩
  else ⟨base.text ++ "/" ++ inner⟩

/-- Drops the texts at the end that are no parts of a path. The texts are given last one first. -/
def trimPieces : List String → List String
  | [] => []
  | [piece] => if piece.isEmpty then [] else [piece]
  | piece :: pieces => if (part? piece).isSome then piece :: pieces else trimPieces pieces

/-- The path of the directory around. -/
def parent? (p : Path) : Option Path :=
  match trimPieces p.pieces.reverse with
  | [] => none
  | _ :: outer =>
    match trimPieces outer with
    | [] => some ⟨if p.isAbsolute then "/" else ""⟩
    | pieces => some ⟨"/".intercalate pieces.reverse⟩

/-- The texts after those of `count` parts. -/
def dropParts : (count : Nat) → List String → List String
  | 0, pieces => pieces.dropWhile fun piece => (part? piece).isNone
  | _, [] => []
  | count + 1, piece :: pieces =>
    dropParts (if (part? piece).isSome then count else count + 1) pieces

/-- The path, seen from a directory; the path itself if it does not lead through that directory. -/
def relativeTo (base p : Path) : Path :=
  if base.parts.isEmpty || !base.parts.isPrefixOf p.parts then p
  else ⟨"/".intercalate (dropParts (base.parts.length - 1) (p.pieces.drop 1))⟩

end Path

end Endpoints
