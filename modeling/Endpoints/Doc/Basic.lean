import Endpoints.Text.Trim

/-! # Documentation comments

The text of a documentation comment is a description followed by tags. Every line loses the white
space around it, one star and one space; a line that then starts with `@` opens a tag, and other
lines belong to the tag before them or, before the first tag, to the description.
-/

namespace Endpoints

/-- A tag `@name text`. -/
structure DocTag where
  name : String
  /-- The text after the name; lines are joined by line breaks and empty ones left out. -/
  text : String
deriving DecidableEq, Repr

structure DocComment where
  /-- The text before the first tag. -/
  description : Option String
  tags : List DocTag
deriving DecidableEq, Repr

namespace DocComment

/-- A line without its decoration. -/
def lineText (line : List Char) : List Char :=
  let line := match Text.trim line with
    | '*' :: rest => rest
    | line => line
  let line := match line with
    | ' ' :: rest => rest
    | line => line
  Text.trimEnd line

/-- Text pieces on lines of their own, empty ones left out. -/
def joinLines (lines : List (List Char)) : String :=
  String.ofList (['\n'].intercalate (lines.filter (!·.isEmpty)))

/-- The tag of a line after its `@`, with the lines that belong to it. -/
def tagOf (line : List Char) (more : List (List Char)) : DocTag where
  name := String.ofList (line.takeWhile (!Text.isWhite ·))
  text := joinLines (Text.trim (line.dropWhile (!Text.isWhite ·)) :: more)

/-- Puts a line in front of the lines and tags that follow it. -/
def addLine (line : List Char) : List (List Char) × List DocTag → List (List Char) × List DocTag
  | (more, tags) =>
    match line with
    | '@' :: rest => ([], tagOf rest more :: tags)
    | line => (line :: more, tags)

/-- Reads the text between the delimiters of a documentation comment. -/
def parse (raw : String) : DocComment :=
  let lines := (Text.splitOn '\n' raw.toList).map lineText
  let (description, tags) := lines.foldr addLine ([], [])
  let description := Text.trim (['\n'].intercalate description)
  { description := if description.isEmpty then none else some (String.ofList description), tags }

/-- The text of the first tag of this name. -/
def tag? (doc : DocComment) (name : String) : Option String :=
  (doc.tags.find? (·.name == name)).map (·.text)

def hasTag (doc : DocComment) (name : String) : Bool :=
  doc.tags.any (·.name == name)

/-- Splits the text of a `@param` tag into the parameter's name and its description. A type in
braces may stand first; one that does not end makes the tag unreadable. -/
def paramOf? (text : String) : Option (List Char × List Char) := do
  let text := Text.trimStart text.toList
  let text ← match text with
    | '{' :: rest => (Text.cutAt? (· == '}') rest).map fun (_, rest) => Text.trimStart rest
    | text => some text
  match Text.cutAt? Text.isWhite text with
  | some (name, rest) => some (name, Text.trim rest)
  | none => some (text, [])

/-- The description of a parameter, by the first `@param` tag that names it; nothing if that is
empty. -/
def param? (doc : DocComment) (parameter : String) : Option String := do
  let params := (doc.tags.filter (·.name == "param")).filterMap (paramOf? ·.text)
  let (_, description) ← params.find? fun (name, _) => name == parameter.toList
  if description.isEmpty then none else some (String.ofList description)

end DocComment

end Endpoints
