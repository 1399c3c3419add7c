import Endpoints.Doc.Basic
import Endpoints.Json.Reader

/-! # Validators

Tags such as `@minLength 3 too short` constrain the values of a type. The first word of the text is
the limit and the rest a message for values that break it.
-/

namespace Endpoints

/-- A constraint on values. -/
structure Validator where
  value : Json
  /-- What to tell about a value that breaks the constraint. -/
  message : Option String

instance : BEq Validator where
  beq a b := a.value == b.value && a.message == b.message

/-- Constraints by the name of their tag. -/
abbrev Validators := Dict Validator

namespace Validator

/-- The tags that constrain values. -/
def tags : List String :=
  ["minimum", "maximum", "minLength", "maxLength", "pattern", "minItems", "maxItems", "uniqueItems",
   "minDate", "maxDate"]

/-- The tags whose limit is a text. -/
def textTags : List String :=
  ["pattern", "minDate", "maxDate"]

/-- The constraint of a tag. The text of `@uniqueItems` is a message only. -/
def ofTag (tag : DocTag) : Validator :=
  let text := Text.trim tag.text.toList
  let (value, message) : Json × List Char :=
    if tag.name == "uniqueItems" then
      (.bool true, text)
    else
      let (limit, message) := (Text.cutAt? Text.isWhite text).getD (text, [])
      let limit := String.ofList limit
      (if textTags.contains tag.name then .string limit else Numeral.toJson limit,
        Text.trim message)
  { value, message := if message.isEmpty then none else some (String.ofList message) }

/-- The constraints of a documentation comment; of tags with one name the last counts. -/
def ofDoc : Option DocComment → Validators
  | none => .empty
  | some doc =>
    .ofList ((doc.tags.filter (tags.contains ·.name)).map fun tag => (tag.name, ofTag tag))

end Validator

namespace DocComment

/-- The JSON value of a tag that has a text. -/
def tagValue? (doc : Option DocComment) (name : String) : Option Json :=
  match doc.bind (·.tag? name) with
  | some text => if text.isEmpty then none else some (Json.ofText text)
  | none => none

/-- The description of a comment that may be missing. -/
def descriptionOf (doc : Option DocComment) : Option String :=
  doc.bind (·.description)

/-- Whether a comment that may be missing has a tag. -/
def anyTag (doc : Option DocComment) (name : String) : Bool :=
  doc.any (·.hasTag name)

end DocComment

end Endpoints
