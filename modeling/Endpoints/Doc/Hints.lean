import Endpoints.Doc.Basic

/-! # Format hints

`number` and `Date` leave open how precise a number is and whether a date has a time of day. Tags
beside a type expression decide it.
-/

namespace Endpoints

/-- The precision of a number. -/
inductive NumberFormat where
  | integer | long | float | double
deriving DecidableEq, Repr

/-- Whether a date has a time of day. -/
inductive DateFormat where
  | date | dateTime
deriving DecidableEq, Repr

/-- Refinements of a type expression. -/
structure Hints where
  number : Option NumberFormat
  date : Option DateFormat
deriving DecidableEq, Repr

namespace Hints

def none : Hints := ⟨.none, .none⟩

/-- The tags of number formats; the first one present counts. -/
def numberTags : List (String × NumberFormat) :=
  [("isInt", .integer), ("isLong", .long), ("isFloat", .float), ("isDouble", .double)]

/-- The tags of date formats; the first one present counts. -/
def dateTags : List (String × DateFormat) :=
  [("isDate", .date), ("isDateTime", .dateTime)]

/-- The hints of a documentation comment. -/
def ofDoc : Option DocComment → Hints
  | .none => none
  | some doc =>
    { number := (numberTags.find? fun (tag, _) => doc.hasTag tag).map (·.2)
      date := (dateTags.find? fun (tag, _) => doc.hasTag tag).map (·.2) }

/-- Takes from `other` what is not set. -/
def or (hints other : Hints) : Hints :=
  ⟨hints.number.or other.number, hints.date.or other.date⟩

end Hints

end Endpoints
