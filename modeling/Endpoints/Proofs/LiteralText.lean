import Endpoints.Proofs.Placement
import Endpoints.Proofs.Quotation

/-!
# Literals are read as they are written

`Expr.display` writes a literal as text, with strings and keys in double quotes and commas between
the parts of arrays and objects. `Expr.IsLiteral` says which expressions are literals, nested to any
depth. The text of a literal consists of its tokens, and from these every part is read where it
stands, so that the whole literal is given back.
-/

namespace Endpoints

open Filter MonadParser

/-! ## Writing literals -/

/-- As many blanks. -/
def blanks (count : Nat) : String := String.ofList (List.replicate count ' ')

namespace Expr

/-- The expressions that are written by their values alone. -/
inductive IsLiteral : Expr → Prop
  | string (value : String) : IsLiteral (string value)
  | number {text : String} : isSignedNumeral text = true → IsLiteral (number text)
  | bool (value : Bool) : IsLiteral (bool value)
  | null : IsLiteral null
  | array {items : List Expr} : (∀ item ∈ items, IsLiteral item) → IsLiteral (array items)
  | object {entries : List (String × Expr)} :
      (∀ entry ∈ entries, IsLiteral entry.2) → IsLiteral (object entries)

mutual

/-- The text of a literal, with so many blanks after commas and colons. -/
def display (gap : Nat) : Expr → String
  | string value => quoted value
  | number text => text
  | bool value => if value then "true" else "false"
  | null => "null"
  | undefined => "undefined"
  | array items => "[" ++ ("," ++ blanks gap).intercalate (displayItems gap items) ++ "]"
  | object entries =>
    "\x7b" ++ ("," ++ blanks gap).intercalate (displayEntries gap entries) ++ "\x7d"
  | path text | raw text => text

def displayItems (gap : Nat) : List Expr → List String
  | [] => []
  | item :: items => display gap item :: displayItems gap items

def displayEntries (gap : Nat) : List (String × Expr) → List String
  | [] => []
  | (key, value) :: entries =>
    (quoted key ++ (":" ++ blanks gap) ++ display gap value) :: displayEntries gap entries

end

mutual

/-- The tokens of a literal. -/
def kinds : Expr → List TokenKind
  | string value => [.string value]
  | number text => TypeExpr.numeralKinds text
  | bool value => [.word (if value then "true" else "false")]
  | null => [.word "null"]
  | array items =>
    .punct .leftBracket ::
      ([.punct .comma].intercalate (kindsItems items) ++ [.punct .rightBracket])
  | object entries =>
    .punct .leftBrace ::
      ([.punct .comma].intercalate (kindsEntries entries) ++ [.punct .rightBrace])
  | undefined | path _ | raw _ => []

def kindsItems : List Expr → List (List TokenKind)
  | [] => []
  | item :: items => kinds item :: kindsItems items

def kindsEntries : List (String × Expr) → List (List TokenKind)
  | [] => []
  | (key, value) :: entries =>
    (.string key :: .punct .colon :: kinds value) :: kindsEntries entries

end

def displayEntry (gap : Nat) (entry : String × Expr) : String :=
  quoted entry.1 ++ (":" ++ blanks gap) ++ display gap entry.2

def kindsEntry (entry : String × Expr) : List TokenKind :=
  .string entry.1 :: .punct .colon :: kinds entry.2

private theorem displayItems_eq (gap : Nat) (items : List Expr) :
    displayItems gap items = items.map (display gap) := by
  induction items with
  | nil => rfl
  | cons item items ih => rw [displayItems, ih, List.map_cons]

/-- `displayEntries` writes the entries one by one. -/
private theorem displayEntries_eq (gap : Nat) (entries : List (String × Expr)) :
    displayEntries gap entries = entries.map (displayEntry gap) := by
  induction entries with
  | nil => rfl
  | cons entry entries ih =>
    obtain ⟨key, value⟩ := entry
    rw [displayEntries, ih, List.map_cons]
    rfl

private theorem kindsItems_eq (items : List Expr) : kindsItems items = items.map kinds := by
  induction items with
  | nil => rfl
  | cons item items ih => rw [kindsItems, ih, List.map_cons]

/-- `kindsEntries` lists the tokens of the entries one by one. -/
private theorem kindsEntries_eq (entries : List (String × Expr)) :
    kindsEntries entries = entries.map kindsEntry := by
  induction entries with
  | nil => rfl
  | cons entry entries ih =>
    obtain ⟨key, value⟩ := entry
    rw [kindsEntries, ih, List.map_cons]
    rfl

end Expr

/-! ## Their tokens -/

/-- A piece of text with blanks in front of it. -/
private theorem Lexes.after_blanks {text after : List Char} {kinds : List TokenKind}
    (h : Lexes text kinds after) (count : Nat) :
    Lexes ((blanks count).toList ++ text) kinds after := by
  rw [blanks, String.toList_ofList]
  induction count with
  | zero => exact h
  | succ count ih =>
    rw [List.replicate_succ, List.cons_append]
    exact ih.spaced

namespace Expr

variable {after : List Char} {gap : Nat}

/-- Where the text of a literal ends. -/
def Ends (after : List Char) : Prop :=
  ∃ c ∈ [',', ']', '}', ')'], ∃ rest, after = c :: rest

private theorem Ends.head? (h : Ends after) : ∀ d ∈ after.head?,
    Lexeme.isWordPart d = false ∧ d.isAlphanum = false ∧ d ≠ '_' ∧ d ≠ '.' := by
  obtain ⟨c, hc, rest, rfl⟩ := h
  refine List.forall_head?_cons ?_
  simp only [List.mem_cons, List.not_mem_nil, or_false] at hc
  rcases hc with rfl | rfl | rfl | rfl <;> decide

private theorem lexes_spacedMark {c : Char} {mark : Punct}
    (h : ∀ rest, Lexes [c] [.punct mark] rest) (gap : Nat) (rest : List Char) :
    Lexes (c :: (blanks gap).toList) [.punct mark] rest := by
  have hblanks := Lexes.after_blanks (@Lexes.nil rest) gap
  rw [List.append_nil] at hblanks
  exact (h _).append hblanks

/-- Parts with commas between them, in brackets. -/
private theorem lexes_parts {α : Type} {write : α → String} {kinds : α → List TokenKind}
    {parts : List α} {left right : Char} {leftMark rightMark : Punct}
    (hleft : ∀ rest, Lexes [left] [.punct leftMark] rest)
    (hright : Lexes [right] [.punct rightMark] after) (hend : Ends (right :: after))
    (h : ∀ a ∈ parts, ∀ rest, Ends rest → Lexes (write a).toList (kinds a) rest) :
    Lexes (left :: ((("," ++ blanks gap).intercalate (parts.map write)).toList ++ [right]))
      (.punct leftMark :: ([.punct .comma].intercalate (parts.map kinds) ++ [.punct rightMark]))
      after := by
  -- Between two parts stand a comma and blanks, which end whatever was written before them.
  have hcomma := Lexes.singleMark (by decide : (',', Punct.comma) ∈ singleMarks)
  have hparts : Lexes (("," ++ blanks gap).intercalate (parts.map write)).toList
      ([.punct .comma].intercalate (parts.map kinds)) (right :: after) := by
    rw [String.toList_intercalate, List.map_map, String.toList_append]
    exact .intercalate (fun rest => ⟨',', by decide, _, rfl⟩) h
      (fun _ _ _ => lexes_spacedMark hcomma gap _) hend
  exact (hleft _).append (hparts.append hright)

/-- The text of a literal consists of its tokens. -/
theorem IsLiteral.lexes {e : Expr} (h : e.IsLiteral) (gap : Nat) (hafter : Ends after) :
    Lexes (e.display gap).toList e.kinds after := by
  induction h generalizing after with
  | string value =>
    rw [display, kinds]
    exact lexes_quoted value after
  | number htext =>
    rw [display, kinds]
    exact TypeExpr.lexes_numeral htext fun d hd => (hafter.head? d hd).2
  | bool value =>
    rw [display, kinds]
    refine .word ?_ fun d hd => (hafter.head? d hd).1
    cases value <;> decide +kernel
  | null =>
    rw [display, kinds]
    exact .word (by decide +kernel) fun d hd => (hafter.head? d hd).1
  | @array items _ ih =>
    have htext : ((Expr.array items).display gap).toList =
        '[' :: ((("," ++ blanks gap).intercalate (items.map (display gap))).toList ++ [']']) := by
      simp [display, displayItems_eq, String.toList_append]
    rw [htext, kinds, kindsItems_eq]
    exact lexes_parts (.singleMark (by decide)) (.singleMark (by decide) _)
      ⟨']', by decide, _, rfl⟩ fun item hitem rest hrest => ih item hitem hrest
  | @object entries _ ih =>
    have htext : ((Expr.object entries).display gap).toList =
        '{' :: ((("," ++ blanks gap).intercalate (entries.map (displayEntry gap))).toList ++
          ['}']) := by
      simp [display, displayEntries_eq, String.toList_append]
    rw [htext, kinds, kindsEntries_eq]
    refine lexes_parts (.singleMark (by decide)) (.singleMark (by decide) _)
      ⟨'}', by decide, _, rfl⟩ fun entry hentry rest hrest => ?_
    -- An entry is its key, a colon with blanks, and the value.
    have hcolon := Lexes.singleMark (by decide : (':', Punct.colon) ∈ singleMarks)
    have hvalue := (lexes_spacedMark hcolon gap _).append (ih entry hentry hrest)
    have hpair := (lexes_quoted entry.1 _).append hvalue
    simpa [displayEntry, kindsEntry, String.toList_append] using hpair

end Expr

/-! ## Reading them -/

/-- The parts of a literal in brackets, where `list` reads a part and goes on after a comma. -/
theorem reads_parts {α : Type} {list : Nat → Parser (Option (List α))}
    {kinds : α → List TokenKind} {close : Punct} {parts : List α} (hclose : close ≠ .comma)
    (hnil : ∀ b c, c.isMark close = true → Parser.run (list (b + 1)) c = .ok (some [], c))
    (hpart : ∀ a ∈ parts, ∀ᶠ b in atTop, ∀ ⦃c c'⦄, c.Shows (kinds a) c' →
      c'.At [.comma, close] → Parser.run (list (b + 1)) c = Parser.run (do
        if ← Parser.eat .comma then return (← list b).map (a :: ·) else return some [a]) c') :
    ∀ᶠ b in atTop, Reads (list b) ([.punct .comma].intercalate (parts.map kinds)) [close]
      (some parts) := by
  -- By induction on the parts after the first one: a comma leads on, and the bracket ends the list.
  cases parts with
  | nil =>
    refine eventually_of_add 1 (.of_forall fun b c d hshows hd => ?_)
    obtain rfl := hshows.eq
    obtain ⟨_, hmem, hkind⟩ := hd
    obtain rfl := List.mem_singleton.1 hmem
    exact hnil b c (by simp [Cursor.isMark, hkind])
  | cons a parts =>
    rw [List.map_cons, intercalate_cons, List.flatMap_map]
    induction parts generalizing a with
    | nil =>
      refine eventually_of_add 1 ?_
      filter_upwards [hpart a List.mem_cons_self] with b hb c d hshows hd
      rw [List.flatMap_nil, List.append_nil] at hshows
      have hcomma := hd.isMark (by simpa using hclose.symm : Punct.comma ∉ [close])
      rw [hb hshows (hd.mono (by simp))]
      simp [hcomma]
    | cons next parts ih =>
      have hlater := ih next fun a ha => hpart a (List.mem_cons_of_mem _ ha)
      refine eventually_of_add 1 ?_
      filter_upwards [hpart a List.mem_cons_self, hlater] with b hb hlater c d hshows hd
      obtain ⟨c', hfirst, hrest⟩ := hshows.split
      rw [List.flatMap_cons, List.cons_append] at hrest
      have hlater := hlater hrest.uncons.2 hd
      rw [hb hfirst (hrest.at (by simp))]
      simp [hrest.isMark, hlater]

namespace Placed

/-- An array is read from its tokens if its items are. -/
private theorem array {items : List Expr} (h : ∀ item ∈ items, Placed item.kinds item) :
    Placed (Expr.array items).kinds (.array items) := by
  -- The items are read with a smaller bound than the array.
  have hitems : ∀ᶠ b in atTop, Reads (Parser.arrayItems b)
      ([.punct .comma].intercalate (items.map Expr.kinds)) [.rightBracket] (some items) := by
    refine reads_parts (by decide) (fun b c hc => ?_) fun item hitem => ?_
    · rw [Parser.arrayItems]
      simp [hc]
    · have hplaced := h item hitem
      filter_upwards [hplaced.reads false] with b hb c c' hshows hd
      have hread := hb hshows (hd.mono (by decide))
      have hbracket : c.isMark .rightBracket = false := hplaced.isMark hshows rfl
      have hellipsis : c.isMark .ellipsis = false := hplaced.isMark hshows rfl
      rw [Parser.arrayItems]
      simp [hbracket, hellipsis, hplaced.atEnd hshows, hread]
  rw [Expr.kinds, Expr.kindsItems_eq]
  refine of_literal ⟨_, _, rfl, rfl⟩ (eventually_of_add 1 ?_)
  filter_upwards [hitems] with b hb c d hshows hd
  obtain ⟨c', hinner, hend⟩ := hshows.uncons.2.split
  have hread := hb hinner (hend.at (by decide))
  rw [Parser.literal]
  simp [hshows.kind_eq, hread, hend.isMark, hend.uncons.2.eq]

/-- An object is read from its tokens if its values are. -/
private theorem object {entries : List (String × Expr)}
    (h : ∀ entry ∈ entries, Placed entry.2.kinds entry.2) :
    Placed (Expr.object entries).kinds (.object entries) := by
  have hentries : ∀ᶠ b in atTop, Reads (Parser.objectEntries b)
      ([.punct .comma].intercalate (entries.map Expr.kindsEntry)) [.rightBrace]
      (some entries) := by
    refine reads_parts (by decide) (fun b c hc => ?_) fun entry hentry => ?_
    · rw [Parser.objectEntries]
      simp [hc]
    · -- The value is read by a bound that is one smaller, as it stands behind the key.
      refine eventually_of_add 1 ?_
      filter_upwards [(h entry hentry).reads false] with b hb c c' hshows hd
      obtain ⟨hkey, hcolon⟩ := hshows.uncons
      have hread := hb hcolon.uncons.2 (hd.mono (by decide))
      have hbrace : c.isMark .rightBrace = false := by simp [Cursor.isMark, hkey.kind_eq]
      have hvalue : Parser.run (Parser.objectValue (b + 1) entry.1) c.next =
          .ok (some entry.2, c') := by
        rw [Parser.objectValue]
        simp [hcolon.isMark, hread]
      rw [Parser.objectEntries]
      simp [hbrace, hkey.kind_eq, Parser.nameOf?, hvalue]
  rw [Expr.kinds, Expr.kindsEntries_eq]
  refine of_literal ⟨_, _, rfl, rfl⟩ (eventually_of_add 1 ?_)
  filter_upwards [hentries] with b hb c d hshows hd
  obtain ⟨c', hinner, hend⟩ := hshows.uncons.2.split
  have hread := hb hinner (hend.at (by decide))
  rw [Parser.literal]
  simp [hshows.kind_eq, hread, hend.isMark, hend.uncons.2.eq]

/-- A word with a value of its own. -/
theorem word {text : String} {e : Expr}
    (h : (text, e) ∈ [("true", .bool true), ("false", .bool false), ("null", Expr.null)]) :
    Placed [.word text] e := by
  refine of_literal ⟨_, _, rfl, rfl⟩ (eventually_of_add 1 (.of_forall fun b c d hshows hd => ?_))
  obtain ⟨hword, hend⟩ := hshows.uncons
  simp only [List.mem_cons, Prod.mk.injEq, List.not_mem_nil, or_false] at h
  rw [Parser.literal]
  rcases h with ⟨rfl, rfl⟩ | ⟨rfl, rfl⟩ | ⟨rfl, rfl⟩ <;> simp [hword.kind_eq, hend.eq]

end Placed

/-- Every literal is read from its tokens. -/
theorem Expr.IsLiteral.placed {e : Expr} (h : e.IsLiteral) : Placed e.kinds e := by
  induction h with
  | string value => exact .string value
  | @number text _ => exact .number text
  | bool value => cases value <;> exact .word (by simp)
  | null => exact .word (by simp)
  | array _ ih => exact .array ih
  | object _ ih => exact .object ih

/-- A literal is given back by parsing the class `@D(…) class C {}` with its text as the argument of
the decorator: there is one statement, the class, with one decorator, whose only argument is the
literal. -/
theorem parse_literal_argument {e : Expr} (h : e.IsLiteral) (gap : Nat) :
    SourceFile.parse ("@D(" ++ e.display gap ++ ") class C \x7b\x7d") =
      .ok ⟨[.classDecl ⟨"C", [⟨"D", [e], [], 1⟩], [], none, [], [], none, 1, false⟩], []⟩ := by
  have hstart : "@D(" = "@" ++ "D" ++ "(" := by decide
  rw [hstart]
  exact h.placed.parse_decorated (by decide +kernel) (h.lexes gap ⟨')', by decide, _, rfl⟩)

/-- An object with an array, an empty object, a negative number, and strings that need escapes. -/
theorem nested_literal_parsed :
    let e : Expr := .object [
      ("a\"b", .array [.number "-10", .bool true, .object [], .array []]),
      ("", .object [("line\n", .string "tab\t\\"), ("none", .null)])]
    e.IsLiteral ∧
      e.display 1 = "\x7b\"a\\\"b\": [-10, true, \x7b\x7d, []], " ++
        "\"\": \x7b\"line\\n\": \"tab\\t\\\\\", \"none\": null\x7d\x7d" ∧
      SourceFile.parse ("@D(" ++ e.display 1 ++ ") class C \x7b\x7d") =
        .ok ⟨[.classDecl ⟨"C", [⟨"D", [e], [], 1⟩], [], none, [], [], none, 1, false⟩], []⟩ := by
  intro e
  -- That it is a literal is shown from the inside out.
  have hinner : (Expr.array [.number "-10", .bool true, .object [], .array []]).IsLiteral :=
    .array (by simpa using ⟨.number (by decide +kernel), .bool true,
      .object (List.forall_mem_nil _), .array (List.forall_mem_nil _)⟩)
  have hlast : (Expr.object [("line\n", .string "tab\t\\"), ("none", .null)]).IsLiteral :=
    .object (by simpa using ⟨.string _, .null⟩)
  have hliteral : e.IsLiteral := .object (by simpa using ⟨hinner, hlast⟩)
  exact ⟨hliteral, by decide +kernel, parse_literal_argument hliteral 1⟩

end Endpoints
