import Endpoints.Proofs.Reading
import Endpoints.Syntax.Expr.Parser

/-!
# Parsing without places

Where a token stands in the source text, its line and its position, is noted in what is parsed and
decides nothing. `Cursor.bare` takes the places away. `Bare f x` says that the parser `x` then gives
what it gave before, up to the places in its value, which `f` takes away. Types and expressions have
no places in them.

A parser fails without places where it fails with them; which error it gives is not followed.
-/

namespace Endpoints

open MonadParser

/-! ## Tokens without places -/

namespace Token

/-- The token without its place in the text. -/
def bare (t : Token) : Token :=
  { t with line := 0, start := 0 }

@[simp] theorem bare_kind (t : Token) : t.bare.kind = t.kind := rfl

@[simp] theorem bare_freshLine (t : Token) : t.bare.freshLine = t.freshLine := rfl

@[simp] theorem bare_doc (t : Token) : t.bare.doc = t.doc := rfl

@[simp] theorem bare_line (t : Token) : t.bare.line = 0 := rfl

private theorem textOf_map_bare (tokens : List Token) :
    textOf (tokens.map bare) = textOf tokens := by
  cases tokens with
  | nil => rfl
  | cons first rest =>
    -- The texts of the tokens and the gaps between them are kept.
    rw [List.map_cons, textOf, textOf, List.foldl_map]
    rfl

end Token

namespace Cursor

/-- The tokens without their places in the text. -/
def bare (c : Cursor) : Cursor :=
  ⟨c.rest.map Token.bare, c.last.bare⟩

variable (c d : Cursor)

@[simp] theorem bare_next : c.bare.next = c.next.bare := by
  simp [bare, next]

@[simp] theorem bare_ahead (n : Nat) : c.bare.ahead n = (c.ahead n).bare := by
  simp only [bare, ahead, List.getD_eq_getElem?_getD, List.getElem?_map]
  cases c.rest[n]? <;> rfl

@[simp] theorem bare_head : c.bare.head = c.head.bare := by
  rw [← ahead_zero, bare_ahead, ahead_zero]

@[simp] theorem bare_isMark (mark : Punct) (n : Nat) : c.bare.isMark mark n = c.isMark mark n := by
  rw [isMark, bare_ahead]
  rfl

@[simp] theorem bare_word? (n : Nat) : c.bare.word? n = c.word? n := by
  rw [word?, bare_ahead]
  rfl

@[simp] theorem bare_isWord (text : String) (n : Nat) : c.bare.isWord text n = c.isWord text n := by
  rw [isWord, bare_word?]
  rfl

@[simp] theorem bare_hasWord (n : Nat) : c.bare.hasWord n = c.hasWord n := by
  rw [hasWord, bare_word?]
  rfl

@[simp] theorem bare_atEnd : c.bare.atEnd = c.atEnd := by
  rw [atEnd, bare_head]
  rfl

private theorem upTo_bare : c.bare.upTo d.bare = (c.upTo d).map Token.bare := by
  simp [upTo, bare]

@[simp] theorem textOf_upTo_bare :
    Token.textOf (c.bare.upTo d.bare) = Token.textOf (c.upTo d) := by
  rw [upTo_bare, Token.textOf_map_bare]

end Cursor

/-! ## Results of parsers -/

namespace Parser

variable {α β : Type} {c : Cursor}

/-- What a parser gives, unless it fails. -/
def result? (x : Parser α) (c : Cursor) : Option (α × Cursor) :=
  (run x c).toOption

@[simp] theorem result?_pure (a : α) : result? (pure a : Parser α) c = some (a, c) := rfl

@[simp] theorem result?_bind (x : Parser α) (f : α → Parser β) :
    result? (x >>= f) c = (result? x c).bind fun r => result? (f r.1) r.2 := by
  rw [result?, result?, run_bind]
  cases run x c <;> rfl

@[simp] theorem result?_ite (p : Prop) [Decidable p] (x y : Parser α) :
    result? (if p then x else y) c = if p then result? x c else result? y c :=
  apply_ite (result? · c) p x y

@[simp] theorem result?_cursor : result? (cursor : Parser Cursor) c = some (c, c) := rfl

@[simp] theorem result?_moveTo (d : Cursor) :
    result? (moveTo d : Parser Unit) c = some ((), d) := rfl

@[simp] theorem result?_reject (e : SyntaxError) : result? (reject e : Parser α) c = none := rfl

@[simp] theorem result?_enter (routine : Routine) (x : Parser α) :
    result? (enter routine x : Parser α) c = result? x c := rfl

@[simp] theorem result?_textBetween (start stop : Cursor) :
    result? (textBetween start stop : Parser String) c =
      some (Token.textOf (start.upTo stop), c) := rfl

@[simp] theorem result?_discard (x : Parser α) :
    result? (discard x) c = (result? x c).map fun r => ((), r.2) := by
  rw [result?, result?, run_discard]
  cases run x c <;> rfl

/-! ### Small parsers

Where a parser only asks what the next token is, what comes after it is an alternative. -/

@[simp] theorem result?_fail (what : Expected) : result? (fail what : Parser α) c = none := by
  simp only [fail, result?_bind, result?_cursor, Option.bind_some, result?_ite, result?_reject,
    result?_textBetween, ite_self]

@[simp] theorem result?_unbounded : result? (unbounded : Parser α) c = none := rfl

@[simp] theorem result?_advance : result? (advance : Parser Token) c = some (c.head, c.next) := rfl

@[simp] theorem result?_doc :
    result? (doc : Parser (Option DocComment)) c = some (c.head.doc.map DocComment.parse, c) := rfl

@[simp] theorem result?_textSince (start : Cursor) :
    result? (textSince start : Parser String) c = some (Token.textOf (start.upTo c), c) := rfl

@[simp high] theorem result?_advanceIf_bind (condition : Bool) (f : Unit → Parser α) :
    result? (advanceIf condition >>= f) c =
      if condition then result? (f ()) c.next else result? (f ()) c := by
  cases condition <;> rfl

@[simp] theorem result?_eat (mark : Punct) : result? (eat mark : Parser Bool) c =
    some (if c.isMark mark then (true, c.next) else (false, c)) := by
  rw [result?, run_eat]
  rfl

@[simp high] theorem result?_eat_bind (mark : Punct) (f : Bool → Parser α) :
    result? (eat mark >>= f) c =
      if c.isMark mark then result? (f true) c.next else result? (f false) c := by
  cases h : c.isMark mark <;> simp [h]

@[simp high] theorem result?_discard_eat_bind (mark : Punct) (f : Unit → Parser α) :
    result? (discard (eat mark) >>= f) c =
      if c.isMark mark then result? (f ()) c.next else result? (f ()) c := by
  cases h : c.isMark mark <;> simp [h]

@[simp high] theorem result?_eatWord_bind (text : String) (f : Bool → Parser α) :
    result? (eatWord text >>= f) c =
      if c.isWord text then result? (f true) c.next else result? (f false) c := by
  cases h : c.isWord text <;> simp [eatWord, h]

@[simp] theorem result?_expect (mark : Punct) : result? (expect mark : Parser Unit) c =
    if c.isMark mark then some ((), c.next) else none := by
  simp [expect]

@[simp high] theorem result?_expect_bind (mark : Punct) (f : Unit → Parser α) :
    result? (expect mark >>= f) c = if c.isMark mark then result? (f ()) c.next else none := by
  cases h : c.isMark mark <;> simp [h]

@[simp high] theorem result?_expectMore_bind (what : Expected) (f : Unit → Parser α) :
    result? (expectMore what >>= f) c = if c.atEnd then none else result? (f ()) c := by
  cases h : c.atEnd <;> simp [expectMore, h]

@[simp] theorem result?_identifier : result? (identifier : Parser String) c =
    c.word?.map fun text => (text, c.next) := by
  rw [identifier]
  cases h : c.word? <;> simp [h]

@[simp] theorem result?_memberName : result? (memberName : Parser String) c =
    (nameOf? c.head.kind).map fun text => (text, c.next) := by
  rw [memberName]
  cases h : nameOf? c.head.kind <;> simp [h]

/-! ### Parsers that do not look at places -/

/-- On the tokens without their places, `x` gives what `y` gives on the tokens, up to the places in
the value. -/
abbrev Strips (f : α → α) (x y : Parser α) : Prop :=
  ∀ c : Cursor, result? x c.bare = (result? y c).map (Prod.map f Cursor.bare)

/-- Places do not matter to the parser. -/
abbrev Bare (f : α → α) (x : Parser α) : Prop :=
  Strips f x x

@[simp] theorem map_ite (g : α → β) (p : Prop) [Decidable p] (x y : Option α) :
    Option.map g (if p then x else y) = if p then x.map g else y.map g :=
  apply_ite (Option.map g) p x y

section Rules

-- Both runs are brought to the form of one chain of results, with the places taken away at its end.
attribute [local simp] Option.bind_map Option.map_bind Function.comp_def

theorem bare_unbounded {f : α → α} : Bare f (unbounded : Parser α) := fun _ => rfl

theorem Strips.bind {x y : Parser α} {k l : α → Parser β} {f : α → α} {g : β → β}
    (h : Strips f x y) (hk : ∀ a, Strips g (k (f a)) (l a)) : Strips g (x >>= k) (y >>= l) := by
  intro c
  simp only [result?_bind, h c, Option.bind_map, Option.map_bind]
  exact Option.bind_congr fun r _ => hk r.1 r.2

theorem strips_cursor {k l : Cursor → Parser α} {f : α → α} {c : Cursor}
    (h : result? (k c.bare) c.bare = (result? (l c) c).map (Prod.map f Cursor.bare)) :
    result? (cursor >>= k) c.bare = (result? (cursor >>= l) c).map (Prod.map f Cursor.bare) := h

theorem bare_discard_advance : Bare id (discard advance : Parser Unit) := by
  intro c
  simp

theorem bare_identifier : Bare id (identifier : Parser String) := by
  intro c
  simp

section Parts

variable {part : Parser α} {f : α → α} {mark close : Punct} {text : String}

theorem bare_afterMark? (h : Bare f part) : Bare (Option.map f) (afterMark? mark part) := by
  intro c
  simp [afterMark?, h]

theorem bare_afterWord? (h : Bare f part) : Bare (Option.map f) (afterWord? text part) := by
  intro c
  simp [afterWord?, h]

/-- A list of parts up to a closing mark, with commas between them. -/
theorem bare_commaList (h : Bare f part) (b : Nat) :
    Bare (List.map f) (commaList close part b) := by
  induction b with
  | zero => exact bare_unbounded
  | succ b ih =>
    intro c
    -- One round reads a part and goes on, or ends at the closing mark.
    rw [commaList]
    simp [h, ih]

/-- Parts that each follow a mark. -/
theorem bare_afterEach (h : Bare f part) (b : Nat) :
    Bare (List.map f) (afterEach mark part b) := by
  induction b with
  | zero => exact bare_unbounded
  | succ b ih =>
    intro c
    rw [afterEach]
    simp [h, ih]

theorem bare_commaSeparated (h : Bare f part) (b : Nat) :
    Bare (List.map f) (commaSeparated part b) := by
  intro c
  simp [commaSeparated, h, bare_afterEach h]

end Parts

theorem bare_dottedName (b : Nat) : Bare id (dottedName b : Parser String) := by
  intro c
  simp [dottedName, bare_afterEach bare_identifier]

/-- The rest of a path: each further word stands behind a dot. -/
private theorem bare_pathRest (b : Nat) : Bare id (pathRest b : Parser (List String)) := by
  induction b with
  | zero => exact bare_unbounded
  | succ b ih =>
    intro c
    rw [pathRest]
    -- Both the dot and the word behind it are looked at before anything is taken.
    cases hdot : c.isMark .dot <;> cases hword : c.word? 1 <;> simp [hdot, hword, ih]

/-- Places do not matter to `modifiers` if they do not matter to the test of a word. -/
theorem bare_modifiers {add? : α → String → Cursor → Option α}
    (h : ∀ known word c, add? known word c.bare = add? known word c) (known : α) (b : Nat) :
    Bare id (modifiers add? known b : Parser α) := by
  induction b generalizing known with
  | zero => exact bare_unbounded
  | succ b ih =>
    intro c
    rw [modifiers]
    cases hmore : c.word?.bind (add? known · c) <;> simp [h, hmore, ih]

/-! ## Skipping -/

/-- The judge does not look at places. -/
def Unplaced (judge : Brackets.Judge) : Prop :=
  ∀ previous depth token next,
    judge previous depth (Token.bare token) (next.map Token.bare) = judge previous depth token next

theorem unplaced_group : Unplaced Brackets.group := fun _ _ _ _ => rfl

private theorem unplaced_typeLiteral : Unplaced Brackets.typeLiteral := fun _ _ _ _ => rfl

private theorem unplaced_rawExpression (lineEnds : Bool) :
    Unplaced (Brackets.rawExpression lineEnds) :=
  fun _ _ _ _ => rfl

theorem unplaced_statement : Unplaced Brackets.statement := by
  intro previous depth token next
  cases next <;> rfl

/-- What a scan with such a judge leaves, without places. -/
theorem left_bare {judge : Brackets.Judge} (h : Unplaced judge) (previous : Option TokenKind)
    (depth : Nat) (tokens : List Token) : left judge previous depth (tokens.map Token.bare) =
      (left judge previous depth tokens).map Token.bare := by
  -- Induction on the tokens: both scans take the same steps.
  induction tokens generalizing previous depth with
  | nil => rfl
  | cons token tokens ih =>
    rw [List.map_cons, left, left, List.head?_map, h]
    cases judge previous depth token tokens.head? <;> simp [ih]

private theorem bare_skip {judge : Brackets.Judge} (h : Unplaced judge) (depth : Nat) :
    Bare id (skip judge depth : Parser Unit) := by
  intro c
  rw [result?, result?, run_skip, run_skip, Cursor.bare, left_bare h]
  rfl

theorem bare_skipGroup : Bare id (skipGroup : Parser Unit) := bare_skip unplaced_group 0

theorem bare_skipStatement : Bare id (skipStatement : Parser Unit) := bare_skip unplaced_statement 0

private theorem bare_skipTypeLiteral : Bare id (skipTypeLiteral : Parser Unit) :=
  bare_skip unplaced_typeLiteral 1

private theorem bare_skipParens : Bare id (skipParens : Parser Unit) := by
  intro c
  simp [skipParens, bare_skipGroup]

private theorem bare_rawText (lineEnds : Bool) : Bare id (rawText lineEnds : Parser String) := by
  intro c
  simp [rawText, bare_skip (unplaced_rawExpression lineEnds)]

/-- Looking past a group does not look at places. -/
private theorem bare_startsFunction : Bare id (startsFunction : Parser Bool) := by
  intro c
  -- The look-ahead reads the whole tape, the last token included.
  have htokens : c.bare.tokens = c.tokens.map Token.bare := by simp [Cursor.tokens, Cursor.bare]
  have harrow : Brackets.arrowBehind c.bare.tokens 0 0 = Brackets.arrowBehind c.tokens 0 0 := by
    rw [arrowBehind_eq none, arrowBehind_eq none, htokens, List.drop_zero, List.drop_zero,
      left_bare unplaced_group, List.head?_map, Option.map_map]
    rfl
  simp [startsFunction, harrow]

/-! ## Types -/

private theorem bare_tupleLabel : Bare id (tupleLabel : Parser Unit) := by
  intro c
  simp [tupleLabel]

private theorem bare_signedReadonly : Bare id (signedReadonly : Parser Unit) := by
  intro c
  simp [signedReadonly]

private theorem bare_readonlyIsModifier (c : Cursor) :
    readonlyIsModifier c.bare = readonlyIsModifier c := by
  simp [readonlyIsModifier]

private theorem bare_typeParameterModifier? (known : Unit) (word : String) (c : Cursor) :
    typeParameterModifier? known word c.bare = typeParameterModifier? known word c := by
  simp [typeParameterModifier?]

end Rules

/-- Places do not matter to the parsers of types with the bound `b`. -/
structure BareTypes (b : Nat) : Prop where
  typeExpr : Bare id (Parser.typeExpr b)
  functionHead : Bare id (Parser.functionHead b)
  functionType : ∀ start,
    Strips id (Parser.functionType b start.bare) (Parser.functionType b start)
  returnType : Bare id (Parser.returnType b)
  typeParameters : Bare id (Parser.typeParameters b)
  typeParameter : Bare id (Parser.typeParameter b)
  typeArguments : Bare id (Parser.typeArguments b)
  unionType : Bare id (Parser.unionType b)
  intersectionType : Bare id (Parser.intersectionType b)
  postfixType : Bare id (Parser.postfixType b)
  suffixes : ∀ start type,
    Strips id (Parser.suffixes b start.bare type) (Parser.suffixes b start type)
  primaryType : Bare id (Parser.primaryType b)
  wordType : ∀ start word,
    Strips id (Parser.wordType b start.bare word) (Parser.wordType b start word)
  tupleElement : Bare id (Parser.tupleElement b)
  indexSignature : Bare id (Parser.indexSignature b)
  typeMembers : Bare id (Parser.typeMembers b)
  typeMembersRest : Bare id (Parser.typeMembersRest b)
  typeMember : ∀ readonly doc, Bare id (Parser.typeMember b readonly doc)
  signatureRest : Bare id (Parser.signatureRest b)

namespace BareTypes

attribute [local simp] Option.bind_map Option.map_bind Function.comp_def

variable {b : Nat}

/-- With the bound zero every parser of types fails. -/
theorem zero : BareTypes 0 where
  typeExpr := bare_unbounded
  functionHead := bare_unbounded
  functionType _ := bare_unbounded
  returnType := bare_unbounded
  typeParameters := bare_unbounded
  typeParameter := bare_unbounded
  typeArguments := bare_unbounded
  unionType := bare_unbounded
  intersectionType := bare_unbounded
  postfixType := bare_unbounded
  suffixes _ _ := bare_unbounded
  primaryType := bare_unbounded
  wordType _ _ := bare_unbounded
  tupleElement := bare_unbounded
  indexSignature := bare_unbounded
  typeMembers := bare_unbounded
  typeMembersRest := bare_unbounded
  typeMember _ _ := bare_unbounded
  signatureRest := bare_unbounded

section Step

variable (ih : BareTypes b)
include ih

theorem typeExpr_succ : Bare id (Parser.typeExpr (b + 1)) := by
  intro c
  rw [Parser.typeExpr]
  simp [ih.functionHead, ih.functionType, bare_startsFunction, ih.unionType, ih.typeExpr]

theorem functionHead_succ : Bare id (Parser.functionHead (b + 1)) := by
  intro c
  rw [Parser.functionHead]
  simp [ih.typeParameters, ih.functionHead]

theorem functionType_succ (start : Cursor) :
    Strips id (Parser.functionType (b + 1) start.bare) (Parser.functionType (b + 1) start) := by
  intro c
  rw [Parser.functionType, Parser.functionType]
  simp [bare_skipGroup, ih.returnType]

theorem returnType_succ : Bare id (Parser.returnType (b + 1)) := by
  intro c
  rw [Parser.returnType]
  simp [ih.typeExpr]

theorem typeParameters_succ : Bare id (Parser.typeParameters (b + 1)) := by
  intro c
  rw [Parser.typeParameters]
  simp [bare_commaList ih.typeParameter]

theorem typeParameter_succ : Bare id (Parser.typeParameter (b + 1)) := by
  intro c
  rw [Parser.typeParameter]
  simp [bare_modifiers bare_typeParameterModifier?, bare_afterWord? ih.typeExpr,
    bare_afterMark? ih.typeExpr]

theorem typeArguments_succ : Bare id (Parser.typeArguments (b + 1)) := by
  intro c
  rw [Parser.typeArguments]
  simp [bare_commaList ih.typeExpr]

theorem unionType_succ : Bare id (Parser.unionType (b + 1)) := by
  intro c
  rw [Parser.unionType]
  simp [ih.intersectionType, bare_afterEach ih.intersectionType]

theorem intersectionType_succ : Bare id (Parser.intersectionType (b + 1)) := by
  intro c
  rw [Parser.intersectionType]
  simp [ih.postfixType, bare_afterEach ih.postfixType]

theorem postfixType_succ : Bare id (Parser.postfixType (b + 1)) := by
  intro c
  rw [Parser.postfixType]
  simp [ih.primaryType, ih.suffixes]

theorem suffixes_succ (start : Cursor) (type : TypeExpr) :
    Strips id (Parser.suffixes (b + 1) start.bare type) (Parser.suffixes (b + 1) start type) := by
  intro c
  rw [Parser.suffixes, Parser.suffixes]
  simp [ih.typeExpr, ih.suffixes]

/-- A type by its first token. -/
theorem primaryType_succ : Bare id (Parser.primaryType (b + 1)) := by
  intro c
  rw [Parser.primaryType]
  refine strips_cursor ?_
  rw [Cursor.bare_head, Token.bare_kind]
  -- By the kind of the first token, which is the same without its place.
  split
  · simp [ih.typeExpr]
  -- A mapped type has no list of members, so both outcomes are followed.
  · refine Strips.bind ih.typeMembers (fun members => ?_) c
    cases members <;> intro d <;> simp
  · simp [bare_commaList ih.tupleElement]
  · cases hnumber : c.next.head.kind <;> simp [hnumber]
  all_goals simp [ih.wordType]

theorem wordType_succ (start : Cursor) (word : String) :
    Strips id (Parser.wordType (b + 1) start.bare word) (Parser.wordType (b + 1) start word) := by
  intro c
  rw [Parser.wordType, Parser.wordType]
  cases hkeyword : Keyword.ofWord? word <;> cases hdot : start.next.isMark .dot <;>
    simp [hdot, ih.postfixType, bare_dottedName, ih.typeArguments, bare_pathRest]

theorem tupleElement_succ : Bare id (Parser.tupleElement (b + 1)) := by
  intro c
  rw [Parser.tupleElement]
  simp [bare_tupleLabel, ih.typeExpr]

theorem indexSignature_succ : Bare id (Parser.indexSignature (b + 1)) := by
  intro c
  rw [Parser.indexSignature]
  simp [ih.typeExpr]

/-- The members of an object type in braces. -/
theorem typeMembers_succ : Bare id (Parser.typeMembers (b + 1)) := by
  intro c
  rw [Parser.typeMembers]
  by_cases hbrace : c.isMark .leftBrace = true
  · rw [result?_enter, result?_enter, result?_expect_bind, result?_expect_bind, Cursor.bare_isMark,
      if_pos hbrace, if_pos hbrace, Cursor.bare_next]
    -- A mapped type has no list of members, and its closing brace is then passed already.
    refine Strips.bind ih.typeMembersRest (fun members => ?_) c.next
    cases members <;> intro d <;> simp
  · simp [hbrace]

theorem typeMembersRest_succ : Bare id (Parser.typeMembersRest (b + 1)) := by
  intro c
  rw [Parser.typeMembersRest]
  simp [ih.typeMembersRest, bare_readonlyIsModifier, bare_signedReadonly, bare_skipTypeLiteral,
    ih.typeMember]

/-- One member of an object type. -/
theorem typeMember_succ (readonly : Bool) (doc : Option DocComment) :
    Bare id (Parser.typeMember (b + 1) readonly doc) := by
  intro c
  rw [Parser.typeMember]
  by_cases hbracket : c.isMark .leftBracket = true
  -- An index signature or a computed name; which of them is known only from its value.
  · refine strips_cursor ?_
    rw [Cursor.bare_isMark, if_pos hbracket, if_pos hbracket]
    refine Strips.bind ih.indexSignature (fun index => ?_) c
    cases index <;> intro d <;> simp [bare_skipGroup, ih.signatureRest]
  · simp [hbracket, ih.signatureRest, bare_afterMark? ih.typeExpr]

theorem signatureRest_succ : Bare id (Parser.signatureRest (b + 1)) := by
  intro c
  rw [Parser.signatureRest]
  simp [ih.typeParameters, bare_skipParens, bare_afterMark? ih.returnType]

end Step

/-- Places do not matter to the parsers of types. -/
theorem all (b : Nat) : BareTypes b := by
  induction b with
  | zero => exact zero
  | succ b ih =>
    -- Each parser with the bound `b + 1` calls parsers with the bound `b`.
    exact {
      typeExpr := typeExpr_succ ih, functionHead := functionHead_succ ih
      functionType := functionType_succ ih, returnType := returnType_succ ih
      typeParameters := typeParameters_succ ih, typeParameter := typeParameter_succ ih
      typeArguments := typeArguments_succ ih, unionType := unionType_succ ih
      intersectionType := intersectionType_succ ih, postfixType := postfixType_succ ih
      suffixes := suffixes_succ ih, primaryType := primaryType_succ ih
      wordType := wordType_succ ih, tupleElement := tupleElement_succ ih
      indexSignature := indexSignature_succ ih, typeMembers := typeMembers_succ ih
      typeMembersRest := typeMembersRest_succ ih, typeMember := typeMember_succ ih
      signatureRest := signatureRest_succ ih }

end BareTypes

/-! ## Expressions -/

/-- Places do not matter to the parsers of expressions with the bound `b`. -/
structure BareExprs (b : Nat) : Prop where
  expression : ∀ lineEnds, Bare id (Parser.expression b lineEnds)
  literal : Bare id (Parser.literal b)
  arrayItems : Bare id (Parser.arrayItems b)
  objectEntries : Bare id (Parser.objectEntries b)
  objectValue : ∀ key, Bare id (Parser.objectValue b key)

namespace BareExprs

attribute [local simp] Option.bind_map Option.map_bind Function.comp_def

variable {b : Nat}

private theorem bare_expressionEnds (lineEnds : Bool) (c : Cursor) :
    expressionEnds lineEnds c.bare = expressionEnds lineEnds c := by
  simp [expressionEnds]

private theorem bare_typeAssertion (b : Nat) : Bare id (typeAssertion b : Parser Unit) := by
  intro c
  simp [typeAssertion, (BareTypes.all b).typeExpr]

section Step

variable (ih : BareExprs b)
include ih

theorem expression_succ (lineEnds : Bool) : Bare id (Parser.expression (b + 1) lineEnds) := by
  intro c
  rw [Parser.expression]
  refine Strips.bind ih.literal (fun value => ?_) c
  cases value with
  | none => intro d; simp [bare_rawText]
  | some value => intro d; simp [bare_typeAssertion, bare_expressionEnds, bare_rawText]

/-- A literal by its first token. -/
theorem literal_succ : Bare id (Parser.literal (b + 1)) := by
  intro c
  rw [Parser.literal]
  refine strips_cursor ?_
  rw [Cursor.bare_head, Token.bare_kind]
  -- By the kind of the first token. A sign belongs to the number behind it.
  split
  · simp
  · simp
  · simp
  · cases hnumber : c.next.head.kind <;> simp [hnumber]
  · cases hnumber : c.next.head.kind <;> simp [hnumber]
  · simp
  · simp
  · simp
  · simp
  · simp [bare_pathRest]
  -- An array or object that is not read up to its closing bracket is no literal.
  · refine Strips.bind bare_discard_advance (fun _ => Strips.bind ih.arrayItems fun items => ?_) c
    cases items <;> intro d <;> simp
  · refine Strips.bind bare_discard_advance
      (fun _ => Strips.bind ih.objectEntries fun entries => ?_) c
    cases entries <;> intro d <;> simp
  · simp

theorem arrayItems_succ : Bare id (Parser.arrayItems (b + 1)) := by
  intro c
  rw [Parser.arrayItems]
  simp [ih.expression, ih.arrayItems]

/-- The entries of an object literal. -/
theorem objectEntries_succ : Bare id (Parser.objectEntries (b + 1)) := by
  intro c
  rw [Parser.objectEntries]
  by_cases hclose : c.isMark .rightBrace = true
  · simp [hclose]
  -- Without a key there is no entry, and the object is not read as a literal.
  cases hkey : nameOf? c.head.kind with
  | none => simp [hclose, hkey]
  | some key =>
    refine strips_cursor ?_
    rw [Cursor.bare_isMark, if_neg hclose, if_neg hclose, Cursor.bare_head, Token.bare_kind, hkey]
    refine Strips.bind bare_discard_advance
      (fun _ => Strips.bind (ih.objectValue key) fun value => ?_) c
    cases value <;> intro d <;> simp [ih.objectEntries]

theorem objectValue_succ (key : String) : Bare id (Parser.objectValue (b + 1) key) := by
  intro c
  rw [Parser.objectValue]
  simp [ih.expression]

end Step

/-- Places do not matter to the parsers of expressions. -/
theorem all (b : Nat) : BareExprs b := by
  induction b with
  | zero =>
    exact ⟨fun _ => bare_unbounded, bare_unbounded, bare_unbounded, bare_unbounded,
      fun _ => bare_unbounded⟩
  | succ b ih =>
    exact ⟨expression_succ ih, literal_succ ih, arrayItems_succ ih, objectEntries_succ ih,
      objectValue_succ ih⟩

end BareExprs

end Parser

end Endpoints
