import Endpoints.Proofs.RoundTrip

/-!
# Expressions in their places

A literal expression stands as the argument of a decorator, as the value of an enum member, or
inside another literal. `Placed` says that it is read in all these places; this follows from how
`Parser.literal` reads it, since what stands behind it there ends an expression. A file with one
such statement is then read from its text.
-/

namespace Endpoints

open Filter MonadParser Endpoints.Parser Cursor

/-! ## Literals as expressions -/

/-- The marks that can stand behind an expression in brackets. -/
def expressionMarks : List Punct := [.comma, .rightParen, .rightBracket, .rightBrace]

/-- Whether a literal can start with the token. -/
def opensLiteral : TokenKind → Bool
  | .string _ | .number _ | .word _ => true
  | .punct mark => mark = .minus || mark = .leftBracket || mark = .leftBrace
  | _ => false

/-- The expression is read from these tokens where an expression can stand. -/
structure Placed (kinds : List TokenKind) (e : Expr) : Prop where
  opening : ∃ kind rest, kinds = kind :: rest ∧ opensLiteral kind = true
  reads : ∀ lineEnds, ∀ᶠ b in atTop,
    Reads (Parser.expression b lineEnds) kinds expressionMarks e

namespace Placed

variable {kinds : List TokenKind} {e : Expr} {c d : Cursor}

theorem isMark (h : Placed kinds e) (hshows : c.Shows kinds d) {mark : Punct}
    (hmark : opensLiteral (.punct mark) = false) : c.isMark mark = false := by
  obtain ⟨kind, rest, rfl, hopen⟩ := h.opening
  rw [Cursor.isMark, ahead_zero, hshows.kind_eq]
  refine beq_false_of_ne ?_
  rintro rfl
  exact absurd hopen (by rw [hmark]; decide)

theorem atEnd (h : Placed kinds e) (hshows : c.Shows kinds d) : c.atEnd = false := by
  obtain ⟨kind, rest, rfl, hopen⟩ := h.opening
  rw [Cursor.atEnd, hshows.kind_eq]
  refine beq_false_of_ne ?_
  rintro rfl
  exact absurd hopen (by decide)

/-- What is read as a literal is an expression: neither a type assertion nor a longer expression
goes on at a closing mark or a comma. -/
theorem of_literal (hopening : ∃ kind rest, kinds = kind :: rest ∧ opensLiteral kind = true)
    (h : ∀ᶠ b in atTop, Reads (literal b) kinds expressionMarks (some e)) :
    Placed kinds e := by
  refine ⟨hopening, fun lineEnds => eventually_of_add 1 ?_⟩
  filter_upwards [h] with b hb c d hshows hd
  have hread := hb hshows hd
  obtain ⟨mark, hmem, hkind⟩ := hd
  -- Each of the marks ends an expression.
  have hends : expressionEnds lineEnds d = true := by
    rw [expressionEnds, hkind]
    simp only [expressionMarks, List.mem_cons, List.not_mem_nil, or_false] at hmem
    rcases hmem with rfl | rfl | rfl | rfl <;> simp [Punct.closes]
  rw [Parser.expression]
  simp [hread, typeAssertion, isWord, word?, hkind, hends]

/-- A number, with a sign or without. -/
theorem number (text : String) : Placed (TypeExpr.numeralKinds text) (.number text) := by
  refine of_literal ?_ (eventually_of_add 1 (.of_forall fun b c d hshows hd => ?_))
  · unfold TypeExpr.numeralKinds
    split
    · exact ⟨_, _, rfl, rfl⟩
    · exact ⟨_, _, rfl, rfl⟩
  -- A negative number is two tokens, the others are one.
  unfold TypeExpr.numeralKinds at hshows
  split at hshows
  · next digits heq =>
    obtain ⟨hminus, hnumber⟩ := hshows.uncons
    obtain ⟨hnumber, hend⟩ := hnumber.uncons
    have htext : "-" ++ String.ofList digits = text := by
      rw [← String.toList_inj, heq]
      simp
    rw [literal]
    simp [hminus.kind_eq, hnumber.kind_eq, hend.eq, htext]
  · obtain ⟨hnumber, hend⟩ := hshows.uncons
    rw [literal]
    simp [hnumber.kind_eq, hend.eq]

theorem string (value : String) : Placed [.string value] (.string value) := by
  refine of_literal ⟨_, _, rfl, rfl⟩ (eventually_of_add 1 (.of_forall fun b c d hshows hd => ?_))
  obtain ⟨hstring, hend⟩ := hshows.uncons
  rw [literal]
  simp [hstring.kind_eq, hend.eq]

end Placed

/-! ## Files with one statement -/

/-- A file whose tokens are read as one statement. -/
theorem parse_statement {source : String} {kind : TokenKind} {kinds : List TokenKind}
    {statement : Statement} (hlexes : Lexes source.toList (kind :: kinds) [])
    (hkind : kind = .punct .atSign ∨ ∃ word, kind = .word word)
    (h : ∀ᶠ b in atTop, ∀ ⦃c d⦄, c.Shows (kind :: kinds) d →
      Parser.run (Parser.statement b) c = .ok (([statement], []), d)) :
    SourceFile.parse source = .ok ⟨[statement], []⟩ := by
  obtain ⟨stream, htext, htokens, hlast⟩ := hlexes.exists_stream
  have hshows : stream.cursor.Shows (kind :: kinds) ⟨[], stream.last⟩ :=
    ⟨stream.tokens, htokens, by rw [List.append_nil]; rfl⟩
  -- With a large bound, the file is one statement and then the end.
  have hfile : ∀ᶠ b in atTop, Parser.run (sourceFile b) stream.cursor =
      .ok (⟨[statement], []⟩, ⟨[], stream.last⟩) := by
    refine eventually_of_add 2 ?_
    filter_upwards [(tendsto_add_atTop_nat 1).eventually h] with b hb
    have hstart : stream.cursor.atEnd = false ∧ stream.cursor.isMark .semicolon = false ∧
        stream.cursor.isMark .rightBrace = false ∧ stream.cursor.isMark .rightParen = false ∧
        stream.cursor.isMark .rightBracket = false := by
      rcases hkind with rfl | ⟨word, rfl⟩ <;> simp [Cursor.atEnd, Cursor.isMark, hshows.kind_eq]
    have hend : Parser.run (statements (b + 1) false) ⟨[], stream.last⟩ =
        .ok (([], []), ⟨[], stream.last⟩) := by
      rw [statements]
      simp [Cursor.atEnd, Cursor.head, hlast]
    rw [sourceFile, run_bind, statements]
    simp [hstart, hb hshows, hend]
  obtain ⟨b, hrun, hb⟩ := (hfile.and (eventually_ge_atTop stream.cursor.bound)).exists
  -- The bound that is used gives what a large one gives.
  have hhas : (⟨source, stream, []⟩ : Watch).Has stream.cursor :=
    ⟨TokenStream.ofText_tiles htext, le_rfl⟩
  have hlarge := (sourceFile_safe hb hb hhas).1
  have hused := (sourceFile_safe hb le_rfl hhas).1
  rw [hlarge, Except.ok.injEq, hrun] at hused
  rw [SourceFile.parse, htext]
  simp only [SourceFile.ofTokens]
  rw [← hused]

/-! ## Words and marks of a statement -/

/-- The marks of one character that are not the start of a longer one. -/
def singleMarks : List (Char × Punct) :=
  [('@', .atSign), ('(', .leftParen), (')', .rightParen), ('[', .leftBracket), (']', .rightBracket),
    ('{', .leftBrace), ('}', .rightBrace), (',', .comma), (':', .colon), (';', .semicolon),
    ('-', .minus)]

namespace Lexes

variable {text after : List Char} {kinds : List TokenKind}

theorem singleMark {c : Char} {mark : Punct} (h : (c, mark) ∈ singleMarks) (after : List Char) :
    Lexes [c] [.punct mark] after := by
  simp only [singleMarks, List.mem_cons, Prod.mk.injEq, List.not_mem_nil, or_false] at h
  rcases h with ⟨rfl, rfl⟩ | ⟨rfl, rfl⟩ | ⟨rfl, rfl⟩ | ⟨rfl, rfl⟩ | ⟨rfl, rfl⟩ | ⟨rfl, rfl⟩ |
    ⟨rfl, rfl⟩ | ⟨rfl, rfl⟩ | ⟨rfl, rfl⟩ | ⟨rfl, rfl⟩ | ⟨rfl, rfl⟩ <;>
    exact .mark (by decide +kernel) rfl rfl

private theorem behindWord {word : String} (hword : isName word = true)
    (h : Lexes text kinds after) :
    Lexes (word.toList ++ ' ' :: text) (.word word :: kinds) after :=
  .append (.word hword (List.forall_head?_cons (by decide))) h.spaced

private theorem behindAssign (h : Lexes text kinds after) :
    Lexes ('=' :: ' ' :: text) (.punct .assign :: kinds) after :=
  .append (.mark (by decide +kernel) rfl rfl) h.spaced

end Lexes

/-! ## Arguments of decorators -/

/-- The tokens of an empty class with a decorator that has one argument. -/
def decoratedKinds (name : String) (kinds : List TokenKind) : List TokenKind :=
  .punct .atSign :: .word name :: .punct .leftParen :: (kinds ++
    [.punct .rightParen, .word "class", .word "C", .punct .leftBrace, .punct .rightBrace])

namespace Placed

variable {kinds : List TokenKind} {e : Expr}

/-- `Parser.decorator` reads a name with one argument. -/
private theorem run_decorator (h : Placed kinds e) (name : String) :
    ∀ᶠ b in atTop, ∀ ⦃c d⦄ (more : List TokenKind),
      c.Shows (.punct .atSign :: .word name :: .punct .leftParen ::
        (kinds ++ .punct .rightParen :: more)) d →
      ∃ c', c'.Shows more d ∧
        Parser.run (Parser.decorator b) c = .ok (⟨name, [e], [], 1⟩, c') := by
  filter_upwards [h.reads false, eventually_gt_atTop 1] with b hb hlarge c d more hshows
  obtain ⟨hat, hshows⟩ := hshows.uncons
  obtain ⟨hname, hshows⟩ := hshows.uncons
  have hparen := hshows.isMark
  have hless : c.next.next.isMark .less = false := by simp [Cursor.isMark, hshows.kind_eq]
  have hdot : c.next.next.isMark .dot = false := by simp [Cursor.isMark, hshows.kind_eq]
  obtain ⟨c', hargument, hclose⟩ := hshows.uncons.2.split
  -- The argument is the only one, as a parenthesis and no comma stands behind it.
  have hread : Reads (decoratorArgument b) kinds [.comma, .rightParen] e := by
    intro c d hshows hd
    have hexpression := hb hshows (hd.mono (by decide))
    simp [decoratorArgument, expectMore, h.atEnd hshows, hexpression]
  have hlist := @Reads.commaList _ _ (fun _ => kinds) b .rightParen [e] (by decide)
    (by simpa using hread) (fun _ _ c d hshows => h.isMark hshows rfl) hlarge
  have harguments := hlist (by simpa using hargument) (hclose.at (by decide))
  obtain ⟨b, rfl⟩ := Nat.exists_eq_add_one.2 (Nat.zero_lt_of_lt hlarge)
  refine ⟨c'.next, hclose.uncons.2, ?_⟩
  simp [Parser.decorator, dottedName, identifier, afterEach, word?,
    decoratorTypeArguments, decoratorArguments, hname.kind_eq, hdot, hless, hparen,
    harguments, run_expect hclose.isMark, hat.line_eq]

/-- `Parser.statement` reads an empty class with such a decorator. -/
private theorem run_decorated (h : Placed kinds e) (name : String) :
    ∀ᶠ b in atTop, ∀ ⦃c d⦄, c.Shows (decoratedKinds name kinds) d →
      Parser.run (Parser.statement b) c =
        .ok (([.classDecl ⟨"C", [⟨name, [e], [], 1⟩], [], none, [], [], none, 1, false⟩], []),
          d) := by
  refine eventually_of_add 3 ?_
  filter_upwards [(tendsto_add_atTop_nat 2).eventually (h.run_decorator name)] with b hb c d hshows
  obtain ⟨c', hclass, hdecorator⟩ := hb _ hshows
  have hat := hshows.isMark
  have hnot : c'.isMark .atSign = false := by simp [Cursor.isMark, hclass.kind_eq]
  -- The decorator belongs to the head of the declaration, and no modifiers follow.
  have hhead : Parser.run (declarationHead (b + 2)) c =
      .ok (⟨none, 1, [⟨name, [e], [], 1⟩], false⟩, c') := by
    obtain ⟨hfirst, -⟩ := hshows.uncons
    simp [declarationHead, Parser.doc, decorators, decorators.go,
      modifiers, DeclarationModifiers.add?, word?, hat, hdecorator, hnot,
      hclass.kind_eq, hfirst.doc_eq, hfirst.line_eq]
  obtain ⟨hname, hbody⟩ := hclass.uncons.2.uncons
  obtain ⟨hopen, hclose⟩ := hbody.uncons
  have hless : c'.next.next.isMark .less = false := by simp [Cursor.isMark, hbody.kind_eq]
  rw [Parser.statement]
  simp [hhead, isWord, word?, hclass.kind_eq, classDecl, className,
    hname.kind_eq, typeParameters, hless, heritage, heritage.go,
    eatWord, hopen.kind_eq, run_expect hbody.isMark, classMembers,
    classMembers.go, hclose.isMark, run_expect hclose.isMark, hclose.uncons.2.eq]

/-- A class with a decorator, from its text. -/
theorem parse_decorated (h : Placed kinds e) {name text : String} (hname : isName name = true)
    (htext : Lexes text.toList kinds ") class C \x7b\x7d".toList) :
    SourceFile.parse ("@" ++ name ++ "(" ++ text ++ ") class C \x7b\x7d") =
      .ok ⟨[.classDecl ⟨"C", [⟨name, [e], [], 1⟩], [], none, [], [], none, 1, false⟩], []⟩ := by
  have hat := Lexes.singleMark (by decide : ('@', Punct.atSign) ∈ singleMarks)
  have hopen := Lexes.singleMark (by decide : ('(', Punct.leftParen) ∈ singleMarks)
  have hclose := Lexes.singleMark (by decide : (')', Punct.rightParen) ∈ singleMarks)
  have hleft := Lexes.singleMark (by decide : ('{', Punct.leftBrace) ∈ singleMarks)
  have hright := Lexes.singleMark (by decide : ('}', Punct.rightBrace) ∈ singleMarks)
  -- The text is cut into tokens from its end.
  have hclass := Lexes.behindWord (by decide +kernel : isName "class" = true)
    (.behindWord (by decide +kernel : isName "C" = true) ((hleft _).append (hright [])))
  have hargument := (hopen _).append (htext.append ((hclose _).append hclass.spaced))
  have hparen : ∀ rest, ∀ d ∈ ('(' :: rest).head?, Lexeme.isWordPart d = false :=
    fun rest => List.forall_head?_cons (by decide)
  have hdecorator := (hat _).append ((Lexes.word hname (hparen _)).append hargument)
  refine parse_statement ?_ (.inl rfl) (h.run_decorated name)
  simpa [decoratedKinds] using hdecorator

end Placed

/-! ## Values of enum members -/

/-- The tokens of an enum with one member that has a value. -/
def enumKinds (kinds : List TokenKind) : List TokenKind :=
  .word "enum" :: .word "E" :: .punct .leftBrace :: .word "A" :: .punct .assign ::
    (kinds ++ [.punct .rightBrace])

namespace Placed

variable {kinds : List TokenKind} {e : Expr}

/-- `Parser.statement` reads an enum with one member that has a value. -/
private theorem run_enum (h : Placed kinds e) :
    ∀ᶠ b in atTop, ∀ ⦃c d⦄, c.Shows (enumKinds kinds) d →
      Parser.run (Parser.statement b) c =
        .ok (([.enumDecl ⟨"E", [⟨"A", some e, none⟩], false, none, 1⟩], []), d) := by
  refine eventually_of_add 3 ?_
  filter_upwards [(tendsto_add_atTop_nat 2).eventually (h.reads false)] with b hb c d hshows
  obtain ⟨hword, hshowsName⟩ := hshows.uncons
  obtain ⟨hname, hshowsBody⟩ := hshowsName.uncons
  obtain ⟨hmember, hassign⟩ := hshowsBody.uncons.2.uncons
  obtain ⟨c', hvalue, hclose⟩ := hassign.uncons.2.split
  have hread := hb hvalue (hclose.at (by decide))
  -- The list of members does not end at once, and ends behind its first member.
  have hbrace : c.next.next.next.isMark .rightBrace = false := by
    simp [Cursor.isMark, hmember.kind_eq]
  have hcomma : c'.isMark .comma = false := by simp [Cursor.isMark, hclose.kind_eq]
  have hhead := @run_declarationHead _ _ _ _ (b + 1) hshows (by decide)
  rw [Parser.statement]
  simp [hhead, isWord, hasWord, word?, hword.kind_eq, hname.kind_eq,
    enumDecl, identifier, run_expect hshowsBody.isMark, commaList,
    hbrace, enumMember, Parser.doc, memberName, nameOf?, hmember.kind_eq,
    hmember.doc_eq, afterMark?, hassign.isMark, hread, hcomma,
    run_expect hclose.isMark, hclose.uncons.2.eq]

/-- An enum, from its text. -/
theorem parse_enum (h : Placed kinds e) {text : String}
    (htext : Lexes text.toList kinds " \x7d".toList) :
    SourceFile.parse ("enum E \x7b A = " ++ text ++ " \x7d") =
      .ok ⟨[.enumDecl ⟨"E", [⟨"A", some e, none⟩], false, none, 1⟩], []⟩ := by
  have hleft := Lexes.singleMark (by decide : ('{', Punct.leftBrace) ∈ singleMarks)
  have hright := Lexes.singleMark (by decide : ('}', Punct.rightBrace) ∈ singleMarks)
  have hmember := Lexes.behindWord (by decide +kernel : isName "A" = true)
    (htext.append (hright []).spaced).behindAssign
  have henum := Lexes.behindWord (by decide +kernel : isName "enum" = true)
    (.behindWord (by decide +kernel : isName "E" = true) ((hleft _).append hmember.spaced))
  refine parse_statement ?_ (.inr ⟨_, rfl⟩) h.run_enum
  simpa [enumKinds] using henum

end Placed

/-! ## Types of aliases -/

/-- An alias, from its text. -/
theorem Written.parse_alias {type : TypeExpr} (h : Written type) {text : String}
    (htext : Lexes text.toList type.kinds [';']) :
    SourceFile.parse ("type T = " ++ text ++ ";") =
      .ok ⟨[.aliasDecl ⟨"T", [], type, none, 1⟩], []⟩ := by
  have hend := Lexes.singleMark (by decide : (';', Punct.semicolon) ∈ singleMarks)
  have halias := Lexes.behindWord (by decide +kernel : isName "type" = true)
    (.behindWord (by decide +kernel : isName "T" = true) (htext.append (hend [])).behindAssign)
  refine parse_statement ?_ (.inr ⟨_, rfl⟩) (run_statement h "T")
  simpa using halias

end Endpoints
