import Endpoints.Proofs.BareDeclaration
import Endpoints.Proofs.Joining
import Endpoints.Proofs.Skipping

/-!
# Declarations behind passed-over statements

What a file declares behind a function or an import: what it declares without it, if the parser
finds the end of the function or the import. It takes a line break for the end of a function, and a
string or a semicolon for the end of an import, so what follows on the same line is lost, and so is
what follows an import of a name without a semicolon.
-/

namespace Endpoints

open MonadParser Filter TokenStream Endpoints.Parser Token

/-! ## What stands before the first token -/

/-- The cursors differ only in what stands before the current token. -/
inductive Cursor.Alike : Cursor → Cursor → Prop
  | mk {t t' last : Token} {rest : List Token} : t.kind = t'.kind → t.doc = t'.doc →
      t.line = t'.line → Alike ⟨t :: rest, last⟩ ⟨t' :: rest, last⟩

namespace Cursor.Alike

variable {c d : Cursor}

private theorem next_eq (h : c.Alike d) : c.next = d.next := by
  cases h
  rfl

private theorem kind_eq (h : c.Alike d) : c.head.kind = d.head.kind := by
  cases h with
  | mk hkind => exact hkind

private theorem doc_eq (h : c.Alike d) : c.head.doc = d.head.doc := by
  cases h with
  | mk _ hdoc => exact hdoc

private theorem line_eq (h : c.Alike d) : c.head.line = d.head.line := by
  cases h with
  | mk _ _ hline => exact hline

private theorem isMark_eq (h : c.Alike d) (mark : Punct) : c.isMark mark = d.isMark mark := by
  rw [isMark, isMark, ahead_zero, ahead_zero, h.kind_eq]

private theorem word?_eq (h : c.Alike d) : c.word? = d.word? := by
  rw [word?, word?, ahead_zero, ahead_zero, h.kind_eq]

private theorem isWord_eq (h : c.Alike d) (text : String) : c.isWord text = d.isWord text := by
  rw [isWord, isWord, h.word?_eq]

private theorem isWord_one (h : c.Alike d) (text : String) : c.isWord text 1 = d.isWord text 1 := by
  cases h
  rfl

private theorem hasWord_one (h : c.Alike d) : c.hasWord 1 = d.hasWord 1 := by
  cases h
  rfl

end Cursor.Alike

namespace Parser

/-- The parser gives the same from both cursors, or the same value without passing a token. -/
def Same {α : Type} (x : Parser α) (c d : Cursor) : Prop :=
  result? x c = result? x d ∨ ∃ a, result? x c = some (a, c) ∧ result? x d = some (a, d)

section Same

variable {α β : Type} {c d : Cursor}

theorem Same.bind {x : Parser α} {k : α → Parser β} (h : Same x c d) (hk : ∀ a, Same (k a) c d) :
    Same (x >>= k) c d := by
  rcases h with h | ⟨a, hc, hd⟩
  · exact .inl (by rw [result?_bind, result?_bind, h])
  · simpa [Same, hc, hd] using hk a

private theorem same_cursor {k : Cursor → Parser α} (hk : k c = k d) (h : Same (k d) c d) :
    Same (MonadParser.cursor >>= k) c d := by
  simpa [Same, hk] using h

/-- `decorators` is the same: a decorator starts with a mark. -/
private theorem same_decorators (h : c.Alike d) (b : Nat) : Same (decorators b) c d := by
  cases b with
  | zero => exact .inl rfl
  | succ b =>
    rw [decorators, decorators.go]
    cases hmark : d.isMark .atSign with
    | true => exact .inl (by simp [decorator, h.isMark_eq, hmark, h.next_eq, h.line_eq])
    | false => exact .inr ⟨[], by simp [h.isMark_eq, hmark]⟩

/-- `modifiers` is the same: a modifier is known by its word and the next one. -/
private theorem same_modifiers (h : c.Alike d) (known : DeclarationModifiers) (b : Nat) :
    Same (modifiers DeclarationModifiers.add? known b) c d := by
  have hadd : c.word?.bind (known.add? · c) = d.word?.bind (known.add? · d) := by
    simp only [h.word?_eq, DeclarationModifiers.add?, h.isWord_one]
  cases b with
  | zero => exact .inl rfl
  | succ b =>
    rw [modifiers]
    cases hmore : d.word?.bind (known.add? · d) with
    | some more => exact .inl (by simp [hadd, hmore, h.next_eq])
    | none => exact .inr ⟨known, by simp [hadd, hmore]⟩

private theorem same_declarationHead (h : c.Alike d) (b : Nat) : Same (declarationHead b) c d := by
  refine Same.bind (.inr ⟨d.head.doc.map DocComment.parse, by simp [h.doc_eq], by simp⟩)
    fun doc => ?_
  refine same_cursor (by rw [h.line_eq]) ?_
  refine (same_decorators h b).bind fun before => (same_modifiers h _ b).bind fun known =>
    (same_decorators h b).bind fun after => ?_
  exact .inr ⟨_, rfl, rfl⟩

/-- `namespaceDecl` gives the same, since it passes its keyword at once. -/
private theorem result?_namespaceDecl_alike (h : c.Alike d) (b line : Nat) :
    result? (namespaceDecl b line) c = result? (namespaceDecl b line) d := by
  cases b with
  | zero => rfl
  | succ b =>
    have hname : result? (namespaceName b : Parser String) c = result? (namespaceName b) d := by
      simp only [namespaceName, result?_bind, result?_advance, Option.bind_some, h.kind_eq,
        h.next_eq]
    rw [namespaceDecl]
    simp [hname]

/-- `skipStatement` gives the same: it never stops before its first token. -/
private theorem result?_skipStatement_alike (h : c.Alike d) :
    result? (skipStatement : Parser Unit) c = result? (skipStatement : Parser Unit) d := by
  cases h with
  | @mk t t' last rest hkind _ _ =>
    have hleft : left Brackets.statement none 0 (t :: rest) =
        left Brackets.statement none 0 (t' :: rest) := by
      have hverdict : Brackets.statement none 0 t rest.head? =
          Brackets.statement none 0 t' rest.head? := by
        simp [Brackets.statement, hkind, Brackets.startsLine]
      -- Only a line that starts behind another token stops before a token.
      have hbefore : Brackets.statement none 0 t' rest.head? ≠ .before := by
        simp only [Brackets.statement, Brackets.startsLine]
        split <;> split_ifs <;> simp_all
      rw [left, left, hverdict, hkind]
      cases hjudge : Brackets.statement none 0 t' rest.head? with
      | before => exact absurd hjudge hbefore
      | _ => rfl
    simp only [result?, skipStatement, run_skip, hleft]

/-- `statement` gives the same, whichever declaration it meets. -/
private theorem result?_statement_alike (h : c.Alike d) (b : Nat) :
    result? (statement b) c = result? (statement b) d := by
  cases b with
  | zero => rfl
  | succ b =>
    rw [statement, result?_enter, result?_enter, result?_bind, result?_bind]
    rcases same_declarationHead h b with heq | ⟨head, hc, hd⟩
    · rw [heq]
    rw [hc, hd, Option.bind_some, Option.bind_some]
    -- Every declaration passes its keyword first, and from there on the cursors are equal.
    have himport : result? (importStatement b : Parser (Option String)) c =
        result? (importStatement b) d := by
      simp [importStatement, h.next_eq]
    have hclass : result? (classDecl b head) c = result? (classDecl b head) d := by
      simp [classDecl, h.next_eq]
    have hinterface : result? (interfaceDecl b head) c = result? (interfaceDecl b head) d := by
      simp [interfaceDecl, h.next_eq]
    have halias : result? (aliasDecl b head) c = result? (aliasDecl b head) d := by
      simp [aliasDecl, h.next_eq]
    have henum : ∀ isConst, result? (enumDecl b head isConst) c =
        result? (enumDecl b head isConst) d := by
      simp [enumDecl, h.next_eq]
    have hnamespace := result?_namespaceDecl_alike h b head.line
    have hskip := result?_skipStatement_alike h
    simp only [result?_bind, result?_cursor, Option.bind_some, result?_ite, result?_pure,
      result?_discard, result?_advance, Option.map_some, h.isWord_eq, h.isWord_one, h.hasWord_one,
      Cursor.isMark_one, Cursor.isMark_two, Cursor.ahead_one, h.next_eq, himport, hclass,
      hinterface, halias, henum, hnamespace, hskip]
    -- What is left is a namespace, by the token behind its keyword.
    cases d.next.head.kind <;> simp [h.next_eq, hskip]

end Same

/-- `statements` gives the same, since the first statement does. -/
theorem result?_statements_alike {c d : Cursor} (h : c.Alike d) (hend : d.atEnd = false) (b : Nat) :
    result? (statements b false) c = result? (statements b false) d := by
  cases b with
  | zero => rfl
  | succ b =>
    have hend' : c.atEnd = false := by rw [Cursor.atEnd, h.kind_eq, ← Cursor.atEnd, hend]
    rw [statements]
    simp [hend, hend', h.isMark_eq, h.next_eq, result?_statement_alike h]

/-- `importLeft` does not look at places. -/
private theorem importLeft_bare (tokens : List Token) :
    importLeft (tokens.map bare) = (importLeft tokens).map bare := by
  -- Taking positions away changes no kind.
  have hsame : ∀ tokens : List Token,
      (tokens.map bare).head?.any (·.kind == .punct .semicolon) =
        tokens.head?.any (·.kind == .punct .semicolon) := by
    intro tokens
    cases tokens <;> rfl
  fun_induction importLeft tokens with
  | case1 => rw [List.map_nil, importLeft]
  | case2 token tokens text hkind hnext =>
    rw [List.map_cons, importLeft]
    simp only [bare_kind, hkind, hsame, hnext, if_true, List.map_tail]
  | case3 token tokens text hkind hnext =>
    rw [List.map_cons, importLeft]
    simp only [bare_kind, hkind, hsame, hnext]
    rfl
  | case4 token tokens hkind =>
    rw [List.map_cons, importLeft]
    simp only [bare_kind, hkind]
  | case5 token tokens hkind =>
    rw [List.map_cons, importLeft]
    simp only [bare_kind, hkind]
  -- The group in braces is skipped by a scan that does not look at positions either.
  | case6 token tokens hkind ih =>
    rw [List.map_cons, importLeft]
    rw [hkind] at ih
    simp only [bare_kind, hkind, left_bare unplaced_group, ih]
  | case7 token tokens hstring heof hsemicolon hbrace ih =>
    rw [List.map_cons, importLeft, bare_kind]
    split
    · next heq => exact absurd heq (hstring _)
    · next heq => exact absurd heq heof
    · next heq => exact absurd heq hsemicolon
    · next heq => exact absurd heq hbrace
    · exact ih

/-- `importLeft` passes over tokens and changes none. -/
private theorem importLeft_suffix (tokens : List Token) : importLeft tokens <:+ tokens := by
  fun_induction importLeft tokens with
  | case1 => exact List.suffix_rfl
  | case2 => exact (List.tail_suffix _).trans (List.suffix_cons ..)
  | case3 => exact List.suffix_cons ..
  | case4 => exact List.suffix_rfl
  | case5 => exact List.suffix_cons ..
  | case6 token tokens hkind ih => exact (ih.trans (left_suffix ..)).trans (List.suffix_cons ..)
  | case7 token tokens hstring heof hsemicolon hbrace ih => exact ih.trans (List.suffix_cons ..)

end Parser

/-! ## What is declared -/

/-- The declarations that are read, without lines. -/
def SourceFile.declared (result : Except SyntaxError SourceFile) : Option (List Statement) :=
  result.toOption.map fun file => file.statements.map Statement.bare

open SourceFile

section Declared

variable {source : String} {stream part part' : TokenStream}

/-- A large bound gives what the bound for the tokens gives. -/
private theorem eventually_declared (hsource : ofText source = .ok stream)
    (hpart : part.cursor ≤ stream.cursor) :
    ∀ᶠ b in atTop, declared (ofTokens part) =
      (Parser.result? (Parser.statements b false) part.cursor).map
        fun r => r.1.1.map Statement.bare := by
  have hhas : (⟨source, stream, []⟩ : Watch).Has part.cursor :=
    ⟨ofText_tiles hsource, hpart⟩
  filter_upwards [eventually_ge_atTop part.cursor.bound] with b hb
  -- The bound for the tokens and every greater one run alike.
  have hbound : ∀ b', part.cursor.bound ≤ b' →
      Ready ⟨source, stream, []⟩ part.cursor 3 b b' := by
    intro b' hb'
    rw [Cursor.bound] at hb hb'
    exact ⟨fun _ hmem => absurd hmem List.not_mem_nil, by omega, by omega⟩
  have hsafe : ∀ b', part.cursor.bound ≤ b' → Safe ⟨source, stream, []⟩ part.cursor
      (fun _ c => c ≤ part.cursor) (Parser.statements b false) (Parser.statements b' false) :=
    fun b' hb' => (SafeStatements.all b).statements (hbound b' hb')
  have hused := (hsafe part.cursor.bound le_rfl hhas).1
  rw [(hsafe b hb hhas).1, Except.ok.injEq] at hused
  rw [Parser.result?, hused, ofTokens, sourceFile, run_bind]
  cases Parser.run (Parser.statements part.cursor.bound false) part.cursor <;> rfl

/-- Where the one cursor leads to the other, both declare the same. -/
theorem Leads.declared_eq (h : Leads part.cursor part'.cursor)
    (hsource : ofText source = .ok stream) (hpart : part.cursor ≤ stream.cursor)
    (hpart' : part'.cursor ≤ stream.cursor) :
    declared (ofTokens part) = declared (ofTokens part') := by
  obtain ⟨imports, k, h⟩ := h
  -- All three hold of large bounds, so one bound serves them all.
  obtain ⟨b, hb, hpart, hpart'⟩ := (h.and (((tendsto_add_atTop_nat k).eventually
    (eventually_declared hsource hpart)).and (eventually_declared hsource hpart'))).exists
  rw [hpart, hpart', hb, Option.map_map]
  rfl

/-- Declarations do not depend on places, nor on what stands before the first token. -/
private theorem declared_eq_of_bare {source' : String} {stream' : TokenStream}
    (hsource : ofText source = .ok stream) (hpart : part.cursor ≤ stream.cursor)
    (hsource' : ofText source' = .ok stream') (hpart' : part'.cursor ≤ stream'.cursor)
    (h : part.cursor.bare = part'.cursor.bare ∨
      part.cursor.bare.Alike part'.cursor.bare ∧ part'.cursor.atEnd = false) :
    declared (ofTokens part) = declared (ofTokens part') := by
  -- Declarations without lines can be read from the tokens without places.
  have hbare : ∀ (b : Nat) (c : Cursor),
      ((Parser.result? (Parser.statements b false) c).map fun r => r.1.1.map Statement.bare) =
        (Parser.result? (Parser.statements b false) c.bare).map fun r => r.1.1 := by
    intro b c
    rw [(BareStatements.all b).statements, Option.map_map]
    rfl
  obtain ⟨b, hpart, hpart'⟩ := ((eventually_declared hsource hpart).and
    (eventually_declared hsource' hpart')).exists
  rw [hpart, hpart', hbare, hbare]
  rcases h with h | ⟨h, hend⟩
  · rw [h]
  · rw [Parser.result?_statements_alike h (by rwa [Cursor.bare_atEnd])]

end Declared

/-! ## Behind functions and imports -/

/-- The first statement is a declaration. -/
def Cursor.Declares (c : Cursor) : Prop :=
  ∃ b declaration more imports d,
    Parser.run (statement b) c = .ok ((declaration :: more, imports), d)

/-- The tokens of a function: after its keyword there are no line outside of brackets that starts a
declaration and no semicolon, and a brace comes last. -/
inductive IsFunction : List Token → Prop
  | mk {before more : List Token} {token : Token} {word : String} :
      before.map Token.kind ∈ exports → token.kind = .word word →
      word ∈ ["function", "async"] → Brackets.passes token.kind 0 more = true →
      more.getLast?.map Token.kind = some (.punct .rightBrace) →
      IsFunction (before ++ token :: more)

/-- The tokens of an import, of which the last ones are given. -/
inductive IsImport (ending : List Token) : List Token → Prop
  | mk {before clause : List Token} {token : Token} :
      before.map Token.kind ∈ exports → token.kind = .word "import" →
      Brackets.Clause clause → (clause ++ ending).head?.map Token.kind ≠ some (.punct .leftParen) →
      IsImport ending (before ++ token :: (clause ++ ending))

/-- A declaration starts with a token that `Brackets.startsBlock` knows. -/
private theorem startsBlock_of_declares {c : Cursor} (h : c.Declares) :
    Brackets.startsBlock c.head.kind = true := by
  obtain ⟨b, declaration, more, imports, d, hrun⟩ := h
  refine Bool.eq_true_of_not_eq_false fun hblock => ?_
  match b with
  | 0 => cases hrun
  | 1 => cases hrun
  -- Otherwise the statement would be passed over, and nothing declared.
  | b + 2 =>
    rw [run_statement_unknown hblock] at hrun
    cases hrun

/-- The first token of a declaration. -/
private theorem eq_of_startsBlock {kind : TokenKind} (h : Brackets.startsBlock kind = true) :
    kind = .punct .atSign ∨
      ∃ word ∈ "global" :: Brackets.declarationWords, kind = .word word := by
  cases kind with
  | punct mark =>
    left
    simpa [Brackets.startsBlock, Brackets.startsDeclaration] using h
  | word text =>
    right
    refine ⟨text, ?_, rfl⟩
    simpa [Brackets.startsBlock, Brackets.startsDeclaration, or_comm] using h
  | _ => cases h

/-- The first token of a declaration does not continue a line. -/
private theorem continuesWith_of_startsBlock {kind : TokenKind}
    (h : Brackets.startsBlock kind = true) :
    Brackets.continuesWith kind = false := by
  have hwords : ∀ word ∈ "global" :: Brackets.declarationWords,
      Brackets.continuesWith (.word word) = false := by decide
  rcases eq_of_startsBlock h with rfl | ⟨word, hword, rfl⟩
  · rfl
  · exact hwords word hword

/-- Where it starts no line, the first token of a declaration is passed over like another. -/
private theorem Parser.left_of_startsBlock {previous : Option TokenKind} {token : Token}
    {tokens : List Token} (h : Brackets.startsBlock token.kind = true)
    (hline : Brackets.startsLine previous token = false) :
    left Brackets.statement previous 0 (token :: tokens) =
      left Brackets.statement (some token.kind) 0 tokens := by
  have hdeepen : Brackets.deepen 0 token.kind = some 0 := by
    rcases eq_of_startsBlock h with hkind | ⟨word, -, hkind⟩ <;> rw [hkind] <;> rfl
  have hsemicolon : token.kind ≠ .punct .semicolon := by
    rcases eq_of_startsBlock h with hkind | ⟨word, -, hkind⟩ <;> simp [hkind]
  rw [left_statement_cons (fun _ => ⟨hsemicolon, fun _ => hline⟩) hdeepen, if_neg (by simp)]

private theorem Parser.importLeft_of_startsBlock {token : Token} {tokens : List Token}
    (h : Brackets.startsBlock token.kind = true) :
    importLeft (token :: tokens) = importLeft tokens := by
  refine importLeft_clause (.token ?_ ?_ .nil) ?_ tokens <;>
    rcases eq_of_startsBlock h with hkind | ⟨word, -, hkind⟩ <;> simp [hkind]

private theorem parse_eq_ofTokens {source : String} {stream : TokenStream}
    (h : ofText source = .ok stream) : SourceFile.parse source = ofTokens stream := by
  rw [SourceFile.parse, h]

/-- The tokens of `p` followed by `s`: those of `p`, then `first'` and `rest'` for the tokens of
`s`, which starts with a declaration. -/
structure JoinedText (p s : String) (before after : TokenStream) (first' : Token)
    (rest' : List Token) (last' : Token) : Prop where
  text_eq : ofText s = .ok after
  joint_eq : ofText (p ++ s) = .ok ⟨before.tokens ++ first' :: rest', last'⟩
  starts : Brackets.startsBlock first'.kind = true
  alike : ∃ first rest, after.tokens = first :: rest ∧ first'.kind = first.kind ∧
    first'.doc = first.doc ∧ rest'.map bare = rest.map bare
  last_eq : last'.bare = after.last.bare

namespace JoinedText

variable {p s : String} {before after : TokenStream} {t first' last' : Token}
  {rest' : List Token}

/-- The second text may follow the first where that ends in white space or a brace. -/
private theorem exists_joined (hp : ofText p = .ok before)
    (hgap : ∀ c ∈ before.last.gap.toList, Text.isWhite c = true)
    (hs : ofText s = .ok after)
    (hstarts : Brackets.startsBlock after.cursor.head.kind = true)
    (ht : before.tokens.getLast? = some t)
    (hend : t.kind = .punct .rightBrace ∨ before.last.gap.toList ≠ []) :
    ∃ first' rest' last', JoinedText p s before after first' rest' last' ∧
      (first'.freshLine = true ↔
        '\n' ∈ t.raw.toList ++ before.last.gap.toList ++ after.cursor.head.gap.toList) := by
  obtain ⟨first, rest, hfirst⟩ : ∃ first rest, after.tokens = first :: rest := by
    refine List.exists_cons_of_ne_nil fun hnil => ?_
    have hlast := (ofText_tiles hs).last_eq.1
    rw [TokenStream.cursor, Cursor.head, hnil, List.headD_nil, hlast] at hstarts
    cases hstarts
  have hhead : after.cursor.head = first := by
    rw [TokenStream.cursor, Cursor.head, hfirst, List.headD_cons]
  rw [hhead] at hstarts ⊢
  -- A regular expression would be read in another way behind a brace.
  have hregex : ∀ text, first.kind ≠ .regex text := by
    intro text hkind
    rw [hkind] at hstarts
    cases hstarts
  obtain ⟨first', bytes, lines, hjoin, hkind, hdoc, hfresh⟩ :=
    ofText_append hp ht hgap hend hs hfirst hregex
  refine ⟨first', _, _, ⟨hs, hjoin, by rw [hkind, hstarts], ⟨first, rest, hfirst, hkind, hdoc, ?_⟩,
    rfl⟩, hfresh⟩
  rw [List.map_map]
  rfl

/-- All of the second text is read. -/
private theorem declared_all (h : JoinedText p s before after first' rest' last')
    (hleads : Leads ⟨before.tokens ++ first' :: rest', last'⟩ ⟨first' :: rest', last'⟩) :
    declared (parse (p ++ s)) = declared (parse s) := by
  obtain ⟨first, rest, htokens, hkind, hdoc, hrest⟩ := h.alike
  have hsuffix : TokenStream.cursor ⟨first' :: rest', last'⟩ ≤
      TokenStream.cursor ⟨before.tokens ++ first' :: rest', last'⟩ :=
    ⟨List.suffix_append _ _, rfl⟩
  have hcursor : after.cursor = ⟨first :: rest, after.last⟩ := by rw [TokenStream.cursor, htokens]
  -- The first tokens of the two texts differ in their gaps at most.
  have halike : (Cursor.bare ⟨first' :: rest', last'⟩).Alike after.cursor.bare := by
    rw [hcursor, Cursor.bare, Cursor.bare, List.map_cons, List.map_cons, hrest, h.last_eq]
    exact .mk hkind hdoc rfl
  have hend : after.cursor.atEnd = false := by
    have hstarts := h.starts
    rw [hkind] at hstarts
    rw [hcursor]
    refine beq_false_of_ne fun heof => ?_
    rw [show first.kind = _ from heof] at hstarts
    cases hstarts
  -- The text in front is skipped, and the rest of the joined text reads like the second one.
  calc declared (parse (p ++ s))
    _ = declared (ofTokens ⟨before.tokens ++ first' :: rest', last'⟩) := by
      rw [parse_eq_ofTokens h.joint_eq]
    _ = declared (ofTokens ⟨first' :: rest', last'⟩) := by
      refine Leads.declared_eq ?_ h.joint_eq le_rfl hsuffix
      exact hleads
    _ = declared (ofTokens after) :=
      declared_eq_of_bare h.joint_eq hsuffix h.text_eq le_rfl (.inr ⟨halike, hend⟩)
    _ = declared (parse s) := by rw [parse_eq_ofTokens h.text_eq]

/-- A part of the second text is read. -/
private theorem declared_part (h : JoinedText p s before after first' rest' last')
    {seen seen' : List Token}
    (hleads : Leads ⟨before.tokens ++ first' :: rest', last'⟩ ⟨seen', last'⟩)
    (hseen' : seen' <:+ rest') (hseen : seen <:+ after.tokens)
    (hbare : seen'.map bare = seen.map bare) :
    declared (parse (p ++ s)) = declared (ofTokens ⟨seen, after.last⟩) := by
  have hsuffix : TokenStream.cursor ⟨seen', last'⟩ ≤
      TokenStream.cursor ⟨before.tokens ++ first' :: rest', last'⟩ :=
    ⟨hseen'.trans ((List.suffix_cons _ _).trans (List.suffix_append _ _)), rfl⟩
  -- The tokens left are the same up to positions.
  have hsame : Cursor.bare ⟨seen', last'⟩ = Cursor.bare ⟨seen, after.last⟩ := by
    rw [Cursor.bare, Cursor.bare, hbare, h.last_eq]
  calc declared (parse (p ++ s))
    _ = declared (ofTokens ⟨before.tokens ++ first' :: rest', last'⟩) := by
      rw [parse_eq_ofTokens h.joint_eq]
    _ = declared (ofTokens ⟨seen', last'⟩) := by
      refine Leads.declared_eq ?_ h.joint_eq le_rfl hsuffix
      exact hleads
    _ = declared (ofTokens ⟨seen, after.last⟩) :=
      declared_eq_of_bare h.joint_eq hsuffix h.text_eq ⟨hseen, rfl⟩ (.inl hsame)

private theorem behindBrace_eq (h : JoinedText p s before after first' rest' last')
    (hfresh : first'.freshLine = true) :
    behindBrace (first' :: rest') = first' :: rest' := by
  rw [behindBrace, if_pos]
  rw [List.head?_cons, Option.any_some, hfresh, continuesWith_of_startsBlock h.starts]
  rfl

/-- The second text after a function. -/
private theorem declared_function (h : JoinedText p s before after first' rest' last')
    (hleads : Leads ⟨before.tokens ++ first' :: rest', last'⟩
      ⟨behindBrace (first' :: rest'), last'⟩) :
    declared (parse (p ++ s)) = if first'.freshLine then declared (parse s) else
      declared (ofTokens ⟨Parser.left Brackets.statement none 0 after.tokens, after.last⟩) := by
  split
  · next hfresh =>
    rw [h.behindBrace_eq hfresh] at hleads
    exact h.declared_all hleads
  · next hfresh =>
    have hline : ∀ previous, Brackets.startsLine previous first' = false := fun previous => by
      rw [Brackets.startsLine, Bool.eq_false_iff.2 hfresh, Bool.false_and]
    rw [behindBrace, if_neg (by simp [hfresh]),
      Parser.left_of_startsBlock h.starts (hline _)] at hleads
    obtain ⟨first, rest, htokens, hkind, -, hrest⟩ := h.alike
    refine h.declared_part hleads (left_suffix ..) (left_suffix ..) ?_
    -- Nothing has been passed before the first token of the second text alone.
    rw [htokens, Parser.left_of_startsBlock (hkind ▸ h.starts) (by simp [Brackets.startsLine]),
      ← left_bare unplaced_statement, ← left_bare unplaced_statement,
      hkind, hrest]

/-- The second text after an import that is not closed. -/
private theorem declared_open (h : JoinedText p s before after first' rest' last')
    (hleads : Leads ⟨before.tokens ++ first' :: rest', last'⟩
      ⟨importLeft (first' :: rest'), last'⟩) :
    declared (parse (p ++ s)) =
      declared (ofTokens ⟨importLeft after.tokens, after.last⟩) := by
  obtain ⟨first, rest, htokens, hkind, -, hrest⟩ := h.alike
  rw [Parser.importLeft_of_startsBlock h.starts] at hleads
  refine h.declared_part hleads (Parser.importLeft_suffix _) (Parser.importLeft_suffix _) ?_
  rw [htokens, Parser.importLeft_of_startsBlock (hkind ▸ h.starts), ← Parser.importLeft_bare,
    ← Parser.importLeft_bare, hrest]

/-- An import is read up to its end. -/
private theorem leads_import (h : JoinedText p s before after first' rest' last')
    {ending : List Token} (himport : IsImport ending before.tokens) :
    Leads ⟨before.tokens ++ first' :: rest', last'⟩
      ⟨importLeft (ending ++ first' :: rest'), last'⟩ := by
  have hlast : last'.kind = .endOfFile := by
    rw [← bare_kind, h.last_eq, bare_kind]
    exact (ofText_tiles h.text_eq).last_eq.1
  have hend : ∀ token ∈ before.tokens, token.kind ≠ .endOfFile := fun token htoken =>
    ((ofText_tiles h.joint_eq).covers token (List.mem_append_left _ htoken)).kind_ne
  generalize before.tokens = tokens at himport hend
  cases himport with
  | @mk exports clause token hexports hkind hclause hparen =>
    have hinside : ∀ token ∈ clause, token.kind ≠ .endOfFile := fun token htoken =>
      hend token (List.mem_append_right _ (List.mem_cons_of_mem _ (List.mem_append_left _ htoken)))
    rw [List.append_assoc, List.cons_append, List.append_assoc,
      ← importLeft_clause hclause hinside]
    refine .importStatement hexports hkind ?_ hlast
    rw [← List.append_assoc]
    -- A call `import(...)` would be no import. Behind an empty clause stands the first token of a
    -- declaration.
    cases hhead : clause ++ ending with
    | nil =>
      intro hfirst
      have hstarts := h.starts
      rw [show first'.kind = _ from Option.some.inj hfirst] at hstarts
      cases hstarts
    | cons next more => rwa [hhead] at hparen

end JoinedText

private theorem IsFunction.exists_last {tokens : List Token} (h : IsFunction tokens) :
    ∃ t, tokens.getLast? = some t ∧ t.kind = .punct .rightBrace := by
  cases h with
  | mk _ _ _ _ hlast =>
    obtain ⟨t, ht, hkind⟩ := Option.map_eq_some_iff.1 hlast
    exact ⟨t, by simp [List.getLast?_append, List.getLast?_cons, ht], hkind⟩

private theorem IsImport.exists_last {ending tokens : List Token} (h : IsImport ending tokens) :
    ∃ t, tokens.getLast? = some t := by
  cases h with
  | mk =>
    rw [List.getLast?_append, List.getLast?_cons]
    exact ⟨_, rfl⟩

/-- What is declared behind a function or an import: behind a function, all of the text if it starts
a line, and else what another statement that is passed over leaves of it; behind an import, all of
the text if the import is closed, and else what the text leaves as the rest of the import. -/
theorem declared_behind_skipped {p s : String} {before after : TokenStream}
    (hp : ofText p = .ok before)
    (hgap : ∀ c ∈ before.last.gap.toList, Text.isWhite c = true)
    (hs : ofText s = .ok after) (hfirst : after.cursor.Declares) :
    (IsFunction before.tokens → declared (parse (p ++ s)) =
      if '\n' ∈ before.last.gap.toList ++ after.cursor.head.gap.toList then declared (parse s)
      else declared
        (ofTokens ⟨Parser.left Brackets.statement none 0 after.tokens, after.last⟩)) ∧
    ∀ ending, IsImport ending before.tokens → '\n' ∈ before.last.gap.toList →
      (Brackets.Closing ending → declared (parse (p ++ s)) = declared (parse s)) ∧
      (ending = [] → declared (parse (p ++ s)) =
        declared (ofTokens ⟨importLeft after.tokens, after.last⟩)) := by
  have hstarts := startsBlock_of_declares hfirst
  have htiles := ofText_tiles hp
  constructor
  · intro hfunction
    obtain ⟨t, ht, hbrace⟩ := hfunction.exists_last
    obtain ⟨first', rest', last', hjoined, hfresh⟩ :=
      JoinedText.exists_joined hp hgap hs hstarts ht (.inl hbrace)
    -- The brace itself has no line break, so only the white space counts.
    have hraw : t.raw.toList = ['\x7d'] := by
      have hspells := (htiles.exists_last ht).2.1
      rw [hbrace] at hspells
      exact hspells.symm
    have heof : ∀ u ∈ before.tokens, u.kind ≠ .endOfFile := fun u hu => (htiles.covers u hu).kind_ne
    rw [hjoined.declared_function]
    · simp [hfresh, hraw]
    · generalize before.tokens = tokens at hfunction heof
      cases hfunction with
      | mk hexports hkind hword hpasses hlast =>
        rw [List.append_assoc, List.cons_append]
        exact .function hexports hkind hword hpasses hlast fun u hu =>
          heof u (List.mem_append_right _ (List.mem_cons_of_mem _ hu))
  -- The line break behind an import is needed to tell its end.
  · intro ending himport hline
    obtain ⟨t, ht⟩ := himport.exists_last
    obtain ⟨first', rest', last', hjoined, hfresh⟩ :=
      JoinedText.exists_joined hp hgap hs hstarts ht (.inr (List.ne_nil_of_mem hline))
    have hleads := hjoined.leads_import himport
    refine ⟨fun hclosing => ?_, fun hopen => ?_⟩
    · have hbehind := hjoined.behindBrace_eq (hfresh.2 (by simp [hline]))
      refine hjoined.declared_all (hleads.trans (.closing hclosing ?_ hbehind))
      intro hfirst
      have hstarts := hjoined.starts
      rw [show first'.kind = _ from Option.some.inj hfirst] at hstarts
      cases hstarts
    · rw [hopen, List.nil_append] at hleads
      exact hjoined.declared_open hleads

/-- A stream is known by its parts. -/
private theorem ofText_eq_ok {source : String} {stream : TokenStream}
    (h : (ofText source).toOption.map (fun t => (t.tokens, t.last)) =
      some (stream.tokens, stream.last)) : ofText source = .ok stream := by
  cases hsource : ofText source with
  | error => rw [hsource] at h; cases h
  | ok t =>
    rw [hsource] at h
    obtain ⟨htokens, hlast⟩ := Prod.mk.inj (Option.some.inj h)
    obtain ⟨tokens, last⟩ := t
    cases htokens
    cases hlast
    rfl

/-- A class behind a function on another line, on the same line, and behind an import of a name. -/
theorem class_behind_function :
    let s := "class A \x7b\x7d"
    (∃ declaration, declared (parse s) = some [declaration]) ∧
      declared (parse ("function f() \x7b\x7d\n" ++ s)) = declared (parse s) ∧
      declared (parse ("function f() \x7b\x7d " ++ s)) = some [] ∧
      declared (parse ("import B = C\n" ++ s)) = some [] := by
  let function : Token := ⟨.word "function", "function", "", 0, 1, false, none⟩
  let signature : List Token :=
    [⟨.word "f", "f", " ", 9, 1, false, none⟩, ⟨.punct .leftParen, "(", "", 10, 1, false, none⟩,
     ⟨.punct .rightParen, ")", "", 11, 1, false, none⟩,
     ⟨.punct .leftBrace, "\x7b", " ", 13, 1, false, none⟩,
     ⟨.punct .rightBrace, "\x7d", "", 14, 1, false, none⟩]
  let imported : Token := ⟨.word "import", "import", "", 0, 1, false, none⟩
  let clause : List Token :=
    [⟨.word "B", "B", " ", 7, 1, false, none⟩, ⟨.punct .assign, "=", " ", 9, 1, false, none⟩,
     ⟨.word "C", "C", " ", 11, 1, false, none⟩]
  let after : TokenStream :=
    ⟨[⟨.word "class", "class", "", 0, 1, false, none⟩, ⟨.word "A", "A", " ", 6, 1, false, none⟩,
      ⟨.punct .leftBrace, "\x7b", " ", 8, 1, false, none⟩,
      ⟨.punct .rightBrace, "\x7d", "", 9, 1, false, none⟩],
     ⟨.endOfFile, "", "", 10, 1, false, none⟩⟩
  -- What stands behind the skipped text.
  have hs : ofText "class A \x7b\x7d" = .ok after := ofText_eq_ok (by decide +kernel)
  have hdeclares : after.cursor.Declares := ⟨8, _, _, _, _, rfl⟩
  -- What is skipped: a function with its body and an import without a module.
  have hfunction : IsFunction (function :: signature) :=
    @IsFunction.mk [] _ _ "function" (by decide) rfl (by decide) (by decide) rfl
  have hclause : Brackets.Clause clause :=
    .token (by simp) (by decide) (.token (by simp) (by decide)
      (.token (by simp) (by decide) .nil))
  have himport : IsImport [] (imported :: (clause ++ [])) :=
    @IsImport.mk _ [] _ _ (by decide) rfl hclause (by decide)
  -- The line break decides whether the function ends before the class.
  have hline := @declared_behind_skipped "function f() \x7b\x7d\n" _
    ⟨function :: signature, ⟨.endOfFile, "", "\n", 16, 2, true, none⟩⟩ _
    (ofText_eq_ok (by decide +kernel)) (List.all_eq_true.1 (by decide)) hs hdeclares
  have hspace := @declared_behind_skipped "function f() \x7b\x7d " _
    ⟨function :: signature, ⟨.endOfFile, "", " ", 16, 1, false, none⟩⟩ _
    (ofText_eq_ok (by decide +kernel)) (List.all_eq_true.1 (by decide)) hs hdeclares
  have hname := @declared_behind_skipped "import B = C\n" _
    ⟨imported :: (clause ++ []), ⟨.endOfFile, "", "\n", 13, 2, true, none⟩⟩ _
    (ofText_eq_ok (by decide +kernel)) (List.all_eq_true.1 (by decide)) hs hdeclares
  refine ⟨?_, ?_, ?_, ?_⟩
  · rw [parse_eq_ofTokens hs]
    exact ⟨_, rfl⟩
  · exact (hline.1 hfunction).trans (if_pos (by decide))
  · exact (hspace.1 hfunction).trans (if_neg (by decide))
  · have hleft : importLeft after.tokens = [] := by decide +kernel
    rw [(hname.2 [] himport (by decide)).2 rfl, hleft]
    rfl

end Endpoints
