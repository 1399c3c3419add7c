import Endpoints.Proofs.Bare
import Endpoints.Proofs.RoundTrip

/-!
# Statements that are passed over

Functions and imports leave no declaration behind. This module says what tokens make one up, where
the parser goes on after it, and what it needs for that to be the place where the statement ends.
-/

namespace Endpoints

open MonadParser Filter Cursor

/-! ## Brackets -/

namespace Brackets

/-- How many brackets are open after a token, unless it closes one where none is open. -/
def deepen (depth : Nat) : TokenKind → Option Nat
  | .punct mark =>
    if mark.opens then some (depth + 1)
    else if mark.closes then
      match depth with
      | 0 => none
      | depth + 1 => some depth
    else some depth
  | _ => some depth

/-- How many brackets are open after some tokens, unless one is closed where none is open. -/
def level : (depth : Nat) → List Token → Option Nat
  | depth, [] => some depth
  | depth, token :: tokens => (deepen depth token.kind).bind (level · tokens)

/-- Whether a declaration can start with this token, or the block of a global scope. -/
def startsBlock (kind : TokenKind) : Bool :=
  startsDeclaration kind || kind == .word "global"

/-- Whether the tokens behind `previous` are passed over as the rest of one statement: their
brackets match, and outside of brackets there is no semicolon and no line that starts a
declaration. -/
def passes : (previous : TokenKind) → (depth : Nat) → List Token → Bool
  | _, depth, [] => depth == 0
  | previous, depth, token :: tokens =>
    !(depth == 0 && (token.kind == .punct .semicolon ||
      startsBlock token.kind && startsLine (some previous) token)) &&
    match deepen depth token.kind with
    | some depth => passes token.kind depth tokens
    | none => false

end Brackets

namespace Parser

open Brackets

/-! ## Where skipping ends -/

/-- What `left` leaves is the end of the tokens. -/
theorem left_suffix (judge : Judge) (previous : Option TokenKind) (depth : Nat)
    (tokens : List Token) : left judge previous depth tokens <:+ tokens := by
  induction tokens generalizing previous depth with
  | nil => exact List.suffix_rfl
  | cons token tokens ih =>
    rw [left]
    cases judge previous depth token tokens.head? with
    | pass => exact (ih _ _).trans (List.suffix_cons ..)
    | opens => exact (ih _ _).trans (List.suffix_cons ..)
    | closes => exact (ih _ _).trans (List.suffix_cons ..)
    | before => exact List.suffix_rfl
    | after => exact List.suffix_cons ..

/-- What is left behind a brace that closes the outermost bracket of a statement. -/
def behindBrace (tokens : List Token) : List Token :=
  if tokens.head?.any fun t => t.freshLine && !continuesWith t.kind then tokens
  else left Brackets.statement (some (.punct .rightBrace)) 0 tokens

variable {token : Token} {tokens : List Token}

/-- One token of a statement that is passed over. -/
theorem left_statement_cons {previous : Option TokenKind} {depth depth' : Nat}
    (houtside : depth = 0 → token.kind ≠ .punct .semicolon ∧
      (startsDeclaration token.kind = true → startsLine previous token = false))
    (hdeepen : deepen depth token.kind = some depth') :
    left Brackets.statement previous depth (token :: tokens) =
      if depth = 1 ∧ token.kind = .punct .rightBrace then behindBrace tokens
      else left Brackets.statement (some token.kind) depth' tokens := by
  -- The judge ends a statement before a line that starts a declaration, which this token does not.
  have hline : ¬((depth = 0 ∧ startsDeclaration token.kind = true) ∧
      startsLine previous token = true) := by
    rintro ⟨⟨hdepth, hstarts⟩, hline⟩
    rw [(houtside hdepth).2 hstarts] at hline
    cases hline
  rw [left, Brackets.statement]
  cases hkind : token.kind with
  | punct mark =>
    simp only [hkind, deepen, startsDeclaration, decide_eq_true_eq] at hdeepen houtside hline
    have hsemicolon : ¬(depth = 0 ∧ mark = .semicolon) := fun h => (houtside h.1).1 (by rw [h.2])
    -- Opening marks, closing marks, and all others.
    by_cases hopens : mark.opens = true
    · obtain rfl : depth + 1 = depth' := by simpa [hopens] using hdeepen
      have hbrace : mark ≠ .rightBrace := by rintro rfl; cases hopens
      simp [hopens, hbrace, hsemicolon]
    by_cases hcloses : mark.closes = true
    · cases depth with
      | zero => simp [hopens, hcloses] at hdeepen
      | succ depth =>
        obtain rfl : depth = depth' := by simpa [hopens, hcloses] using hdeepen
        -- Only a brace can end a statement, and only the outermost one.
        by_cases hlast : depth = 0 ∧ mark = .rightBrace
        · obtain ⟨rfl, rfl⟩ := hlast
          cases hnext : tokens.head?.any fun t => t.freshLine && !continuesWith t.kind <;>
            simp [Punct.opens, Punct.closes, behindBrace, hnext]
        · simp [hopens, hcloses, hlast]
    · have hbrace : mark ≠ .rightBrace := by rintro rfl; exact hcloses rfl
      obtain rfl : depth = depth' := by simpa [hopens, hcloses] using hdeepen
      simp [hopens, hcloses, hsemicolon, hbrace, hline]
  | _ =>
    rw [hkind] at hline hdeepen
    obtain rfl := Option.some.inj hdeepen
    simp [hline]

/-- Inside of brackets the judge only asks whether the token is a bracket. -/
def Counts (judge : Judge) (token : Token) : Prop :=
  ∀ ⦃previous depth depth'⦄ tokens, deepen depth token.kind = some depth' →
    left judge previous (depth + 1) (token :: tokens) =
      left judge (some token.kind) (depth' + 1) tokens

private theorem counts_group (hend : token.kind ≠ .endOfFile) : Counts group token := by
  intro previous depth depth' tokens h
  rw [left, group]
  cases hkind : token.kind with
  | punct mark => cases mark <;> cases depth <;> simp_all [deepen, Punct.opens, Punct.closes]
  | _ => simp_all [deepen]

/-- The judge `statement` counts every token. -/
private theorem counts_statement (token : Token) : Counts Brackets.statement token := by
  intro previous depth depth' tokens h
  -- One more bracket around the tokens changes nothing in how they are counted.
  have hdeepen : deepen (depth + 1) token.kind = some (depth' + 1) := by
    cases hkind : token.kind with
    | punct mark => cases mark <;> cases depth <;> simp_all [deepen, Punct.opens, Punct.closes]
    | _ => simp_all [deepen]
  have hbrace : ¬(depth + 1 = 1 ∧ token.kind = .punct .rightBrace) := by
    rintro ⟨hdepth, hkind⟩
    obtain rfl := Nat.succ.inj hdepth
    rw [hkind] at h
    cases h
  rw [left_statement_cons (fun hdepth => absurd hdepth (Nat.succ_ne_zero _)) hdeepen, if_neg hbrace]

/-- Tokens with matching brackets are passed over inside of brackets. -/
private theorem left_inside {judge : Judge} {depth depth' : Nat} {inner : List Token}
    (h : ∀ token ∈ inner, Counts judge token) (hlevel : level depth inner = some depth')
    (rest : List Token)
    (previous : Option TokenKind) :
    ∃ previous', left judge previous (depth + 1) (inner ++ rest) =
      left judge previous' (depth' + 1) rest := by
  induction inner generalizing depth previous with
  | nil =>
    obtain rfl := Option.some.inj hlevel
    exact ⟨previous, rfl⟩
  | cons token inner ih =>
    -- The first token changes the level, and the rest is counted from there.
    obtain ⟨middle, hmiddle, hlevel⟩ := Option.bind_eq_some_iff.1 hlevel
    obtain ⟨hfirst, hinner⟩ := List.forall_mem_cons.1 h
    obtain ⟨previous', hleft⟩ := ih hinner hlevel (some token.kind)
    exact ⟨previous', by rw [List.cons_append, hfirst _ hmiddle, hleft]⟩

/-- A group in brackets ends where they are closed. -/
private theorem left_group {last : Token} {inner : List Token} {mark : Punct}
    (hend : ∀ token ∈ inner, token.kind ≠ .endOfFile) (hinner : level 0 inner = some 0)
    (hlast : last.kind = .punct mark) (hmark : mark.closes = true) (rest : List Token)
    (previous : Option TokenKind) : left group previous 1 (inner ++ last :: rest) = rest := by
  obtain ⟨previous', hleft⟩ := left_inside (fun token htoken => counts_group (hend token htoken))
    hinner (last :: rest) previous
  rw [hleft, left, group]
  simp [hlast, hmark, Punct.opens_of_closes hmark]

/-- `passes` for one more token: it may stand outside of brackets if it has to, and the others are
passed after it. -/
theorem passes_cons {previous : TokenKind} {depth : Nat} :
    passes previous depth (token :: tokens) = true ↔
      (depth = 0 → token.kind ≠ .punct .semicolon ∧
        (startsBlock token.kind = true → startsLine (some previous) token = false)) ∧
      ∃ depth', deepen depth token.kind = some depth' ∧
        passes token.kind depth' tokens = true := by
  rw [passes, Bool.and_eq_true]
  refine and_congr ?_ ?_
  · by_cases hdepth : depth = 0 <;> cases startsBlock token.kind <;> simp [hdepth]
  · cases deepen depth token.kind <;> simp

/-- Where skipping ends that passes over `tokens`, with `rest` behind them: behind the tokens, or at
a line among them that seems to start another statement. -/
inductive Ends (rest tokens : List Token) : List Token → Prop
  | behind : Ends rest tokens (behindBrace rest)
  | again {token : Token} {more : List Token} : token.freshLine = true →
      passes (.punct .rightBrace) 0 (token :: more) = true →
      (token :: more).getLast?.map Token.kind = some (.punct .rightBrace) →
      token :: more <:+ tokens → Ends rest tokens (token :: (more ++ rest))

theorem Ends.mono {rest tokens' result : List Token} (h : Ends rest tokens result)
    (hsuffix : tokens <:+ tokens') : Ends rest tokens' result := by
  cases h with
  | behind => exact .behind
  | again hfresh hpasses hlast hmore => exact .again hfresh hpasses hlast (hmore.trans hsuffix)

/-- Tokens that `passes` accepts and that end in a brace are passed over, unless skipping ends
before. -/
theorem left_passes {previous : TokenKind} {depth : Nat} (rest : List Token)
    (h : passes previous depth tokens = true)
    (hlast : tokens.getLast?.map Token.kind = some (.punct .rightBrace)) :
    Ends rest tokens.tail (left Brackets.statement (some previous) depth (tokens ++ rest)) := by
  -- By induction on the tokens. The last one is the brace that ends them.
  induction tokens generalizing previous depth with
  | nil => cases hlast
  | cons token tokens ih =>
    obtain ⟨houtside, depth', hdeepen, hpasses⟩ := passes_cons.1 h
    have hdeclaration : depth = 0 → token.kind ≠ .punct .semicolon ∧
        (startsDeclaration token.kind = true → startsLine (some previous) token = false) :=
      fun hdepth => ⟨(houtside hdepth).1, fun hstarts =>
        (houtside hdepth).2 (by simp [startsBlock, hstarts])⟩
    rw [List.cons_append, left_statement_cons hdeclaration hdeepen]
    cases tokens with
    | nil =>
      have hbrace : token.kind = .punct .rightBrace := by simpa using hlast
      obtain rfl : depth' = 0 := by simpa [passes] using hpasses
      have hdepth : depth = 1 := by
        rw [hbrace] at hdeepen
        cases depth with
        | zero => cases hdeepen
        | succ depth => rw [Option.some.inj hdeepen]
      rw [if_pos ⟨hdepth, hbrace⟩]
      exact .behind
    | cons next tokens =>
      have hlast' : (next :: tokens).getLast?.map Token.kind = some (.punct .rightBrace) := by
        simpa [List.getLast?_cons] using hlast
      have hrest := (ih hpasses hlast').mono (List.tail_suffix _)
      split
      -- A brace in between closes the outermost bracket. If a fresh line follows that does not go
      -- on, skipping ends there.
      · next hbrace =>
        obtain ⟨rfl, hkind⟩ := hbrace
        rw [hkind] at hdeepen hpasses hrest
        obtain rfl := Option.some.inj hdeepen
        rw [behindBrace]
        split
        · next hfresh =>
          simp only [List.cons_append, List.head?_cons, Option.any_some, Bool.and_eq_true] at hfresh
          exact .again hfresh.1 hpasses hlast' List.suffix_rfl
        · exact hrest
      · exact hrest

/-! ## Statements -/

/-- Words that the parser of a statement looks for. -/
def keywords : List String :=
  ["import", "class", "interface", "type", "enum", "const", "namespace", "module", "global"]

variable {c d : Cursor}

private theorem isWord_of_not_mem {words : List String} {text : String}
    (h : ∀ word ∈ c.word?, word ∉ words) (htext : text ∈ words) : c.isWord text = false := by
  refine Bool.eq_false_iff.2 fun hword => ?_
  exact h text (eq_of_beq hword) htext

theorem word?_cons {last : Token} {word : String} (h : token.kind = .word word) :
    word? ⟨token :: tokens, last⟩ = some word := by
  simp [word?, ahead, h]

variable {b : Nat} {known : DeclarationModifiers}

private theorem run_decorators_none (h : c.isMark .atSign = false) :
    run (decorators (b + 1) : Parser (List Decorator)) c = .ok ([], c) := by
  rw [decorators, decorators.go]
  simp [h]

/-- The modifiers end where no more word can be one. -/
private theorem run_modifiers_none (h : ∀ word ∈ c.word?, word ∉ ["export", "declare", "abstract"] ∧
      (known.modified = true → word ≠ "default")) :
    run (modifiers DeclarationModifiers.add? known (b + 1) : Parser DeclarationModifiers) c =
      .ok (known, c) := by
  -- The word `default` counts as a modifier only after another one.
  have hnone : c.word?.bind (known.add? · c) = none := by
    cases hword : c.word? with
    | none => rfl
    | some word =>
      obtain ⟨hnot, hdefault⟩ := h word hword
      simp only [List.mem_cons, List.not_mem_nil, or_false, not_or] at hnot
      cases hmodified : known.modified <;> simp_all [DeclarationModifiers.add?]
  rw [modifiers]
  simp [hnone]

theorem run_modifiers_cons {more : DeclarationModifiers} {word : String}
    (hword : c.word? = some word) (hadd : known.add? word c = some more) :
    run (modifiers DeclarationModifiers.add? known (b + 1) : Parser DeclarationModifiers) c =
      run (modifiers DeclarationModifiers.add? more b : Parser DeclarationModifiers) c.next := by
  have hmore : c.word?.bind (known.add? · c) = some more := by rw [hword, Option.bind_some, hadd]
  rw [modifiers]
  simp [hmore]

private theorem exists_declarationHead (hc : c.isMark .atSign = false)
    (hmodifiers : run (modifiers DeclarationModifiers.add? ⟨false, false⟩ (b + 1)) c =
      .ok (known, d)) (hd : d.isMark .atSign = false) :
    ∃ head, run (declarationHead (b + 1) : Parser DeclarationHead) c = .ok (head, d) :=
  ⟨⟨c.head.doc.map DocComment.parse, c.head.line, [], known.isAbstract⟩, by
    simp [declarationHead, doc, run_decorators_none hc, hmodifiers, run_decorators_none hd]⟩

/-- What may stand before a function or an import. -/
def exports : List (List TokenKind) :=
  [[], [.word "export"], [.word "export", .word "default"]]

/-- The head ends behind the words `export` and `default`. -/
private theorem exists_declarationHead_export {before rest : List Token} {last : Token}
    {word : String} (hbefore : before.map Token.kind ∈ exports) (hkind : token.kind = .word word)
    (hword : word ∉ ["export", "declare", "abstract", "default"]) :
    ∃ head, run (declarationHead (b + 3) : Parser DeclarationHead)
      ⟨before ++ token :: rest, last⟩ = .ok (head, ⟨token :: rest, last⟩) := by
  -- The modifiers end at the word of the statement itself.
  have hend : ∀ known b, run (modifiers DeclarationModifiers.add? known (b + 1))
      ⟨token :: rest, last⟩ = .ok (known, ⟨token :: rest, last⟩) := fun known b =>
    run_modifiers_none fun word' hmem => by
      obtain rfl := Option.some.inj ((word?_cons hkind).symm.trans hmem)
      simp only [List.mem_cons, List.not_mem_nil, or_false, not_or] at hword ⊢
      exact ⟨⟨hword.1, hword.2.1, hword.2.2.1⟩, fun _ => hword.2.2.2⟩
  have hmark : ∀ {t : Token} {word : String} {tokens : List Token}, t.kind = .word word →
      isMark ⟨t :: tokens, last⟩ .atSign = false := fun ht =>
    beq_false_of_ne (by simp [ahead, ht])
  have hexport : ∀ {t : Token} {tokens : List Token} {b : Nat}, t.kind = .word "export" →
      run (modifiers DeclarationModifiers.add? ⟨false, false⟩ (b + 1)) ⟨t :: tokens, last⟩ =
        run (modifiers DeclarationModifiers.add? ⟨true, false⟩ b) ⟨tokens, last⟩ := fun ht =>
    run_modifiers_cons (word?_cons ht) rfl
  have hdefault : ∀ {t : Token} {tokens : List Token} {b : Nat}, t.kind = .word "default" →
      run (modifiers DeclarationModifiers.add? ⟨true, false⟩ (b + 1)) ⟨t :: tokens, last⟩ =
        run (modifiers DeclarationModifiers.add? ⟨true, false⟩ b) ⟨tokens, last⟩ := fun ht =>
    run_modifiers_cons (word?_cons ht) rfl
  simp only [exports, List.mem_cons, List.not_mem_nil, or_false, List.map_eq_nil_iff,
    List.map_eq_cons_iff] at hbefore
  -- Nothing, one word and two words.
  rcases hbefore with rfl | ⟨first, _, rfl, hfirst, rfl⟩ |
    ⟨first, _, rfl, hfirst, second, _, rfl, hsecond, rfl⟩
  · exact exists_declarationHead (hmark hkind) (hend _ _) (hmark hkind)
  · exact exists_declarationHead (hmark hfirst) ((hexport hfirst).trans (hend _ _)) (hmark hkind)
  · exact exists_declarationHead (hmark hfirst)
      ((hexport hfirst).trans ((hdefault hsecond).trans (hend _ _))) (hmark hkind)

/-- A statement that is no declaration and no import. -/
private theorem run_statement_other {head : DeclarationHead}
    (hhead : run (declarationHead b : Parser DeclarationHead) c = .ok (head, d))
    (hword : ∀ word ∈ d.word?, word ∉ keywords) :
    run (statement (b + 1) : Parser Statements) c =
      .ok (([], []), ⟨left Brackets.statement none 0 d.rest, d.last⟩) := by
  have hnot : ∀ text ∈ keywords, d.isWord text = false := fun text htext =>
    isWord_of_not_mem hword htext
  simp only [keywords, List.forall_mem_cons, List.not_mem_nil, false_implies, implies_true,
    and_true] at hnot
  rw [statement, run_enter, run_bind, hhead]
  simp [hnot, skipStatement, run_skip]

private theorem modifiers_subset :
    ["export", "declare", "abstract"] ⊆ "global" :: Brackets.declarationWords := by
  decide

private theorem keywords_subset : keywords ⊆ "global" :: Brackets.declarationWords := by
  decide

/-- A statement that starts with nothing known. -/
theorem run_statement_unknown (h : startsBlock c.head.kind = false) (b : Nat) :
    run (statement (b + 2) : Parser Statements) c =
      .ok (([], []), ⟨left Brackets.statement none 0 c.rest, c.last⟩) := by
  rw [startsBlock, Bool.or_eq_false_iff] at h
  have hat : c.isMark .atSign = false := by
    refine Bool.eq_false_iff.2 fun hmark => ?_
    rw [kind_of_isMark hmark] at h
    cases h.1
  -- Neither a modifier nor a keyword can be there, as both start blocks.
  have hword : ∀ word ∈ c.word?, word ∉ "global" :: declarationWords := by
    intro word hmem
    rw [kind_of_word? hmem] at h
    simpa [startsDeclaration] using h.symm
  have hmodifiers := @run_modifiers_none c b ⟨false, false⟩ fun word hmem =>
    ⟨fun hmodifier => hword word hmem (modifiers_subset hmodifier), fun hmodified => by
      cases hmodified⟩
  obtain ⟨head, hhead⟩ := exists_declarationHead hat hmodifiers hat
  exact run_statement_other hhead fun word hmem hkeyword =>
    hword word hmem (keywords_subset hkeyword)

end Parser

/-! ## From one statement to the next -/

/-- The parser gets from one cursor to another one and finds nothing but imports on its way. -/
def Leads (c d : Cursor) : Prop :=
  ∃ imports k, ∀ᶠ b in atTop, Parser.result? (Parser.statements (b + k) false) c =
    (Parser.result? (Parser.statements b false) d).map
      fun r => ((r.1.1, imports ++ r.1.2), r.2)

namespace Leads

variable {c d e : Cursor}

theorem refl (c : Cursor) : Leads c c := by
  refine ⟨[], 0, .of_forall fun b => ?_⟩
  simp

/-- One stretch after the other; the imports of both are found. -/
theorem trans (h : Leads c d) (h' : Leads d e) : Leads c e := by
  obtain ⟨imports, k, h⟩ := h
  obtain ⟨imports', k', h'⟩ := h'
  refine ⟨imports ++ imports', k' + k, ?_⟩
  -- Each stretch takes its own number of steps off the bound.
  filter_upwards [(tendsto_add_atTop_nat k').eventually h, h'] with b hb hb'
  rw [← Nat.add_assoc, hb, hb', Option.map_map]
  simp [Function.comp_def]

theorem mark {token last : Token} {tokens : List Token} {mark : Punct}
    (h : token.kind = .punct mark) (hmark : mark = .semicolon ∨ mark = .rightParen) :
    Leads ⟨token :: tokens, last⟩ ⟨tokens, last⟩ := by
  refine ⟨[], 1, .of_forall fun b => ?_⟩
  rw [Parser.statements]
  rcases hmark with rfl | rfl <;>
    simp [atEnd, Cursor.head, isMark, ahead, Cursor.next, h]

/-- A statement in which the parser finds nothing but imports. -/
private theorem statement (imports : List String) (hend : c.atEnd = false)
    (hmark : ∀ mark ∈ [Punct.semicolon, .rightBrace, .rightParen, .rightBracket],
      c.isMark mark = false)
    (h : ∀ᶠ b in atTop, Parser.run (Parser.statement b) c = .ok (([], imports), d)) :
    Leads c d := by
  simp only [List.forall_mem_cons, List.not_mem_nil, false_implies, implies_true,
    and_true] at hmark
  refine ⟨imports, 1, h.mono fun b hb => ?_⟩
  -- The statement declares nothing, so what follows decides what is declared.
  have hresult : Parser.result? (Parser.statement b) c = some (([], imports), d) := by
    rw [Parser.result?, hb]
    rfl
  rw [Parser.statements]
  simp only [Parser.result?_enter, Parser.result?_bind, Parser.result?_cursor, Parser.result?_ite,
    Option.bind_some, hend, hmark, hresult, Bool.and_false, Bool.or_false, Bool.false_eq_true,
    if_false]
  cases Parser.result? (Parser.statements b false) d <;> rfl

/-- A statement that starts with nothing known is passed over. -/
private theorem other {token last : Token} {tokens : List Token} {depth : Nat}
    (hblock : Brackets.startsBlock token.kind = false)
    (hdeepen : Brackets.deepen 0 token.kind = some depth)
    (hsemicolon : token.kind ≠ .punct .semicolon) (heof : token.kind ≠ .endOfFile) :
    Leads ⟨token :: tokens, last⟩
      ⟨Parser.left Brackets.statement none 0 (token :: tokens), last⟩ := by
  have hrun := @Parser.run_statement_unknown ⟨token :: tokens, last⟩ hblock
  refine statement [] (beq_false_of_ne heof) ?_ (eventually_of_add 2 (.of_forall hrun))
  simp only [List.forall_mem_cons, List.not_mem_nil, false_implies, implies_true, and_true]
  refine ⟨beq_false_of_ne hsemicolon, ?_, ?_, ?_⟩ <;>
    refine beq_false_of_ne fun hkind => ?_ <;>
    rw [show token.kind = _ from hkind] at hdeepen <;> cases hdeepen

/-- What is left to pass over after the first token of a statement. -/
private theorem skipped {c : Cursor} {token last : Token} {more rest : List Token} {depth : Nat}
    (hskip : Leads c ⟨Parser.left Brackets.statement none 0 (token :: (more ++ rest)), last⟩)
    (hdeepen : Brackets.deepen 0 token.kind = some depth)
    (hsemicolon : token.kind ≠ .punct .semicolon)
    (hpasses : Brackets.passes token.kind depth more = true)
    (hlast : more.getLast?.map Token.kind = some (.punct .rightBrace))
    (h : ∀ result, Parser.Ends rest more.tail result →
      Leads ⟨result, last⟩ ⟨Parser.behindBrace rest, last⟩) :
    Leads c ⟨Parser.behindBrace rest, last⟩ := by
  have hstep : Parser.left Brackets.statement none 0 (token :: (more ++ rest)) =
      Parser.left Brackets.statement (some token.kind) depth (more ++ rest) := by
    -- Nothing has been passed yet, so that no line starts here.
    rw [Parser.left_statement_cons (fun _ => ⟨hsemicolon, fun _ => ?_⟩) hdeepen, if_neg (by simp)]
    simp [Brackets.startsLine]
  rw [hstep] at hskip
  exact hskip.trans (h _ (Parser.left_passes rest hpasses hlast))

/-- The rest of a function after a line that seems to start another statement. -/
private theorem again {token last : Token} {more rest : List Token}
    (hfresh : token.freshLine = true)
    (hpasses : Brackets.passes (.punct .rightBrace) 0 (token :: more) = true)
    (hlast : (token :: more).getLast?.map Token.kind = some (.punct .rightBrace))
    (heof : ∀ t ∈ token :: more, t.kind ≠ .endOfFile) :
    Leads ⟨token :: (more ++ rest), last⟩ ⟨Parser.behindBrace rest, last⟩ := by
  obtain ⟨n, hn⟩ : ∃ n, more.length = n := ⟨_, rfl⟩
  -- By induction on the length, since skipping may end at a later line once more.
  induction n using Nat.strong_induction_on generalizing token more with
  | _ n ih =>
    obtain ⟨houtside, depth, hdeepen, hmore⟩ := Parser.passes_cons.1 hpasses
    obtain ⟨hsemicolon, hstarts⟩ := houtside rfl
    -- A line behind a brace starts no block, by what `passes` checks.
    have hblock : Brackets.startsBlock token.kind = false := by
      refine Bool.eq_false_iff.2 fun hblock => ?_
      have hline := hstarts hblock
      simp [Brackets.startsLine, hfresh, Brackets.continuesAfter, Punct.closes] at hline
    have hlast' : more.getLast?.map Token.kind = some (.punct .rightBrace) := by
      cases more with
      | nil =>
        have hbrace : token.kind = .punct .rightBrace := by simpa using hlast
        rw [hbrace] at hdeepen
        cases hdeepen
      | cons u more => rwa [List.getLast?_cons_cons] at hlast
    refine skipped (other hblock hdeepen hsemicolon (heof token List.mem_cons_self)) hdeepen
      hsemicolon hmore hlast' fun result hends => ?_
    · cases hends with
      | behind => exact .refl _
      | @again token' more' hfresh' hpasses' hlast' hsuffix =>
        have hlength := hsuffix.length_le
        rw [List.length_cons, List.length_tail] at hlength
        have hmem : ∀ t ∈ token' :: more', t ∈ more := fun t ht =>
          List.mem_of_mem_tail (hsuffix.subset ht)
        exact ih more'.length (by omega) hfresh' hpasses' hlast'
          (fun t ht => heof t (List.mem_cons_of_mem _ (hmem t ht))) rfl

/-- A statement that starts with words. -/
private theorem exported {token last : Token} {before tokens : List Token} {word : String}
    (imports : List String) (hbefore : before.map Token.kind ∈ Parser.exports)
    (hkind : token.kind = .word word)
    (h : ∀ᶠ b in atTop, Parser.run (Parser.statement b) ⟨before ++ token :: tokens, last⟩ =
      .ok (([], imports), d)) :
    Leads ⟨before ++ token :: tokens, last⟩ d := by
  -- The text starts with a word, be it one of the export or the token itself.
  obtain ⟨first, hfirst⟩ : ∃ first,
      word? ⟨before ++ token :: tokens, last⟩ = some first := by
    simp only [Parser.exports, List.mem_cons, List.not_mem_nil, or_false, List.map_eq_nil_iff,
      List.map_eq_cons_iff] at hbefore
    rcases hbefore with rfl | ⟨first, _, rfl, hfirst, _⟩ | ⟨first, _, rfl, hfirst, _⟩
    · exact ⟨_, Parser.word?_cons hkind⟩
    · exact ⟨_, Parser.word?_cons hfirst⟩
    · exact ⟨_, Parser.word?_cons hfirst⟩
  have hhead := kind_of_word? hfirst
  refine statement imports ?_ (fun mark _ => ?_) h
  · rw [atEnd, hhead]
    rfl
  · rw [isMark, ahead_zero, hhead]
    rfl

/-- A function. -/
theorem function {token last : Token} {before more rest : List Token} {word : String}
    (hbefore : before.map Token.kind ∈ Parser.exports) (hkind : token.kind = .word word)
    (hword : word ∈ ["function", "async"]) (hpasses : Brackets.passes token.kind 0 more = true)
    (hlast : more.getLast?.map Token.kind = some (.punct .rightBrace))
    (heof : ∀ t ∈ more, t.kind ≠ .endOfFile) :
    Leads ⟨before ++ token :: (more ++ rest), last⟩ ⟨Parser.behindBrace rest, last⟩ := by
  refine skipped ?_ (by rw [hkind]; rfl) (by simp [hkind]) hpasses hlast
    fun result hends => ?_
  · have hnot : ∀ word ∈ ["function", "async"],
        word ∉ ["export", "declare", "abstract", "default"] ∧ word ∉ Parser.keywords := by decide
    refine exported [] hbefore hkind (eventually_of_add 4 (.of_forall fun b => ?_))
    obtain ⟨head, hhead⟩ := Parser.exists_declarationHead_export hbefore hkind (hnot word hword).1
    refine Parser.run_statement_other hhead fun word' hmem => ?_
    obtain rfl := Option.some.inj ((Parser.word?_cons hkind).symm.trans hmem)
    exact (hnot word hword).2
  -- Skipping ends behind the function, or it has to start again inside of it.
  · cases hends with
    | behind => exact .refl _
    | again hfresh hpasses hlast hsuffix =>
      exact again hfresh hpasses hlast fun t ht =>
        heof t (List.mem_of_mem_tail (hsuffix.subset ht))

end Leads

/-! ## Imports -/

namespace Parser

open Brackets

/-- What is left behind the rest of an import: it ends with a string, and a semicolon behind that,
or with the first semicolon outside of braces. -/
def importLeft : List Token → List Token
  | [] => []
  | token :: tokens =>
    match token.kind with
    | .string _ => if tokens.head?.any (·.kind == .punct .semicolon) then tokens.tail else tokens
    | .endOfFile => token :: tokens
    | .punct .semicolon => tokens
    | .punct .leftBrace => importLeft (left group (some token.kind) 1 tokens)
    | _ => importLeft tokens
termination_by tokens => tokens.length
decreasing_by
  · exact Nat.lt_succ_of_le (left_suffix _ _ _ _).length_le
  · exact Nat.lt_succ_self _

/-- `importRest` leaves what `importLeft` leaves, if its bound is large enough. -/
private theorem exists_importRest {last : Token} (hlast : last.kind = .endOfFile)
    (tokens : List Token) :
    ∃ module, ∀ᶠ b in atTop, run (importRest b : Parser (Option String)) ⟨tokens, last⟩ =
      .ok (module, ⟨importLeft tokens, last⟩) := by
  obtain ⟨n, hn⟩ : ∃ n, tokens.length = n := ⟨_, rfl⟩
  -- By induction on the number of tokens, as a group in braces takes several off.
  induction n using Nat.strong_induction_on generalizing tokens with
  | _ n ih =>
    cases tokens with
    | nil =>
      refine ⟨none, eventually_of_add 1 (.of_forall fun b => ?_)⟩
      rw [importRest]
      simp [Cursor.head, hlast, importLeft]
    | cons token tokens =>
      have hhead : Cursor.head ⟨token :: tokens, last⟩ = token := rfl
      rw [importLeft]
      split
      · next module hkind =>
        refine ⟨some module, eventually_of_add 1 (.of_forall fun b => ?_)⟩
        rw [importRest]
        cases tokens with
        | nil => simp [hhead, hkind, isMark, ahead, Cursor.next, hlast]
        | cons next tokens =>
          by_cases hsemicolon : next.kind = .punct .semicolon <;>
            simp [hhead, hkind, isMark, ahead, Cursor.next, hsemicolon]
      · next hkind =>
        refine ⟨none, eventually_of_add 1 (.of_forall fun b => ?_)⟩
        rw [importRest]
        simp [hhead, hkind]
      · next hkind =>
        refine ⟨none, eventually_of_add 1 (.of_forall fun b => ?_)⟩
        rw [importRest]
        simp [hhead, hkind, Cursor.next]
      · next hkind =>
        obtain ⟨module, h⟩ := ih _ (hn ▸ Nat.lt_succ_of_le (left_suffix _ _ _ _).length_le)
          (left group (some token.kind) 1 tokens) rfl
        have hgroup : left group none 0 (token :: tokens) =
            left group (some token.kind) 1 tokens := by
          rw [left, group]
          simp [hkind, Punct.opens]
        refine ⟨module, eventually_of_add 1 (h.mono fun b hb => ?_)⟩
        rw [hkind] at hgroup hb ⊢
        rw [importRest]
        simp [hhead, hkind, skipGroup, run_skip, hgroup, hb]
      · next hstring heof hsemicolon hbrace =>
        obtain ⟨module, h⟩ := ih _ (hn ▸ Nat.lt_succ_self _) tokens rfl
        refine ⟨module, eventually_of_add 1 (h.mono fun b hb => ?_)⟩
        have hstep : run (importRest (b + 1)) ⟨token :: tokens, last⟩ =
            run (importRest b) ⟨tokens, last⟩ := by
          rw [importRest]
          simp only [run_enter, run_bind, run_cursor, hhead]
          rfl
        rw [hstep, hb]

end Parser

namespace Brackets

/-- Tokens between `import` and what ends it: no string or semicolon outside of braces. -/
inductive Clause : List Token → Prop
  | nil : Clause []
  | token {token : Token} {tokens : List Token} : (∀ text, token.kind ≠ .string text) →
      token.kind ∉ [.endOfFile, .punct .semicolon, .punct .leftBrace] → Clause tokens →
      Clause (token :: tokens)
  | group {left right : Token} {inner tokens : List Token} : left.kind = .punct .leftBrace →
      level 0 inner = some 0 → right.kind = .punct .rightBrace → Clause tokens →
      Clause (left :: (inner ++ right :: tokens))

/-- Tokens that end an import: a semicolon, or the name of the module, with a parenthesis if it is
required, with attributes in braces, and with a semicolon or none. -/
inductive Closing : List Token → Prop
  | semicolon {token : Token} : token.kind = .punct .semicolon → Closing [token]
  | module {token : Token} {text : String} {tokens : List Token} : token.kind = .string text →
      tokens.map Token.kind ∈ [[], [.punct .semicolon], [.punct .rightParen],
        [.punct .rightParen, .punct .semicolon]] → Closing (token :: tokens)
  | attributes {token word left right : Token} {text : String} {inner tokens : List Token} :
      token.kind = .string text → word.kind = .word "with" ∨ word.kind = .word "assert" →
      left.kind = .punct .leftBrace → level 0 inner = some 0 →
      right.kind = .punct .rightBrace → tokens.map Token.kind ∈ [[], [.punct .semicolon]] →
      Closing (token :: word :: left :: (inner ++ right :: tokens))

end Brackets

namespace Parser

/-- The tokens of a clause are passed over up to what ends the import. -/
theorem importLeft_clause {clause : List Token} (h : Brackets.Clause clause)
    (hend : ∀ token ∈ clause, token.kind ≠ .endOfFile) (rest : List Token) :
    importLeft (clause ++ rest) = importLeft rest := by
  induction h with
  | nil => rfl
  -- None of the kinds that end the import or open a group.
  | @token token tokens hstring hkind _ ih =>
    simp only [List.mem_cons, List.not_mem_nil, or_false, not_or] at hkind
    rw [List.cons_append, importLeft]
    split
    · next heq => exact absurd heq (hstring _)
    · next heq => exact absurd heq hkind.1
    · next heq => exact absurd heq hkind.2.1
    · next heq => exact absurd heq hkind.2.2
    · exact ih (List.forall_mem_cons.1 hend).2
  -- A group in braces is skipped as a whole.
  | @group first last inner tokens hfirst hinner hlast _ ih =>
    rw [List.cons_append, List.append_assoc, List.cons_append, importLeft]
    simp only [hfirst]
    obtain ⟨hinside, hbehind⟩ := List.forall_mem_append.1 (List.forall_mem_cons.1 hend).2
    rw [left_group hinside hinner hlast rfl, ih (List.forall_mem_cons.1 hbehind).2]

end Parser

namespace Leads

/-- An import up to its end. -/
theorem importStatement {token last : Token} {before tokens : List Token}
    (hbefore : before.map Token.kind ∈ Parser.exports) (hkind : token.kind = .word "import")
    (hparen : tokens.head?.map Token.kind ≠ some (.punct .leftParen))
    (hlast : last.kind = .endOfFile) :
    Leads ⟨before ++ token :: tokens, last⟩ ⟨Parser.importLeft tokens, last⟩ := by
  obtain ⟨module, hmodule⟩ := Parser.exists_importRest hlast tokens
  refine exported module.toList hbefore hkind (eventually_of_add 1 ?_)
  filter_upwards [hmodule, eventually_ge_atTop 3] with b hb hthree
  obtain ⟨b, rfl⟩ := Nat.exists_eq_add_of_le' hthree
  obtain ⟨head, hhead⟩ := Parser.exists_declarationHead_export hbefore hkind (by decide)
  have hword : isWord ⟨token :: tokens, last⟩ "import" = true := by
    rw [isWord, Parser.word?_cons hkind]
    rfl
  -- A parenthesis would make it an expression.
  have hmark : isMark ⟨tokens, last⟩ .leftParen = false := by
    cases tokens with
    | nil => simp [isMark, ahead, hlast]
    | cons next tokens => simpa [isMark, ahead] using hparen
  rw [Parser.statement, Parser.run_enter, Parser.run_bind, hhead]
  simp [hword, hmark, Parser.importStatement, Cursor.next, hb]

/-- The end of an import with attributes. -/
private theorem attributes {word first right last : Token} {inner tokens : List Token}
    (hword : word.kind = .word "with" ∨ word.kind = .word "assert")
    (hfirst : first.kind = .punct .leftBrace) (hinner : Brackets.level 0 inner = some 0)
    (hright : right.kind = .punct .rightBrace) :
    Leads ⟨word :: first :: (inner ++ right :: tokens), last⟩
      ⟨Parser.behindBrace tokens, last⟩ := by
  obtain ⟨text, hkind, htext⟩ : ∃ text, word.kind = .word text ∧
      Brackets.startsBlock (.word text) = false := by
    rcases hword with hword | hword <;> exact ⟨_, hword, by decide⟩
  have hskip := @other word last (first :: (inner ++ right :: tokens)) 0 (by rw [hkind, htext])
    (by rw [hkind]; rfl) (by simp [hkind]) (by simp [hkind])
  obtain ⟨previous, hinside⟩ := Parser.left_inside
    (fun token _ => Parser.counts_statement token) hinner (right :: tokens) (some first.kind)
  -- The word, the brace and the tokens up to its partner are passed as a statement of their own.
  have hleft : Parser.left Brackets.statement none 0
      (word :: first :: (inner ++ right :: tokens)) = Parser.behindBrace tokens := by
    rw [Parser.left_statement_cons (by simp [hkind, Brackets.startsLine])
        (by rw [hkind]; rfl), if_neg (by simp),
      Parser.left_statement_cons (by simp [hfirst, Brackets.startsDeclaration])
        (by rw [hfirst]; rfl), if_neg (by simp), hinside,
      Parser.left_statement_cons (by simp) (by rw [hright]; rfl),
      if_pos ⟨rfl, hright⟩]
  rwa [hleft] at hskip

/-- What a closed import leaves. -/
theorem closing {last : Token} {ending rest : List Token} (h : Brackets.Closing ending)
    (hrest : rest.head?.map Token.kind ≠ some (.punct .semicolon))
    (hfresh : Parser.behindBrace rest = rest) :
    Leads ⟨Parser.importLeft (ending ++ rest), last⟩ ⟨rest, last⟩ := by
  cases h with
  | semicolon hkind =>
    rw [List.singleton_append, Parser.importLeft]
    simp only [hkind]
    exact .refl _
  | module hkind htokens =>
    rw [List.cons_append, Parser.importLeft]
    simp only [hkind]
    simp only [List.mem_cons, List.not_mem_nil, or_false, List.map_eq_nil_iff,
      List.map_eq_cons_iff] at htokens
    -- A parenthesis is left over and closes nothing, so that it is passed like a semicolon.
    rcases htokens with rfl | ⟨first, _, rfl, hfirst, rfl⟩ | ⟨first, _, rfl, hfirst, rfl⟩ |
      ⟨first, _, rfl, hfirst, second, _, rfl, hsecond, rfl⟩
    · have hnone : rest.head?.any (·.kind == .punct .semicolon) = false := by
        cases hhead : rest.head? <;> simp_all
      simpa [hnone] using Leads.refl ⟨rest, last⟩
    · simpa [hfirst] using Leads.refl ⟨rest, last⟩
    · simpa [hfirst] using mark hfirst (.inr rfl)
    · simpa [hfirst] using (mark hfirst (.inr rfl)).trans (mark hsecond (.inl rfl))
  | @attributes token word first right _ inner tokens hkind hword hfirst hinner hright htokens =>
    have hnext : word.kind ≠ .punct .semicolon := by
      rcases hword with hword | hword <;> simp [hword]
    have hleft : Parser.importLeft (token :: word :: first :: (inner ++ right :: tokens) ++ rest) =
        word :: first :: (inner ++ right :: (tokens ++ rest)) := by
      rw [List.cons_append, Parser.importLeft]
      simp [hkind, hnext]
    rw [hleft]
    refine (attributes hword hfirst hinner hright).trans ?_
    simp only [List.mem_cons, List.not_mem_nil, or_false, List.map_eq_nil_iff,
      List.map_eq_cons_iff] at htokens
    rcases htokens with rfl | ⟨semicolon, _, rfl, hsemicolon, rfl⟩
    · rw [List.nil_append, hfresh]
      exact .refl _
    · rw [List.singleton_append, Parser.behindBrace]
      split
      · exact .mark hsemicolon (.inl rfl)
      · rw [Parser.left, Brackets.statement]
        simpa [hsemicolon] using Leads.refl ⟨rest, last⟩

end Leads

end Endpoints
