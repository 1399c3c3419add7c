import Endpoints.Proofs.Skipping

/-!
# Matching brackets

Groups in brackets are passed by counting brackets of all kinds. Three loops do so: `skipGroup` for
a group of any sort, `skipBody` for the body of a function, and `startsFunction`, which looks past
the parameters of a function type before it is decided to read one. `Brackets.stop` says where a
group ends, by the numbers of brackets among its tokens, and `bracket_matchers_agree` that all three
end there, whether the brackets are balanced or not.
-/

namespace Endpoints

/-- Whether the token is an opening bracket of any kind. -/
def Token.opens (token : Token) : Bool :=
  match token.kind with
  | .punct mark => mark.opens
  | _ => false

/-- Whether the token is a closing bracket of any kind. -/
def Token.closes (token : Token) : Bool :=
  match token.kind with
  | .punct mark => mark.closes
  | _ => false

private theorem Token.opens_of_closes {token : Token} (h : token.closes = true) :
    token.opens = false := by
  rw [Token.closes] at h
  rw [Token.opens]
  cases hkind : token.kind with
  | punct mark => exact Punct.opens_of_closes (by rwa [hkind] at h)
  | _ => rfl

/-! ## The end of a group -/

namespace Brackets

variable {depth depth' : Nat} {token last : Token} {tokens : List Token}

/-- The tokens before the end of the file. -/
def inFile (tokens : List Token) : List Token :=
  tokens.takeWhile (·.kind != .endOfFile)

/-- The position of the first token at which as many brackets have been closed as opened, `depth`
brackets having been opened before these tokens. -/
def closing? (depth : Nat) (tokens : List Token) : Option Nat :=
  (List.range tokens.length).find? fun n =>
    depth + (tokens.take (n + 1)).countP Token.opens = (tokens.take (n + 1)).countP Token.closes

/-- How many tokens a group takes, `depth` of its brackets having been opened before these tokens:
those up to the one that closes it, or all up to the end of the file if there is none. -/
def stop (depth : Nat) (tokens : List Token) : Nat :=
  match closing? depth (inFile tokens) with
  | some n => n + 1
  | none => (inFile tokens).length

private theorem inFile_cons (hend : token.kind ≠ .endOfFile) :
    inFile (token :: tokens) = token :: inFile tokens := by
  simp [inFile, hend]

/-- What stands behind the tokens before the end of the file is that end. -/
private theorem kind_behind_inFile (hlast : last.kind = .endOfFile) (tokens : List Token) :
    ((tokens.drop (inFile tokens).length).headD last).kind = .endOfFile := by
  induction tokens with
  | nil => exact hlast
  | cons token tokens ih =>
    by_cases hend : token.kind = .endOfFile
    · simp [inFile, hend]
    · rw [inFile_cons hend, List.length_cons, List.drop_succ_cons]
      exact ih

/-- A token that does not close the last open bracket is not the end of the group. -/
private theorem closing?_cons (hopen : 0 < depth')
    (hdepth : depth + [token].countP Token.opens = depth' + [token].countP Token.closes) :
    closing? depth (token :: tokens) = (closing? depth' tokens).map (· + 1) := by
  have hhere : ¬(depth + [token].countP Token.opens = [token].countP Token.closes) := by omega
  rw [closing?, closing?, List.length_cons, List.range_succ_eq_map, List.find?_cons_of_neg,
    List.find?_map]
  · congr 2
    funext n
    -- The first token counts once on each side, and the brackets open before it make up for it.
    have hopens : ((token :: tokens).take (n + 2)).countP Token.opens =
        [token].countP Token.opens + (tokens.take (n + 1)).countP Token.opens := by
      rw [← List.countP_append]
      rfl
    have hcloses : ((token :: tokens).take (n + 2)).countP Token.closes =
        [token].countP Token.closes + (tokens.take (n + 1)).countP Token.closes := by
      rw [← List.countP_append]
      rfl
    show decide _ = decide _
    rw [hopens, hcloses, decide_eq_decide]
    omega
  · simpa using hhere

private theorem stop_of_end (hend : token.kind = .endOfFile) :
    stop depth (token :: tokens) = 0 := by
  have hnil : inFile (token :: tokens) = [] := by simp [inFile, hend]
  rw [stop, hnil]
  rfl

private theorem stop_cons (hend : token.kind ≠ .endOfFile) (hopen : 0 < depth')
    (hdepth : depth + [token].countP Token.opens = depth' + [token].countP Token.closes) :
    stop depth (token :: tokens) = stop depth' tokens + 1 := by
  rw [stop, stop, inFile_cons hend, closing?_cons hopen hdepth]
  cases closing? depth' (inFile tokens) <;> rfl

private theorem stop_of_closes (hcloses : token.closes = true) :
    stop 1 (token :: tokens) = 1 := by
  have hend : token.kind ≠ .endOfFile := fun hkind => by simp [Token.closes, hkind] at hcloses
  have hfirst : closing? 1 (token :: inFile tokens) = some 0 := by
    rw [closing?, List.length_cons, List.range_succ_eq_map, List.find?_cons_of_pos]
    simp [hcloses, Token.opens_of_closes hcloses]
  rw [stop, inFile_cons hend, hfirst]

/-- What a token means to the judge `group`. -/
private theorem group_eq (previous : Option TokenKind) (next : Option Token)
    (hend : token.kind ≠ .endOfFile) :
    group previous depth token next =
      if token.opens then .opens
      else if token.closes then if depth ≤ 1 then .after else .closes
      else .pass := by
  rw [group]
  cases hkind : token.kind with
  | endOfFile => exact absurd hkind hend
  | _ => simp [Token.opens, Token.closes, hkind]

end Brackets

/-- The cursor behind the group that starts at `c`, that is, behind the first token at which as many
brackets have been closed as opened since `c`; at the end of the file if there is no such token. -/
def Cursor.behindGroup (c : Cursor) : Cursor :=
  { c with rest := c.rest.drop (Brackets.stop 0 c.rest) }

namespace Parser

open Brackets MonadParser

variable {c : Cursor} {mark : Punct}

/-- Inside a group, counting down to no open bracket finds the token that closes it. -/
private theorem left_group_eq (previous : Option TokenKind) (depth : Nat) (tokens : List Token) :
    left group previous (depth + 1) tokens = tokens.drop (stop (depth + 1) tokens) := by
  induction tokens generalizing previous depth with
  | nil => exact List.drop_nil.symm
  | cons token tokens ih =>
    by_cases hend : token.kind = .endOfFile
    · have hverdict : ∀ next, group previous (depth + 1) token next = .before := by
        simp [group, hend]
      rw [left, hverdict, stop_of_end hend]
      rfl
    -- Where the group goes on behind the token, it takes one token more.
    have hmore : ∀ depth', depth + 1 + [token].countP Token.opens =
        depth' + 1 + [token].countP Token.closes →
        left group (some token.kind) (depth' + 1) tokens =
          (token :: tokens).drop (stop (depth + 1) (token :: tokens)) := by
      intro depth' hdepth
      rw [ih, stop_cons hend depth'.succ_pos hdepth, List.drop_succ_cons]
    rw [left, group_eq _ _ hend]
    -- A closing bracket ends the group or one inside it; other tokens leave the group open.
    by_cases hcloses : token.closes = true
    · have hopens := Token.opens_of_closes hcloses
      rw [if_neg (by simp [hopens]), if_pos hcloses]
      cases depth with
      | zero =>
        rw [stop_of_closes hcloses]
        rfl
      | succ depth =>
        rw [if_neg (by omega)]
        exact hmore depth (by simp [hopens, hcloses])
    by_cases hopens : token.opens = true
    · rw [if_pos hopens]
      exact hmore (depth + 1) (by simp [hopens, hcloses])
    · rw [if_neg hopens, if_neg hcloses]
      exact hmore depth (by simp [hopens, hcloses])

/-- Skipping from an opening bracket on leaves what stands behind its group. -/
private theorem left_group_of_opens (hlast : c.last.kind = .endOfFile) (hopens : mark.opens = true)
    (hmark : c.isMark mark = true) : left group none 0 c.rest = c.behindGroup.rest := by
  obtain ⟨rest, last⟩ := c
  have hkind := Cursor.kind_of_isMark hmark
  cases rest with
  | nil => exact absurd (hlast.symm.trans hkind) (by simp)
  | cons token tokens =>
    have hfirst : token.opens = true := by
      rw [Token.opens, show token.kind = .punct mark from hkind]
      exact hopens
    have hcloses : ¬token.closes = true := fun h => by simp [Token.opens_of_closes h] at hfirst
    have hend : token.kind ≠ .endOfFile := fun h => by simp [Token.opens, h] at hfirst
    -- Behind the bracket itself, one is open.
    have hstop : stop 0 (token :: tokens) = stop 1 tokens + 1 :=
      stop_cons hend Nat.one_pos (by simp [hfirst, hcloses])
    rw [left, group_eq _ _ hend, if_pos hfirst, Cursor.behindGroup, hstop]
    exact left_group_eq _ 0 tokens

/-- `passBody` ends where skipping a `group` does, whatever it notes on the way. -/
private theorem passBody_snd (last : Token) (previous : Option TokenKind) (depth : Nat)
    (returns : Bool) (tokens : List Token) :
    (passBody last depth returns tokens).2 = left group previous depth tokens := by
  induction tokens generalizing previous depth returns with
  | nil => rfl
  | cons token tokens ih =>
    rw [passBody, left, group]
    cases token.kind with
    | punct mark =>
      by_cases hopens : mark.opens = true
      · simp only [if_pos hopens]
        exact ih _ _ _
      by_cases hcloses : mark.closes = true
      · -- The saturating count of one loop is the test for the last bracket of the other.
        by_cases hdepth : depth ≤ 1
        · simp only [if_neg hopens, if_pos hcloses, if_pos hdepth,
            if_pos (Nat.sub_eq_zero_of_le hdepth)]
        · simp only [if_neg hopens, if_pos hcloses, if_neg hdepth,
            if_neg (show ¬depth - 1 = 0 by omega)]
          exact ih _ _ _
      · simp only [if_neg hopens, if_neg hcloses]
        exact ih _ _ _
    | endOfFile => rfl
    | _ => exact ih _ _ _

/-- The token that ends the file stays behind what is left of some tokens. -/
private theorem left_group_concat {last : Token} (hlast : last.kind = .endOfFile)
    (previous : Option TokenKind) (depth : Nat) (tokens : List Token) :
    left group previous depth (tokens ++ [last]) = left group previous depth tokens ++ [last] := by
  induction tokens generalizing previous depth with
  | nil =>
    have hverdict : ∀ next, group previous depth last next = .before := by simp [group, hlast]
    simp [left, hverdict]
  | cons token tokens ih =>
    -- The judge does not look at the next token.
    have hverdict : ∀ next next', group previous depth token next =
        group previous depth token next' := fun _ _ => rfl
    rw [List.cons_append, left, left, hverdict _ tokens.head?]
    cases group previous depth token tokens.head? with
    | pass => exact ih _ _
    | opens => exact ih _ _
    | closes => exact ih _ _
    | before => rfl
    | after => rfl

/-! ## What is passed by counting -/

private theorem run_skipGroup (hlast : c.last.kind = .endOfFile) (hopens : mark.opens = true)
    (hmark : c.isMark mark = true) : run skipGroup c = .ok ((), c.behindGroup) := by
  rw [skipGroup, run_skip, left_group_of_opens hlast hopens hmark]
  rfl

private theorem run_skipBody (hlast : c.last.kind = .endOfFile) (hopens : mark.opens = true)
    (hmark : c.isMark mark = true) :
    run skipBody c = .ok ((passBody c.last 0 false c.rest).1, c.behindGroup) := by
  have hrest : (passBody c.last 0 false c.rest).2 = c.behindGroup.rest := by
    rw [passBody_snd c.last none, left_group_of_opens hlast hopens hmark]
  simp only [skipBody, run_bind, run_cursor, hrest, run_moveTo]
  rfl

/-- An arrow stands behind a group only if the group is closed. -/
private theorem isSome_of_arrow (hlast : c.last.kind = .endOfFile)
    (harrow : c.behindGroup.isMark .arrow = true) : (closing? 0 (inFile c.rest)).isSome = true := by
  by_contra hopen
  have hstop : stop 0 c.rest = (inFile c.rest).length := by
    rw [stop, Option.not_isSome_iff_eq_none.1 hopen]
  -- Behind a group that is not closed stands the end of the file, which is no arrow.
  have hkind := Cursor.kind_of_isMark harrow
  rw [Cursor.behindGroup, hstop, Cursor.head, kind_behind_inFile hlast] at hkind
  cases hkind

/-- Looking past parentheses finds an arrow if they are closed and it follows. -/
private theorem run_startsFunction (hlast : c.last.kind = .endOfFile)
    (hparen : c.isMark .leftParen = true) :
    run startsFunction c = .ok (c.behindGroup.isMark .arrow, c) := by
  have hleft : left group none 0 c.tokens = c.behindGroup.rest ++ [c.last] := by
    rw [Cursor.tokens, left_group_concat hlast, left_group_of_opens hlast rfl hparen]
  have hanswer : arrowBehind c.tokens 0 0 = c.behindGroup.isMark .arrow := by
    rw [arrowBehind_eq none, List.drop_zero, hleft, Cursor.isMark, Cursor.ahead_zero, Cursor.head]
    cases c.behindGroup.rest <;> rfl
  simp [startsFunction, hparen, hanswer]

/-- What is read of a function type behind its arrow: the result, of which the text is kept. -/
def functionResult (bound : Nat) (start : Cursor) : Parser TypeExpr := do
  discard (returnType bound)
  return .unsupported (← textSince start)

private theorem run_functionType (hlast : c.last.kind = .endOfFile) (hopens : mark.opens = true)
    (hmark : c.isMark mark = true) (harrow : c.behindGroup.isMark .arrow = true) (bound : Nat)
    (start : Cursor) :
    run (functionType (bound + 1) start) c =
      run (functionResult bound start) c.behindGroup.next := by
  simp only [functionType, functionResult, run_enter, run_bind, run_skipGroup hlast hopens hmark,
    run_expect harrow]

private theorem run_typeExpr_of_startsFunction (hparen : c.isMark .leftParen = true)
    (hstarts : run startsFunction c = .ok (true, c)) (bound : Nat) :
    run (typeExpr (bound + 1)) c = run (functionType bound c) c := by
  have hkind := Cursor.kind_of_isMark hparen
  have hless : c.isMark .less = false := by simp [Cursor.isMark, hkind]
  have hword : ∀ text, c.isWord text = false := by simp [Cursor.isWord, Cursor.word?, hkind]
  simp [typeExpr, hless, hword, hstarts]

/-- The three loops that count brackets end at the same place. From an opening bracket, `skipGroup`
and `skipBody` both reach the place behind the first token at which as many brackets have been
closed as opened, or the end of the file if there is none. At a parenthesis, `startsFunction` looks
for a function type and finds one exactly if the group is closed and an arrow stands behind it;
`functionType` then reads on from behind the arrow, so it does not fail there. -/
theorem bracket_matchers_agree (c : Cursor) (hlast : c.last.kind = .endOfFile) {mark : Punct}
    (hopens : mark.opens = true) (hmark : c.isMark mark = true) :
    run skipGroup c = .ok ((), c.behindGroup) ∧
    (∃ returns, run skipBody c = .ok (returns, c.behindGroup)) ∧
    (mark = .leftParen → ∃ answer, run startsFunction c = .ok (answer, c) ∧
      (answer = true ↔
        c.behindGroup.isMark .arrow = true ∧ (closing? 0 (inFile c.rest)).isSome = true) ∧
      (answer = true → ∀ bound,
        (∀ start, run (functionType (bound + 1) start) c =
          run (functionResult bound start) c.behindGroup.next) ∧
        run (typeExpr (bound + 2)) c = run (functionResult bound c) c.behindGroup.next)) := by
  refine ⟨run_skipGroup hlast hopens hmark, ⟨_, run_skipBody hlast hopens hmark⟩, ?_⟩
  -- What starts with a parenthesis is a function type exactly if an arrow follows the group.
  rintro rfl
  have hstarts := run_startsFunction hlast hmark
  refine ⟨_, hstarts, ⟨fun harrow => ⟨harrow, isSome_of_arrow hlast harrow⟩, And.left⟩, ?_⟩
  intro harrow bound
  have hfunction := run_functionType hlast hopens hmark harrow bound
  rw [harrow] at hstarts
  exact ⟨hfunction, (run_typeExpr_of_startsFunction hmark hstarts _).trans (hfunction c)⟩

/-- Brackets of different kinds close each other; the arrow behind them makes a function type. -/
theorem mixed_brackets_matched :
    let token (kind : TokenKind) : Token := ⟨kind, "", "", 0, 1, false, none⟩
    let c : Cursor := ⟨[.punct .leftParen, .word "a", .punct .leftBracket, .punct .rightBrace,
      .punct .rightParen, .punct .arrow, .word "T"].map token, token .endOfFile⟩
    c.last.kind = .endOfFile ∧ c.isMark .leftParen = true ∧
    c.behindGroup.rest = [token (.punct .arrow), token (.word "T")] ∧
    run skipGroup c = .ok ((), c.behindGroup) ∧
    (∃ returns, run skipBody c = .ok (returns, c.behindGroup)) ∧
    run startsFunction c = .ok (true, c) ∧
    ∀ bound, run (typeExpr (bound + 2)) c = run (functionResult bound c) c.behindGroup.next := by
  intro token c
  have hrest : c.behindGroup.rest = [token (.punct .arrow), token (.word "T")] := by decide
  obtain ⟨hgroup, hbody, hfunction⟩ := @bracket_matchers_agree c rfl .leftParen rfl rfl
  obtain ⟨answer, hrun, hanswer, hresult⟩ := hfunction rfl
  -- The brackets inside do not match in kind, yet the group is closed and an arrow follows.
  obtain rfl : answer = true := hanswer.2 ⟨by decide, by decide⟩
  exact ⟨rfl, rfl, hrest, hgroup, hbody, hrun, fun bound => (hresult rfl bound).2⟩

end Parser

end Endpoints
