import Endpoints.Proofs.Lexing
import Endpoints.Proofs.Watch

/-!
# Parsers on known tokens

What a parser gives on tokens that are known. `Cursor.Shows` says which tokens stand between two
cursors, and `Reads` that a parser passes these tokens and gives a value, whatever stands behind
them as long as it starts with one of certain marks.
-/

namespace Endpoints

open MonadParser

/-! ## Parsers step by step -/

namespace Parser

variable {α β : Type} {c : Cursor}

@[simp] theorem run_pure (a : α) : run (pure a : Parser α) c = .ok (a, c) := rfl

@[simp] theorem run_bind (x : Parser α) (f : α → Parser β) : run (x >>= f) c =
    match run x c with
    | .ok (a, c') => run (f a) c'
    | .error e => .error e := rfl

@[simp] theorem run_ite (p : Prop) [Decidable p] (x y : Parser α) :
    run (if p then x else y) c = if p then run x c else run y c :=
  apply_ite (run · c) p x y

@[simp] theorem run_cursor : run (cursor : Parser Cursor) c = .ok (c, c) := rfl

@[simp] theorem run_moveTo (d : Cursor) : run (moveTo d : Parser Unit) c = .ok ((), d) := rfl

@[simp] theorem run_enter (routine : Routine) (x : Parser α) :
    run (enter routine x : Parser α) c = run x c := rfl

@[simp] theorem run_discard (x : Parser α) : run (discard x) c =
    match run x c with
    | .ok (_, c') => .ok ((), c')
    | .error e => .error e := rfl

@[simp] theorem run_advance : run (advance : Parser Token) c = .ok (c.head, c.next) := rfl

@[simp] theorem run_eat (mark : Punct) : run (eat mark : Parser Bool) c =
    .ok (if c.isMark mark then (true, c.next) else (false, c)) := by
  cases h : c.isMark mark <;> simp [eat, h]

theorem run_expect {mark : Punct} (h : c.isMark mark = true) :
    run (expect mark : Parser Unit) c = .ok ((), c.next) := by
  simp [expect, h]

end Parser

/-! ## Skipping -/

namespace Parser

open Brackets

/-- The tokens that are left where skipping ends. -/
def left (judge : Judge) :
    (previous : Option TokenKind) → (depth : Nat) → List Token → List Token
  | _, _, [] => []
  | previous, depth, token :: tokens =>
    match judge previous depth token tokens.head? with
    | .pass => left judge (some token.kind) depth tokens
    | .opens => left judge (some token.kind) (depth + 1) tokens
    | .closes => left judge (some token.kind) (depth - 1) tokens
    | .before => token :: tokens
    | .after => tokens

/-- `scan` never fails and gives what is `left`. -/
private theorem run_scan (judge : Judge) (previous : Option TokenKind) (depth : Nat)
    (tokens : List Token) {c : Cursor} :
    run (scan judge previous depth tokens : Parser (List Token)) c =
      .ok (left judge previous depth tokens, c) := by
  induction tokens generalizing previous depth with
  | nil => rfl
  | cons token tokens ih =>
    rw [scan, left]
    -- The judgement says whether the scan goes on and at which depth.
    cases judge previous depth token tokens.head? with
    | pass => exact ih _ _
    | opens => exact ih _ _
    | closes => exact ih _ _
    | before => rfl
    | after => rfl

theorem run_skip (judge : Judge) (depth : Nat) {c : Cursor} :
    run (skip judge depth : Parser Unit) c = .ok ((), ⟨left judge none depth c.rest, c.last⟩) := by
  rw [skip, run_bind, run_cursor]
  simp only [run_bind, run_scan, run_moveTo]

/-- The loop of `arrowBehind` looks at the token that `left` finds first behind the group: it goes
along the tokens behind `index` as skipping a `group` does. -/
theorem arrowBehind_eq (previous : Option TokenKind) {tokens : List Token} {depth index : Nat} :
    arrowBehind tokens depth index =
      ((left group previous depth (tokens.drop index)).head?.map Token.kind ==
        some (.punct .arrow)) := by
  fun_induction arrowBehind tokens depth index generalizing previous with
  | case1 depth index hindex mark hkind hopens ih =>
    have hverdict : ∀ next, group previous depth tokens[index] next = .opens := by
      simp [group, hkind, hopens]
    rw [List.drop_eq_getElem_cons hindex, left, hverdict]
    exact ih _
  | case2 depth index hindex mark hkind hopens hcloses hdepth =>
    have hverdict : ∀ next, group previous depth tokens[index] next = .after := by
      simp [group, hkind, hopens, hcloses, show depth ≤ 1 by omega]
    rw [List.drop_eq_getElem_cons hindex, left, hverdict]
    exact congrArg (·.map Token.kind == _) List.head?_drop.symm
  | case3 depth index hindex mark hkind hopens hcloses hdepth ih =>
    have hverdict : ∀ next, group previous depth tokens[index] next = .closes := by
      simp [group, hkind, hopens, hcloses, show ¬depth ≤ 1 by omega]
    rw [List.drop_eq_getElem_cons hindex, left, hverdict]
    exact ih _
  | case4 depth index hindex mark hkind hopens hcloses ih =>
    have hverdict : ∀ next, group previous depth tokens[index] next = .pass := by
      simp [group, hkind, hopens, hcloses]
    rw [List.drop_eq_getElem_cons hindex, left, hverdict]
    exact ih _
  | case5 depth index hindex hkind =>
    -- The end of the file is no arrow.
    have hverdict : ∀ next, group previous depth tokens[index] next = .before := by
      simp [group, hkind]
    rw [List.drop_eq_getElem_cons hindex, left, hverdict]
    show false = (some tokens[index].kind == some (.punct .arrow))
    rw [hkind]
    rfl
  | case6 depth index hindex hpunct hend ih =>
    have hverdict : ∀ next, group previous depth tokens[index] next = .pass := by
      intro next
      cases hkind : tokens[index].kind with
      | punct mark => exact (hpunct mark hkind).elim
      | endOfFile => exact (hend hkind).elim
      | _ => simp [group, hkind]
    rw [List.drop_eq_getElem_cons hindex, left, hverdict]
    exact ih _
  | case7 depth index hindex =>
    rw [List.drop_of_length_le (Nat.le_of_not_lt hindex), left]
    rfl

end Parser

/-! ## Known tokens -/

namespace Cursor

variable {c d e : Cursor} {kind : TokenKind} {kinds kinds' : List TokenKind}

@[simp] theorem ahead_one (c : Cursor) : c.ahead 1 = c.next.head := by
  obtain ⟨_ | ⟨t, _ | ⟨u, rest⟩⟩, last⟩ := c <;> rfl

@[simp] theorem ahead_two (c : Cursor) : c.ahead 2 = c.next.next.head := by
  obtain ⟨_ | ⟨t, _ | ⟨u, _ | ⟨v, rest⟩⟩⟩, last⟩ := c <;> rfl

@[simp] theorem isMark_one (c : Cursor) (mark : Punct) : c.isMark mark 1 = c.next.isMark mark := by
  simp [isMark]

@[simp] theorem isMark_two (c : Cursor) (mark : Punct) :
    c.isMark mark 2 = c.next.next.isMark mark := by
  simp [isMark]

/-- Tokens of these kinds stand between two cursors. -/
def Shows (c : Cursor) (kinds : List TokenKind) (d : Cursor) : Prop :=
  ∃ tokens, List.Forall₂ Token.Plain kinds tokens ∧ c = ⟨tokens ++ d.rest, d.last⟩

theorem Shows.eq (h : c.Shows [] d) : c = d := by
  obtain ⟨_, htokens, rfl⟩ := h
  rw [List.forall₂_nil_left_iff.1 htokens, List.nil_append]

theorem Shows.uncons (h : c.Shows (kind :: kinds) d) :
    c.head.Plain kind ∧ c.next.Shows kinds d := by
  obtain ⟨_, htokens, rfl⟩ := h
  obtain ⟨t, ts, ht, hts, rfl⟩ := List.forall₂_cons_left_iff.1 htokens
  exact ⟨ht, ts, hts, rfl⟩

theorem Shows.kind_eq (h : c.Shows (kind :: kinds) d) : c.head.kind = kind :=
  h.uncons.1.kind_eq

variable {mark : Punct}

theorem Shows.isMark (h : c.Shows (.punct mark :: kinds) d) : c.isMark mark = true := by
  rw [Cursor.isMark, ahead_zero, h.kind_eq]
  exact beq_self_eq_true _

theorem Shows.split (h : c.Shows (kinds ++ kinds') e) :
    ∃ d, c.Shows kinds d ∧ d.Shows kinds' e := by
  obtain ⟨_, htokens, rfl⟩ := h
  obtain ⟨first, second, rfl, hfirst, hsecond⟩ := List.exists_append_of_forall₂ htokens
  refine ⟨⟨second ++ e.rest, e.last⟩, ⟨first, hfirst, ?_⟩, second, hsecond, rfl⟩
  rw [List.append_assoc]

/-- One of these marks stands here. -/
def At (marks : List Punct) (c : Cursor) : Prop :=
  ∃ mark ∈ marks, c.head.kind = .punct mark

variable {marks : List Punct}

theorem At.isMark (h : c.At marks) (hmark : mark ∉ marks) : c.isMark mark = false := by
  obtain ⟨mark', hmem, hkind⟩ := h
  rw [Cursor.isMark, ahead_zero, hkind]
  refine beq_false_of_ne fun heq => hmark ?_
  rwa [← TokenKind.punct.inj heq]

theorem At.mono {marks' : List Punct} (h : c.At marks) (hsub : marks ⊆ marks') : c.At marks' := by
  obtain ⟨mark, hmem, hkind⟩ := h
  exact ⟨mark, hsub hmem, hkind⟩

theorem Shows.at_flatMap {α : Type} {parts : List α} {f : α → List TokenKind}
    (h : c.Shows (parts.flatMap fun a => .punct mark :: f a) d) (hd : d.At marks) :
    c.At (mark :: marks) := by
  cases parts with
  | nil => exact h.eq ▸ hd.mono (List.subset_cons_self _ _)
  | cons a parts => exact ⟨mark, List.mem_cons_self, h.kind_eq⟩

theorem Shows.at (h : c.Shows (.punct mark :: kinds) d) (hmark : mark ∈ marks) : c.At marks :=
  ⟨mark, hmark, h.kind_eq⟩

theorem Shows.isMark_next (h : c.Shows (kind :: kinds) d) (hkinds : .punct mark ∉ kinds)
    (hd : d.At marks) (hmarks : mark ∉ marks) : c.next.isMark mark = false := by
  cases kinds with
  | nil => exact h.uncons.2.eq ▸ hd.isMark hmarks
  | cons second kinds =>
    rw [Cursor.isMark, ahead_zero, h.uncons.2.kind_eq]
    exact beq_false_of_ne fun heq => hkinds (heq ▸ List.mem_cons_self)

end Cursor

/-! ## Reading -/

/-- On tokens of these kinds, with one of these marks behind them, the parser gives `a` and stops at
the mark. -/
def Reads {α : Type} (x : Parser α) (kinds : List TokenKind) (ends : List Punct) (a : α) : Prop :=
  ∀ ⦃c d⦄, c.Shows kinds d → d.At ends → x.run c = .ok (a, d)

namespace Reads

variable {α : Type} {x : Parser α} {kinds : α → List TokenKind} {ends : List Punct} {steps : Nat}

theorem mono {kinds : List TokenKind} {a : α} {ends' : List Punct} (h : Reads x kinds ends a)
    (hsub : ends' ⊆ ends) : Reads x kinds ends' a :=
  fun _ _ hshows hd => h hshows (hd.mono hsub)

/-- Parts that each stand after a mark. -/
theorem afterEach {mark : Punct} {parts : List α} (hmark : mark ∉ ends)
    (h : ∀ a ∈ parts, Reads x (kinds a) (mark :: ends) a) (hsteps : parts.length < steps) :
    Reads (Parser.afterEach mark x steps) (parts.flatMap fun a => .punct mark :: kinds a) ends
      parts := by
  intro c d hshows hd
  induction parts generalizing c steps with
  | nil =>
    -- The mark does not end the list, so the parser stops here.
    obtain ⟨steps, rfl⟩ := Nat.exists_eq_add_one.2 hsteps
    obtain rfl := hshows.eq
    simp [Parser.afterEach, hd.isMark hmark]
  | cons a parts ih =>
    obtain ⟨steps, rfl⟩ := Nat.exists_eq_add_one.2 (Nat.zero_lt_of_lt hsteps)
    rw [List.flatMap_cons, List.cons_append] at hshows
    -- What follows the first part is again a mark or the end.
    obtain ⟨c', hfirst, hrest⟩ := hshows.uncons.2.split
    have hfirst := h a List.mem_cons_self hfirst (hrest.at_flatMap hd)
    have hlater := ih (fun b hb => h b (List.mem_cons_of_mem a hb))
      (Nat.lt_of_succ_lt_succ hsteps) hrest
    simp [Parser.afterEach, hshows.isMark, hfirst, hlater]

/-- Parts with commas between them, up to a closing mark with which no part starts. -/
theorem commaList {close : Punct} {parts : List α} (hclose : close ≠ .comma)
    (h : ∀ a ∈ parts, Reads x (kinds a) [.comma, close] a)
    (hstart : ∀ a ∈ parts, ∀ c d : Cursor, c.Shows (kinds a) d → c.isMark close = false)
    (hsteps : parts.length < steps) :
    Reads (Parser.commaList close x steps) ([.punct .comma].intercalate (parts.map kinds)) [close]
      parts := by
  intro c d hshows hd
  cases parts with
  | nil =>
    obtain ⟨steps, rfl⟩ := Nat.exists_eq_add_one.2 hsteps
    obtain rfl := hshows.eq
    obtain ⟨_, hmem, hkind⟩ := hd
    obtain rfl := List.mem_singleton.1 hmem
    simp [Parser.commaList, Cursor.isMark, hkind]
  | cons a parts =>
    rw [List.map_cons, intercalate_cons, List.flatMap_map] at hshows
    -- By induction on the parts after the first one: a comma leads on, and the closing mark ends
    -- the list.
    induction parts generalizing a c steps with
    | nil =>
      obtain ⟨steps, rfl⟩ := Nat.exists_eq_add_one.2 (Nat.zero_lt_of_lt hsteps)
      rw [List.flatMap_nil, List.append_nil] at hshows
      have hfirst := h a List.mem_cons_self hshows (hd.mono (by simp))
      have hcomma := hd.isMark (by simpa using hclose.symm : Punct.comma ∉ [close])
      simp [Parser.commaList, hstart a List.mem_cons_self _ _ hshows, hfirst, hcomma]
    | cons b parts ih =>
      obtain ⟨steps, rfl⟩ := Nat.exists_eq_add_one.2 (Nat.zero_lt_of_lt hsteps)
      obtain ⟨c₁, hfirst, hrest⟩ := hshows.split
      have hopen := hstart a List.mem_cons_self _ _ hfirst
      have hfirst := h a List.mem_cons_self hfirst (hrest.at (by simp))
      have hlater := ih b (fun e he => h e (List.mem_cons_of_mem a he))
        (fun e he => hstart e (List.mem_cons_of_mem a he)) (Nat.lt_of_succ_lt_succ hsteps)
        hrest.uncons.2
      simp [Parser.commaList, hopen, hfirst, hrest.isMark, hlater]

/-- The words after points. -/
theorem pathRest {words : List String} (hdot : .dot ∉ ends) (hsteps : words.length < steps) :
    Reads (Parser.pathRest steps) (words.flatMap fun word => [.punct .dot, .word word]) ends
      words := by
  intro c d hshows hd
  induction words generalizing c steps with
  | nil =>
    obtain ⟨steps, rfl⟩ := Nat.exists_eq_add_one.2 hsteps
    obtain rfl := hshows.eq
    simp [Parser.pathRest, hd.isMark hdot]
  | cons word words ih =>
    obtain ⟨steps, rfl⟩ := Nat.exists_eq_add_one.2 (Nat.zero_lt_of_lt hsteps)
    rw [List.flatMap_cons, List.cons_append, List.cons_append, List.nil_append] at hshows
    -- A dot and a word each time.
    obtain ⟨hword, hrest⟩ := hshows.uncons.2.uncons
    have hlater := ih (Nat.lt_of_succ_lt_succ hsteps) hrest
    simp [Parser.pathRest, Cursor.word?, hshows.isMark, hword.kind_eq, hlater]

end Reads

/-! ## Matching brackets -/

theorem Punct.opens_of_closes {mark : Punct} (h : mark.closes = true) : mark.opens = false := by
  cases mark <;> simp_all [Punct.opens, Punct.closes]

/-- Whether a token is no bracket and cannot stand after the name of a tuple element. -/
def isAtom : TokenKind → Bool
  | .punct mark => !mark.opens && !mark.closes && mark != .colon && mark != .question
  | .endOfFile => false
  | _ => true

/-- Tokens in which every bracket that is opened is closed again. -/
inductive Nested : List TokenKind → Prop
  | atom {kind : TokenKind} : isAtom kind = true → Nested [kind]
  | nil : Nested []
  | append {first second : List TokenKind} : Nested first → Nested second → Nested (first ++ second)
  | brackets {left right : Punct} {inner : List TokenKind} :
      left.opens = true → right.closes = true → Nested inner →
      Nested (.punct left :: (inner ++ [.punct right]))

namespace Nested

variable {kinds : List TokenKind}

theorem cons {kind : TokenKind} (hkind : isAtom kind = true) (h : Nested kinds) :
    Nested (kind :: kinds) :=
  (atom hkind).append h

/-- Nested tokens with a mark between them are nested. -/
theorem intercalate {mark : TokenKind} (hmark : isAtom mark = true)
    {parts : List (List TokenKind)} (h : ∀ part ∈ parts, Nested part) :
    Nested ([mark].intercalate parts) := by
  cases parts with
  | nil => exact nil
  | cons first rest =>
    rw [intercalate_cons]
    -- Behind the first part each further one follows a mark, which opens and closes nothing.
    refine (h first List.mem_cons_self).append ?_
    replace h := (List.forall_mem_cons.1 h).2
    induction rest with
    | nil => exact nil
    | cons part rest ih =>
      rw [List.flatMap_cons]
      obtain ⟨hpart, hrest⟩ := List.forall_mem_cons.1 h
      exact (cons hmark hpart).append (ih hrest)

/-- No token of them can stand after the name of a tuple element. -/
theorem not_mem (h : Nested kinds) : .punct .colon ∉ kinds ∧ .punct .question ∉ kinds := by
  induction h with
  | @atom kind hatom =>
    simp only [List.mem_singleton]
    constructor <;> rintro rfl <;> exact absurd hatom (by decide)
  | nil => simp
  | append _ _ ih ih' => simp [ih, ih']
  | @brackets left right _ hleft hright _ ih =>
    cases left <;> cases right <;> simp_all [Punct.opens, Punct.closes]

/-- Tokens with matching brackets are passed where at least one bracket is open around them. -/
theorem left_append (h : Nested kinds) {depth : Nat} {tokens rest later : List Token}
    (htokens : List.Forall₂ Token.Plain kinds tokens)
    (hrest : ∀ previous, Parser.left Brackets.group previous (depth + 1) rest = later)
    (previous : Option TokenKind) :
    Parser.left Brackets.group previous (depth + 1) (tokens ++ rest) = later := by
  induction h generalizing depth tokens rest previous with
  | @atom kind hatom =>
    obtain ⟨t, _, ht, hnil, rfl⟩ := List.forall₂_cons_left_iff.1 htokens
    obtain rfl := List.forall₂_nil_left_iff.1 hnil
    have hpass : Brackets.group previous (depth + 1) t rest.head? = .pass := by
      rw [Brackets.group, ht.kind_eq]
      cases kind <;> simp_all [isAtom]
    rw [List.singleton_append, Parser.left, hpass]
    exact hrest _
  | nil =>
    obtain rfl := List.forall₂_nil_left_iff.1 htokens
    exact hrest previous
  | append _ _ ih ih' =>
    obtain ⟨first, second, rfl, hfirst, hsecond⟩ := List.exists_append_of_forall₂ htokens
    rw [List.append_assoc]
    exact ih hfirst (fun previous => ih' hsecond hrest previous) previous
  | @brackets left right inner hleft hright _ ih =>
    obtain ⟨t, _, ht, hmore, rfl⟩ := List.forall₂_cons_left_iff.1 htokens
    obtain ⟨middle, _, rfl, hmiddle, hlast⟩ := List.exists_append_of_forall₂ hmore
    obtain ⟨u, _, hu, hnil, rfl⟩ := List.forall₂_cons_left_iff.1 hlast
    obtain rfl := List.forall₂_nil_left_iff.1 hnil
    have hopens : Brackets.group previous (depth + 1) t (middle ++ u :: rest).head? = .opens := by
      simp [Brackets.group, ht.kind_eq, hleft]
    have hcloses : ∀ previous, Brackets.group previous (depth + 2) u rest.head? = .closes := by
      intro previous
      simp [Brackets.group, hu.kind_eq, Punct.opens_of_closes hright, hright]
    rw [List.cons_append, List.append_assoc, List.singleton_append, Parser.left, hopens]
    -- The inner tokens stand one bracket deeper; after them the bracket is closed again.
    refine ih hmiddle (fun previous => ?_) _
    rw [Parser.left, hcloses]
    exact hrest _

end Nested

/-- The first tokens of a type: no mark but a minus sign or an opening bracket, and no word before
the parameters of a function. A group in parentheses is an element of an array. -/
inductive Opening : List TokenKind → Prop
  | word {text : String} (rest : List TokenKind) : text ≠ "new" → text ≠ "abstract" →
      Opening (.word text :: rest)
  | string (value : String) (rest : List TokenKind) : Opening (.string value :: rest)
  | number (text : String) (rest : List TokenKind) : Opening (.number text :: rest)
  | minus (rest : List TokenKind) : Opening (.punct .minus :: rest)
  | bracket (rest : List TokenKind) : Opening (.punct .leftBracket :: rest)
  | group {inner : List TokenKind} (rest : List TokenKind) : Nested inner →
      Opening (.punct .leftParen ::
        (inner ++ .punct .rightParen :: .punct .leftBracket :: rest))

namespace Opening

variable {kinds : List TokenKind} {c d : Cursor}

/-- Further tokens may stand behind. -/
theorem append (h : Opening kinds) (more : List TokenKind) : Opening (kinds ++ more) := by
  cases h with
  | word rest hnew habstract => exact .word _ hnew habstract
  | string value rest => exact .string value _
  | number text rest => exact .number text _
  | minus rest => exact .minus _
  | bracket rest => exact .bracket _
  | group rest hinner =>
    rw [List.cons_append, List.append_assoc]
    exact .group _ hinner

theorem ne_nil (h : Opening kinds) : kinds ≠ [] := by
  cases h <;> exact List.cons_ne_nil _ _

theorem isMark (h : Opening kinds) (hshows : c.Shows kinds d) {mark : Punct}
    (hmark : mark ∉ [.minus, .leftBracket, .leftParen]) : c.isMark mark = false := by
  simp only [List.mem_cons, List.not_mem_nil, or_false, not_or] at hmark
  cases h <;> simp [Cursor.isMark, hshows.kind_eq, Ne.symm hmark.1, Ne.symm hmark.2.1,
    Ne.symm hmark.2.2]

theorem isWord (h : Opening kinds) (hshows : c.Shows kinds d) :
    c.isWord "new" = false ∧ c.isWord "abstract" = false := by
  cases h <;> simp_all [Cursor.isWord, Cursor.word?, hshows.kind_eq]

/-- No function type starts here. -/
theorem startsFunction (h : Opening kinds) (hshows : c.Shows kinds d) :
    Parser.run (Parser.startsFunction : Parser Bool) c = .ok (false, c) := by
  -- Only a group in parentheses could be the parameters of a function.
  cases h with
  | group rest hinner =>
    have hparen := hshows.isMark
    obtain ⟨_, htokens, rfl⟩ := hshows
    obtain ⟨t, _, ht, hmore, rfl⟩ := List.forall₂_cons_left_iff.1 htokens
    obtain ⟨inner, _, rfl, hinside, hlast⟩ := List.exists_append_of_forall₂ hmore
    obtain ⟨u, _, hu, hnext, rfl⟩ := List.forall₂_cons_left_iff.1 hlast
    obtain ⟨v, later, hv, -, rfl⟩ := List.forall₂_cons_left_iff.1 hnext
    generalize hcursor : Cursor.mk _ _ = c at hparen ⊢
    -- The group ends at the parenthesis that closes it, and a bracket stands behind that.
    have hclose : ∀ previous, Parser.left Brackets.group previous (0 + 1)
        (u :: v :: (later ++ d.rest ++ [d.last])) = v :: (later ++ d.rest ++ [d.last]) := by
      intro previous
      simp [Parser.left, Brackets.group, hu.kind_eq, Punct.opens, Punct.closes]
    have hgroup := hinner.left_append hinside hclose (some t.kind)
    have hleft : Parser.left Brackets.group none 0 c.tokens =
        v :: (later ++ d.rest ++ [d.last]) := by
      have hall : c.tokens = t :: (inner ++ u :: v :: (later ++ d.rest ++ [d.last])) := by
        simp [← hcursor, Cursor.tokens]
      rw [hall]
      simpa [Parser.left, Brackets.group, ht.kind_eq, Punct.opens] using hgroup
    have harrow : Brackets.arrowBehind c.tokens 0 0 = false := by
      rw [Parser.arrowBehind_eq none, List.drop_zero, hleft]
      simp [hv.kind_eq]
    simp [Parser.startsFunction, hparen, harrow]
  | _ => simp [Parser.startsFunction, Cursor.isMark, hshows.kind_eq]

end Opening

end Endpoints
