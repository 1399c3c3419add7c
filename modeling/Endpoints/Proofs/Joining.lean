import Endpoints.Proofs.RegexFree

/-!
# Texts one after the other

A lexeme may go on in the text that follows, as a word does. After white space or a closing brace
nothing goes on, so a text that ends in one of them is scanned alike whatever follows, and scanning
goes on with what follows from there. Scanning does not look at where it is: a text gives the same
tokens everywhere, up to their places, but for the gap before the first one.
-/

namespace Endpoints

open TokenStream Literal

/-! ## Lexemes with more text behind them -/

namespace Literal

variable {cs rest after : List Char}

/-- A comment ends at its own end. -/
private theorem commentBody_join {body : List Char} (h : commentBody cs = some (body, rest)) :
    commentBody (cs ++ after) = some (body, rest ++ after) := by
  fun_induction commentBody cs generalizing body with
  | case1 => simp at h
  | case2 rest' =>
    obtain ⟨rfl, rfl⟩ := Prod.mk.inj (Option.some.inj h)
    simp [commentBody]
  | case3 c cs hne ih =>
    obtain ⟨⟨body', rest'⟩, hbody, heq⟩ := Option.map_eq_some_iff.1 h
    obtain ⟨rfl, rfl⟩ := Prod.mk.inj heq
    cases cs with
    | nil => simp [commentBody] at hbody
    | cons d cs =>
      -- The end of the comment does not start at `c`, with or without more text behind it.
      have hstep : commentBody (c :: d :: (cs ++ after)) =
          (commentBody (d :: (cs ++ after))).map fun parts => (c :: parts.1, parts.2) := by
        rw [commentBody]
        rintro rest' rfl heq
        obtain ⟨rfl, -⟩ := List.cons.inj heq
        exact hne cs rfl rfl
      simpa [hstep] using ih hbody

/-- A string ends at its own quote. -/
private theorem stringBody_join {quote : Char} {escape : Escape} {lines : Nat}
    {value text : List Char} (h : stringBody quote escape lines cs = .ok (value, text, rest)) :
    stringBody quote escape lines (cs ++ after) = .ok (value, text, rest ++ after) := by
  induction cs generalizing escape lines value text with
  | nil => cases h
  | cons c cs ih =>
    rw [stringBody] at h
    rw [List.cons_append, stringBody]
    -- A string that is closed was closed within its own text.
    cases hstep : stringStep quote escape c with
    | broken => rw [hstep] at h; cases h
    | closed value' =>
      rw [hstep] at h
      cases h
      rfl
    | more value' next =>
      rw [hstep] at h
      obtain ⟨_, hbody, heq⟩ := exists_of_map_eq_ok h
      cases heq
      simp only [ih hbody, Except.map]

/-- A template ends at its own quote. -/
private theorem templateBody_join {frames : List Frame} {lines : Nat} {text : List Char}
    (h : templateBody frames lines cs = .ok (text, rest)) :
    templateBody frames lines (cs ++ after) = .ok (text, rest ++ after) := by
  induction cs generalizing frames lines text with
  | nil => cases h
  | cons c cs ih =>
    rw [templateBody] at h
    rw [List.cons_append, templateBody]
    cases hstep : templateStep lines c frames with
    | error e => rw [hstep] at h; cases h
    | ok frames' =>
      rw [hstep] at h
      -- Without frames left the template is closed.
      cases frames' with
      | nil =>
        cases h
        rfl
      | cons frame frames' =>
        obtain ⟨_, hbody, heq⟩ := exists_of_map_eq_ok h
        cases heq
        simp only [ih hbody, Except.map]

/-- The body of a regular expression ends at its own slash. -/
private theorem regexBody_join {inClass escaped : Bool} {lines : Nat} {text : List Char}
    (h : regexBody inClass escaped lines cs = .ok (text, rest)) :
    regexBody inClass escaped lines (cs ++ after) = .ok (text, rest ++ after) := by
  induction cs generalizing inClass escaped lines text with
  | nil => cases h
  | cons c cs ih =>
    rw [List.cons_append]
    -- Closed, read on or broken off.
    rcases regexBody_step inClass escaped lines c with ⟨-, hstep⟩ | ⟨_, _, hstep⟩ | ⟨_, hstep⟩ <;>
      rw [hstep] at h ⊢
    · cases h
      rfl
    · obtain ⟨_, hbody, heq⟩ := exists_of_map_eq_ok h
      cases heq
      simp only [ih hbody, Except.map]
    · cases h

/-- The body of a regular expression ends in a slash. -/
private theorem getLast?_regexBody {inClass escaped : Bool} {lines : Nat} {text : List Char}
    (h : regexBody inClass escaped lines cs = .ok (text, rest)) : text.getLast? = some '/' := by
  induction cs generalizing inClass escaped lines text with
  | nil => cases h
  | cons c cs ih =>
    rcases regexBody_step inClass escaped lines c with ⟨rfl, hstep⟩ | ⟨_, _, hstep⟩ | ⟨_, hstep⟩ <;>
      rw [hstep] at h
    -- Only an unescaped slash outside a class closes the body.
    · cases h
      rfl
    · obtain ⟨_, hbody, heq⟩ := exists_of_map_eq_ok h
      cases heq
      rw [List.getLast?_cons, ih hbody]
      rfl
    · cases h

end Literal

namespace Lexeme

/-- Whether nothing goes on after this character. -/
def isFinal (c : Char) : Bool :=
  Text.isWhite c || c == '\x7d'

variable {c : Char} {cs rest after : List Char}

private theorem breaks_of_isFinal (h : isFinal c = true) : Breaks (c :: cs) := by
  rw [isFinal, Bool.or_eq_true] at h
  rcases h with h | h
  · exact breaks_white h
  · rw [eq_of_beq h]
    exact List.forall_head?_cons (by decide)

/-- A final character belongs to no word and no number. -/
private theorem ne_of_isFinal (h : isFinal c = true) :
    isWordPart c = false ∧ c.isAlphanum = false ∧ c ≠ '_' ∧ c ≠ '.' ∧ c ≠ '+' ∧ c ≠ '-' := by
  obtain ⟨hword, hother⟩ := @breaks_of_isFinal c [] h c rfl
  simp only [List.mem_cons, List.not_mem_nil, or_false, not_or] at hother
  refine ⟨hword, Bool.eq_false_iff.2 fun halphanum => ?_, ?_, hother.2⟩
  · rw [isWordPart_of_isAlphanum halphanum] at hword
    cases hword
  · rintro rfl
    cases hword

/-- Final characters stand in marks at the end only. -/
private theorem forall_dropLast_marks :
    ∀ entry ∈ Punct.table, ∀ d ∈ entry.2.toList.dropLast, isFinal d = false := by
  have hall : (Punct.table.all fun entry =>
      entry.2.toList.dropLast.all fun d => !isFinal d) = true := by
    decide +kernel
  intro entry hentry d hd
  have hmark := List.all_eq_true.1 (List.all_eq_true.1 hall entry hentry) d hd
  rwa [Bool.not_eq_true'] at hmark

/-- A number ends before a final character, if there is one in the text. -/
private theorem numberBody_join {hex : Bool} {before : Char} (h : ∃ d ∈ cs, isFinal d = true) :
    numberBody hex before (cs ++ after) =
      ((numberBody hex before cs).1, (numberBody hex before cs).2 ++ after) := by
  induction cs generalizing before with
  | nil => simp at h
  | cons c cs ih =>
    rw [List.cons_append, numberBody, numberBody]
    split
    · next hpart =>
      -- The character read is part of the number, so the final one is still to come.
      have hmore : ∃ d ∈ cs, isFinal d = true := by
        obtain ⟨d, hd, hfinal⟩ := h
        rcases List.mem_cons.1 hd with rfl | hd
        · obtain ⟨-, hother⟩ := ne_of_isFinal hfinal
          simp [hother] at hpart
        · exact ⟨d, hd, hfinal⟩
      rw [ih hmore]
    · rfl

/-- A mark stands at the start of a text if it does so with more text behind. -/
private theorem isPrefixOf_join {text : List Char} (hlast : ∃ d ∈ cs.getLast?, isFinal d = true)
    (h : ∀ d ∈ text.dropLast, isFinal d = false) :
    text.isPrefixOf (cs ++ after) = text.isPrefixOf cs := by
  rw [Bool.eq_iff_iff, List.isPrefixOf_iff_prefix, List.isPrefixOf_iff_prefix]
  refine ⟨fun hstart => ?_, fun hstart => hstart.trans (List.prefix_append cs after)⟩
  -- If the mark were longer than the text, the final character would stand inside it.
  rcases List.prefix_or_prefix_of_prefix hstart (List.prefix_append cs after) with hle | hge
  · exact hle
  obtain ⟨more, rfl⟩ := hge
  cases more with
  | nil => simp
  | cons e more =>
    obtain ⟨d, hd, hfinal⟩ := hlast
    have hmem : d ∈ (cs ++ e :: more).dropLast := by
      rw [List.dropLast_append_cons]
      exact List.mem_append_left _ (List.mem_of_getLast? hd)
    rw [h d hmem] at hfinal
    cases hfinal

/-- The same mark stands at the start of a text with more text behind it. -/
private theorem punct?_join (hlast : ∃ d ∈ cs.getLast?, isFinal d = true) (after : List Char) :
    punct? (cs ++ after) =
      (punct? cs).map fun (mark, text, rest) => (mark, text, rest ++ after) := by
  have hmarks := forall_dropLast_marks
  rw [punct?, punct?]
  -- Mark by mark: each stands at the start of both texts or of neither.
  generalize Punct.table = table at hmarks ⊢
  induction table with
  | nil => rfl
  | cons entry table ih =>
    obtain ⟨mark, text⟩ := entry
    obtain ⟨hmark, htable⟩ := List.forall_mem_cons.1 hmarks
    rw [List.findSome?_cons, List.findSome?_cons, ih htable]
    simp only [isPrefixOf_join hlast hmark]
    by_cases hstart : (text.toList.isPrefixOf cs && !text.toList.isEmpty) = true
    · have hle : text.toList.length ≤ cs.length := by
        rw [Bool.and_eq_true] at hstart
        exact (List.isPrefixOf_iff_prefix.1 hstart.1).length_le
      simp only [hstart, if_true, Option.map_some, List.drop_append_of_le_length hle]
    · simp only [hstart]
      rfl

private theorem startsNumber_join (c d : Char) (ds after : List Char) :
    startsNumber (c :: d :: (ds ++ after)) = startsNumber (c :: d :: ds) := by
  by_cases hdot : c = '.'
  · subst hdot
    rfl
  · simp [startsNumber, hdot]

private theorem isHexNumber_join (c d : Char) (ds after : List Char) :
    isHexNumber (c :: d :: (ds ++ after)) = isHexNumber (c :: d :: ds) := by
  by_cases hzero : c = '0' <;> by_cases hx : d = 'x' <;> by_cases hX : d = 'X' <;>
    simp [isHexNumber, hzero, hx, hX]

/-- The flags of a regular expression end before a final character, which is no slash. -/
private theorem flags_join {inClass escaped : Bool} {lines : Nat} {body : List Char} {e : Char}
    (hbody : regexBody inClass escaped lines cs = .ok (body, rest)) (he : e ∈ cs.getLast?)
    (hfinal : isFinal e = true) (after : List Char) :
    (rest ++ after).takeWhile Char.isAlpha = rest.takeWhile Char.isAlpha ∧
      (rest ++ after).dropWhile Char.isAlpha = rest.dropWhile Char.isAlpha ++ after := by
  -- The last character stands behind the body, which ends in a slash.
  have hmem : e ∈ rest.getLast? := by
    rw [← regexBody_append hbody, List.getLast?_append,
      Literal.getLast?_regexBody hbody] at he
    cases hrest : rest.getLast? with
    | some u => simpa [hrest] using he
    | none =>
      rw [hrest] at he
      obtain rfl := Option.mem_some_iff.1 he
      exact absurd hfinal (by decide)
  obtain ⟨-, halphanum, -⟩ := ne_of_isFinal hfinal
  rw [Char.isAlphanum, Bool.or_eq_false_iff] at halphanum
  have hne := List.dropWhile_ne_nil_of_getLast? hmem halphanum.1
  exact List.takeWhile_append_of_dropWhile_ne_nil hne after

private theorem exists_scan_of_isFinal (h : isFinal c = true) (previous : Option TokenKind) :
    ∃ lexeme, ∀ after, scan previous c after = .ok (lexeme, after) := by
  rw [isFinal, Bool.or_eq_true] at h
  rcases h with hwhite | hbrace
  · exact ⟨.blank c, fun after => by rw [scan, if_pos hwhite]⟩
  · obtain rfl := eq_of_beq hbrace
    exact ⟨.token (.punct .rightBrace) ['\x7d'], fun after => scan_mark rfl rfl rfl rfl⟩

/-- A lexeme with more text behind it. A comment may not reach up to there. -/
theorem scan_join {previous : Option TokenKind} {lexeme : Lexeme}
    (h : scan previous c cs = .ok (lexeme, rest))
    (hlast : ∃ d ∈ (c :: cs).getLast?, isFinal d = true)
    (hcomment : rest = [] → ∀ text doc, lexeme ≠ .comment text doc) :
    scan previous c (cs ++ after) = .ok (lexeme, rest ++ after) := by
  -- One character alone is the final one, and that is a lexeme by itself.
  cases cs with
  | nil =>
    obtain ⟨d, hd, hfinal⟩ := hlast
    obtain rfl : c = d := by simpa using hd
    obtain ⟨lexeme', hscan⟩ := exists_scan_of_isFinal hfinal previous
    rw [hscan] at h
    cases h
    exact hscan after
  | cons d ds =>
    have hmarks := punct?_join hlast after
    rw [List.cons_append, List.cons_append] at hmarks
    obtain ⟨e, he, hfinal⟩ := hlast
    -- Two characters tell what starts here, so the same branch is taken with more text behind.
    rw [scan, List.head?_cons] at h
    rw [scan, List.cons_append, List.head?_cons, startsNumber_join]
    refine ite_eq_of_imp h (fun hwhite h => ?_) fun hwhite h => ?_
    · cases h
      rfl
    refine ite_eq_of_imp h (fun hline h => ?_) fun hline h => ?_
    · cases h
      have hjoin :=
        List.takeWhile_append_of_dropWhile_ne_nil (fun hnil => hcomment hnil _ _ rfl) after
      rw [← List.cons_append, hjoin.1, hjoin.2]
    refine ite_eq_of_imp h (fun hblock h => ?_) fun hblock h => ?_
    · rw [List.drop_succ_cons, List.drop_zero] at h ⊢
      cases hbody : commentBody ds with
      | none => rw [hbody] at h; cases h
      | some r =>
        rw [hbody] at h
        cases h
        rw [Literal.commentBody_join hbody]
    refine ite_eq_of_imp h (fun hquote h => ?_) fun hquote h => ?_
    · obtain ⟨_, hbody, heq⟩ := exists_of_map_eq_ok h
      cases heq
      rw [← List.cons_append, Literal.stringBody_join hbody]
      rfl
    refine ite_eq_of_imp h (fun htemplate h => ?_) fun htemplate h => ?_
    · obtain ⟨_, hbody, heq⟩ := exists_of_map_eq_ok h
      cases heq
      rw [← List.cons_append, Literal.templateBody_join hbody]
      rfl
    rw [List.getLast?_cons_cons] at he
    refine ite_eq_of_imp h (fun hstarts h => ?_) fun hstarts h => ?_
    · rw [isHexNumber_join, ← List.cons_append,
        numberBody_join ⟨e, List.mem_of_getLast? he, hfinal⟩]
      generalize numberBody _ c (d :: ds) = body at h
      cases h
      rfl
    refine ite_eq_of_imp h (fun hwordStart h => ?_) fun hwordStart h => ?_
    · cases h
      have hne := List.dropWhile_ne_nil_of_getLast? he (ne_of_isFinal hfinal).1
      have hjoin := List.takeWhile_append_of_dropWhile_ne_nil hne after
      rw [← List.cons_append, hjoin.1, hjoin.2]
    refine ite_eq_of_imp h (fun hregex h => ?_) fun hregex h => ?_
    · obtain ⟨_, hbody, heq⟩ := exists_of_map_eq_ok h
      cases heq
      rw [← List.cons_append, Literal.regexBody_join hbody]
      simp only [Except.map, flags_join hbody he hfinal after]
    · cases hmark : punct? (c :: d :: ds) with
      | none => rw [hmark] at h; cases h
      | some r =>
        rw [hmark] at h hmarks
        cases h
        rw [hmarks]
        rfl

/-- A comment does not start with white space. -/
private theorem comment_not_white {previous : Option TokenKind} {text : List Char}
    {doc : Option (List Char)} (h : scan previous c cs = .ok (.comment text doc, rest)) :
    c ∈ text ∧ Text.isWhite c = false := by
  constructor
  · obtain ⟨happend, hne⟩ := scan_append h
    obtain ⟨d, ds, rfl⟩ := List.exists_cons_of_ne_nil (show text ≠ [] from hne)
    obtain ⟨rfl, -⟩ := List.cons.inj happend
    exact List.mem_cons_self
  · refine Bool.eq_false_iff.2 fun hwhite => ?_
    rw [scan, if_pos hwhite] at h
    cases h

/-- Behind any token is what is at the start of a text, regular expressions apart. -/
private theorem scan_resume {lexeme : Lexeme} (h : scan none c cs = .ok (lexeme, rest))
    (hregex : lexeme.isRegex = false) (previous : Option TokenKind) :
    scan previous c cs = .ok (lexeme, rest) := by
  rw [scan] at h ⊢
  -- Before the slash, all branches are the same.
  iterate 7 refine ite_eq_of_imp h (fun _ h => h) fun _ h => ?_
  have hslash : ¬(c == '/' && regexAllowed none) = true := by
    intro hslash
    rw [if_pos hslash] at h
    obtain ⟨_, -, heq⟩ := exists_of_map_eq_ok h
    obtain ⟨rfl, -⟩ := Prod.mk.inj heq
    cases hregex
  have hnot : ¬(c == '/' && regexAllowed previous) = true := by
    rw [Bool.and_eq_true] at hslash ⊢
    exact fun hprevious => hslash ⟨hprevious.1, rfl⟩
  rw [if_neg hslash] at h
  rw [if_neg hnot, h]

end Lexeme

/-! ## Tokens with more text behind them -/

namespace TokenStream

/-- The stream with tokens put in front. -/
def prepend (tokens : List Token) (stream : TokenStream) : TokenStream :=
  { stream with tokens := tokens ++ stream.tokens }

/-- The token that a lexeme is, if it is one. -/
def Progress.tokens (p : Progress) : Lexeme → List Token
  | .token kind text => [p.token kind text]
  | _ => []

variable {p : Progress} {text : List Char} {stream : TokenStream}

/-- `scanFrom` takes one lexeme and goes on. -/
theorem scanFrom_cons {c : Char} {cs rest : List Char} {lexeme : Lexeme}
    (h : Lexeme.scan (p.previous.map (·.1)) c cs = .ok (lexeme, rest)) :
    scanFrom p (c :: cs) = (scanFrom (p.after lexeme) rest).map (prepend (p.tokens lexeme)) := by
  rw [scanFrom]
  split
  · next hscan => rw [h] at hscan; cases hscan
  · next hscan =>
    rw [h] at hscan
    obtain ⟨rfl, rfl⟩ := Prod.mk.inj (Except.ok.inj hscan)
    cases scanFrom (p.after lexeme) rest with
    | error e => rfl
    | ok stream => cases lexeme <;> rfl

/-- Scanning, one lexeme after the other. -/
inductive Scans : Progress → List Char → TokenStream → Prop
  | last (p : Progress) : Scans p [] ⟨[], p.token .endOfFile []⟩
  | more {p : Progress} {c : Char} {cs rest : List Char} {lexeme : Lexeme} {stream : TokenStream} :
      Lexeme.scan (p.previous.map (·.1)) c cs = .ok (lexeme, rest) →
      Scans (p.after lexeme) rest stream →
      Scans p (c :: cs) (prepend (p.tokens lexeme) stream)

/-- A successful run of `scanFrom` is made of lexemes, by induction on the length. -/
private theorem scans_of_scanFrom (h : scanFrom p text = .ok stream) : Scans p text stream := by
  obtain ⟨n, hn⟩ : ∃ n, text.length = n := ⟨_, rfl⟩
  -- On the length of the text: each lexeme takes something of it.
  induction n using Nat.strong_induction_on generalizing p text stream with
  | _ n ih =>
    cases text with
    | nil =>
      rw [scanFrom] at h
      cases h
      exact .last p
    | cons c cs =>
      cases hscan : Lexeme.scan (p.previous.map (·.1)) c cs with
      | error e =>
        rw [scanFrom] at h
        split at h
        · cases h
        · next hok => rw [hscan] at hok; cases hok
      | ok r =>
        obtain ⟨lexeme, rest⟩ := r
        rw [scanFrom_cons hscan] at h
        obtain ⟨stream', hrest, rfl⟩ := exists_of_map_eq_ok h
        have hlt : rest.length < n := hn ▸ Lexeme.length_scan_lt hscan
        exact .more hscan (ih _ hlt hrest rfl)

/-- Lines are counted from 1, and there is no documentation in white space. -/
structure Progress.Sound (p : Progress) : Prop where
  doc_eq : (∀ c ∈ p.gap, Text.isWhite c = true) → p.doc = none
  line_pos : 0 < p.line

private theorem Progress.Sound.start : Progress.start.Sound :=
  ⟨fun _ => rfl, Nat.one_pos⟩

/-- A lexeme keeps the progress sound. -/
private theorem Progress.Sound.after {c : Char} {cs rest : List Char} {lexeme : Lexeme}
    (h : p.Sound) (hscan : Lexeme.scan (p.previous.map (·.1)) c cs = .ok (lexeme, rest)) :
    (p.after lexeme).Sound := by
  refine ⟨fun hwhite => ?_, ?_⟩
  · cases lexeme with
    | blank d => exact h.doc_eq fun e he => hwhite e (List.mem_append_left _ he)
    | comment text doc =>
      obtain ⟨hmem, hc⟩ := Lexeme.comment_not_white hscan
      have hwhite := hwhite c (List.mem_append_right _ hmem)
      rw [hc] at hwhite
      cases hwhite
    | token kind text => rfl
  · cases lexeme <;> exact Nat.add_pos_left h.line_pos _

/-- A text is scanned alike whatever comes behind it, if it ends in a final character with nothing
but white space behind the last token. -/
theorem Scans.join (h : Scans p text stream) (hp : p.Sound)
    (hgap : ∀ c ∈ stream.last.gap.toList, Text.isWhite c = true)
    (hlast : ∀ d ∈ text.getLast?, Lexeme.isFinal d = true) :
    ∃ p' : Progress, p'.Sound ∧ p'.token .endOfFile [] = stream.last ∧
      p'.previous = (stream.tokens.getLast?.map fun t => (t.kind, t.line)).or p.previous ∧
      ∀ after, scanFrom p (text ++ after) =
        (scanFrom p' after).map (prepend stream.tokens) := by
  induction h with
  | last p =>
    refine ⟨p, hp, rfl, rfl, fun after => ?_⟩
    rw [List.nil_append]
    cases scanFrom p after <;> rfl
  | @more p c cs rest lexeme stream hscan hrest ih =>
    -- A comment at the end would be part of the gap, which is white.
    have hend : rest = [] → ∀ text doc, lexeme ≠ .comment text doc := by
      rintro rfl text doc rfl
      obtain ⟨hmem, hc⟩ := Lexeme.comment_not_white hscan
      cases hrest
      have hwhite := hgap c (by simp [prepend, Progress.token, Progress.after, hmem])
      rw [hc] at hwhite
      cases hwhite
    -- The rest of the text ends as the whole text does.
    have hmore : ∀ d ∈ rest.getLast?, Lexeme.isFinal d = true := by
      intro d hd
      refine hlast d ?_
      rw [← (Lexeme.scan_append hscan).1, List.getLast?_append, Option.mem_def.1 hd]
      rfl
    obtain ⟨p', hsound, htoken, hprevious, hjoin⟩ := ih (hp.after hscan) hgap hmore
    refine ⟨p', hsound, htoken, ?_, fun after => ?_⟩
    · rw [hprevious]
      cases lexeme with
      | blank d => rfl
      | comment text doc => rfl
      | token kind text =>
        rw [prepend, Progress.tokens, List.singleton_append, List.getLast?_cons]
        cases stream.tokens.getLast? <;> rfl
    · have hfinal : ∃ d ∈ (c :: cs).getLast?, Lexeme.isFinal d = true :=
        ⟨_, List.getLast?_cons, hlast _ List.getLast?_cons⟩
      rw [List.cons_append, scanFrom_cons (Lexeme.scan_join hscan hfinal hend), hjoin]
      cases scanFrom p' after with
      | error e => rfl
      | ok stream' => simp [Except.map, prepend]

end TokenStream

/-! ## Tokens behind other text -/

/-- The token at a later place. -/
def Token.shift (bytes lines : Nat) (t : Token) : Token :=
  { t with start := t.start + bytes, line := t.line + lines }

/-- The first token of a text, at a place where there is a gap already and a token before it. -/
def Token.resume (bytes lines : Nat) (gap : List Char)
    (previous : Option (TokenKind × Nat)) (t : Token) : Token :=
  { t.shift bytes lines with
    gap := String.ofList gap ++ t.gap
    freshLine := previous.any fun (_, line) => line < t.line + lines }

namespace TokenStream

/-- As much has been read from a later place on. -/
def Progress.shift (bytes lines : Nat) (p : Progress) : Progress :=
  { p with
    offset := p.offset + bytes
    line := p.line + lines
    previous := p.previous.map fun (kind, line) => (kind, line + lines) }

/-- The stream at a later place. -/
def shift (bytes lines : Nat) (stream : TokenStream) : TokenStream :=
  ⟨stream.tokens.map (Token.shift bytes lines), stream.last.shift bytes lines⟩

section Shift

variable {p : Progress} {text : List Char} {stream : TokenStream} (bytes lines : Nat)

private theorem Progress.token_shift (kind : TokenKind) :
    (p.shift bytes lines).token kind text = (p.token kind text).shift bytes lines := by
  cases hprevious : p.previous <;>
    simp [Progress.token, Progress.shift, Token.shift, hprevious]

private theorem Progress.after_shift (lexeme : Lexeme) :
    (p.shift bytes lines).after lexeme = (p.after lexeme).shift bytes lines := by
  cases lexeme <;> simp [Progress.after, Progress.shift, Nat.add_right_comm]

private theorem Progress.tokens_shift (lexeme : Lexeme) :
    (p.shift bytes lines).tokens lexeme = (p.tokens lexeme).map (Token.shift bytes lines) := by
  cases lexeme <;> simp [Progress.tokens, Progress.token_shift]

/-- Scanning does not look at where it is. -/
private theorem Scans.shift (h : Scans p text stream) :
    scanFrom (p.shift bytes lines) text = .ok (stream.shift bytes lines) := by
  induction h with
  | last p =>
    rw [scanFrom, Progress.token_shift]
    rfl
  | @more p c cs rest lexeme stream hscan hrest ih =>
    -- Only the kind of the previous token is looked at, and that is the same.
    have hkinds : (p.shift bytes lines).previous.map (·.1) = p.previous.map (·.1) := by
      rw [Progress.shift, Option.map_map]
      rfl
    rw [← hkinds] at hscan
    rw [scanFrom_cons hscan, Progress.after_shift, ih, Progress.tokens_shift]
    simp [Except.map, prepend, TokenStream.shift]

end Shift

/-- As much has been read as in `p`, from a place on where there is a gap already and a token before
it. -/
def Progress.resume (bytes lines : Nat) (gap : List Char) (previous : Option (TokenKind × Nat))
    (p : Progress) : Progress :=
  ⟨p.offset + bytes, p.line + lines, gap ++ p.gap, p.doc, previous⟩

/-- A text gives the same tokens behind other text, but for their places and the gap before the
first one. -/
theorem Scans.resume {p : Progress} {text : List Char} {stream : TokenStream} {first : Token}
    {others : List Token} (h : Scans p text stream) (hfirst : stream.tokens = first :: others)
    (hregex : ∀ text, first.kind ≠ .regex text) (hp : p.previous = none)
    (bytes lines : Nat) (gap : List Char) (previous : Option (TokenKind × Nat)) :
    scanFrom (p.resume bytes lines gap previous) text =
      .ok ⟨first.resume bytes lines gap previous :: others.map (Token.shift bytes lines),
        stream.last.shift bytes lines⟩ := by
  induction h with
  | last p => cases hfirst
  | @more p c cs rest lexeme stream hscan hrest ih =>
    rw [hp] at hscan
    -- What starts with no token before it starts behind any token, too.
    have hstep : lexeme.isRegex = false → scanFrom (p.resume bytes lines gap previous) (c :: cs) =
        (scanFrom ((p.resume bytes lines gap previous).after lexeme) rest).map
          (prepend ((p.resume bytes lines gap previous).tokens lexeme)) := fun hregex => by
      have hresume := Lexeme.scan_resume hscan hregex (previous.map (·.1))
      exact scanFrom_cons hresume
    cases lexeme with
    | blank d =>
      have hafter : (p.resume bytes lines gap previous).after (.blank d) =
          (p.after (.blank d)).resume bytes lines gap previous := by
        simp [Progress.after, Progress.resume, Nat.add_right_comm]
      rw [hstep rfl, hafter, ih hfirst hp]
      rfl
    | comment text doc =>
      have hafter : (p.resume bytes lines gap previous).after (.comment text doc) =
          (p.after (.comment text doc)).resume bytes lines gap previous := by
        simp [Progress.after, Progress.resume, Nat.add_right_comm]
      rw [hstep rfl, hafter, ih hfirst hp]
      rfl
    -- The gap ends with the first token, so all that follows is shifted only.
    | token kind text =>
      obtain ⟨rfl, rfl⟩ := List.cons.inj hfirst
      have hafter : (p.resume bytes lines gap previous).after (.token kind text) =
          (p.after (.token kind text)).shift bytes lines := by
        simp [Progress.after, Progress.resume, Progress.shift, Nat.add_right_comm]
      have hkind : (Lexeme.token kind text).isRegex = false := by
        cases kind <;> first | rfl | exact absurd rfl (hregex _)
      have htoken : (p.resume bytes lines gap previous).token kind text =
          (p.token kind text).resume bytes lines gap previous := by
        rw [Progress.token, Progress.resume, String.ofList_append]
        rfl
      rw [hstep hkind, hafter, hrest.shift, Progress.tokens, htoken]
      rfl

end TokenStream

namespace Tiles

variable {before text : List Char} {tokens : List Token} {t last : Token}

/-- The text ends in the last token and the gap behind it. -/
theorem exists_last (h : Tiles before text tokens last) (ht : tokens.getLast? = some t) :
    (∃ front, text = front ++ (t.raw.toList ++ last.gap.toList)) ∧ t.kind.Spells t.raw.toList ∧
      last.line = t.line + (t.raw.toList ++ last.gap.toList).count '\n' := by
  induction h with
  | last => cases ht
  | @token before gap raw text u last tokens hplaced hne hspells hrest ih =>
    cases tokens with
    -- The token is the last one, so behind it stands the gap of the end.
    | nil =>
      obtain rfl : u = t := by simpa using ht
      cases hrest with
      | @last _ gap' _ hlast _ =>
        rw [hlast.gap_eq, hplaced.raw_eq, hplaced.line_eq, hlast.line_eq, String.toList_ofList,
          String.toList_ofList]
        refine ⟨⟨gap, List.append_assoc ..⟩, hspells, ?_⟩
        simp only [List.count_append]
        omega
    | cons v tokens =>
      obtain ⟨⟨front, hfront⟩, hmore⟩ := ih (by simpa [List.getLast?_cons] using ht)
      exact ⟨⟨gap ++ raw ++ front, by rw [hfront, ← List.append_assoc]⟩, hmore⟩

private theorem first_line (h : Tiles [] text (t :: tokens) last) :
    t.line = 1 + t.gap.toList.count '\n' := by
  cases h with
  | token hplaced =>
    rw [hplaced.line_eq, hplaced.gap_eq, String.toList_ofList, List.nil_append]

end Tiles

/-- The tokens of two texts one after the other. -/
theorem ofText_append {p s : String} {before after : TokenStream} {t first : Token}
    {rest : List Token} (hp : ofText p = .ok before) (ht : before.tokens.getLast? = some t)
    (hgap : ∀ c ∈ before.last.gap.toList, Text.isWhite c = true)
    (hend : t.kind = .punct .rightBrace ∨ before.last.gap.toList ≠ [])
    (hs : ofText s = .ok after) (hfirst : after.tokens = first :: rest)
    (hregex : ∀ text, first.kind ≠ .regex text) :
    ∃ first' bytes lines, ofText (p ++ s) = .ok
        ⟨before.tokens ++ first' :: rest.map (Token.shift bytes lines),
          after.last.shift bytes lines⟩ ∧
      first'.kind = first.kind ∧ first'.doc = first.doc ∧
      (first'.freshLine = true ↔
        '\n' ∈ t.raw.toList ++ before.last.gap.toList ++ first.gap.toList) := by
  obtain ⟨⟨front, hfront⟩, hspells, hline⟩ := (ofText_tiles hp).exists_last ht
  -- The first text ends in white space, or in the brace of its last token.
  have hlast : ∀ d ∈ p.toList.getLast?, Lexeme.isFinal d = true := by
    intro d hd
    rw [hfront, List.getLast?_append, List.getLast?_append] at hd
    cases hwhite : before.last.gap.toList.getLast? with
    | some e =>
      obtain rfl : e = d := by simpa [hwhite] using hd
      rw [Lexeme.isFinal, hgap e (List.mem_of_getLast? hwhite)]
      rfl
    | none =>
      have hbrace := hend.resolve_right fun hne => hne (List.getLast?_eq_none_iff.1 hwhite)
      rw [hbrace] at hspells
      have hraw : t.raw.toList = ['\x7d'] := hspells.symm
      obtain rfl : '\x7d' = d := by simpa [hwhite, hraw] using hd
      decide
  obtain ⟨q, hsound, htoken, hprevious, hjoin⟩ :=
    (scans_of_scanFrom hp).join .start hgap hlast
  have hqgap : String.ofList q.gap = before.last.gap := congrArg Token.gap htoken
  have hqline : q.line = before.last.line := congrArg Token.line htoken
  have hqdoc : q.doc = none := by
    refine hsound.doc_eq fun c hc => hgap c ?_
    rwa [← hqgap, String.toList_ofList]
  obtain ⟨lines, hlines⟩ := Nat.exists_eq_add_of_lt hsound.line_pos
  -- Scanning goes on as from the start, with a gap and a token before it.
  have hq : q = Progress.start.resume q.offset lines q.gap q.previous := by
    have hline : 1 + lines = q.line := by omega
    rw [Progress.resume, Progress.start, hline, Nat.zero_add, List.append_nil, ← hqdoc]
  have hresume := (scans_of_scanFrom hs).resume hfirst hregex rfl q.offset lines q.gap q.previous
  refine ⟨first.resume q.offset lines q.gap q.previous, q.offset, lines, ?_, rfl, rfl, ?_⟩
  · rw [← hq] at hresume
    rw [ofText, String.toList_append, hjoin, hresume]
    rfl
  · have hfirstLine := Tiles.first_line (hfirst ▸ ofText_tiles hs)
    rw [ht] at hprevious
    simp only [Token.resume, hprevious, Option.map_some, Option.some_or, Option.any_some,
      decide_eq_true_eq, ← List.count_pos_iff, List.count_append] at hline ⊢
    omega

end Endpoints
