import Endpoints.Token.Stream
import Mathlib.Data.List.Infix
import Mathlib.Data.List.TakeWhile

/-!
# How tokens and gaps are spelled

The notation of a source text, said without the machines that read it: what may stand between two
tokens (`Skips`), which text stands for the value of a string (`Unescapes`), and which text stands
for a token at all (`TokenKind.Spells`). The readers of literals and `Lexeme.scan` are then correct
if what they take off a text is spelled that way.
-/

namespace Endpoints

/-! ## Gaps -/

/-- The documentation in a block comment: a body that starts with a star, without it. -/
def bodyDocs : (body : List Char) → List (List Char)
  | '*' :: text => [text]
  | _ => []

/-- `text` consists of white space and complete comments, the documentation comments among them
being `docs`. A block comment ends with the first `*/`, a line comment before the end of its line or
at the end of the source; `after` is the source after `text`. -/
inductive Skips (after : List Char) : (text : List Char) → (docs : List (List Char)) → Prop
  | nil : Skips after [] []
  | white {c : Char} {text : List Char} {docs : List (List Char)} : Text.isWhite c = true →
      Skips after text docs → Skips after (c :: text) docs
  | line {body text : List Char} {docs : List (List Char)} : '\n' ∉ body →
      ((text ++ after).head? = none ∨ (text ++ after).head? = some '\n') →
      Skips after text docs → Skips after ('/' :: '/' :: body ++ text) docs
  | block {body text : List Char} {docs : List (List Char)} : ¬ ['*', '/'] <:+: body →
      Skips after text docs →
      Skips after ('/' :: '*' :: body ++ '*' :: '/' :: text) (bodyDocs body ++ docs)

/-- A gap before another gap is one gap. -/
theorem Skips.append {after first second : List Char} {docs docs' : List (List Char)}
    (h : Skips (second ++ after) first docs) (h' : Skips after second docs') :
    Skips after (first ++ second) (docs ++ docs') := by
  induction h with
  | nil => exact h'
  | white hwhite _ ih => exact .white hwhite ih
  | @line body text docs hbody hhead _ ih =>
    rw [List.cons_append, List.cons_append, List.cons_append, List.cons_append, List.append_assoc]
    exact .line hbody (by rwa [List.append_assoc]) ih
  | @block body text docs hbody _ ih =>
    have happ := Skips.block hbody ih
    simp only [List.append_assoc, List.cons_append] at happ ⊢
    exact happ

/-! ## Strings -/

namespace Literal

/-- The character that a backslash before `c` stands for. -/
def escaped (c : Char) : Char :=
  if c = 'n' then '\n' else if c = 't' then '\t' else if c = 'r' then '\r'
  else if c = '0' then '\x00' else c

/-- The text between the quotes stands for the value. A character stands for itself unless it is the
quote, a backslash or a line break. A backslash makes the end of a line disappear, and before `u` it
takes a code in braces, or up to four hexadecimal digits, as many as there are. -/
inductive Unescapes (quote : Char) : (text value : List Char) → Prop
  | nil : Unescapes quote [] []
  | plain {c : Char} {text value : List Char} : c ≠ quote → c ≠ '\\' → c ≠ '\n' →
      Unescapes quote text value → Unescapes quote (c :: text) (c :: value)
  | lineEnd {text value : List Char} : Unescapes quote text value →
      Unescapes quote ('\\' :: '\n' :: text) value
  | escape {c : Char} {text value : List Char} : c ≠ 'u' → c ≠ '\n' →
      Unescapes quote text value → Unescapes quote ('\\' :: c :: text) (escaped c :: value)
  | braced {digits text value : List Char} : '}' ∉ digits → Unescapes quote text value →
      Unescapes quote ('\\' :: 'u' :: '{' :: digits ++ '}' :: text) (unicodeChar digits :: value)
  | hex {digits text value : List Char} : (∀ d ∈ digits, isHex d = true) → digits.length ≤ 4 →
      (digits.length < 4 → ∀ c, (text ++ [quote]).head? = some c → isHex c = false) →
      (digits = [] → (text ++ [quote]).head? ≠ some '{') → Unescapes quote text value →
      Unescapes quote ('\\' :: 'u' :: digits ++ text) (unicodeChar digits :: value)

/-- The characters of an escape that the machine has seen so far. -/
def Escape.seen : Escape → List Char
  | none => []
  | backslash => ['\\']
  | unicode => ['\\', 'u']
  | hex digits => '\\' :: 'u' :: digits
  | braced digits => '\\' :: 'u' :: '{' :: digits

/-- What is known of the digits of an escape that the machine is in. -/
def Escape.Open : Escape → Prop
  | hex digits => digits ≠ [] ∧ digits.length ≤ 3 ∧ ∀ d ∈ digits, isHex d = true
  | braced digits => '}' ∉ digits
  | _ => True

theorem stringStep_backslash (quote c : Char) :
    stringStep quote .backslash c =
      if c = 'u' then .more [] .unicode else if c = '\n' then .more [] .none
      else .more [escaped c] .none := by
  unfold stringStep escaped
  dsimp only
  split <;> simp_all

variable {quote : Char} {lines : Nat} {cs text rest : List Char}

/-- One character of a string, in terms of what the step says. -/
theorem stringBody_cons {c : Char} {escape : Escape} {value : List Char}
    (h : stringBody quote escape lines (c :: cs) = .ok (value, text, rest)) :
    (stringStep quote escape c = .closed value ∧ text = [c] ∧ rest = cs) ∨
    ∃ known next values later, stringStep quote escape c = .more known next ∧
      stringBody quote next (countLine lines c) cs = .ok (values, later, rest) ∧
      value = known ++ values ∧ text = c :: later := by
  unfold stringBody at h
  split at h
  · exact nomatch h
  · next closed hstep =>
    obtain ⟨rfl, rfl, rfl⟩ : closed = value ∧ [c] = text ∧ cs = rest := by simpa using h
    exact .inl ⟨hstep, rfl, rfl⟩
  -- The step yields some characters, and the rest of the body yields the others.
  · next known next hstep =>
    obtain ⟨⟨values, later, rest'⟩, hbody, heq⟩ := exists_of_map_eq_ok h
    cases heq
    exact .inr ⟨known, next, values, later, hstep, hbody, rfl, rfl⟩

/-- What a step says of a character after `seen` is right. Before it closes the string, `seen`
stands for the value; where the string goes on, a text for the state after it can be put behind. -/
def StringStep.Sound (quote c : Char) (seen : List Char) : StringStep → Prop
  | more known next => next.Open ∧ ∀ body values, Unescapes quote (next.seen ++ body) values →
      Unescapes quote (seen ++ c :: body) (known ++ values)
  | closed value => c = quote ∧ Unescapes quote seen value
  | broken => True

/-- A character outside of escapes is judged rightly. -/
private theorem plainStep_sound (quote c : Char) : (plainStep quote c).Sound quote c [] := by
  unfold plainStep
  split
  · trivial
  next hbreak =>
  -- A backslash yields nothing yet; what it stands for follows.
  split
  · next hslash =>
    obtain rfl := eq_of_beq hslash
    exact ⟨trivial, fun body values hun => hun⟩
  next hslash =>
  split
  · next hquote => exact ⟨eq_of_beq hquote, .nil⟩
  · next hquote =>
    rw [beq_iff_eq] at hbreak hslash hquote
    exact ⟨trivial, fun body values hun => .plain hquote hslash hbreak hun⟩

/-- An escape of digits that the character ends: the step is that of a plain one. -/
private theorem StringStep.Sound.ended {quote c : Char} {step : StringStep} {digits : List Char}
    (h : step.Sound quote c []) (hdigits : ∀ d ∈ digits, isHex d = true)
    (hlength : digits.length ≤ 4) (hhex : isHex c = false) (hbrace : digits = [] → c ≠ '{') :
    (step.withValue [unicodeChar digits]).Sound quote c ('\\' :: 'u' :: digits) := by
  -- The digits end at this character, which is why they are all that the escape has.
  have hcode : ∀ text values, (text ++ [quote]).head? = some c → Unescapes quote text values →
      Unescapes quote ('\\' :: 'u' :: digits ++ text) (unicodeChar digits :: values) := by
    intro text values hhead hun
    refine .hex hdigits hlength (fun _ d hd => ?_) (fun hnil hd => ?_) hun
    · exact Option.some.inj (hhead.symm.trans hd) ▸ hhex
    · exact hbrace hnil (Option.some.inj (hhead.symm.trans hd))
  cases step with
  | more known next =>
    exact ⟨h.1, fun body values hun =>
      hcode (c :: body) (known ++ values) rfl (h.2 body values hun)⟩
  | closed value =>
    obtain ⟨rfl, hun⟩ := h
    exact ⟨rfl, by simpa using hcode [] value rfl hun⟩
  | broken => trivial

/-- A character is judged rightly in every state of an escape. -/
theorem stringStep_sound {escape : Escape} (c : Char) (hopen : escape.Open) :
    (stringStep quote escape c).Sound quote c escape.seen := by
  -- One case for each state that the machine can be in.
  cases escape with
  | none => exact plainStep_sound quote c
  | backslash =>
    rw [stringStep_backslash]
    split
    · next hu => exact ⟨trivial, fun body values hun => hu ▸ hun⟩
    next hu =>
    split
    · next hbreak => exact ⟨trivial, fun body values hun => hbreak ▸ .lineEnd hun⟩
    · next hbreak => exact ⟨trivial, fun body values hun => .escape hu hbreak hun⟩
  | unicode =>
    unfold stringStep
    dsimp only
    split
    · next hbrace =>
      obtain rfl := eq_of_beq hbrace
      exact ⟨List.not_mem_nil, fun body values hun => hun⟩
    next hbrace =>
    split
    · next hhex => exact ⟨by simp [Escape.Open, hhex], fun body values hun => hun⟩
    · next hhex =>
      rw [beq_iff_eq] at hbrace
      exact (plainStep_sound quote c).ended (by simp) (by simp) (Bool.eq_false_iff.2 hhex)
        fun _ => hbrace
  | hex digits =>
    obtain ⟨hne, hlength, hdigits⟩ := hopen
    unfold stringStep
    dsimp only
    split
    · next hhex =>
      have hall : ∀ d ∈ digits ++ [c], isHex d = true := by
        simpa [or_imp, forall_and] using ⟨hdigits, hhex⟩
      split
      · next hthree =>
        -- The fourth digit completes the escape, and any text may follow.
        have hfour : (digits ++ [c]).length = 4 := by simp [hthree]
        refine ⟨trivial, fun body values hun => ?_⟩
        have hcode := Unescapes.hex hall (by omega) (fun hlt => by omega) (by simp) hun
        simpa [Escape.seen] using hcode
      · next hthree =>
        refine ⟨⟨by simp, by simp; omega, hall⟩, fun body values hun => ?_⟩
        simpa [Escape.seen] using hun
    · next hhex =>
      exact (plainStep_sound quote c).ended hdigits (by omega) (Bool.eq_false_iff.2 hhex)
        fun hnil => absurd hnil hne
  | braced digits =>
    have hdigits : '}' ∉ digits := hopen
    unfold stringStep
    dsimp only
    split
    · next hclose =>
      obtain rfl := eq_of_beq hclose
      exact ⟨trivial, fun body values hun => .braced hdigits hun⟩
    · next hclose =>
      rw [beq_iff_eq] at hclose
      refine ⟨by simp [Escape.Open, hdigits, Ne.symm hclose], fun body values hun => ?_⟩
      simpa [Escape.seen] using hun

/-- Inside an escape the machine reads to the closing quote, and what it has seen, with what it
reads, stands for the value. -/
private theorem stringBody_seen (escape : Escape) {value : List Char} (hopen : escape.Open)
    (h : stringBody quote escape lines cs = .ok (value, text, rest)) :
    ∃ body, text = body ++ [quote] ∧ Unescapes quote (escape.seen ++ body) value := by
  -- By induction on the text, where each step passes a text on to the state after it.
  induction cs generalizing escape lines value text with
  | nil => exact nomatch h
  | cons c cs ih =>
    have hsound : (stringStep quote escape c).Sound quote c escape.seen := stringStep_sound c hopen
    rcases stringBody_cons h with
      ⟨hstep, rfl, rfl⟩ | ⟨_, next, values, later, hstep, hbody, rfl, rfl⟩
    · rw [hstep] at hsound
      obtain ⟨rfl, hun⟩ := hsound
      exact ⟨[], rfl, by rwa [List.append_nil]⟩
    · rw [hstep] at hsound
      obtain ⟨body, rfl, hun⟩ := ih next hsound.1 hbody
      exact ⟨c :: body, rfl, hsound.2 body values hun⟩

theorem stringBody_unescapes {value : List Char}
    (h : stringBody quote .none lines cs = .ok (value, text, rest)) :
    ∃ body, text = body ++ [quote] ∧ Unescapes quote body value :=
  stringBody_seen .none trivial h

/-! ## Templates and comments -/

/-- The outermost frame is a template. -/
def Rooted : List Frame → Prop
  | [] => False
  | frame :: below => (below = [] ∧ ∃ l e d, frame = .template l e d) ∨ Rooted below

/-- Only the back quote that closes the outermost template leaves no frame. -/
private theorem rooted_templateStep {c : Char} {frames next : List Frame} (hroot : Rooted frames)
    (h : templateStep lines c frames = .ok next) : (next = [] ∧ c = '\x60') ∨ Rooted next := by
  cases frames with
  | nil => exact hroot.elim
  | cons frame below =>
    cases frame with
    | template line escaped dollar =>
      -- The template may take another state, or be left.
      have hstay : ∀ e d, Rooted (.template line e d :: below) :=
        fun e d => hroot.imp (fun ⟨hnil, _⟩ => ⟨hnil, line, e, d, rfl⟩) id
      simp only [templateStep] at h
      split at h
      · exact .inr (Except.ok.inj h ▸ hstay _ _)
      · split at h
        · exact .inr (Except.ok.inj h ▸ hstay _ _)
        · split at h
          · next hquote =>
            obtain rfl := Except.ok.inj h
            exact hroot.imp (fun ⟨hnil, _⟩ => ⟨hnil, by simpa using hquote⟩) id
          · split at h
            · exact .inr (Except.ok.inj h ▸ .inr (hstay _ _))
            · exact .inr (Except.ok.inj h ▸ hstay _ _)
    | braces =>
      have hbelow : Rooted below := hroot.resolve_left fun ⟨_, _, _, _, heq⟩ => nomatch heq
      refine .inr ?_
      simp only [templateStep] at h
      split at h
      · exact Except.ok.inj h ▸ .inr (.inr hbelow)
      · split at h
        · exact Except.ok.inj h ▸ hbelow
        · split at h
          · exact Except.ok.inj h ▸ .inr (.inr hbelow)
          · split at h
            · exact Except.ok.inj h ▸ .inr (.inr hbelow)
            · exact Except.ok.inj h ▸ .inr hbelow
    | string line quote escape =>
      have hbelow : Rooted below := hroot.resolve_left fun ⟨_, _, _, _, heq⟩ => nomatch heq
      refine .inr ?_
      simp only [templateStep] at h
      split at h
      · exact nomatch h
      · exact Except.ok.inj h ▸ hbelow
      · exact Except.ok.inj h ▸ .inr hbelow

/-- A template ends with the back quote that closes it. -/
theorem templateBody_closes {frames : List Frame} (hroot : Rooted frames)
    (h : templateBody frames lines cs = .ok (text, rest)) : ∃ body, text = body ++ ['\x60'] := by
  induction cs generalizing frames lines text with
  | nil => exact nomatch h
  | cons c cs ih =>
    unfold templateBody at h
    split at h
    · exact nomatch h
    · next hstep =>
      obtain ⟨rfl, -⟩ : [c] = text ∧ cs = rest := by simpa using h
      -- No frame is left, so the character is the closing back quote.
      rcases rooted_templateStep hroot hstep with ⟨-, rfl⟩ | hnot
      · exact ⟨[], rfl⟩
      · exact hnot.elim
    · next next hnext hstep =>
      obtain ⟨⟨later, rest'⟩, hbody, heq⟩ := exists_of_map_eq_ok h
      cases heq
      rcases rooted_templateStep hroot hstep with ⟨rfl, -⟩ | hroot'
      · exact absurd rfl hnext
      · obtain ⟨body, rfl⟩ := ih hroot' hbody
        exact ⟨c :: body, rfl⟩

/-- A block comment ends with the first `*/`. -/
private theorem not_infix_commentBody {body : List Char} (h : commentBody cs = some (body, rest)) :
    ¬ ['*', '/'] <:+: body := by
  fun_induction commentBody cs generalizing body with
  | case1 => cases h
  | case2 rest' =>
    obtain ⟨rfl, -⟩ := Prod.mk.inj (Option.some.inj h)
    simp
  | case3 c cs hfirst ih =>
    obtain ⟨⟨body', rest'⟩, hbody, heq⟩ := Option.map_eq_some_iff.1 h
    obtain ⟨rfl, rfl⟩ := Prod.mk.inj heq
    rw [List.infix_cons_iff]
    rintro (hstart | hlater)
    · -- A first `*/` would have ended the comment before this character.
      obtain ⟨tail, htail⟩ := hstart
      obtain ⟨rfl, rfl⟩ : '*' = c ∧ '/' :: tail = body' := by simpa using htail
      have happ := commentBody_append hbody
      exact hfirst _ rfl happ.symm
    · exact ih hbody hlater

/-- `bodyDocs` is what `docOfBody` gives. -/
private theorem bodyDocs_eq (body : List Char) : bodyDocs body = (docOfBody body).toList := by
  cases body with
  | nil => rfl
  | cons c text =>
    by_cases hstar : c = '*'
    · subst hstar
      rfl
    · simp [bodyDocs, docOfBody, hstar]

end Literal

/-! ## Tokens -/

/-- The text is one that stands for a token of this kind: the same text for words and regular
expressions, without underscores for numbers and without back quotes for templates, unescaped for
strings. No text stands for the end of the file. -/
def TokenKind.Spells : TokenKind → (raw : List Char) → Prop
  | word text, raw => text.toList = raw
  | string value, raw => ∃ quote body, (quote = '"' ∨ quote = '\x27') ∧
      raw = quote :: body ++ [quote] ∧ Literal.Unescapes quote body value.toList
  | template text, raw => raw = '\x60' :: text.toList ++ ['\x60']
  | number text, raw => text.toList = raw.filter (· != '_')
  | regex text, raw => text.toList = raw
  | punct mark, raw => mark.text.toList = raw
  | endOfFile, _ => False

private theorem Punct.text_of_mem {mark : Punct} {text : String} (h : (mark, text) ∈ Punct.table) :
    mark.text = text := by
  have hall : ∀ entry ∈ Punct.table, entry.1.text = entry.2 := by decide
  exact hall _ h

namespace Lexeme

/-- What is known of a lexeme before `rest`: a token is spelled as what it is, and anything else may
stand in a gap. -/
def Reads (rest : List Char) : Lexeme → Prop
  | blank c => Skips rest [c] []
  | comment text doc => Skips rest text doc.toList
  | token kind text => kind.Spells text

private theorem punct?_spells {cs text rest : List Char} {mark : Punct}
    (h : punct? cs = some (mark, text, rest)) : mark.text.toList = text := by
  obtain ⟨⟨m, t⟩, hmem, hm⟩ := List.exists_of_findSome?_eq_some h
  simp only [Option.ite_none_right_eq_some, Option.some.injEq, Prod.mk.injEq] at hm
  obtain ⟨-, rfl, rfl, -⟩ := hm
  rw [Punct.text_of_mem hmem]

/-- What `//` starts goes on to the end of the line. -/
private theorem lineComment_reads {cs : List Char} (h : cs.head? = some '/') :
    Reads (cs.dropWhile (· != '\n')) (.comment ('/' :: cs.takeWhile (· != '\n')) none) := by
  cases cs with
  | nil => exact nomatch h
  | cons d ds =>
    obtain rfl : d = '/' := Option.some.inj h
    rw [List.takeWhile_cons_of_pos (by decide), List.dropWhile_cons_of_pos (by decide)]
    have hbody : '\n' ∉ ds.takeWhile (· != '\n') := by
      intro hmem
      simpa using List.mem_takeWhile_imp hmem
    -- The comment ends at a line feed or at the end of the text.
    have hrest : (ds.dropWhile (· != '\n')).head? = none ∨
        (ds.dropWhile (· != '\n')).head? = some '\n' := by
      cases hd : (ds.dropWhile (· != '\n')).head? with
      | none => exact .inl rfl
      | some e =>
        have hnot := List.head?_dropWhile_not (· != '\n') ds
        rw [hd] at hnot
        exact .inr (by simpa using hnot)
    have hempty : Skips (ds.dropWhile (· != '\n')) [] [] := .nil
    have hline := Skips.line hbody hrest hempty
    rwa [List.append_nil] at hline

/-- A lexeme that is taken off a text is spelled as what it is. -/
theorem scan_reads {previous : Option TokenKind} {c : Char} {cs rest : List Char}
    {lexeme : Lexeme} (h : scan previous c cs = .ok (lexeme, rest)) : lexeme.Reads rest := by
  -- One case for each sort of lexeme, in the order in which `scan` tries them.
  unfold scan at h
  split at h
  · next hwhite =>
    cases h
    exact .white hwhite .nil
  split at h
  · next hline =>
    cases h
    simp only [Bool.and_eq_true, beq_iff_eq] at hline
    obtain ⟨rfl, hhead⟩ := hline
    exact lineComment_reads hhead
  split at h
  · split at h
    · next body rest' hbody =>
      cases h
      have hempty : Skips rest [] [] := .nil
      have hblock := Skips.block (Literal.not_infix_commentBody hbody) hempty
      rw [List.append_nil, Literal.bodyDocs_eq] at hblock
      exact hblock
    · cases h
  split at h
  · next hquote =>
    obtain ⟨⟨value, text, rest'⟩, hbody, heq⟩ := exists_of_map_eq_ok h
    cases heq
    obtain ⟨body, rfl, hun⟩ := Literal.stringBody_unescapes hbody
    refine ⟨c, body, by simpa using hquote, rfl, ?_⟩
    rwa [String.toList_ofList]
  split at h
  · next hquote =>
    obtain ⟨⟨text, rest'⟩, hbody, heq⟩ := exists_of_map_eq_ok h
    cases heq
    have hroot : Literal.Rooted [.template 0 false false] := .inl ⟨rfl, 0, false, false, rfl⟩
    obtain ⟨body, rfl⟩ := Literal.templateBody_closes hroot hbody
    obtain rfl : c = '\x60' := by simpa using hquote
    show _ = _
    rw [String.toList_ofList, List.dropLast_concat, List.cons_append]
  split at h
  · cases h
    exact String.toList_ofList
  split at h
  · cases h
    exact String.toList_ofList
  split at h
  · obtain ⟨⟨text, rest'⟩, -, heq⟩ := exists_of_map_eq_ok h
    cases heq
    exact String.toList_ofList
  split at h
  · next mark text rest' hpunct =>
    cases h
    exact punct?_spells hpunct
  · cases h

end Lexeme

end Endpoints
