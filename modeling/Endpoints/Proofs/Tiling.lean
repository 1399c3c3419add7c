import Endpoints.Proofs.ForStd
import Endpoints.Proofs.Spelling

/-!
# Tokens tile their source

Positions of tokens are counted in bytes and lines by line breaks, both along the way. `Tiles` says
what comes out: the source is a sequence of gaps and tokens, each token standing where its position
says, and nothing is left over. Everything that a position is used for follows from that.

## Key results

- `slice?`, `slice?_append`: the text between two positions, if both are boundaries of characters
- `TokenStream.scanFrom_tiles`: scanning gives a tiling, from any point of the source on
- `Tiles.sits`: where a token sits, in terms of slices of the source
- `tokens_tile_source`: all of it, for the tokens of a source
-/

namespace Endpoints

/-! ## Slices -/

/-- The text from one position in bytes to another one. There is none if a position lies outside the
source or inside a character, or if the second comes before the first. -/
def slice? (source : String) (start stop : Nat) : Option String :=
  if h : (⟨start⟩ : String.Pos.Raw).IsValid source ∧ (⟨stop⟩ : String.Pos.Raw).IsValid source ∧
      start ≤ stop then
    some (source.extract ⟨⟨start⟩, h.1⟩ ⟨⟨stop⟩, h.2.1⟩)
  else
    none

/-- The slice at the size of what comes before. -/
theorem slice?_append (before text after : String) :
    slice? (before ++ text ++ after) before.utf8ByteSize
      (before.utf8ByteSize + text.utf8ByteSize) = some text := by
  have hstart : (⟨before.utf8ByteSize⟩ : String.Pos.Raw).IsValid (before ++ text ++ after) :=
    String.Pos.Raw.isValid_iff_exists_append.2 ⟨before, text ++ after, String.append_assoc .., rfl⟩
  have hstop : (⟨before.utf8ByteSize + text.utf8ByteSize⟩ : String.Pos.Raw).IsValid
      (before ++ text ++ after) :=
    String.Pos.Raw.isValid_iff_exists_append.2 ⟨before ++ text, after, rfl, by
      rw [String.Pos.Raw.ext_iff, String.byteIdx_rawEndPos, String.utf8ByteSize_append]⟩
  rw [slice?, dif_pos ⟨hstart, hstop, Nat.le_add_right _ _⟩]
  refine congrArg some (String.toByteArray_inj.1 ?_)
  rw [String.toByteArray_extract, String.toByteArray_append, String.toByteArray_append,
    ByteArray.append_assoc]
  -- In bytes, the slice skips what comes before and stops before what comes after.
  have hshift := ByteArray.extract_append_size_add (a := before.toByteArray)
    (b := text.toByteArray ++ after.toByteArray) (i := 0) (j := text.toByteArray.size)
  rw [ByteArray.extract_append_eq_left rfl] at hshift
  exact hshift

/-! ## Tilings -/

/-- The size of a text in bytes. -/
def byteSize (text : List Char) : Nat := (String.ofList text).utf8ByteSize

theorem byteSize_append (first second : List Char) :
    byteSize (first ++ second) = byteSize first + byteSize second := by
  rw [byteSize, String.ofList_append, String.utf8ByteSize_append, byteSize, byteSize]

private theorem byteSize_pos {text : List Char} (h : text ≠ []) : 0 < byteSize text := by
  refine Nat.pos_of_ne_zero fun hzero => h ?_
  have hempty : String.ofList text = "" := String.utf8ByteSize_eq_zero_iff.1 hzero
  simpa using congrArg String.toList hempty

/-- The token stands after `before` and a gap, and before `after`. -/
structure Token.Placed (before gap raw after : List Char) (t : Token) : Prop where
  gap_eq : t.gap = String.ofList gap
  raw_eq : t.raw = String.ofList raw
  start_eq : t.start = byteSize (before ++ gap)
  line_eq : t.line = 1 + (before ++ gap).count '\n'
  doc_eq : ∃ docs, Skips (raw ++ after) gap docs ∧ t.doc = docs.getLast?.map String.ofList

/-- The tokens, with the one that ends the source, tile the text that follows `before`. -/
inductive Tiles : (before text : List Char) → List Token → Token → Prop
  | last {before gap : List Char} {last : Token} :
      last.Placed before gap [] [] → last.kind = .endOfFile → Tiles before gap [] last
  | token {before gap raw text : List Char} {t last : Token} {tokens : List Token} :
      t.Placed before gap raw text → raw ≠ [] → t.kind.Spells raw →
      Tiles (before ++ gap ++ raw) text tokens last →
      Tiles before (gap ++ raw ++ text) (t :: tokens) last

namespace TokenStream

/-- `countLines` counts the line breaks. -/
theorem countLines_eq (text : List Char) : countLines text = text.count '\n' := by
  -- For any count to start with, so that the induction goes through.
  have hfold : ∀ n, text.foldl Literal.countLine n = n + text.count '\n' := by
    induction text with
    | nil => exact fun n => rfl
    | cons c cs ih =>
      intro n
      rw [List.foldl_cons, ih, Literal.countLine, List.count_cons]
      split <;> omega
  simpa [countLines] using hfold 0

/-- What has been counted and gathered so far is right about `before` and the gap after it, where
`text` is still to be read. -/
structure Progress.At (before gap text : List Char) (p : Progress) : Prop where
  offset_eq : p.offset = byteSize (before ++ gap)
  line_eq : p.line = 1 + (before ++ gap).count '\n'
  gap_eq : p.gap = gap
  doc_eq : ∃ docs, Skips text gap docs ∧ p.doc = docs.getLast?

private theorem Progress.At.start (text : List Char) : Progress.start.At [] [] text :=
  ⟨rfl, rfl, rfl, [], .nil, rfl⟩

section Steps

variable {p : Progress} {before gap raw text : List Char}

private theorem Progress.At.token (kind : TokenKind) (h : p.At before gap (raw ++ text)) :
    (p.token kind raw).Placed before gap raw text := by
  obtain ⟨docs, hskips, hdoc⟩ := h.doc_eq
  refine ⟨congrArg String.ofList h.gap_eq, rfl, h.offset_eq, h.line_eq, docs, hskips, ?_⟩
  rw [Progress.token, hdoc]

private theorem Progress.At.counts {lexeme : Lexeme} (h : p.At before gap text) :
    (p.after lexeme).offset = byteSize (before ++ gap ++ lexeme.text) ∧
      (p.after lexeme).line = 1 + (before ++ gap ++ lexeme.text).count '\n' := by
  rw [byteSize_append, ← h.offset_eq, List.count_append, ← Nat.add_assoc, ← h.line_eq,
    ← countLines_eq]
  cases lexeme <;> exact ⟨rfl, rfl⟩

/-- White space lengthens the gap. -/
private theorem Progress.At.blank {c : Char} (h : p.At before gap (c :: text))
    (hreads : (Lexeme.blank c).Reads text) :
    (p.after (.blank c)).At before (gap ++ [c]) text := by
  obtain ⟨hoffset, hline⟩ := h.counts
  obtain ⟨docs, hskips, hdoc⟩ := h.doc_eq
  rw [List.append_assoc] at hoffset hline
  have hmore := Skips.append hskips hreads
  rw [List.append_nil] at hmore
  exact ⟨hoffset, hline, congrArg (· ++ [c]) h.gap_eq, docs, hmore, hdoc⟩

/-- So does a comment, and its documentation is then the last of the gap. -/
private theorem Progress.At.comment {doc : Option (List Char)} (h : p.At before gap (raw ++ text))
    (hreads : (Lexeme.comment raw doc).Reads text) :
    (p.after (.comment raw doc)).At before (gap ++ raw) text := by
  obtain ⟨hoffset, hline⟩ := h.counts
  obtain ⟨docs, hskips, hdoc⟩ := h.doc_eq
  rw [List.append_assoc] at hoffset hline
  refine ⟨hoffset, hline, congrArg (· ++ raw) h.gap_eq, docs ++ doc.toList,
    hskips.append hreads, ?_⟩
  rw [List.getLast?_append, ← hdoc]
  cases doc <;> rfl

private theorem Progress.At.next {kind : TokenKind} (h : p.At before gap (raw ++ text)) :
    (p.after (.token kind raw)).At (before ++ gap ++ raw) [] text := by
  obtain ⟨hoffset, hline⟩ := h.counts
  rw [← List.append_nil (_ ++ _)] at hoffset hline
  exact ⟨hoffset, hline, rfl, [], .nil, rfl⟩

end Steps

/-- From any point on, scanning tiles what is left of the source. -/
theorem scanFrom_tiles {p : Progress} {before gap text : List Char} {stream : TokenStream}
    (hp : p.At before gap text) (h : scanFrom p text = .ok stream) :
    Tiles before (gap ++ text) stream.tokens stream.last := by
  -- Along the scan: the end of the source, two kinds of failure, a token, and anything else.
  fun_induction scanFrom p text generalizing before gap stream with
  | case1 p =>
    obtain rfl := Except.ok.inj h
    have hplaced : (p.token .endOfFile []).Placed before gap [] [] := hp.token .endOfFile
    rw [List.append_nil]
    exact .last hplaced rfl
  | case2 p c cs fault lines hscan => exact nomatch h
  | case3 p c cs lexeme rest hscan e hrest ih => exact nomatch h
  | case4 p c cs rest stream' kind raw _ hscan hrest ih =>
    obtain rfl := Except.ok.inj h
    obtain ⟨happend, hne⟩ := Lexeme.scan_append hscan
    rw [← happend] at hp ⊢
    have hlater := ih hp.next hrest
    rw [← List.append_assoc]
    exact .token (hp.token kind) hne (Lexeme.scan_reads hscan) hlater
  | case5 p c cs lexeme rest hscan stream' hrest _ hnot ih =>
    obtain rfl := Except.ok.inj h
    obtain ⟨happend, -⟩ := Lexeme.scan_append hscan
    have hreads := Lexeme.scan_reads hscan
    rw [← happend] at hp ⊢
    rw [← List.append_assoc]
    cases lexeme with
    | blank d => exact ih (hp.blank hreads) hrest
    | comment raw doc => exact ih (hp.comment hreads) hrest
    | token kind raw => exact (hnot kind raw hscan rfl HEq.rfl).elim

theorem ofText_tiles {source : String} {stream : TokenStream} (h : ofText source = .ok stream) :
    Tiles [] source.toList stream.tokens stream.last :=
  scanFrom_tiles (.start _) h

end TokenStream

/-! ## Tilings in terms of slices -/

/-- Where a token sits in the source, the token before it ending at `stop`. The text between them is
white space and comments, the last documentation among them is the token's, and its line is one more
than the line breaks before it. -/
structure Token.Sits (source : String) (stop : Nat) (t : Token) : Prop where
  le_start : stop ≤ t.start
  skips : ∃ gap after docs, slice? source stop t.start = some gap ∧
    slice? source t.start source.utf8ByteSize = some after ∧ Skips after.toList gap.toList docs ∧
    t.doc = docs.getLast?.map String.ofList
  line : ∃ before, slice? source 0 t.start = some before ∧ t.line = 1 + before.toList.count '\n'

/-- A token of the source and the text it stands for. -/
structure Token.Covers (source : String) (t : Token) : Prop where
  kind_ne : t.kind ≠ .endOfFile
  start_lt : t.start < t.stop
  spells : ∃ raw, slice? source t.start t.stop = some raw ∧ t.kind.Spells raw.toList

private theorem slice?_ofList (before text after : List Char) :
    slice? (String.ofList (before ++ text ++ after)) (byteSize before) (byteSize (before ++ text)) =
      some (String.ofList text) := by
  rw [byteSize_append, String.ofList_append, String.ofList_append]
  exact slice?_append ..

namespace Token.Placed

variable {before gap raw after : List Char} {t : Token}

private theorem stop_eq (h : t.Placed before gap raw after) :
    t.stop = byteSize (before ++ gap ++ raw) := by
  rw [byteSize_append, ← h.start_eq, Token.stop, h.raw_eq, byteSize]

/-- A token that is placed sits there. -/
theorem sits (h : t.Placed before gap raw after) :
    t.Sits (String.ofList (before ++ gap ++ raw ++ after)) (byteSize before) := by
  obtain ⟨docs, hskips, hdoc⟩ := h.doc_eq
  -- The text splits before the gap, behind it and at its start.
  have hgap := slice?_ofList before gap (raw ++ after)
  have hafter := slice?_ofList (before ++ gap) (raw ++ after) []
  have hbefore := slice?_ofList [] (before ++ gap) (raw ++ after)
  rw [List.append_nil] at hafter
  rw [List.nil_append] at hbefore
  rw [← h.start_eq, ← List.append_assoc] at hgap hafter hbefore
  refine ⟨?_, ⟨_, _, docs, hgap, hafter, ?_, hdoc⟩, _, hbefore, ?_⟩
  · rw [h.start_eq, byteSize_append]
    exact Nat.le_add_right _ _
  · rwa [String.toList_ofList, String.toList_ofList]
  · rw [String.toList_ofList, h.line_eq]

/-- A placed token covers what it spells. -/
private theorem covers (h : t.Placed before gap raw after) (hne : raw ≠ [])
    (hspells : t.kind.Spells raw) :
    t.Covers (String.ofList (before ++ gap ++ raw ++ after)) := by
  have hraw := slice?_ofList (before ++ gap) raw after
  rw [← h.start_eq, ← h.stop_eq] at hraw
  refine ⟨fun hend => ?_, ?_, _, hraw, ?_⟩
  · rw [hend] at hspells
    exact hspells
  · rw [h.start_eq, h.stop_eq, byteSize_append _ raw]
    exact Nat.lt_add_of_pos_right (byteSize_pos hne)
  · rwa [String.toList_ofList]

end Token.Placed

theorem stop_getLast?_cons (t : Token) (tokens : List Token) (start : Nat) :
    ((t :: tokens).getLast?.map Token.stop).getD start =
      (tokens.getLast?.map Token.stop).getD t.stop := by
  rw [List.getLast?_cons]
  cases tokens.getLast? <;> rfl

namespace Tiles

variable {before text : List Char} {tokens : List Token} {last : Token}

theorem last_eq (h : Tiles before text tokens last) : last.kind = .endOfFile ∧
    last.start = byteSize (before ++ text) ∧ last.stop = byteSize (before ++ text) := by
  induction h with
  | last hplaced hkind =>
    refine ⟨hkind, hplaced.start_eq, ?_⟩
    rw [hplaced.stop_eq, List.append_nil]
  | token _ _ _ _ ih => rwa [← List.append_assoc, ← List.append_assoc]

/-- Every token of a tiling covers its part of the source. -/
theorem covers (h : Tiles before text tokens last) :
    ∀ t ∈ tokens, t.Covers (String.ofList (before ++ text)) := by
  induction h with
  | last => exact fun _ hmem => nomatch hmem
  | @token before gap raw text t last tokens hplaced hne hspells _ ih =>
    rw [← List.append_assoc, ← List.append_assoc]
    rintro u (_ | ⟨_, hmem⟩)
    · exact hplaced.covers hne hspells
    · exact ih u hmem

/-- Each token sits after the one before it, the first one after `before`. -/
theorem sits (h : Tiles before text tokens last) {front back : List Token} {t : Token}
    (hsplit : tokens ++ [last] = front ++ t :: back) :
    t.Sits (String.ofList (before ++ text))
      ((front.getLast?.map Token.stop).getD (byteSize before)) := by
  -- By induction on the tiling. Either this token is the first one, or it sits behind the first
  -- one's end.
  induction h generalizing front with
  | @last before gap last hplaced _ =>
    obtain ⟨rfl, rfl, -⟩ : front = [] ∧ t = last ∧ back = [] := by
      simpa [eq_comm, List.append_eq_singleton_iff] using hsplit
    have hsits := hplaced.sits
    rwa [List.append_nil, List.append_nil] at hsits
  | @token before gap raw text u last tokens hplaced hne hspells _ ih =>
    rw [← List.append_assoc, ← List.append_assoc]
    cases front with
    | nil =>
      obtain ⟨rfl, -⟩ := List.cons.inj hsplit
      exact hplaced.sits
    | cons v front =>
      obtain ⟨rfl, hrest⟩ := List.cons.inj hsplit
      have hsits := ih hrest
      rw [← hplaced.stop_eq] at hsits
      rwa [stop_getLast?_cons]

/-- A run of tokens, with the gaps before them, covers a piece of the text; the rest is tiled by the
tokens after them. -/
theorem run {run : List Token} (h : Tiles before text (run ++ tokens) last) :
    ∃ piece after, text = piece ++ after ∧ Tiles (before ++ piece) after tokens last ∧
      (run.getLast?.map Token.stop).getD (byteSize before) = byteSize (before ++ piece) ∧
      ∀ first, run.foldl (fun text t => text ++ t.gap ++ t.raw) first =
        first ++ String.ofList piece := by
  -- Token by token: each adds its gap and its text to the piece.
  induction run generalizing before text with
  | nil => exact ⟨[], text, rfl, by rwa [List.append_nil], by simp, by simp⟩
  | cons t run ih =>
    obtain _ | ⟨hplaced, hne, hspells, hlater⟩ := h
    next gap raw text =>
    obtain ⟨piece, after, rfl, htiles, hstop, hfold⟩ := ih hlater
    refine ⟨gap ++ raw ++ piece, after, by simp, ?_, ?_, fun first => ?_⟩
    · simpa using htiles
    · rw [← hplaced.stop_eq] at hstop
      rw [stop_getLast?_cons, ← List.append_assoc, ← List.append_assoc, ← hstop]
    · rw [List.foldl_cons, hfold, hplaced.gap_eq, hplaced.raw_eq]
      simp [String.ofList_append, String.append_assoc]

private theorem start_headD (h : Tiles before text tokens last) :
    ∃ gap after, text = gap ++ after ∧ (tokens.headD last).start = byteSize (before ++ gap) := by
  obtain ⟨hplaced, -⟩ | ⟨hplaced, -, -, -⟩ := h
  · exact ⟨text, [], by simp, hplaced.start_eq⟩
  · next gap raw text _ _ => exact ⟨gap, raw ++ text, by simp, hplaced.start_eq⟩

/-- The text of a run of tokens is the slice from the start of its first token to the end of its
last one. -/
theorem slice?_textOf {source : String} {front run back : List Token}
    (h : Tiles [] source.toList (front ++ (run ++ back)) last) :
    slice? source ((run ++ back).headD last).start
      ((run.getLast?.map Token.stop).getD ((run ++ back).headD last).start) =
        some (Token.textOf run) := by
  obtain ⟨before, text, hsource, hrun, -⟩ := h.run
  have hsource : source = String.ofList (before ++ text) := by rw [← hsource, String.ofList_toList]
  rw [List.nil_append] at hrun
  -- Without tokens the slice is empty; otherwise it starts behind the gap of the first one.
  cases run with
  | nil =>
    obtain ⟨gap, after, rfl, hstart⟩ := hrun.start_headD
    have hslice := slice?_ofList (before ++ gap) [] after
    rw [List.append_nil, List.append_assoc, ← hsource, ← hstart] at hslice
    exact hslice
  | cons t run =>
    cases hrun with
    | @token _ gap raw text _ _ _ hplaced _ _ hlater =>
      obtain ⟨piece, after, rfl, -, hstop, hfold⟩ := hlater.run
      have hslice := slice?_ofList (before ++ gap) (raw ++ piece) after
      have htext : Token.textOf (t :: run) = String.ofList (raw ++ piece) := by
        rw [Token.textOf, hfold, hplaced.raw_eq, String.ofList_append]
      rw [← List.append_assoc (before ++ gap), ← hstop, ← hplaced.start_eq, ← hplaced.stop_eq,
        ← htext, ← stop_getLast?_cons t run t.start] at hslice
      rw [hsource, List.cons_append, List.headD_cons]
      simpa only [List.append_assoc] using hslice

end Tiles

/-- The tokens of a source tile it: only the last one is the end of the file, at the end of the
source; every other one is a nonempty slice that stands for what the token is; and the text between
them is white space and comments. -/
theorem tokens_tile_source {source : String} {stream : TokenStream}
    (h : TokenStream.ofText source = .ok stream) :
    (stream.last.kind = .endOfFile ∧ stream.last.start = source.utf8ByteSize ∧
      stream.last.stop = source.utf8ByteSize) ∧
    (∀ t ∈ stream.tokens, t.Covers source) ∧
    ∀ front t back, stream.all = front ++ t :: back →
      t.Sits source ((front.getLast?.map Token.stop).getD 0) := by
  have htiles := TokenStream.ofText_tiles h
  -- The tiling starts with nothing in front of the text.
  have hsource : String.ofList ([] ++ source.toList) = source := String.ofList_toList
  refine ⟨?_, ?_, fun front t back hsplit => ?_⟩
  · have hlast := htiles.last_eq
    rwa [byteSize, hsource] at hlast
  · rw [← hsource]
    exact htiles.covers
  · have hsits := htiles.sits hsplit
    rwa [hsource] at hsits

/-- Documentation comments, a line comment, a letter of two bytes, an escape, a number with an
underscore and a template. -/
theorem letter_tokens_tile :
    let source := "/** a\n*/ /**b*/ // c\n é '\\u\x7b41\x7d' 1_0 \x60x\x60"
    ∃ stream, TokenStream.ofText source = .ok stream ∧
      (stream.all.map Token.kind =
          [.word "é", .string "A", .number "10", .template "x", .endOfFile] ∧
        stream.all.map Token.start = [22, 25, 34, 38, 41] ∧
        stream.all.map Token.line = [3, 3, 3, 3, 3] ∧
        stream.all.map Token.doc = [some "b", none, none, none, none]) ∧
      (∀ t ∈ stream.tokens, t.Covers source) ∧
      ∀ front t back, stream.all = front ++ t :: back →
        t.Sits source ((front.getLast?.map Token.stop).getD 0) := by
  suffices hfacts : _ from
    let ⟨stream, hrun, hcolumns⟩ := Except.exists_ok_of_any hfacts
    ⟨stream, hrun, hcolumns, (tokens_tile_source hrun).2⟩
  decide +kernel

end Endpoints
