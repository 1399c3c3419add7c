import Endpoints.Proofs.Tiling
import Endpoints.Syntax.Brackets
import Mathlib.Order.Basic
import Mathlib.Tactic.Order

/-!
# Watched parsers

Parsers run in any monad that has their operations. In `Watched` every operation that could go wrong
is checked: a routine must not start again before a token has been passed, the cursor stays in the
stream, texts are slices of the source, and no bracket is closed that is not open. What a watched
run must not do is a `Breach`.

`Safe` says of a parser that its watched run has no breach and gives what the plain run gives, and
that the bound is not used up. Its rules follow the operations of parsers. `Ready` is what a routine
needs to be safe: a bound that is large enough for the tokens that are left, and no routine under
way that could be started again.

## Key results

- `Watched`: the monad of watched runs
- `Cursor.lt_iff`: cursors are ordered by what is left
- `Safe.bind`, `Safe.enter`: the two rules that carry the others
- `Safe.scan`: skipping never closes a bracket that is not open
-/

namespace Endpoints

open MonadParser

/-! ## Watched runs -/

/-- What a parser must not do. -/
inductive Breach where
  /-- A routine starts again, and no token has been passed since it started. -/
  | repeated (routine : Routine)
  /-- The cursor leaves the stream. -/
  | strayed
  /-- A text is no slice of the source. -/
  | unsliced
  /-- A bracket is closed that is not open. -/
  | unopened
deriving DecidableEq, Repr

/-- What a run is checked against. -/
structure Watch where
  source : String
  stream : TokenStream
  /-- The routines that are under way, with the number of tokens that were left at their start. -/
  active : List (Routine × Nat)

/-- The routine is under way, too. -/
def Watch.push (w : Watch) (routine : Routine) (c : Cursor) : Watch :=
  { w with active := (routine, c.rest.length) :: w.active }

/-- The position after the last token between two cursors. -/
def Cursor.stopAt (start stop : Cursor) : Nat :=
  ((start.upTo stop).getLast?.map Token.stop).getD start.head.start

/-- A parser whose operations are checked. -/
def Watched (α : Type) := Watch → Cursor → Except Breach (Except SyntaxError (α × Cursor))

/-- The outcome of a watched run. -/
def Watched.run {α : Type} (x : Watched α) (w : Watch) (c : Cursor) :
    Except Breach (Except SyntaxError (α × Cursor)) := x w c

instance : MonadParser Watched where
  pure a := fun _ c => .ok (.ok (a, c))
  bind x f := fun w c =>
    match x.run w c with
    | .ok (.ok (a, c')) => (f a).run w c'
    | .ok (.error e) => .ok (.error e)
    | .error breach => .error breach
  cursor := fun _ c => .ok (.ok (c, c))
  moveTo c := fun w _ =>
    if c.rest <:+ w.stream.tokens ∧ c.last = w.stream.last then .ok (.ok ((), c))
    else .error .strayed
  reject e := fun _ _ => .ok (.error e)
  enter routine x := fun w c =>
    if ∃ start ∈ w.active, start.1 = routine ∧ start.2 ≤ c.rest.length then
      .error (.repeated routine)
    else
      x.run (w.push routine c) c
  textBetween start stop := fun w c =>
    match slice? w.source start.head.start (start.stopAt stop) with
    | some text => .ok (.ok (text, c))
    | none => .error .unsliced
  lower depth := fun _ c =>
    match depth with
    | depth + 1 => .ok (.ok (depth, c))
    | 0 => .error .unopened

/-! ## Cursors in order -/

namespace Cursor

/-- A cursor is below another one if it is reached from there by passing tokens. -/
instance : Preorder Cursor where
  le c d := c.rest <:+ d.rest ∧ c.last = d.last
  le_refl _ := ⟨List.suffix_refl _, rfl⟩
  le_trans _ _ _ h h' := ⟨h.1.trans h'.1, h.2.trans h'.2⟩

variable {c d : Cursor}

private theorem length_le (h : c ≤ d) : c.rest.length ≤ d.rest.length := h.1.length_le

theorem lt_iff : c < d ↔ c ≤ d ∧ c.rest.length < d.rest.length := by
  -- A suffix of the same length is the whole list.
  refine ⟨fun h => ⟨h.le, ?_⟩, fun ⟨hle, hlt⟩ => ⟨hle, fun hge => ?_⟩⟩
  · refine lt_of_le_of_ne (length_le h.le) fun heq => h.2 ⟨?_, h.1.2.symm⟩
    rw [h.1.1.eq_of_length heq]
  · exact absurd (length_le hge) (Nat.not_le.2 hlt)

theorem next_le (c : Cursor) : c.next ≤ c := ⟨List.tail_suffix _, rfl⟩

theorem next_lt_of_le (hle : d ≤ c) (hlt : c.next < c) : d.next < c := by
  rcases (length_le hle).lt_or_eq with hlength | hlength
  · exact d.next_le.trans_lt (lt_iff.2 ⟨hle, hlength⟩)
  · have hrest : d.rest = c.rest := hle.1.eq_of_length hlength
    have hsame : d.next ≤ c.next := ⟨by rw [next, next, hrest], hle.2⟩
    exact hsame.trans_lt hlt

private theorem next_lt (h : c.rest ≠ []) : c.next < c := by
  refine lt_iff.2 ⟨next_le c, ?_⟩
  rw [next, List.length_tail]
  exact Nat.sub_lt (List.length_pos_iff.2 h) Nat.one_pos

@[simp] theorem ahead_zero (c : Cursor) : c.ahead 0 = c.head := by
  cases hrest : c.rest <;> simp [ahead, head, hrest]

theorem kind_of_isMark {mark : Punct} (h : c.isMark mark = true) : c.head.kind = .punct mark := by
  rwa [isMark, ahead_zero, beq_iff_eq] at h

theorem kind_of_word? {text : String} (h : c.word? = some text) : c.head.kind = .word text := by
  rw [word?, ahead_zero] at h
  split at h
  · next hkind => rw [hkind, Option.some.inj h]
  · exact nomatch h

private theorem kind_of_isWord {text : String} (h : c.isWord text = true) :
    c.head.kind = .word text :=
  kind_of_word? (by rwa [isWord, beq_iff_eq] at h)

end Cursor

/-- The tokens of the stream tile the source, and the cursor is at one of them. -/
structure Watch.Has (w : Watch) (c : Cursor) : Prop where
  tiles : Tiles [] w.source.toList w.stream.tokens w.stream.last
  le_first : c ≤ w.stream.cursor

namespace Watch.Has

variable {w : Watch} {c d : Cursor}

theorem of_le (h : w.Has d) (hle : c ≤ d) : w.Has c := ⟨h.tiles, hle.trans h.le_first⟩

theorem push (h : w.Has c) {routine : Routine} : (w.push routine d).Has c :=
  ⟨h.tiles, h.le_first⟩

private theorem kind_ne (h : w.Has c) {t : Token} (ht : t ∈ c.rest) : t.kind ≠ .endOfFile :=
  (h.tiles.covers t (h.le_first.1.mem ht)).kind_ne

theorem next_lt (h : w.Has c) (hkind : c.head.kind ≠ .endOfFile) : c.next < c := by
  refine Cursor.next_lt fun hnil => hkind ?_
  rw [Cursor.head, hnil, List.headD_nil, h.le_first.2]
  exact h.tiles.last_eq.1

theorem next_lt_of_isMark {mark : Punct} (h : w.Has c) (hmark : c.isMark mark = true) :
    c.next < c :=
  h.next_lt (by rw [Cursor.kind_of_isMark hmark]; exact nofun)

theorem next_lt_of_isWord {text : String} (h : w.Has c) (hword : c.isWord text = true) :
    c.next < c :=
  h.next_lt (by rw [Cursor.kind_of_isWord hword]; exact nofun)

theorem next_lt_of_not_atEnd (h : w.Has c) (hend : ¬c.atEnd = true) : c.next < c :=
  h.next_lt fun hkind => hend (by rw [Cursor.atEnd, hkind]; rfl)

/-- A text between two cursors is the slice between their positions. -/
theorem slice? (h : w.Has d) (hle : c ≤ d) :
    Endpoints.slice? w.source d.head.start (d.stopAt c) = some (Token.textOf (d.upTo c)) := by
  obtain ⟨front, hfront⟩ := h.le_first.1
  obtain ⟨run, hrun⟩ := hle.1
  have htiles := h.tiles
  have hlast : d.last = w.stream.last := h.le_first.2
  -- The tokens fall into those before the first cursor, those between the two, and the others.
  have hup : d.upTo c = run := by simp [Cursor.upTo, ← hrun]
  have hhead : d.head = (run ++ c.rest).headD w.stream.last := by rw [Cursor.head, hlast, hrun]
  rw [show w.stream.tokens = front ++ (run ++ c.rest) by rw [hrun]; exact hfront.symm] at htiles
  rw [Cursor.stopAt, hup, hhead]
  exact htiles.slice?_textOf

end Watch.Has

/-! ## Safe parsers -/

/-- From the cursor `c` the watched run `x` has no breach and gives what the plain run `y` gives;
the bound is not used up; and the value and the cursor it ends with are as `post` says. -/
def Safe {α : Type} (w : Watch) (c : Cursor) (post : α → Cursor → Prop) (x : Watched α)
    (y : Parser α) : Prop :=
  w.Has c → x.run w c = .ok (y.run c) ∧
    match y.run c with
    | .ok (a, c') => w.Has c' ∧ post a c'
    | .error e => e.fault ≠ .unbounded

namespace Safe

variable {α β : Type} {w : Watch} {c d : Cursor} {post : α → Cursor → Prop}
  {post' : β → Cursor → Prop} {x x' : Watched α} {y y' : Parser α} {f : α → Watched β}
  {g : α → Parser β}

theorem pure {a : α} (h : post a c) : Safe w c post (pure a) (pure a) :=
  fun hc => ⟨rfl, hc, h⟩

/-- A sequence is safe part by part. The second part starts at a cursor that satisfies the first
condition. -/
theorem bind (hx : Safe w c post x y)
    (hf : ∀ a c', post a c' → Safe w c' post' (f a) (g a)) :
    Safe w c post' (x >>= f) (y >>= g) := by
  intro hc
  obtain ⟨heq, hend⟩ := hx hc
  have hxf : (x >>= f).run w c = match x.run w c with
    | .ok (.ok (a, c')) => (f a).run w c'
    | .ok (.error e) => .ok (.error e)
    | .error breach => .error breach := rfl
  have hyg : (y >>= g).run c = match y.run c with
    | .ok (a, c') => (g a).run c'
    | .error e => .error e := rfl
  rw [hxf, hyg, heq]
  -- The first part ends in an error, or at a cursor from which the second one is safe.
  cases hy : y.run c with
  | error e =>
    rw [hy] at hend
    exact ⟨rfl, hend⟩
  | ok r =>
    obtain ⟨a, c'⟩ := r
    rw [hy] at hend
    exact hf a c' hend.2 hend.1

/-- A weaker condition will do. -/
theorem mono {post' : α → Cursor → Prop} (hx : Safe w c post x y)
    (hpost : ∀ a c', post a c' → post' a c') : Safe w c post' x y := by
  intro hc
  obtain ⟨heq, hend⟩ := hx hc
  refine ⟨heq, ?_⟩
  cases hy : y.run c with
  | error e =>
    rw [hy] at hend
    exact hend
  | ok r =>
    rw [hy] at hend
    exact ⟨hend.1, hpost _ _ hend.2⟩

/-- A condition that both runs ask for is decided in the same way. -/
theorem ite {p : Prop} [Decidable p] (ht : p → Safe w c post x y)
    (hf : ¬p → Safe w c post x' y') :
    Safe w c post (if p then x else x') (if p then y else y') := by
  by_cases h : p
  · rw [if_pos h, if_pos h]
    exact ht h
  · rw [if_neg h, if_neg h]
    exact hf h

/-! ### The operations -/

theorem cursor {f : Cursor → Watched β} {g : Cursor → Parser β}
    (h : w.Has c → Safe w c post' (f c) (g c)) : Safe w c post' (cursor >>= f) (cursor >>= g) :=
  fun hc => h hc hc

theorem moveTo (hd : w.Has d) : Safe w c (fun _ c' => c' = d) (moveTo d) (moveTo d) :=
  fun _ => ⟨if_pos hd.le_first, hd, rfl⟩

private theorem reject {e : SyntaxError} (h : e.fault ≠ .unbounded) :
    Safe w c post (reject e) (reject e) :=
  fun _ => ⟨rfl, h⟩

/-- A text is safe between two cursors of the stream. -/
private theorem textBetween {start stop : Cursor} (hstart : w.Has start) (hle : stop ≤ start) :
    Safe w c (fun _ c' => c' = c) (textBetween start stop) (textBetween start stop) := by
  intro hc
  have hrun : (MonadParser.textBetween start stop : Watched String).run w c =
    match slice? w.source start.head.start (start.stopAt stop) with
    | some text => .ok (.ok (text, c))
    | none => .error .unsliced := rfl
  rw [hrun, hstart.slice? hle]
  exact ⟨rfl, hc, rfl⟩

private theorem lower (depth : Nat) :
    Safe w c (fun a c' => a = depth ∧ c' = c) (lower (depth + 1)) (lower (depth + 1)) :=
  fun hc => ⟨rfl, hc, rfl, rfl⟩

/-! ### Small parsers -/

theorem discard {Q : Cursor → Prop} (h : Safe w c (fun _ c' => Q c') x y) :
    Safe w c (fun _ c' => Q c') (discard x) (discard y) :=
  h.bind fun _ _ hc' => pure hc'

theorem fail (what : Expected) : Safe w c post (Parser.fail what) (Parser.fail what) := by
  refine .cursor fun hc => .ite (fun _ => .reject nofun) fun _ => ?_
  exact (Safe.textBetween hc c.next_le).bind fun _ _ _ => .reject nofun

theorem advance :
    Safe w c (fun t c' => t = c.head ∧ c' = c.next) Parser.advance Parser.advance := by
  refine .cursor fun hc => ?_
  exact (Safe.moveTo (hc.of_le c.next_le)).bind fun _ _ hd => .pure ⟨rfl, hd⟩

theorem discard_advance : Safe w c (fun _ c' => c' ≤ c) (Functor.discard Parser.advance)
    (Functor.discard Parser.advance) :=
  .discard (advance.mono fun _ _ h => h.2 ▸ c.next_le)

theorem discard_advance_lt (hlt : c.next < c) :
    Safe w c (fun _ c' => c' < c) (Functor.discard Parser.advance)
      (Functor.discard Parser.advance) :=
  .discard (advance.mono fun _ _ h => h.2 ▸ hlt)

theorem advanceIf (condition : Bool) :
    Safe w c (fun _ c' => c' ≤ c) (Parser.advanceIf condition) (Parser.advanceIf condition) :=
  .ite (fun _ => discard_advance) fun _ => .pure le_rfl

section Conditions

variable {p q : Watched β} {p' q' : Parser β}

/-- A parser that goes on in one way if the mark is there and in another way if not. -/
theorem eat_ite {mark : Punct} (hyes : c.next < c → Safe w c.next post' p p')
    (hno : c.isMark mark = false → Safe w c post' q q') :
    Safe w c post' (Parser.eat mark >>= fun ate => if ate = true then p else q)
      (Parser.eat mark >>= fun ate => if ate = true then p' else q') := by
  -- Either the mark is passed or nothing happened.
  have heat : Safe w c (fun ate c' => if ate = true then c' = c.next ∧ c.next < c
      else c' = c ∧ c.isMark mark = false) (Parser.eat mark) (Parser.eat mark) := by
    refine .cursor fun hc => .ite (fun hmark => ?_) fun hmark => ?_
    · exact (Safe.moveTo (hc.of_le c.next_le)).bind fun _ _ hd =>
        .pure ⟨hd, hc.next_lt_of_isMark hmark⟩
    · exact .pure ⟨rfl, by simpa using hmark⟩
  refine heat.bind fun ate c' h => ?_
  cases ate with
  | true => exact h.1 ▸ hyes h.2
  | false => exact h.1 ▸ hno h.2

/-- A parser that goes on in one way if the word is there and in another way if not. -/
theorem eatWord_ite {text : String} (hyes : c.next < c → Safe w c.next post' p p')
    (hno : Safe w c post' q q') :
    Safe w c post' (Parser.eatWord text >>= fun ate => if ate = true then p else q)
      (Parser.eatWord text >>= fun ate => if ate = true then p' else q') := by
  have heat : Safe w c (fun ate c' => if ate = true then c' = c.next ∧ c.next < c
      else c' = c) (Parser.eatWord text) (Parser.eatWord text) := by
    refine .cursor fun hc => .ite (fun hword => ?_) fun _ => .pure rfl
    exact (Safe.moveTo (hc.of_le c.next_le)).bind fun _ _ hd =>
      .pure ⟨hd, hc.next_lt_of_isWord hword⟩
  refine heat.bind fun ate c' h => ?_
  cases ate with
  | true => exact h.1 ▸ hyes h.2
  | false => exact h ▸ hno

end Conditions

theorem eat (mark : Punct) :
    Safe w c (fun _ c' => c' ≤ c) (Parser.eat mark) (Parser.eat mark) := by
  refine .cursor fun hc => .ite (fun _ => ?_) fun _ => .pure le_rfl
  exact (Safe.moveTo (hc.of_le c.next_le)).bind fun _ _ hd => .pure (hd ▸ c.next_le)

theorem expect (mark : Punct) :
    Safe w c (fun _ c' => c' < c) (Parser.expect mark) (Parser.expect mark) :=
  .eat_ite (fun hlt => .pure hlt) fun _ => .fail _

theorem expectMore (what : Expected) :
    Safe w c (fun _ c' => c' = c ∧ c.atEnd = false) (Parser.expectMore what)
      (Parser.expectMore what) :=
  .cursor fun _ => .ite (fun _ => .fail _) fun hmore => .pure ⟨rfl, by simpa using hmore⟩

theorem identifier : Safe w c (fun _ c' => c' < c) Parser.identifier Parser.identifier := by
  refine .cursor fun hc => ?_
  cases hword : c.word? with
  | none => exact .fail _
  | some text =>
    have hlt : c.next < c := hc.next_lt (by rw [Cursor.kind_of_word? hword]; exact nofun)
    exact (Safe.moveTo (hc.of_le c.next_le)).bind fun _ _ hd => .pure (hd ▸ hlt)

theorem memberName : Safe w c (fun _ c' => c' < c) Parser.memberName Parser.memberName := by
  refine .cursor fun hc => ?_
  cases hname : Parser.nameOf? c.head.kind with
  | none => exact .fail _
  | some name =>
    have hlt : c.next < c := hc.next_lt fun hend => by simp [hend, Parser.nameOf?] at hname
    exact (Safe.moveTo (hc.of_le c.next_le)).bind fun _ _ hd => .pure (hd ▸ hlt)

theorem doc : Safe w c (fun _ c' => c' = c) Parser.doc Parser.doc :=
  .cursor fun _ => .pure rfl

theorem textSince {start : Cursor} (hstart : w.Has start) (hle : c ≤ start) :
    Safe w c (fun _ c' => c' = c) (Parser.textSince start) (Parser.textSince start) :=
  .cursor fun _ => .textBetween hstart hle

theorem afterMark? {mark : Punct} (h : c.next < c → Safe w c.next (fun _ c' => c' ≤ c) x y) :
    Safe w c (fun _ c' => c' ≤ c) (Parser.afterMark? mark x) (Parser.afterMark? mark y) :=
  .eat_ite (fun hlt => (h hlt).bind fun _ _ hle => .pure hle) fun _ => .pure le_rfl

theorem afterWord? {text : String} (h : c.next < c → Safe w c.next (fun _ c' => c' ≤ c) x y) :
    Safe w c (fun _ c' => c' ≤ c) (Parser.afterWord? text x) (Parser.afterWord? text y) :=
  .eatWord_ite (fun hlt => (h hlt).bind fun _ _ hle => .pure hle) (.pure le_rfl)

end Safe

/-! ## Routines -/

/-- How many routines a routine may start, one inside the other, before a token has to be passed. -/
def Routine.rank : Routine → Nat
  | commaList => 7
  | returnType | tupleElement => 6
  | typeExpr => 5
  | unionType => 4
  | intersectionType | typeMembersRest => 3
  | postfixType | typeMember | arrayItems | statements => 2
  | primaryType | functionHead | typeParameter | signatureRest | expression | classMembers
  | statement => 1
  | _ => 0

/-- At `c` a routine of a rank below `level` can start: the routines that are under way started
before more tokens, or have at least this rank; and the bounds of both runs are large enough for the
tokens that are left. -/
structure Ready (w : Watch) (c : Cursor) (level b b' : Nat) : Prop where
  active : ∀ start ∈ w.active,
    c.rest.length < start.2 ∨ c.rest.length ≤ start.2 ∧ level ≤ start.1.rank
  le_left : 8 * c.rest.length + level ≤ b
  le_right : 8 * c.rest.length + level ≤ b'

namespace Ready

variable {w : Watch} {c d : Cursor} {level level' b b' : Nat}

/-- A routine of lower rank can start at the same cursor or later. -/
theorem of_le (h : Ready w c level b b') (hd : d ≤ c) (hlevel : decide (level' ≤ level)) :
    Ready w d level' b b' := by
  have hlevel := of_decide_eq_true hlevel
  have hlength := Cursor.length_le hd
  obtain ⟨hactive, hleft, hright⟩ := h
  refine ⟨fun start hstart => ?_, by omega, by omega⟩
  have hstart := hactive start hstart
  omega

/-- After a token every routine can start. -/
theorem of_lt (h : Ready w c level b b') (hd : d < c) (hlevel : decide (level' ≤ 8)) :
    Ready w d level' b b' := by
  have hlevel := of_decide_eq_true hlevel
  have hlength := (Cursor.lt_iff.1 hd).2
  obtain ⟨hactive, hleft, hright⟩ := h
  refine ⟨fun start hstart => ?_, by omega, by omega⟩
  have hstart := hactive start hstart
  omega

theorem withBounds {w' : Watch} {s s' : Nat} (h : Ready w c level s s')
    (hb : Ready w' c level b b') : Ready w c level b b' :=
  ⟨h.active, hb.le_left, hb.le_right⟩

theorem pred {P : Nat → Prop} (h : Ready w c (level + 1) b b') (ih : ∀ a < b, P a) :
    ∃ a a', b = a + 1 ∧ b' = a' + 1 ∧ P a := by
  obtain ⟨-, hleft, hright⟩ := h
  exact ⟨b - 1, b' - 1, by omega, by omega, ih (b - 1) (by omega)⟩

end Ready

/-- A routine that is ready to start has not been started at this place, and inside it the routines
of lower rank are ready. -/
theorem Safe.enter {α : Type} {w : Watch} {c : Cursor} {post : α → Cursor → Prop} {x : Watched α}
    {y : Parser α} {routine : Routine} {b b' : Nat}
    (h : Ready w c (routine.rank + 1) (b + 1) (b' + 1))
    (hbody : Ready (w.push routine c) c routine.rank b b' → Safe (w.push routine c) c post x y) :
    Safe w c post (enter routine x) (enter routine y) := by
  intro hc
  obtain ⟨hactive, hleft, hright⟩ := h
  -- A routine under way of this name would have a rank below its own level, or would have started
  -- before more tokens.
  have hfresh : ¬∃ start ∈ w.active, start.1 = routine ∧ start.2 ≤ c.rest.length := by
    rintro ⟨start, hstart, rfl, hle⟩
    have hstart := hactive start hstart
    omega
  have hready : Ready (w.push routine c) c routine.rank b b' := by
    refine ⟨fun start hstart => ?_, by omega, by omega⟩
    rcases List.mem_cons.1 hstart with rfl | hstart
    · exact .inr ⟨le_rfl, le_rfl⟩
    · have hstart := hactive start hstart
      omega
  obtain ⟨heq, hend⟩ := hbody hready ⟨hc.tiles, hc.le_first⟩
  refine ⟨(if_neg hfresh).trans heq, ?_⟩
  have hplain : (MonadParser.enter routine y : Parser α).run c = y.run c := rfl
  rw [hplain]
  cases hy : y.run c with
  | error e =>
    rw [hy] at hend
    exact hend
  | ok r =>
    rw [hy] at hend
    exact ⟨⟨hend.1.tiles, hend.1.le_first⟩, hend.2⟩

/-! ### Parsers with a bound -/

/-- A parser that takes a bound. -/
abbrev BoundedParser (α : Type) : Type 1 :=
  ∀ {m : Type → Type} [MonadParser m], Nat → m α

section Bounded

variable {α : Type} {p : BoundedParser α} {level level' b : Nat}

/-- With the bound `b`, and any other bound that is large enough, the parser does not move back. -/
def Keeps (level b : Nat) (p : BoundedParser α) : Prop :=
  ∀ ⦃w c b'⦄, Ready w c level b b' → Safe w c (fun _ c' => c' ≤ c) (p b) (p b')

/-- With the bound `b`, and any other bound that is large enough, the parser passes a token. -/
def Consumes (level b : Nat) (p : BoundedParser α) : Prop :=
  ∀ ⦃w c b'⦄, Ready w c level b b' → Safe w c (fun _ c' => c' < c) (p b) (p b')

theorem Keeps.raise (hp : Keeps level b p) (hlevel : decide (level ≤ level')) :
    Keeps level' b p :=
  fun _ _ _ h => hp (h.of_le le_rfl hlevel)

theorem Consumes.raise (hp : Consumes level b p) (hlevel : decide (level ≤ level')) :
    Consumes level' b p :=
  fun _ _ _ h => hp (h.of_le le_rfl hlevel)

theorem Consumes.keeps (hp : Consumes level b p) (hlevel : decide (level ≤ level')) :
    Keeps level' b p :=
  fun _ _ _ h => (hp (h.of_le le_rfl hlevel)).mono fun _ _ hlt => hlt.le

end Bounded

namespace Safe

variable {α : Type} {w : Watch} {c : Cursor}

/-! ## Skipping -/

section Skipping

open Brackets

variable {judge : Judge}

/-- A judge that closes no bracket where none is open never makes the depth negative. What `scan`
leaves is a suffix of the tokens, a proper one if skipping does not end before the first of them. -/
theorem scan (hjudge : ∀ previous token next, judge previous 0 token next ≠ .closes)
    (previous : Option TokenKind) (depth : Nat) (tokens : List Token) :
    Safe w c (fun rest c' => c' = c ∧ rest <:+ tokens ∧
      ((∀ token ∈ tokens.head?, ∀ next, judge previous depth token next ≠ .before) →
        rest <:+ tokens.tail))
      (Parser.scan judge previous depth tokens) (Parser.scan judge previous depth tokens) := by
  induction tokens generalizing previous depth with
  | nil => exact .pure ⟨rfl, List.suffix_refl _, fun _ => List.suffix_refl _⟩
  | cons token tokens ih =>
    -- Passing the token leaves at most what stands after it.
    have hpass : ∀ depth', Safe w c (fun rest c' => c' = c ∧ rest <:+ token :: tokens ∧
        ((∀ t ∈ (token :: tokens).head?, ∀ next, judge previous depth t next ≠ .before) →
          rest <:+ tokens))
        (Parser.scan judge (some token.kind) depth' tokens)
        (Parser.scan judge (some token.kind) depth' tokens) := fun depth' =>
      (ih (some token.kind) depth').mono fun rest _ ⟨hc, hrest, _⟩ =>
        ⟨hc, hrest.trans (List.suffix_cons _ _), fun _ => hrest⟩
    unfold Parser.scan
    cases hverdict : judge previous depth token tokens.head? with
    | pass => exact hpass depth
    | opens => exact hpass (depth + 1)
    | closes =>
      cases depth with
      | zero => exact absurd hverdict (hjudge _ _ _)
      | succ depth =>
        refine (Safe.lower depth).bind fun depth' c' ⟨_, hc⟩ => ?_
        exact hc ▸ hpass depth'
    | before =>
      exact .pure ⟨rfl, List.suffix_refl _, fun hnot => absurd hverdict (hnot token rfl _)⟩
    | after => exact .pure ⟨rfl, List.suffix_cons _ _, fun _ => List.suffix_refl _⟩

/-- `skip` goes to a later cursor, past the first token unless skipping ends before it. -/
private theorem skip (hjudge : ∀ previous token next, judge previous 0 token next ≠ .closes)
    (depth : Nat) :
    Safe w c (fun _ c' => c' ≤ c ∧
      ((∀ token ∈ c.rest.head?, ∀ next, judge none depth token next ≠ .before) → c' ≤ c.next))
      (Parser.skip judge depth) (Parser.skip judge depth) := by
  refine .cursor fun hc => (Safe.scan hjudge none depth c.rest).bind ?_
  rintro rest c' ⟨hsame, hrest, hfirst⟩
  subst c'
  have hle : (⟨rest, c.last⟩ : Cursor) ≤ c := ⟨hrest, rfl⟩
  refine (Safe.moveTo (hc.of_le hle)).mono fun _ c' hc' => ?_
  exact hc' ▸ ⟨hle, fun hnot => ⟨hfirst hnot, rfl⟩⟩

/-- `skipGroup` takes at least one token, since none that is left ends the file. -/
theorem skipGroup :
    Safe w c (fun _ c' => c' ≤ c.next) Parser.skipGroup Parser.skipGroup := by
  intro hc
  have hclose : ∀ previous token next, group previous 0 token next ≠ .closes := by grind [group]
  have hfirst : ∀ token ∈ c.rest.head?, ∀ next, group none 0 token next ≠ .before := by
    intro token htoken
    have hkind := hc.kind_ne (List.mem_of_head? htoken)
    grind [group]
  exact (Safe.skip hclose 0).mono (fun _ _ h => h.2 hfirst) hc

private theorem passBody_suffix (last : Token) (depth : Nat) (returns : Bool)
    (tokens : List Token) : (passBody last depth returns tokens).2 <:+ tokens := by
  fun_induction passBody last depth returns tokens with
  | case1 | case2 => exact List.suffix_refl _
  | case4 => exact List.suffix_cons _ _
  | case3 _ _ _ _ _ _ _ ih | case5 _ _ _ _ _ _ _ _ _ ih | case6 _ _ _ _ _ _ _ _ ih
  | case7 _ _ _ _ _ _ _ ih | case8 _ _ _ _ _ _ _ ih => exact ih.trans (List.suffix_cons _ _)

/-- It is a proper one unless the file ends at the first of them. -/
private theorem passBody_suffix_tail {last : Token} {depth : Nat} {returns : Bool}
    {tokens : List Token} (h : ∀ token ∈ tokens.head?, token.kind ≠ .endOfFile) :
    (passBody last depth returns tokens).2 <:+ tokens.tail := by
  cases tokens with
  | nil => exact List.suffix_refl _
  | cons token tokens =>
    rw [passBody]
    split
    · next hkind => exact absurd hkind (h token rfl)
    · split_ifs
      · exact passBody_suffix ..
      · exact List.suffix_refl _
      · exact passBody_suffix ..
      · exact passBody_suffix ..
    · exact passBody_suffix ..
    · exact passBody_suffix ..

/-- `skipBody` takes at least one token. -/
theorem skipBody :
    Safe w c (fun _ c' => c' ≤ c.next) Parser.skipBody Parser.skipBody := by
  refine .cursor fun hc => ?_
  have hfirst : ∀ token ∈ c.rest.head?, token.kind ≠ .endOfFile := fun token htoken =>
    hc.kind_ne (List.mem_of_head? htoken)
  have hle : (⟨(passBody c.last 0 false c.rest).2, c.last⟩ : Cursor) ≤ c.next :=
    ⟨passBody_suffix_tail hfirst, rfl⟩
  refine (Safe.moveTo (hc.of_le (hle.trans c.next_le))).bind fun _ c' hc' => .pure ?_
  exact hc' ▸ hle

theorem skipParens : Safe w c (fun _ c' => c' ≤ c ∧ (c.isMark .leftParen = true → c' < c))
    Parser.skipParens Parser.skipParens := by
  refine .cursor fun hc => .ite (fun hmark => ?_) fun hmark => .pure ⟨le_rfl, (absurd · hmark)⟩
  have hlt := hc.next_lt_of_isMark hmark
  exact Safe.skipGroup.mono fun _ _ h => ⟨h.trans c.next_le, fun _ => h.trans_lt hlt⟩

theorem skipStatement :
    Safe w c (fun _ c' => c' ≤ c.next) Parser.skipStatement Parser.skipStatement := by
  have hclose : ∀ previous token next, statement previous 0 token next ≠ .closes := by
    grind [statement]
  have hfirst : ∀ token ∈ c.rest.head?, ∀ next, statement none 0 token next ≠ .before := by
    grind [statement, startsLine]
  exact (Safe.skip hclose 0).mono fun _ _ h => h.2 hfirst

theorem skipTypeLiteral :
    Safe w c (fun _ c' => c' ≤ c) Parser.skipTypeLiteral Parser.skipTypeLiteral := by
  have hclose : ∀ previous token next, typeLiteral previous 0 token next ≠ .closes := by
    grind [typeLiteral]
  exact (Safe.skip hclose 1).mono fun _ _ h => h.1

theorem rawText (lineEnds : Bool) :
    Safe w c (fun _ c' => c' ≤ c) (Parser.rawText lineEnds) (Parser.rawText lineEnds) := by
  have hclose : ∀ previous token next, rawExpression lineEnds previous 0 token next ≠ .closes := by
    grind [rawExpression]
  refine .cursor fun hc => (Safe.skip hclose 0).bind fun _ c' h => ?_
  exact (Safe.textSince hc h.1).mono fun _ _ hsame => hsame ▸ h.1

theorem startsFunction :
    Safe w c (fun _ c' => c' = c) Parser.startsFunction Parser.startsFunction :=
  .cursor fun _ => .pure rfl

end Skipping

/-! ## Repeated parts -/

section Repetition

variable {b b' s s' : Nat} {part : BoundedParser α}

/-- The loop of `commaList`, whose steps are counted apart from the bound of its parts. -/
private theorem commaList_go {close : Punct} (hpart : Keeps 7 b part) (h : Ready w c 8 s s')
    (hb : Ready w c 7 b b') :
    Safe w c (fun _ c' => c' ≤ c) (Parser.commaList close (part b) s)
      (Parser.commaList close (part b') s') := by
  -- By induction on the bound of the list. The bound of the parts is another one and stays the
  -- same.
  induction s using Nat.strong_induction_on generalizing s' w c with
  | _ s ih =>
    obtain ⟨s, s', rfl, rfl, ih⟩ := h.pred ih
    unfold Parser.commaList
    refine .enter h fun h => .cursor fun _ => .ite (fun _ => .pure le_rfl) fun _ => ?_
    have hb' := h.withBounds hb
    refine (hpart hb').bind fun first c₁ h₁ => .eat_ite (fun hlt => ?_) fun _ => .pure h₁
    have hlt₁ : c₁.next < c := hlt.trans_le h₁
    refine (ih (h.of_lt hlt₁ rfl) (hb'.of_lt hlt₁ rfl)).bind ?_
    exact fun rest c₂ h₂ => .pure (h₂.trans hlt₁.le)

/-- A list of parts is safe if the parts are. A part may be empty, since a comma is passed before
the next one. -/
theorem commaList {close : Punct} (hpart : Keeps 7 b part) (h : Ready w c 8 b b') :
    Safe w c (fun _ c' => c' ≤ c) (Parser.commaList close (part b) b)
      (Parser.commaList close (part b') b') :=
  commaList_go hpart h (h.of_le le_rfl rfl)

/-- The loop of `afterEach`, in the same way. -/
private theorem afterEach_go {mark : Punct} (hpart : Keeps 8 b part) (h : Ready w c 1 s s')
    (hb : Ready w c 0 b b') :
    Safe w c (fun _ c' => c' ≤ c) (Parser.afterEach mark (part b) s)
      (Parser.afterEach mark (part b') s') := by
  induction s using Nat.strong_induction_on generalizing s' w c with
  | _ s ih =>
    -- The steps are bounded by the tokens left, and each round passes the mark at least.
    obtain ⟨s, s', rfl, rfl, ih⟩ := h.pred ih
    unfold Parser.afterEach
    refine .enter h fun h => .eat_ite (fun hlt => ?_) fun _ => .pure le_rfl
    have hb' : Ready _ c.next 8 b b' := (h.withBounds hb).of_lt hlt rfl
    refine (hpart hb').bind fun first c₁ h₁ => ?_
    have hlt₁ : c₁ < c := h₁.trans_lt hlt
    refine (ih (h.of_lt hlt₁ rfl) (hb'.of_le h₁ rfl)).bind ?_
    exact fun rest c₂ h₂ => .pure (h₂.trans hlt₁.le)

/-- So are parts after a mark. -/
theorem afterEach {mark : Punct} (hpart : Keeps 8 b part) (h : Ready w c 1 b b') :
    Safe w c (fun _ c' => c' ≤ c) (Parser.afterEach mark (part b) b)
      (Parser.afterEach mark (part b') b') :=
  afterEach_go hpart h (h.of_le le_rfl rfl)

/-- Parts with commas between them pass a token, as the first one does. -/
theorem commaSeparated (hpart : Consumes 8 b part) :
    Consumes 8 b fun b => Parser.commaSeparated (part b) b := by
  intro w c b' h
  refine (hpart h).bind fun first c₁ h₁ => ?_
  refine (Safe.afterEach (hpart.keeps rfl) (h.of_lt h₁ rfl)).bind ?_
  exact fun rest c₂ h₂ => .pure (h₂.trans_lt h₁)

theorem identifiers : Keeps 8 b fun _ => Parser.identifier :=
  fun _ _ _ _ => Safe.identifier.mono fun _ _ hlt => hlt.le

theorem dottedName : Consumes 1 b Parser.dottedName := by
  intro w c b' h
  refine Safe.identifier.bind fun first c₁ h₁ => ?_
  refine (Safe.afterEach identifiers (h.of_lt h₁ rfl)).bind ?_
  exact fun rest c₂ h₂ => .pure (h₂.trans_lt h₁)

/-- Each further part of a path passes a point and a word. -/
theorem pathRest : Keeps 1 b Parser.pathRest := by
  intro w c b' h
  induction b using Nat.strong_induction_on generalizing b' w c with
  | _ b ih =>
    obtain ⟨b, b', rfl, rfl, ih⟩ := h.pred ih
    unfold Parser.pathRest
    refine .enter h fun h => .cursor fun hc => ?_
    split
    -- A dot and a word are passed.
    · next part hdot _ =>
      have hlt : c.next.next < c := c.next.next_le.trans_lt (hc.next_lt_of_isMark hdot)
      refine (Safe.moveTo (hc.of_le hlt.le)).bind fun _ c₁ h₁ => ?_
      subst c₁
      refine (ih (h.of_lt hlt rfl)).bind fun rest c₂ h₂ => ?_
      exact .pure (h₂.trans hlt.le)
    · exact .pure le_rfl

/-- Each modifier passes a word. -/
theorem modifiers {add? : α → String → Cursor → Option α} {known : α} :
    Keeps 1 b fun b => Parser.modifiers add? known b := by
  intro w c b' h
  induction b using Nat.strong_induction_on generalizing b' w c known with
  | _ b ih =>
    obtain ⟨b, b', rfl, rfl, ih⟩ := h.pred ih
    unfold Parser.modifiers
    refine .enter h fun h => .cursor fun hc => ?_
    split
    · next more hmore =>
      -- A modifier is a word, so there is a token to pass.
      obtain ⟨text, hword, -⟩ := Option.bind_eq_some_iff.1 hmore
      have hlt := hc.next_lt (by rw [Cursor.kind_of_word? hword]; exact nofun)
      refine (Safe.discard_advance_lt hlt).bind fun _ c₁ h₁ => ?_
      exact (ih (h.of_lt h₁ rfl)).mono fun _ _ h₂ => h₂.trans h₁.le
    · exact .pure le_rfl

end Repetition

end Safe

end Endpoints
