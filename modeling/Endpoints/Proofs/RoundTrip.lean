import Endpoints.Proofs.Reading
import Endpoints.Proofs.Totality
import Mathlib.Order.Filter.AtTopBot.Basic
import Mathlib.Order.Filter.Finite

/-!
# Types are read as they are written

The four levels of the type parsers and the notation of types agree. A level is given by the marks
that can stand behind what it reads: a type inside brackets ends with `typeEnds`, a member of a
union also before a bar, and so on. What a level does with one part carries over to the next one; a
printable type needs only be read at the level it belongs to.

Bounds are left open: the statements hold for all bounds that are large enough, and by totality the
one that is used gives the same.
-/

namespace Endpoints

open Filter MonadParser TypeExpr Endpoints.Parser Cursor

/-! ## Bounds that are large enough -/

theorem eventually_of_add {P : Nat → Prop} (k : Nat) (h : ∀ᶠ b in atTop, P (b + k)) :
    ∀ᶠ b in atTop, P b := by
  rwa [← map_add_atTop_eq_nat k, eventually_map]

private theorem eventually_forall_mem {α : Type} {P : α → Nat → Prop} {as : List α}
    (h : ∀ a ∈ as, ∀ᶠ b in atTop, P a b) : ∀ᶠ b in atTop, ∀ a ∈ as, P a b :=
  (eventually_all_finite (List.finite_toSet as)).2 h

/-! ## Levels -/

/-- The marks that can stand behind a whole type. -/
def typeEnds : List Punct := [.comma, .rightBracket, .greater, .rightParen, .semicolon]

/-- The marks that can stand behind a type without suffixes. -/
def primaryEnds : List Punct := .leftBracket :: .ampersand :: .bar :: typeEnds

/-- Reading the type with its suffixes is reading the suffixes behind it. The suffixes then have a
smaller bound, by `k`, since each suffix that belongs to the type itself takes one off. -/
def ReadsSuffixed (type : TypeExpr) : Prop :=
  ∃ k, ∀ᶠ b in atTop, ∀ ⦃c d⦄, c.Shows type.kinds d → d.At primaryEnds →
    Parser.run (postfixType (b + k)) c = Parser.run (suffixes b c type) d

/-- The type is read at all levels it can stand at. -/
structure Written (type : TypeExpr) : Prop where
  opening : Opening type.kinds
  nested : Nested type.kinds
  suffixed : type.isCompound = false → ReadsSuffixed type
  member : type.isUnion = false →
    ∀ᶠ b in atTop, Reads (intersectionType b) type.kinds (.bar :: typeEnds) type
  whole : ∀ᶠ b in atTop, Reads (typeExpr b) type.kinds typeEnds type

variable {type : TypeExpr}

private theorem ReadsSuffixed.of_primary
    (h : ∀ᶠ b in atTop, Reads (primaryType b) type.kinds primaryEnds type) :
    ReadsSuffixed type := by
  refine ⟨1, ?_⟩
  filter_upwards [h] with b hb c d hshows hd
  simp [postfixType, hb hshows hd]

/-- Without suffixes the type itself is read. -/
private theorem ReadsSuffixed.reads (h : ReadsSuffixed type) :
    ∀ᶠ b in atTop,
      Reads (postfixType b) type.kinds (.ampersand :: .bar :: typeEnds) type := by
  obtain ⟨k, h⟩ := h
  refine eventually_of_add k ?_
  filter_upwards [h, eventually_gt_atTop 0] with b hb hpos c d hshows hd
  obtain ⟨b, rfl⟩ := Nat.exists_eq_add_one.2 hpos
  -- No bracket follows, so there is no suffix.
  rw [hb hshows (hd.mono (List.subset_cons_self _ _))]
  simp [suffixes, hd.isMark (by decide : Punct.leftBracket ∉ _)]

/-- An array whose element has been read. -/
private theorem suffixes_array {c d e : Cursor} {b : Nat}
    (h : d.Shows [.punct .leftBracket, .punct .rightBracket] e) :
    Parser.run (suffixes (b + 1) c type) d =
      Parser.run (suffixes b c (.array type)) e := by
  obtain ⟨hleft, hright⟩ := h.uncons
  obtain ⟨-, hend⟩ := hright.uncons
  rw [suffixes]
  simp [h.isMark, hleft.freshLine_eq, hright.isMark, hend.eq]

variable {first : TypeExpr} {rest : List TypeExpr}

/-- One or more parts with a mark between them, as unions and intersections have them. -/
private theorem reads_compound {level part : Nat → Parser TypeExpr} {mark : Punct}
    {make : List TypeExpr → TypeExpr} {ends : List Punct}
    (hlevel : ∀ b c, Parser.run (level (b + 1)) c = Parser.run (do
      discard (Parser.eat mark)
      let first ← part b
      return compound make (first :: (← afterEach mark (part b) b))) c)
    (hmark : mark ∉ ends) (hopening : mark ∉ [.minus, .leftBracket, .leftParen])
    (hfirst : Opening first.kinds)
    (h : ∀ type ∈ first :: rest, ∀ᶠ b in atTop, Reads (part b) type.kinds (mark :: ends) type) :
    ∀ᶠ b in atTop, Reads (level b)
      ([.punct mark].intercalate ((first :: rest).map kinds)) ends
      (compound make (first :: rest)) := by
  refine eventually_of_add 1 ?_
  filter_upwards [eventually_forall_mem h, eventually_gt_atTop rest.length] with b hb hlength
  intro c d hshows hd
  rw [List.map_cons, intercalate_cons, List.flatMap_map] at hshows
  obtain ⟨c', hshowsFirst, hshowsRest⟩ := hshows.split
  -- A mark in front of the first part would be passed, but there is none.
  have hnot := hfirst.isMark hshowsFirst hopening
  have hread := hb first List.mem_cons_self hshowsFirst (hshowsRest.at_flatMap hd)
  have hmore := Reads.afterEach hmark (fun type htype => hb type (List.mem_cons_of_mem _ htype))
    hlength hshowsRest hd
  rw [hlevel]
  simp [hnot, hread, hmore]

private theorem reads_union (hfirst : Opening first.kinds) (h : ∀ type ∈ first :: rest,
      ∀ᶠ b in atTop, Reads (intersectionType b) type.kinds (.bar :: typeEnds) type) :
    ∀ᶠ b in atTop, Reads (unionType b)
      ([.punct .bar].intercalate ((first :: rest).map kinds)) typeEnds
      (compound .union (first :: rest)) :=
  reads_compound (fun b c => by rw [unionType, run_enter]) (by decide) (by decide)
    hfirst h

/-- The inner level: members with ampersands between them. -/
private theorem reads_intersection (hfirst : Opening first.kinds)
    (h : ∀ type ∈ first :: rest, ∀ᶠ b in atTop,
      Reads (postfixType b) type.kinds (.ampersand :: .bar :: typeEnds) type) :
    ∀ᶠ b in atTop, Reads (intersectionType b)
      ([.punct .ampersand].intercalate ((first :: rest).map kinds)) (.bar :: typeEnds)
      (compound .intersection (first :: rest)) :=
  reads_compound (fun b c => by rw [intersectionType, run_enter]) (by decide)
    (by decide) hfirst h

/-- A union is a type if no function type starts there and no condition follows. -/
private theorem reads_typeExpr (hopening : Opening type.kinds)
    (h : ∀ᶠ b in atTop, Reads (unionType b) type.kinds typeEnds type) :
    ∀ᶠ b in atTop, Reads (typeExpr b) type.kinds typeEnds type := by
  refine eventually_of_add 1 ?_
  filter_upwards [h] with b hb c d hshows hd
  -- Function types start with type parameters, with one of two words or with parentheses.
  have hless := hopening.isMark hshows (by decide : Punct.less ∉ _)
  obtain ⟨hnew, habstract⟩ := hopening.isWord hshows
  have hextends : d.isWord "extends" = false := by
    obtain ⟨mark, -, hkind⟩ := hd
    simp [isWord, word?, hkind]
  rw [typeExpr]
  simp [hless, hnew, habstract, hopening.startsFunction hshows, hb hshows hd, hextends]

namespace Written

variable {type : TypeExpr}

/-- A union is only read at the outermost level. -/
theorem of_union (hopening : Opening type.kinds) (hnested : Nested type.kinds)
    (hunion : type.isUnion = true)
    (h : ∀ᶠ b in atTop, Reads (unionType b) type.kinds typeEnds type) : Written type where
  opening := hopening
  nested := hnested
  suffixed := by cases type <;> simp_all [isUnion, isCompound]
  member := by simp [hunion]
  whole := reads_typeExpr hopening h

private theorem whole_of_member (hopening : Opening type.kinds)
    (h : ∀ᶠ b in atTop, Reads (intersectionType b) type.kinds (.bar :: typeEnds) type) :
    ∀ᶠ b in atTop, Reads (typeExpr b) type.kinds typeEnds type := by
  have hunion := @reads_union type [] hopening (by simpa using h)
  exact reads_typeExpr hopening (by simpa [compound] using hunion)

/-- An intersection is also a member of unions. -/
theorem of_intersection (hopening : Opening type.kinds) (hnested : Nested type.kinds)
    (hcompound : type.isCompound = true)
    (h : ∀ᶠ b in atTop, Reads (intersectionType b) type.kinds (.bar :: typeEnds) type) :
    Written type where
  opening := hopening
  nested := hnested
  suffixed := by simp [hcompound]
  member := fun _ => h
  whole := whole_of_member hopening h

/-- All other types stand at all levels. -/
theorem of_suffixed (hopening : Opening type.kinds) (hnested : Nested type.kinds)
    (h : ReadsSuffixed type) : Written type := by
  -- One part is an intersection of itself.
  have hmember := @reads_intersection type [] hopening (by simpa using h.reads)
  replace hmember : ∀ᶠ b in atTop,
      Reads (intersectionType b) type.kinds (.bar :: typeEnds) type := by
    simpa [compound] using hmember
  exact ⟨hopening, hnested, fun _ => h, fun _ => hmember, whole_of_member hopening hmember⟩

private theorem of_token {kind : TokenKind} (hkinds : type.kinds = [kind])
    (hopening : Opening [kind]) (hnested : isAtom kind = true)
    (h : ∀ᶠ b in atTop, Reads (primaryType b) [kind] primaryEnds type) : Written type := by
  rw [← hkinds] at hopening h
  exact of_suffixed hopening (hkinds ▸ .atom hnested) (.of_primary h)

end Written

/-! ## Types without suffixes -/

private theorem primaryType_word {c : Cursor} {b : Nat} {text : String}
    (h : c.head.kind = .word text) :
    Parser.run (primaryType (b + 1)) c = Parser.run (wordType b c text) c := by
  rw [primaryType]
  simp [h]

private theorem Keyword.ofWord?_text (word : Keyword) : ofWord? word.text = some word := by
  cases word <;> decide

theorem Keyword.ofWord?_eq_none {text : String} (h : ∀ word : Keyword, text ≠ word.text) :
    ofWord? text = none := by
  -- The table lists each keyword with its own text.
  have htable : ∀ entry ∈ table, entry.2 = entry.1.text := by decide
  rw [ofWord?, Option.map_eq_none_iff, List.find?_eq_none]
  intro entry hentry heq
  exact h entry.1 (by rw [← htable entry hentry, beq_iff_eq.1 heq])

/-- A keyword is read as such, since no dot follows it. -/
private theorem reads_keyword (word : Keyword) :
    ∀ᶠ b in atTop,
      Reads (primaryType b) [.word word.text] primaryEnds (.keyword word) := by
  refine eventually_of_add 2 (.of_forall fun b c d hshows hd => ?_)
  obtain ⟨hword, hend⟩ := hshows.uncons
  have hdot := hd.isMark (by decide : Punct.dot ∉ _)
  rw [primaryType_word hword.kind_eq, wordType]
  simp only [Keyword.ofWord?_text, isMark_one, hend.eq, hdot]
  cases word <;> simp [Keyword.text, hend.eq]

private theorem reads_boolean (value : Bool) :
    ∀ᶠ b in atTop, Reads (primaryType b) [.word (if value then "true" else "false")]
      primaryEnds (.literal (.boolean value)) := by
  refine eventually_of_add 2 (.of_forall fun b c d hshows hd => ?_)
  obtain ⟨hword, hend⟩ := hshows.uncons
  rw [primaryType_word hword.kind_eq, wordType]
  cases value <;> simp [hend.eq]

private theorem reads_string (value : String) :
    ∀ᶠ b in atTop,
      Reads (primaryType b) [.string value] primaryEnds (.literal (.string value)) := by
  refine eventually_of_add 1 (.of_forall fun b c d hshows hd => ?_)
  obtain ⟨hstring, hend⟩ := hshows.uncons
  rw [primaryType]
  simp [hstring.kind_eq, hend.eq]

/-- So is a number, with its sign. -/
private theorem reads_numeral (text : String) :
    ∀ᶠ b in atTop,
      Reads (primaryType b) (numeralKinds text) primaryEnds
        (.literal (.number text)) := by
  refine eventually_of_add 1 (.of_forall fun b c d hshows hd => ?_)
  unfold numeralKinds at hshows
  -- A minus is a token of its own, and the parser puts it back in front of the digits.
  split at hshows
  · next digits heq =>
    obtain ⟨hminus, hnumber⟩ := hshows.uncons
    obtain ⟨hnumber, hend⟩ := hnumber.uncons
    have htext : "-" ++ String.ofList digits = text := by
      rw [← String.toList_inj, heq]
      simp
    rw [primaryType]
    simp [hminus.kind_eq, hnumber.kind_eq, hend.eq, htext]
  · obtain ⟨hnumber, hend⟩ := hshows.uncons
    rw [primaryType]
    simp [hnumber.kind_eq, hend.eq]

variable {types : List TypeExpr}

/-- Types with commas between them, up to a closing mark. -/
private theorem reads_list {part : Nat → Parser TypeExpr} {close : Punct}
    (hclose : close ∉ [.comma, .minus, .leftBracket, .leftParen])
    (hwritten : ∀ type ∈ types, Written type)
    (h : ∀ type ∈ types, ∀ᶠ b in atTop, Reads (part b) type.kinds [.comma, close] type) :
    ∀ᶠ b in atTop, ∀ ⦃c d⦄,
      c.Shows ([.punct .comma].intercalate (types.map kinds) ++ [.punct close]) d →
      ∃ c', Parser.run (commaList close (part b) b) c = .ok (types, c') ∧
        Parser.run (Parser.expect close) c' = .ok ((), d) := by
  rw [List.mem_cons, not_or] at hclose
  obtain ⟨hcomma, hopening⟩ := hclose
  filter_upwards [eventually_forall_mem h, eventually_gt_atTop types.length] with b hb hlength
  intro c d hshows
  obtain ⟨c', hlist, hend⟩ := hshows.split
  -- The list does not end before one of its types.
  have hstart : ∀ type ∈ types, ∀ c d : Cursor, c.Shows type.kinds d → c.isMark close = false :=
    fun type htype c d hshows => (hwritten type htype).opening.isMark hshows hopening
  refine ⟨c', Reads.commaList hcomma hb hstart hlength hlist (hend.at (by simp)), ?_⟩
  rw [run_expect hend.isMark, hend.uncons.2.eq]

/-- Types in angle brackets are read as type arguments, whatever follows. -/
private theorem reads_typeArguments (h : ∀ type ∈ types, Written type) (ends : List Punct) :
    ∀ᶠ b in atTop, Reads (typeArguments b)
      (.punct .less ::
        ([.punct .comma].intercalate (types.map kinds) ++ [.punct .greater]))
      ends types := by
  have hlist := reads_list (by decide : Punct.greater ∉ _) h fun type htype =>
    (h type htype).whole.mono fun b hb => hb.mono (by decide)
  refine eventually_of_add 1 ?_
  filter_upwards [hlist] with b hb c d hshows hd
  obtain ⟨c', hlist, hend⟩ := hb hshows.uncons.2
  rw [typeArguments]
  simp [run_expect hshows.isMark, hlist, hend]

variable {arguments : List TypeExpr}

/-- The tokens of a name, with what follows. -/
private theorem kinds_reference {first : String} {rest : List String}
    (hparts : ∀ part ∈ first :: rest, isName part = true) :
    (TypeExpr.reference (".".intercalate (first :: rest)) arguments).kinds =
      .word first :: (rest.flatMap (fun word => [.punct .dot, .word word]) ++
        if arguments.isEmpty then []
        else .punct .less ::
          ([.punct .comma].intercalate (arguments.map kinds) ++ [.punct .greater])) := by
  rw [kinds, nameKinds_intercalate (List.cons_ne_nil _ _) hparts, List.map_cons,
    intercalate_cons, List.flatMap_map, kindsList_eq]
  split <;> simp

/-- A name with its type arguments. -/
private theorem reads_reference {first : String} {rest : List String}
    (hparts : ∀ part ∈ first :: rest, isName part = true)
    (hkeyword : ∀ word : Keyword, first ≠ word.text) (hoperator : first ∉ operatorWords)
    (h : ∀ type ∈ arguments, Written type) :
    ∀ᶠ b in atTop, Reads (primaryType b)
      (TypeExpr.reference (".".intercalate (first :: rest)) arguments).kinds primaryEnds
      (.reference (".".intercalate (first :: rest)) arguments) := by
  refine eventually_of_add 2 ?_
  filter_upwards [reads_typeArguments h primaryEnds, eventually_gt_atTop rest.length]
    with b hb hlength c d hshows hd
  rw [kinds_reference hparts] at hshows
  obtain ⟨hword, hshows⟩ := hshows.uncons
  obtain ⟨c', hpath, harguments⟩ := hshows.split
  simp only [operatorWords, List.mem_cons, List.not_mem_nil, or_false, not_or] at hoperator
  rw [primaryType_word hword.kind_eq, wordType]
  simp only [Keyword.ofWord?_eq_none hkeyword]
  -- The name ends before the mark behind the type, or before its type arguments.
  split at harguments
  · obtain rfl := harguments.eq
    have hpath := Reads.pathRest (by decide : Punct.dot ∉ primaryEnds) hlength hpath hd
    have hless := hd.isMark (by decide : Punct.less ∉ _)
    simp_all
  · have hpath := Reads.pathRest (by decide : Punct.dot ∉ [.less]) hlength hpath
      (harguments.at (by simp))
    have hread := hb harguments hd
    simp [hoperator, hpath, harguments.isMark, harguments.uncons.1.freshLine_eq, hread]

/-- An element of a tuple without a name. -/
private theorem reads_tupleElement (h : Written type) :
    ∀ᶠ b in atTop, Reads (tupleElement b) type.kinds [.comma, .rightBracket] type := by
  refine eventually_of_add 1 ?_
  filter_upwards [h.whole] with b hb c d hshows hd
  have hellipsis := h.opening.isMark hshows (by decide : Punct.ellipsis ∉ _)
  have hquestion := hd.isMark (by decide : Punct.question ∉ _)
  have hread := hb hshows (hd.mono (by decide))
  -- The second token does not make the first one a name.
  have hlabel : c.next.isMark .colon = false ∧ c.next.isMark .question = false := by
    obtain ⟨hcolon, hmark⟩ := h.nested.not_mem
    obtain ⟨kind, kinds, hkinds⟩ := List.exists_cons_of_ne_nil h.opening.ne_nil
    rw [hkinds] at hshows hcolon hmark
    exact ⟨hshows.isMark_next (fun hmem => hcolon (List.mem_cons_of_mem kind hmem)) hd (by decide),
      hshows.isMark_next (fun hmem => hmark (List.mem_cons_of_mem kind hmem)) hd (by decide)⟩
  rw [tupleElement]
  simp [hellipsis, tupleLabel, hlabel, hread, hquestion]

/-- Types in brackets are read as a tuple. -/
private theorem reads_tuple (h : ∀ type ∈ types, Written type) :
    ∀ᶠ b in atTop, Reads (primaryType b) (TypeExpr.tuple types).kinds primaryEnds
      (.tuple types) := by
  have hlist := reads_list (by decide : Punct.rightBracket ∉ _) h fun type htype =>
    reads_tupleElement (h type htype)
  refine eventually_of_add 1 ?_
  filter_upwards [hlist] with b hb c d hshows hd
  rw [kinds, kindsList_eq] at hshows
  obtain ⟨hbracket, hshows⟩ := hshows.uncons
  obtain ⟨c', hlist, hend⟩ := hb hshows
  rw [primaryType]
  simp [hbracket.kind_eq, hlist, hend]

/-! ## Printable types -/

variable {element : TypeExpr}

/-- An array of something that stands without parentheses. -/
private theorem ReadsSuffixed.array (h : ReadsSuffixed element)
    (hcompound : element.isCompound = false) : ReadsSuffixed (.array element) := by
  obtain ⟨k, h⟩ := h
  refine ⟨k + 1, ?_⟩
  filter_upwards [(tendsto_add_atTop_nat 1).eventually h] with b hb c d hshows hd
  rw [kinds, hcompound] at hshows
  obtain ⟨c', helement, hbrackets⟩ := hshows.split
  -- The brackets are one more suffix behind the element.
  rw [← suffixes_array hbrackets, ← hb helement (hbrackets.at (by decide))]
  congr 2
  omega

/-- An array of a union or an intersection, which stands in parentheses. -/
private theorem ReadsSuffixed.array_group (h : Written element)
    (hcompound : element.isCompound = true) : ReadsSuffixed (.array element) := by
  refine ⟨2, ?_⟩
  filter_upwards [h.whole] with b hb c d hshows hd
  rw [kinds, if_pos hcompound] at hshows
  obtain ⟨hleft, hshows⟩ := hshows.uncons
  obtain ⟨c', helement, hright⟩ := hshows.split
  have hread := hb helement (hright.at (by decide))
  -- What stands in parentheses is one type without suffixes.
  have hprimary : Parser.run (primaryType (b + 1)) c = .ok (element, c'.next) := by
    rw [primaryType]
    simp [hleft.kind_eq, hread, run_expect hright.isMark]
  rw [postfixType]
  simp [hprimary, suffixes_array hright.uncons.2]

/-- The tokens of an array: those of the element, perhaps in parentheses, and the brackets. -/
private theorem Written.array (h : Written element) : Written (.array element) := by
  have hbrackets : Nested [.punct .leftBracket, .punct .rightBracket] := .brackets rfl rfl .nil
  cases hcompound : element.isCompound with
  -- The element is written as it is.
  | false =>
    have hkinds : (TypeExpr.array element).kinds =
        element.kinds ++ [.punct .leftBracket, .punct .rightBracket] := by
      rw [kinds, hcompound]
      rfl
    refine .of_suffixed ?_ ?_ ((h.suffixed hcompound).array hcompound)
    · rw [hkinds]
      exact h.opening.append _
    · rw [hkinds]
      exact h.nested.append hbrackets
  -- A compound element stands in parentheses.
  | true =>
    have hkinds : (TypeExpr.array element).kinds =
        (.punct .leftParen :: (element.kinds ++ [.punct .rightParen])) ++
          [.punct .leftBracket, .punct .rightBracket] := by
      rw [kinds, if_pos hcompound]
      simp
    refine .of_suffixed ?_ ?_ (.array_group h hcompound)
    · rw [hkinds, List.cons_append, List.append_assoc]
      exact .group _ h.nested
    · rw [hkinds]
      exact (Nested.brackets rfl rfl h.nested).append hbrackets

private theorem Written.nested_list {mark : TokenKind} (hmark : isAtom mark = true)
    (h : ∀ type ∈ types, Written type) :
    Nested ([mark].intercalate (types.map kinds)) := by
  refine .intercalate hmark fun part hpart => ?_
  obtain ⟨type, htype, rfl⟩ := List.mem_map.1 hpart
  exact (h type htype).nested

private theorem Written.opening_list {mark : TokenKind} (h : Written first) :
    Opening ([mark].intercalate ((first :: rest).map kinds)) := by
  rw [List.map_cons, intercalate_cons]
  exact h.opening.append _

/-- Two or more types that are no unions make one. -/
private theorem Written.union {second : TypeExpr}
    (h : ∀ type ∈ first :: second :: rest, Written type)
    (hunion : ∀ type ∈ first :: second :: rest, type.isUnion = false) :
    Written (.union (first :: second :: rest)) := by
  have hfirst := h first List.mem_cons_self
  have hread := reads_union hfirst.opening fun type htype =>
    (h type htype).member (hunion type htype)
  have hkinds := kinds.eq_def (.union (first :: second :: rest))
  simp only [kindsList_eq] at hkinds
  refine .of_union ?_ ?_ rfl ?_
  · exact hkinds ▸ hfirst.opening_list
  · exact hkinds ▸ nested_list rfl h
  · exact hkinds ▸ hread

/-- Two or more types that are no unions or intersections make an intersection. -/
private theorem Written.intersection {second : TypeExpr}
    (h : ∀ type ∈ first :: second :: rest, Written type)
    (hcompound : ∀ type ∈ first :: second :: rest, type.isCompound = false) :
    Written (.intersection (first :: second :: rest)) := by
  have hfirst := h first List.mem_cons_self
  have hread := reads_intersection hfirst.opening fun type htype =>
    ((h type htype).suffixed (hcompound type htype)).reads
  have hkinds := kinds.eq_def (.intersection (first :: second :: rest))
  simp only [kindsList_eq] at hkinds
  refine .of_intersection ?_ ?_ rfl ?_
  · exact hkinds ▸ hfirst.opening_list
  · exact hkinds ▸ nested_list rfl h
  · exact hkinds ▸ hread

private theorem Written.tuple (h : ∀ type ∈ types, Written type) : Written (.tuple types) := by
  refine .of_suffixed ?_ ?_ (.of_primary (reads_tuple h))
  · rw [kinds]
    exact .bracket _
  · rw [kinds, kindsList_eq]
    exact .brackets rfl rfl (Written.nested_list rfl h)

/-- A dotted name and type arguments make a reference, if the name starts with no keyword or
operator. -/
theorem Written.reference {first : String} {rest : List String}
    (hparts : ∀ part ∈ first :: rest, isName part = true)
    (hkeyword : ∀ word : Keyword, first ≠ word.text) (hoperator : first ∉ operatorWords)
    (h : ∀ type ∈ arguments, Written type) :
    Written (.reference (".".intercalate (first :: rest)) arguments) := by
  refine .of_suffixed ?_ ?_ (.of_primary (reads_reference hparts hkeyword hoperator h))
  · rw [kinds_reference hparts]
    simp only [operatorWords, List.mem_cons, List.not_mem_nil, or_false, not_or]
      at hoperator
    exact .word _ hoperator.2.2.2.2.2.2.2.2.1 hoperator.2.2.2.2.2.2.2.2.2
  -- A dotted name has no brackets.
  · have hname : Nested (nameKinds (".".intercalate (first :: rest))) := by
      rw [nameKinds]
      refine .intercalate rfl fun part hpart => ?_
      obtain ⟨text, -, rfl⟩ := List.mem_map.1 hpart
      exact .atom rfl
    rw [kinds, kindsList_eq]
    split
    · exact hname
    · exact hname.append (.cons rfl (.append (Written.nested_list rfl h) (.atom rfl)))

theorem Written.number (text : String) : Written (.literal (.number text)) := by
  refine .of_suffixed ?_ ?_ (.of_primary (reads_numeral text)) <;>
    rw [kinds, numeralKinds] <;> split
  · exact .minus _
  · exact .number _ _
  · exact .cons rfl (.atom rfl)
  · exact .atom rfl

/-- Every printable type is read as it is written. -/
theorem TypeExpr.Printable.written (h : type.Printable) : Written type := by
  -- By induction on how the type is printed; a union or an intersection has at least two members.
  induction h with
  | keyword word =>
    refine .of_token rfl (.word [] ?_ ?_) rfl (reads_keyword word) <;> cases word <;> decide
  | boolean value =>
    refine .of_token rfl (.word [] ?_ ?_) rfl (reads_boolean value) <;> cases value <;> decide
  | @number text _ => exact .number text
  | @string value _ => exact .of_token rfl (.string value []) rfl (reads_string value)
  | reference hparts hkeyword hoperator _ ih => exact .reference hparts hkeyword hoperator ih
  | array _ ih => exact ih.array
  | tuple _ ih => exact .tuple ih
  | @union members hlength _ hunion ih =>
    obtain _ | ⟨first, _ | ⟨second, rest⟩⟩ := members
    · simp at hlength
    · simp at hlength
    · exact .union ih hunion
  | @intersection members hlength _ hcompound ih =>
    obtain _ | ⟨first, _ | ⟨second, rest⟩⟩ := members
    · simp at hlength
    · simp at hlength
    · exact .intersection ih hcompound

/-! ## Files with one alias -/

/-- Nothing stands before the keyword of the declaration. -/
theorem run_declarationHead {c d : Cursor} {word : String} {kinds : List TokenKind} {b : Nat}
    (h : c.Shows (.word word :: kinds) d)
    (hword : word ∉ ["export", "declare", "default", "abstract"]) :
    Parser.run (declarationHead (b + 1)) c = .ok (⟨none, 1, [], false⟩, c) := by
  obtain ⟨hfirst, -⟩ := h.uncons
  have hat : c.isMark .atSign = false := by simp [isMark, hfirst.kind_eq]
  simp only [List.mem_cons, List.not_mem_nil, or_false, not_or] at hword
  simp [declarationHead, Parser.doc, decorators, decorators.go,
    modifiers, DeclarationModifiers.add?, word?, hat, hfirst.kind_eq,
    hfirst.doc_eq, hfirst.line_eq, hword]

/-- The tokens of an alias. -/
def aliasKinds (name : String) (type : TypeExpr) : List TokenKind :=
  .word "type" :: .word name :: .punct .assign :: (type.kinds ++ [.punct .semicolon])

section Alias

variable {type : TypeExpr} (h : Written type) (name : String)

include h

/-- `aliasDecl` reads an alias without type parameters. -/
private theorem run_aliasDecl :
    ∀ᶠ b in atTop, ∀ ⦃c d⦄ (head : DeclarationHead), c.Shows (aliasKinds name type) d →
      Parser.run (aliasDecl b head) c = .ok (⟨name, [], type, head.doc, head.line⟩, d) := by
  filter_upwards [h.whole, eventually_gt_atTop 0] with b hb hpos c d head hshows
  obtain ⟨b, rfl⟩ := Nat.exists_eq_add_one.2 hpos
  obtain ⟨hname, hassign⟩ := hshows.uncons.2.uncons
  obtain ⟨c', htype, hend⟩ := hassign.uncons.2.split
  have hread := hb htype (hend.at (by decide))
  have hless : c.next.next.isMark .less = false := by simp [isMark, hassign.kind_eq]
  simp [aliasDecl, identifier, typeParameters, word?, hname.kind_eq,
    hless, run_expect hassign.isMark, hread, hend.isMark, hend.uncons.2.eq]

/-- `statement` reads an alias with nothing in front of it. -/
theorem run_statement :
    ∀ᶠ b in atTop, ∀ ⦃c d⦄, c.Shows (aliasKinds name type) d →
      Parser.run (statement b) c =
        .ok (([.aliasDecl ⟨name, [], type, none, 1⟩], []), d) := by
  refine eventually_of_add 2 ?_
  filter_upwards [(tendsto_add_atTop_nat 1).eventually (run_aliasDecl h name)] with b hb c d hshows
  -- The word `type` is no modifier, and the name behind it makes it a declaration.
  have hhead := @run_declarationHead _ _ _ _ b hshows (by decide)
  have halias := hb ⟨none, 1, [], false⟩ hshows
  obtain ⟨hname, hassign⟩ := hshows.uncons.2.uncons
  rw [statement]
  simp [hhead, isWord, hasWord, word?, hshows.kind_eq, hname.kind_eq,
    hassign.isMark, halias]

/-- A file with nothing but the alias. -/
private theorem run_sourceFile :
    ∀ᶠ b in atTop, ∀ ⦃c d⦄, c.Shows (aliasKinds name type) d → d.head.kind = .endOfFile →
      Parser.run (sourceFile b) c =
        .ok (⟨[.aliasDecl ⟨name, [], type, none, 1⟩], []⟩, d) := by
  refine eventually_of_add 2 ?_
  filter_upwards [(tendsto_add_atTop_nat 1).eventually (run_statement h name)]
    with b hb c d hshows hend
  have hstart : c.atEnd = false ∧ c.isMark .semicolon = false ∧ c.isMark .rightBrace = false ∧
      c.isMark .rightParen = false ∧ c.isMark .rightBracket = false := by
    simp [atEnd, isMark, hshows.kind_eq]
  -- After the alias nothing is left.
  have hlast : Parser.run (statements (b + 1) false) d = .ok (([], []), d) := by
    rw [statements]
    simp [atEnd, hend]
  rw [sourceFile, run_bind, statements]
  simp [hstart, hb hshows, hlast]

end Alias

/-- The text of the file consists of the tokens of the alias. -/
private theorem lexes_alias (h : type.Printable) :
    Lexes ("type Subject = " ++ type.display ++ ";").toList (aliasKinds "Subject" type) [] := by
  have hblank : ∀ rest : List Char, ∀ d ∈ (' ' :: rest).head?, Lexeme.isWordPart d = false :=
    fun _ => List.forall_head?_cons (by decide)
  -- From the end to the start, as each piece is a token by what follows it.
  have htype : Lexes (type.display.toList ++ [';']) (type.kinds ++ [.punct .semicolon]) [] :=
    .append (h.lexes (.cons _ (by decide))) (.mark (by decide +kernel) rfl rfl)
  have hassign : Lexes ('=' :: ' ' :: (type.display.toList ++ [';']))
      (.punct .assign :: (type.kinds ++ [.punct .semicolon])) [] :=
    .append (.mark (by decide +kernel) rfl rfl) htype.spaced
  have hname := Lexes.append (.word (by decide +kernel : isName "Subject" = true) (hblank _))
    hassign.spaced
  have hkeyword := Lexes.append (.word (by decide +kernel : isName "type" = true) (hblank _))
    hname.spaced
  simpa [aliasKinds] using hkeyword

/-- A printable type is given back by parsing the file `type Subject = …;` with its notation: there
is one statement, the alias of the type. -/
theorem parse_display {type : TypeExpr} (h : type.Printable) :
    SourceFile.parse ("type Subject = " ++ type.display ++ ";") =
      .ok ⟨[.aliasDecl ⟨"Subject", [], type, none, 1⟩], []⟩ := by
  generalize hsource : "type Subject = " ++ type.display ++ ";" = source
  obtain ⟨stream, htext, htokens, hlast⟩ := (hsource ▸ lexes_alias h).exists_stream
  have hshows : stream.cursor.Shows (aliasKinds "Subject" type) ⟨[], stream.last⟩ :=
    ⟨stream.tokens, htokens, by rw [List.append_nil]; rfl⟩
  obtain ⟨b, hrun, hb⟩ := ((run_sourceFile h.written "Subject").and
    (eventually_ge_atTop stream.cursor.bound)).exists
  -- The watched run with the large bound gives what the plain runs with either bound give.
  have hhas : (⟨source, stream, []⟩ : Watch).Has stream.cursor :=
    ⟨TokenStream.ofText_tiles htext, le_rfl⟩
  have hlarge := (sourceFile_safe hb hb hhas).1
  have hused := (sourceFile_safe hb le_rfl hhas).1
  rw [hlarge, Except.ok.injEq, hrun hshows hlast] at hused
  rw [SourceFile.parse, htext]
  simp only [SourceFile.ofTokens]
  rw [← hused]

/-- A union in parentheses with a dotted name and a negative number, closing angle brackets, a
tuple, and an intersection next to a keyword. -/
theorem mixed_type_parsed :
    let type : TypeExpr := .union [
      .intersection [
        .reference "Map" [
          .keyword .string,
          .array (.union [.reference "A.B" [.named "T"], .literal (.number "-1")])],
        .array (.tuple [.literal (.boolean true), .literal (.string "x | y"), .tuple []])],
      .keyword .null]
    type.Printable ∧
      type.display = "Map<string, (A.B<T> | -1)[]> & [true, 'x | y', []][] | null" ∧
      SourceFile.parse ("type Subject = " ++ type.display ++ ";") =
        .ok ⟨[.aliasDecl ⟨"Subject", [], type, none, 1⟩], []⟩ := by
  intro type
  -- None of the names is a keyword.
  have hfree : ∀ first ∈ ["T", "A", "Map"], ∀ word : Keyword, first ≠ word.text := by
    intro first hfirst word
    cases word <;> revert first <;> decide
  have hT : (named "T").Printable :=
    @TypeExpr.Printable.reference "T" [] [] (by decide +kernel) (hfree "T" (by decide)) (by decide)
      nofun
  have hAB : (TypeExpr.reference "A.B" [.named "T"]).Printable :=
    @TypeExpr.Printable.reference "A" ["B"] [.named "T"] (by decide +kernel)
      (hfree "A" (by decide)) (by decide) (by simpa using hT)
  have helements : (TypeExpr.array (.union
      [.reference "A.B" [.named "T"], .literal (.number "-1")])).Printable :=
    .array (.union (by decide) (by simpa using ⟨hAB, .number (by decide +kernel)⟩) (by decide))
  have htuple : (TypeExpr.array (.tuple [.literal (.boolean true), .literal (.string "x | y"),
      .tuple []])).Printable :=
    .array (.tuple (by simpa using ⟨.boolean true, .string (by decide +kernel), .tuple nofun⟩))
  have hmap := @TypeExpr.Printable.reference "Map" [] [.keyword .string, .array (.union
      [.reference "A.B" [.named "T"], .literal (.number "-1")])] (by decide +kernel)
      (hfree "Map" (by decide)) (by decide) (by simpa using ⟨.keyword .string, helements⟩)
  have hprintable : type.Printable :=
    .union (by decide) (by simpa using ⟨.intersection (by decide) (by simpa using ⟨hmap, htuple⟩)
      (by decide), .keyword .null⟩) (by decide)
  exact ⟨hprintable, by decide +kernel, parse_display hprintable⟩

end Endpoints
