import Endpoints.Proofs.Watch
import Endpoints.Syntax.Expr.Parser

/-!
# Types and expressions are parsed safely

The parsers of types call each other; so do those of expressions. What holds of all of them is
collected in a structure, and proved for each of them from what holds for smaller bounds.
-/

namespace Endpoints

open Safe

variable {w : Watch} {c start : Cursor} {b b' : Nat}

/-! ## Types -/

/-- The parsers of types are safe with the bound `b` against any other bound that is large enough.
Most of them pass a token; where one of them does not, it is said when it does. -/
structure SafeTypes (b : Nat) : Prop where
  typeExpr : Consumes 6 b Parser.typeExpr
  functionHead : Keeps 2 b Parser.functionHead
  functionType : ∀ {w c b' start}, Ready w c 1 b b' → w.Has start → c ≤ start →
    Safe w c (fun _ c' => c' < c) (Parser.functionType b start) (Parser.functionType b' start)
  returnType : Consumes 7 b Parser.returnType
  typeParameters : ∀ {w c b'}, Ready w c 1 b b' →
    Safe w c (fun _ c' => c' < c ∨ c.isMark .less = false ∧ c' = c)
      (Parser.typeParameters b) (Parser.typeParameters b')
  typeParameter : Consumes 2 b Parser.typeParameter
  typeArguments : Consumes 1 b Parser.typeArguments
  unionType : Consumes 5 b Parser.unionType
  intersectionType : Consumes 4 b Parser.intersectionType
  postfixType : Consumes 3 b Parser.postfixType
  suffixes : ∀ {w c b' start type}, Ready w c 1 b b' → w.Has start → c ≤ start →
    Safe w c (fun _ c' => c' ≤ c) (Parser.suffixes b start type) (Parser.suffixes b' start type)
  primaryType : Consumes 2 b Parser.primaryType
  wordType : ∀ {w c b' start word}, Ready w c 1 b b' → w.Has start → c ≤ start → c.next < c →
    Safe w c (fun _ c' => c' < c) (Parser.wordType b start word) (Parser.wordType b' start word)
  tupleElement : Consumes 7 b Parser.tupleElement
  indexSignature : ∀ {w c b'}, Ready w c 1 b b' →
    Safe w c (fun found c' => if found.isSome then c' < c else c' = c)
      (Parser.indexSignature b) (Parser.indexSignature b')
  typeMembers : Consumes 1 b Parser.typeMembers
  typeMembersRest : Keeps 4 b Parser.typeMembersRest
  typeMember : ∀ ⦃readonly doc⦄, Consumes 3 b fun b => Parser.typeMember b readonly doc
  signatureRest : ∀ {w c b'}, Ready w c 2 b b' →
    Safe w c (fun _ c' => c' ≤ c ∧ ((c.isMark .leftParen || c.isMark .less) = true → c' < c))
      (Parser.signatureRest b) (Parser.signatureRest b')

namespace SafeTypes

/-- The name of an element may be missing. -/
private theorem tupleLabel : Safe w c (fun _ c' => c' ≤ c) Parser.tupleLabel Parser.tupleLabel := by
  refine .cursor fun _ => .ite (fun _ => ?_) fun _ => .pure le_rfl
  refine discard_advance.bind fun _ c₁ h₁ => ?_
  refine (discard (Safe.eat .question)).bind fun _ c₂ h₂ => ?_
  exact discard_advance.mono fun _ _ h₃ => by order

/-- A sign and the word behind it may be missing. -/
private theorem signedReadonly :
    Safe w c (fun _ c' => c' ≤ c) Parser.signedReadonly Parser.signedReadonly := by
  refine .cursor fun hc => .ite (fun _ => ?_) fun _ => .pure le_rfl
  have hle : c.next.next ≤ c := c.next.next_le.trans c.next_le
  exact (moveTo (hc.of_le hle)).mono fun _ _ hsame => hsame ▸ hle

section Step

variable (ih : ∀ a < b, SafeTypes a)
include ih

/-- A function type, a union, or a conditional type. -/
private theorem typeExpr_of_lt : Consumes 6 b Parser.typeExpr := by
  intro w c b' h
  obtain ⟨b, b', rfl, rfl, ih⟩ := h.pred ih
  unfold Parser.typeExpr
  refine .enter h fun h => .cursor fun hc => .ite (fun _ => ?_) fun _ => ?_
  · refine (ih.functionHead (h.of_le le_rfl rfl)).bind fun _ c₁ h₁ => ?_
    exact (ih.functionType (h.of_le h₁ rfl) hc h₁).mono fun _ _ h₂ => h₂.trans_le h₁
  · refine startsFunction.bind fun _ c₁ h₁ => ?_
    subst c₁
    have hlow : Ready _ c 5 b b' := h
    refine .ite (fun _ => ih.functionType (hlow.of_le le_rfl rfl) hc le_rfl) fun _ => ?_
    refine (ih.unionType hlow).bind fun type c₁ h₁ => ?_
    refine .cursor fun _ => .ite (fun _ => ?_) fun _ => .pure h₁
    -- A conditional type: everything after the first token is read at a lower cursor.
    refine discard_advance.bind fun _ c₂ h₂ => ?_
    refine (discard (ih.unionType (h.of_lt (by order) rfl))).bind fun _ c₃ h₃ => ?_
    refine (Safe.expect .question).bind fun _ c₄ h₄ => ?_
    refine (discard (ih.typeExpr (h.of_lt (by order) rfl))).bind fun _ c₅ h₅ => ?_
    refine (Safe.expect .colon).bind fun _ c₆ h₆ => ?_
    refine (discard (ih.typeExpr (h.of_lt (by order) rfl))).bind fun _ c₇ h₇ => ?_
    refine (textSince hc (by order)).bind fun _ c₈ h₈ => .pure ?_
    order

/-- What stands before the parentheses of a function type is passed token by token. -/
private theorem functionHead_of_lt : Keeps 2 b Parser.functionHead := by
  intro w c b' h
  obtain ⟨b, b', rfl, rfl, ih⟩ := h.pred ih
  unfold Parser.functionHead
  refine .enter h fun h => .cursor fun hc => .ite (fun _ => .pure le_rfl) fun hmore => ?_
  have hrest : ∀ {c₁}, c₁ < c → Safe _ c₁ (fun _ c' => c' ≤ c) (Parser.functionHead b)
      (Parser.functionHead b') := fun h₁ =>
    (ih.functionHead (h.of_lt h₁ rfl)).mono fun _ _ h₂ => h₂.trans h₁.le
  refine .ite (fun hless => ?_) fun _ => ?_
  · refine (discard (ih.typeParameters h)).bind fun _ c₁ h₁ => ?_
    exact hrest (h₁.resolve_right fun hno => by simp [hless] at hno)
  · have hlt := hc.next_lt_of_not_atEnd fun hend => hmore (by simp [hend])
    exact (discard_advance_lt hlt).bind fun _ c₁ h₁ => hrest h₁

/-- A function type passes its parentheses. -/
private theorem functionType_of_lt (h : Ready w c 1 b b') (hstart : w.Has start) (hle : c ≤ start) :
    Safe w c (fun _ c' => c' < c) (Parser.functionType b start)
      (Parser.functionType b' start) := by
  obtain ⟨b, b', rfl, rfl, ih⟩ := h.pred ih
  unfold Parser.functionType
  refine .enter h fun h => skipGroup.bind fun _ c₁ h₁ => ?_
  have hle₁ : c₁ ≤ c := h₁.trans c.next_le
  refine (Safe.expect .arrow).bind fun _ c₂ h₂ => ?_
  refine (discard (ih.returnType (h.of_lt (by order) rfl))).bind fun _ c₃ h₃ => ?_
  refine (textSince hstart.push (by order)).bind fun _ c₄ h₄ => .pure ?_
  order

/-- A type, or a type predicate, of which only the text is kept. -/
private theorem returnType_of_lt : Consumes 7 b Parser.returnType := by
  intro w c b' h
  obtain ⟨b, b', rfl, rfl, ih⟩ := h.pred ih
  unfold Parser.returnType
  refine .enter h fun h => .cursor fun hc => (advanceIf _).bind fun _ c₁ h₁ => ?_
  refine .cursor fun _ => .ite (fun _ => ?_) fun _ => ?_
  -- A type predicate: a name and the word `is` stand in front of the type.
  · refine discard_advance.bind fun _ c₂ h₂ => ?_
    refine discard_advance.bind fun _ c₃ h₃ => ?_
    refine (discard (ih.typeExpr (h.of_le (by order) rfl))).bind fun _ c₄ h₄ => ?_
    refine (textSince hc (by order)).bind fun _ c₅ h₅ => .pure ?_
    order
  · exact (ih.typeExpr (h.of_le h₁ rfl)).mono fun _ _ h₂ => h₂.trans_le h₁

/-- Type parameters pass their brackets, or are not there. -/
private theorem typeParameters_of_lt (h : Ready w c 1 b b') :
    Safe w c (fun _ c' => c' < c ∨ c.isMark .less = false ∧ c' = c)
      (Parser.typeParameters b) (Parser.typeParameters b') := by
  obtain ⟨b, b', rfl, rfl, ih⟩ := h.pred ih
  unfold Parser.typeParameters
  refine .enter h fun h => .eat_ite (fun hlt => ?_) fun hno => .pure (.inr ⟨hno, rfl⟩)
  refine (commaList (ih.typeParameter.keeps rfl) (h.of_lt hlt rfl)).bind ?_
  intro parameters c₁ h₁
  refine (Safe.expect .greater).bind fun _ c₂ h₂ => .pure (.inl ?_)
  order

/-- A type parameter passes its name. -/
private theorem typeParameter_of_lt : Consumes 2 b Parser.typeParameter := by
  intro w c b' h
  obtain ⟨b, b', rfl, rfl, ih⟩ := h.pred ih
  unfold Parser.typeParameter
  refine .enter h fun h => (modifiers h).bind fun _ c₁ h₁ => ?_
  refine identifier.bind fun name c₂ h₂ => ?_
  -- Constraint and default are types of their own behind the name.
  have hpart : ∀ {c₃}, c₃ ≤ c₂ → Safe _ c₃ (fun _ c' => c' < c₃) (Parser.typeExpr b)
      (Parser.typeExpr b') := fun h₃ => ih.typeExpr (h.of_lt (by order) rfl)
  refine (afterWord? fun hlt => ?_).bind fun constraint c₃ h₃ => ?_
  · exact (hpart hlt.le).mono fun _ _ h => by order
  refine (afterMark? fun hlt => ?_).bind fun default c₄ h₄ => .pure ?_
  · exact (hpart (by order)).mono fun _ _ h => by order
  order

/-- Type arguments pass their brackets. -/
private theorem typeArguments_of_lt : Consumes 1 b Parser.typeArguments := by
  intro w c b' h
  obtain ⟨b, b', rfl, rfl, ih⟩ := h.pred ih
  unfold Parser.typeArguments
  refine .enter h fun h => (Safe.expect .less).bind fun _ c₁ h₁ => ?_
  refine (commaList (ih.typeExpr.keeps rfl) (h.of_lt h₁ rfl)).bind ?_
  intro arguments c₂ h₂
  refine (Safe.expect .greater).bind fun _ c₃ h₃ => .pure ?_
  order

/-- A union passes its first member, after a bar that may stand in front. -/
private theorem unionType_of_lt : Consumes 5 b Parser.unionType := by
  intro w c b' h
  obtain ⟨b, b', rfl, rfl, ih⟩ := h.pred ih
  unfold Parser.unionType
  refine .enter h fun h => (discard (Safe.eat .bar)).bind fun _ c₁ h₁ => ?_
  refine (ih.intersectionType (h.of_le h₁ rfl)).bind fun first c₂ h₂ => ?_
  have hlt : c₂ < c := by order
  refine (afterEach (ih.intersectionType.keeps rfl) (h.of_lt hlt rfl)).bind ?_
  exact fun rest c₃ h₃ => .pure (h₃.trans_lt hlt)

/-- An intersection passes its first member in the same way. -/
private theorem intersectionType_of_lt : Consumes 4 b Parser.intersectionType := by
  intro w c b' h
  obtain ⟨b, b', rfl, rfl, ih⟩ := h.pred ih
  unfold Parser.intersectionType
  refine .enter h fun h => (discard (Safe.eat .ampersand)).bind fun _ c₁ h₁ => ?_
  refine (ih.postfixType (h.of_le h₁ rfl)).bind fun first c₂ h₂ => ?_
  have hlt : c₂ < c := by order
  refine (afterEach (ih.postfixType.keeps rfl) (h.of_lt hlt rfl)).bind ?_
  exact fun rest c₃ h₃ => .pure (h₃.trans_lt hlt)

/-- A type with suffixes passes the type that they belong to. -/
private theorem postfixType_of_lt : Consumes 3 b Parser.postfixType := by
  intro w c b' h
  obtain ⟨b, b', rfl, rfl, ih⟩ := h.pred ih
  unfold Parser.postfixType
  refine .enter h fun h => .cursor fun hc => (ih.primaryType h).bind fun type c₁ h₁ => ?_
  exact (ih.suffixes (h.of_lt h₁ rfl) hc h₁.le).mono fun _ _ h₂ => h₂.trans_lt h₁

/-- Each suffix passes its brackets. -/
private theorem suffixes_of_lt {type : TypeExpr} (h : Ready w c 1 b b') (hstart : w.Has start)
    (hle : c ≤ start) :
    Safe w c (fun _ c' => c' ≤ c) (Parser.suffixes b start type)
      (Parser.suffixes b' start type) := by
  obtain ⟨b, b', rfl, rfl, ih⟩ := h.pred ih
  unfold Parser.suffixes
  refine .enter h fun h => .cursor fun hc => .ite (fun hopen => ?_) fun _ => .pure le_rfl
  have hlt : c.next < c := by
    simp only [Bool.and_eq_true] at hopen
    exact hc.next_lt_of_isMark hopen.1
  refine (discard_advance_lt hlt).bind fun _ c₁ h₁ => .eat_ite (fun h₂ => ?_) fun _ => ?_
  -- An array, so more suffixes may follow.
  · exact (ih.suffixes (h.of_lt (by order) rfl) hstart.push (by order)).mono
      fun _ _ h₃ => by order
  -- An indexed access, whose text is kept.
  · refine (discard (ih.typeExpr (h.of_lt h₁ rfl))).bind fun _ c₂ h₂ => ?_
    refine (Safe.expect .rightBracket).bind fun _ c₃ h₃ => ?_
    refine (textSince hstart.push (by order)).bind fun _ c₄ h₄ => ?_
    exact (ih.suffixes (h.of_lt (by order) rfl) hstart.push (by order)).mono
      fun _ _ h₅ => by order

/-- A type without suffixes, by its first token. -/
private theorem primaryType_of_lt : Consumes 2 b Parser.primaryType := by
  intro w c b' h
  obtain ⟨b, b', rfl, rfl, ih⟩ := h.pred ih
  unfold Parser.primaryType
  refine .enter h fun h => .cursor fun hc => ?_
  -- Whatever the first token is, it can be passed.
  have hfirst : ∀ {kind : TokenKind}, c.head.kind = kind → kind ≠ .endOfFile → c.next < c :=
    fun hkind hne => hc.next_lt (by rwa [hkind])
  split
  · next hkind =>
    refine (discard_advance_lt (hfirst hkind nofun)).bind fun _ c₁ h₁ => ?_
    refine (ih.typeExpr (h.of_lt h₁ rfl)).bind fun type c₂ h₂ => ?_
    refine (Safe.expect .rightParen).bind fun _ c₃ h₃ => .pure ?_
    order
  · refine (ih.typeMembers h).bind fun members c₁ h₁ => ?_
    cases members with
    | some members => exact .pure h₁
    | none => exact (textSince hc h₁.le).bind fun _ _ hsame => .pure (hsame ▸ h₁)
  · next hkind =>
    refine (discard_advance_lt (hfirst hkind nofun)).bind fun _ c₁ h₁ => ?_
    refine (commaList (ih.tupleElement.keeps rfl) (h.of_lt h₁ rfl)).bind ?_
    intro elements c₂ h₂
    refine (Safe.expect .rightBracket).bind fun _ c₃ h₃ => .pure ?_
    order
  · next hkind =>
    refine (discard_advance_lt (hfirst hkind nofun)).bind fun _ c₁ h₁ => ?_
    refine Safe.advance.bind fun t c₂ h₂ => ?_
    have hle : c₂ ≤ c₁ := h₂.2 ▸ c₁.next_le
    split
    · exact .pure (hle.trans_lt h₁)
    · exact .fail _
  · next hkind => exact (discard_advance_lt (hfirst hkind nofun)).bind fun _ c₁ h₁ => .pure h₁
  · next hkind => exact (discard_advance_lt (hfirst hkind nofun)).bind fun _ c₁ h₁ => .pure h₁
  · next hkind =>
    refine (discard_advance_lt (hfirst hkind nofun)).bind fun _ c₁ h₁ => ?_
    exact (textSince hc h₁.le).bind fun _ _ hsame => .pure (hsame ▸ h₁)
  · next hkind => exact ih.wordType h hc le_rfl (hfirst hkind nofun)
  · exact .fail _

/-- A type that starts with a word passes that word. -/
private theorem wordType_of_lt {word : String} (h : Ready w c 1 b b') (hstart : w.Has start)
    (hle : c ≤ start) (hlt : c.next < c) :
    Safe w c (fun _ c' => c' < c) (Parser.wordType b start word)
      (Parser.wordType b' start word) := by
  obtain ⟨b, b', rfl, rfl, ih⟩ := h.pred ih
  unfold Parser.wordType
  refine .enter h fun h => ?_
  have hword := discard_advance_lt (w := w.push .wordType c) hlt
  -- All branches pass the word; truth values and `this` are done with that.
  refine .ite (fun _ => hword.bind fun _ c₁ h₁ => .pure h₁) fun _ => .ite (fun _ => ?_) fun _ =>
    .ite (fun _ => ?_) fun _ => .ite (fun _ => ?_) fun _ =>
    .ite (fun _ => hword.bind fun _ c₁ h₁ => .pure h₁) fun _ => ?_
  · refine hword.bind fun _ c₁ h₁ => ?_
    refine (discard (ih.postfixType (h.of_lt h₁ rfl))).bind fun _ c₂ h₂ => ?_
    refine (textSince hstart.push (by order)).bind fun _ c₃ h₃ => .pure ?_
    order
  · refine hword.bind fun _ c₁ h₁ => ?_
    refine (discard (dottedName (h.of_lt h₁ rfl))).bind fun _ c₂ h₂ => ?_
    refine (textSince hstart.push (by order)).bind fun _ c₃ h₃ => .pure ?_
    order
  · refine hword.bind fun _ c₁ h₁ => ?_
    exact (ih.postfixType (h.of_lt h₁ rfl)).mono fun _ _ h₂ => by order
  -- A keyword by itself, or a name with dots and arguments.
  · split
    · exact hword.bind fun _ c₁ h₁ => .pure h₁
    · refine hword.bind fun _ c₁ h₁ => ?_
      refine (pathRest (h.of_lt h₁ rfl)).bind fun _ c₂ h₂ => ?_
      have hlt₂ : c₂ < c := by order
      refine .cursor fun _ => .ite (fun _ => ?_) fun _ => .pure hlt₂
      refine (ih.typeArguments (h.of_lt hlt₂ rfl)).bind fun _ c₃ h₃ => .pure ?_
      order

/-- An element of a tuple passes its type. -/
private theorem tupleElement_of_lt : Consumes 7 b Parser.tupleElement := by
  intro w c b' h
  obtain ⟨b, b', rfl, rfl, ih⟩ := h.pred ih
  unfold Parser.tupleElement
  refine .enter h fun h => (discard (Safe.eat .ellipsis)).bind fun _ c₁ h₁ => ?_
  refine tupleLabel.bind fun _ c₂ h₂ => ?_
  refine (ih.typeExpr (h.of_le (by order) rfl)).bind fun type c₃ h₃ => ?_
  refine (discard (Safe.eat .question)).bind fun _ c₄ h₄ => .pure ?_
  order

/-- An index signature passes its brackets, or the cursor stays where it is. -/
private theorem indexSignature_of_lt (h : Ready w c 1 b b') :
    Safe w c (fun found c' => if found.isSome then c' < c else c' = c)
      (Parser.indexSignature b) (Parser.indexSignature b') := by
  obtain ⟨b, b', rfl, rfl, ih⟩ := h.pred ih
  unfold Parser.indexSignature
  refine .enter h fun h => .cursor fun _ => .ite (fun _ => ?_) fun _ => .pure rfl
  refine (Safe.expect .leftBracket).bind fun _ c₁ h₁ => identifier.bind fun _ c₂ h₂ => ?_
  refine (Safe.expect .colon).bind fun _ c₃ h₃ => ?_
  refine (ih.typeExpr (h.of_lt (by order) rfl)).bind fun _ c₄ h₄ => ?_
  refine (Safe.expect .rightBracket).bind fun _ c₅ h₅ => ?_
  refine (discard (Safe.eat .question)).bind fun _ c₆ h₆ => ?_
  refine (Safe.expect .colon).bind fun _ c₇ h₇ => ?_
  refine (ih.typeExpr (h.of_lt (by order) rfl)).bind fun _ c₈ h₈ => .pure ?_
  -- The brackets alone make the signature take something.
  show c₈ < c
  order

/-- Members pass their opening brace. -/
private theorem typeMembers_of_lt : Consumes 1 b Parser.typeMembers := by
  intro w c b' h
  obtain ⟨b, b', rfl, rfl, ih⟩ := h.pred ih
  unfold Parser.typeMembers
  refine .enter h fun h => (Safe.expect .leftBrace).bind fun _ c₁ h₁ => ?_
  refine (ih.typeMembersRest (h.of_lt h₁ rfl)).bind fun members c₂ h₂ => ?_
  have hlt : c₂ < c := by order
  cases members with
  | some members => exact (Safe.expect .rightBrace).bind fun _ c₃ h₃ => .pure (h₃.trans hlt)
  | none => exact .pure hlt

/-- Each member leaves fewer tokens for the next ones. -/
private theorem typeMembersRest_of_lt : Keeps 4 b Parser.typeMembersRest := by
  intro w c b' h
  obtain ⟨b, b', rfl, rfl, ih⟩ := h.pred ih
  unfold Parser.typeMembersRest
  refine .enter h fun h => .cursor fun hc => .ite (fun _ => .pure le_rfl) fun _ => ?_
  have hrest : ∀ {c₁}, c₁ < c → Safe _ c₁ (fun _ c' => c' ≤ c) (Parser.typeMembersRest b)
      (Parser.typeMembersRest b') := fun h₁ =>
    (ih.typeMembersRest (h.of_lt h₁ rfl)).mono fun _ _ h₂ => h₂.trans h₁.le
  refine .ite (fun _ => .fail _) fun hmore => .ite (fun _ => ?_) fun _ => ?_
  · have hlt := hc.next_lt_of_not_atEnd hmore
    exact (discard_advance_lt hlt).bind fun _ c₁ h₁ => hrest h₁
  · refine Safe.doc.bind fun doc c₁ h₁ => ?_
    subst c₁
    refine (advanceIf _).bind fun _ c₁ h₁ => signedReadonly.bind fun _ c₂ h₂ => ?_
    refine .cursor fun _ => .ite (fun _ => ?_) fun _ => ?_
    · exact skipTypeLiteral.bind fun _ c₃ h₃ => .pure (by order)
    · -- A member takes at least one token, so that the rest is shorter.
      refine (ih.typeMember (h.of_le (by order) rfl)).bind fun member c₃ h₃ => ?_
      exact (hrest (by order)).bind fun _ _ h₄ => .pure h₄

/-- A member passes a token, in each of its forms. -/
private theorem typeMember_of_lt {readonly : Bool} {doc : Option DocComment} :
    Consumes 3 b fun b => Parser.typeMember b readonly doc := by
  intro w c b' h
  obtain ⟨b, b', rfl, rfl, ih⟩ := h.pred ih
  unfold Parser.typeMember
  refine .enter h fun h => .cursor fun hc => .ite (fun hopen => ?_) fun _ => ?_
  · refine (ih.indexSignature (h.of_le le_rfl rfl)).bind fun index c₁ h₁ => ?_
    cases index with
    | some index => exact .pure h₁
    | none =>
      -- No index signature: the brackets are passed over as a group.
      obtain rfl : c₁ = c := h₁
      have hlt := hc.next_lt_of_isMark hopen
      refine skipGroup.bind fun _ c₂ h₂ => ?_
      refine (ih.signatureRest (h.of_lt (by order) rfl)).bind fun _ c₃ h₃ => .pure ?_
      exact h₃.1.trans_lt (by order)
  · refine (advanceIf _).bind fun _ c₁ h₁ => .cursor fun _ => ?_
    refine .ite (fun hopen => ?_) fun _ => ?_
    · refine (ih.signatureRest (h.of_le h₁ rfl)).bind fun _ c₂ h₂ => .pure ?_
      exact (h₂.2 hopen).trans_le h₁
    · refine memberName.bind fun name c₂ h₂ => (Safe.eat .question).bind fun _ c₃ h₃ => ?_
      have hlt : c₃ < c := by order
      refine .cursor fun _ => .ite (fun _ => ?_) fun _ => ?_
      · refine (ih.signatureRest (h.of_lt hlt rfl)).bind fun _ c₄ h₄ => .pure ?_
        exact h₄.1.trans_lt hlt
      · refine (afterMark? fun hnext => ?_).bind fun type c₄ h₄ => .pure (h₄.trans_lt hlt)
        exact (ih.typeExpr (h.of_lt (hnext.trans hlt) rfl)).mono fun _ _ h => by order

/-- What follows the name of a method passes a token if there are parameters. -/
private theorem signatureRest_of_lt (h : Ready w c 2 b b') :
    Safe w c (fun _ c' => c' ≤ c ∧ ((c.isMark .leftParen || c.isMark .less) = true → c' < c))
      (Parser.signatureRest b) (Parser.signatureRest b') := by
  obtain ⟨b, b', rfl, rfl, ih⟩ := h.pred ih
  unfold Parser.signatureRest
  refine .enter h fun h => (discard (ih.typeParameters h)).bind fun _ c₁ h₁ => ?_
  refine skipParens.bind fun _ c₂ h₂ => ?_
  -- One of the two has passed a token if there was something to pass.
  have hle : c₂ ≤ c := by
    rcases h₁ with h₁ | ⟨-, rfl⟩
    · exact h₂.1.trans h₁.le
    · exact h₂.1
  have hlt : (c.isMark .leftParen || c.isMark .less) = true → c₂ < c := by
    intro hopen
    rcases h₁ with h₁ | ⟨hno, rfl⟩
    · exact h₂.1.trans_lt h₁
    · exact h₂.2 (by simpa [hno] using hopen)
  refine .discard ((afterMark? fun hnext => ?_).mono fun _ c₃ h₃ => ?_)
  · exact (ih.returnType (h.of_lt (hnext.trans_le hle) rfl)).mono fun _ _ h => by order
  · exact ⟨h₃.trans hle, fun hopen => h₃.trans_lt (hlt hopen)⟩

end Step

/-- The parsers of types are safe with any bound. -/
theorem all (b : Nat) : SafeTypes b := by
  induction b using Nat.strong_induction_on with
  | _ b ih => exact {
      typeExpr := typeExpr_of_lt ih
      functionHead := functionHead_of_lt ih
      functionType := functionType_of_lt ih
      returnType := returnType_of_lt ih
      typeParameters := typeParameters_of_lt ih
      typeParameter := typeParameter_of_lt ih
      typeArguments := typeArguments_of_lt ih
      unionType := unionType_of_lt ih
      intersectionType := intersectionType_of_lt ih
      postfixType := postfixType_of_lt ih
      suffixes := suffixes_of_lt ih
      primaryType := primaryType_of_lt ih
      wordType := wordType_of_lt ih
      tupleElement := tupleElement_of_lt ih
      indexSignature := indexSignature_of_lt ih
      typeMembers := typeMembers_of_lt ih
      typeMembersRest := typeMembersRest_of_lt ih
      typeMember _ _ := typeMember_of_lt ih
      signatureRest := signatureRest_of_lt ih }

end SafeTypes

/-! ## Expressions -/

/-- The parsers of expressions are safe with the bound `b`. None of them needs to pass a token. -/
structure SafeExprs (b : Nat) : Prop where
  expression : ∀ ⦃lineEnds⦄, Keeps 2 b fun b => Parser.expression b lineEnds
  literal : Keeps 1 b Parser.literal
  arrayItems : Keeps 3 b Parser.arrayItems
  objectEntries : Keeps 1 b Parser.objectEntries
  objectValue : ∀ ⦃key⦄, Keeps 1 b fun b => Parser.objectValue b key

namespace SafeExprs

/-- An assertion behind a literal may be missing. -/
private theorem typeAssertion : Keeps 1 b Parser.typeAssertion := by
  intro w c b' h
  refine .cursor fun hc => .ite (fun hword => ?_) fun _ => .pure le_rfl
  have hlt : c.next < c := by
    simp only [Bool.or_eq_true] at hword
    rcases hword with hword | hword <;> exact hc.next_lt_of_isWord hword
  refine (discard_advance_lt hlt).bind fun _ c₁ h₁ => .discard ?_
  exact ((SafeTypes.all b).typeExpr (h.of_lt h₁ rfl)).mono fun _ _ h₂ => by order

section Step

variable (ih : ∀ a < b, SafeExprs a)
include ih

/-- An expression is a literal, or its text is taken as a whole. -/
private theorem expression_of_lt {lineEnds : Bool} :
    Keeps 2 b fun b => Parser.expression b lineEnds := by
  intro w c b' h
  obtain ⟨b, b', rfl, rfl, ih⟩ := h.pred ih
  unfold Parser.expression
  refine .enter h fun h => .cursor fun hc => ?_
  -- Reading the expression again goes back to its start, where no routine is started any more.
  have hagain : ∀ {c₁}, Safe (w.push .expression c) c₁ (fun _ c' => c' ≤ c)
      (do MonadParser.moveTo c; return Expr.raw (← Parser.rawText lineEnds))
      (do MonadParser.moveTo c; return Expr.raw (← Parser.rawText lineEnds)) := by
    refine (moveTo hc).bind fun _ c₂ hsame => ?_
    subst c₂
    exact (rawText lineEnds).bind fun _ _ h₃ => .pure h₃
  refine (ih.literal h).bind fun value c₁ h₁ => ?_
  cases value with
  | none => exact hagain
  | some value =>
    refine (typeAssertion (h.of_le h₁ rfl)).bind fun _ c₂ h₂ => .cursor fun _ => ?_
    exact .ite (fun _ => .pure (h₂.trans h₁)) fun _ => hagain

/-- A literal, by its first token. It may turn out to be none after some tokens. -/
private theorem literal_of_lt : Keeps 1 b Parser.literal := by
  intro w c b' h
  obtain ⟨b, b', rfl, rfl, ih⟩ := h.pred ih
  unfold Parser.literal
  refine .enter h fun h => .cursor fun hc => ?_
  -- A token of any kind but the end can be passed.
  have hfirst : ∀ {kind : TokenKind}, c.head.kind = kind → kind ≠ .endOfFile → c.next < c :=
    fun hkind hne => hc.next_lt (by rwa [hkind])
  have hle : c.next.next ≤ c := c.next.next_le.trans c.next_le
  -- A sign is passed together with its number.
  have htwo := moveTo (c := c) (hc.of_le hle)
  split
  · exact discard_advance.bind fun _ _ h₁ => .pure h₁
  · exact .ite (fun _ => discard_advance.bind fun _ _ h₁ => .pure h₁) fun _ => .pure le_rfl
  · exact discard_advance.bind fun _ _ h₁ => .pure h₁
  · split
    · exact htwo.bind fun _ _ hsame => .pure (hsame ▸ hle)
    · exact .pure le_rfl
  · split
    · exact htwo.bind fun _ _ hsame => .pure (hsame ▸ hle)
    · exact .pure le_rfl
  · exact discard_advance.bind fun _ _ h₁ => .pure h₁
  · exact discard_advance.bind fun _ _ h₁ => .pure h₁
  · exact discard_advance.bind fun _ _ h₁ => .pure h₁
  · exact discard_advance.bind fun _ _ h₁ => .pure h₁
  · next hkind =>
    refine (discard_advance_lt (hfirst hkind nofun)).bind fun _ c₁ h₁ => ?_
    exact (pathRest (h.of_lt h₁ rfl)).bind fun _ _ h₂ => .pure (by order)
  · next hkind =>
    refine (discard_advance_lt (hfirst hkind nofun)).bind fun _ c₁ h₁ => ?_
    refine (ih.arrayItems (h.of_lt h₁ rfl)).bind fun items c₂ h₂ => ?_
    cases items with
    | some items => exact (Safe.eat .rightBracket).bind fun _ _ h₃ => .pure (by order)
    | none => exact .pure (by order)
  · next hkind =>
    refine (discard_advance_lt (hfirst hkind nofun)).bind fun _ c₁ h₁ => ?_
    refine (ih.objectEntries (h.of_lt h₁ rfl)).bind fun entries c₂ h₂ => ?_
    cases entries with
    | some entries => exact (Safe.eat .rightBrace).bind fun _ _ h₃ => .pure (by order)
    | none => exact .pure (by order)
  · exact .pure le_rfl

/-- Items with commas between them. -/
private theorem arrayItems_of_lt : Keeps 3 b Parser.arrayItems := by
  intro w c b' h
  obtain ⟨b, b', rfl, rfl, ih⟩ := h.pred ih
  unfold Parser.arrayItems
  refine .enter h fun h => .cursor fun hc => .ite (fun _ => .pure le_rfl) fun _ =>
    .ite (fun _ => .pure le_rfl) fun _ => ?_
  -- The item may be empty; then only the comma is passed.
  refine (ih.expression h).bind fun item c₁ h₁ => .eat_ite (fun hlt => ?_) fun _ => .pure h₁
  exact (ih.arrayItems (h.of_lt (by order) rfl)).bind fun _ _ h₂ => .pure (by order)

/-- Entries of an object pass their names. -/
private theorem objectEntries_of_lt : Keeps 1 b Parser.objectEntries := by
  intro w c b' h
  obtain ⟨b, b', rfl, rfl, ih⟩ := h.pred ih
  unfold Parser.objectEntries
  refine .enter h fun h => .cursor fun hc => .ite (fun _ => .pure le_rfl) fun _ => ?_
  cases hname : Parser.nameOf? c.head.kind with
  | none => exact .pure le_rfl
  | some key =>
    -- A token that can be a name does not end the file.
    have hlt : c.next < c := hc.next_lt fun hend => by simp [hend, Parser.nameOf?] at hname
    refine (discard_advance_lt hlt).bind fun _ c₁ h₁ => ?_
    refine (ih.objectValue (h.of_lt h₁ rfl)).bind fun value c₂ h₂ => ?_
    cases value with
    | none => exact .pure (by order)
    | some value =>
      refine .eat_ite (fun hnext => ?_) fun _ => .pure (by order)
      exact (ih.objectEntries (h.of_lt (by order) rfl)).bind fun _ _ h₃ => .pure (by order)

/-- A value behind a colon, or the name stands for it. -/
private theorem objectValue_of_lt {key : String} : Keeps 1 b fun b => Parser.objectValue b key := by
  intro w c b' h
  obtain ⟨b, b', rfl, rfl, ih⟩ := h.pred ih
  unfold Parser.objectValue
  refine .enter h fun h => .eat_ite (fun hlt => ?_) fun _ => ?_
  · exact (ih.expression (h.of_lt hlt rfl)).bind fun _ _ h₁ => .pure (by order)
  · exact .cursor fun _ => .ite (fun _ => .pure le_rfl) fun _ => .pure le_rfl

end Step

/-- The parsers of expressions are safe with any bound. -/
theorem all (b : Nat) : SafeExprs b := by
  induction b using Nat.strong_induction_on with
  | _ b ih => exact {
      expression _ := expression_of_lt ih
      literal := literal_of_lt ih
      arrayItems := arrayItems_of_lt ih
      objectEntries := objectEntries_of_lt ih
      objectValue _ := objectValue_of_lt ih }

end SafeExprs

end Endpoints
