import Endpoints.Proofs.WatchType
import Endpoints.Syntax.SourceFile

/-!
# Parsing is total

Declarations and whole files are parsed safely, like the types and expressions in them. Every source
text is then a syntax tree or an error after finitely many steps: the bound on the steps is never
used up, a larger one gives the same, and nothing that is watched for happens on the way.
-/

namespace Endpoints

open Endpoints.Parser

variable {w : Watch} {c : Cursor} {b b' s s' : Nat}

/-! ## Decorators and parameters -/

/-- An argument of a decorator may be empty. -/
private theorem decoratorArgument_safe : Keeps 2 b decoratorArgument := by
  intro w c b' h
  refine (Safe.expectMore _).bind fun _ c₁ h₁ => ?_
  obtain rfl := h₁.1
  exact (SafeExprs.all b).expression h

/-- A list of arguments may be missing. -/
private theorem decoratorArguments_safe : Keeps 0 b decoratorArguments := by
  intro w c b' h
  refine .eat_ite (fun hlt => ?_) fun _ => .pure le_rfl
  refine (Safe.commaList (decoratorArgument_safe.raise rfl) (h.of_lt hlt rfl)).bind ?_
  intro arguments c₁ h₁
  exact (Safe.expect .rightParen).bind fun _ c₂ h₂ => .pure (by order)

/-- So may type arguments. -/
private theorem decoratorTypeArguments_safe : Keeps 1 b decoratorTypeArguments := by
  intro w c b' h
  refine .cursor fun _ => .ite (fun _ => ?_) fun _ => .pure le_rfl
  exact ((SafeTypes.all b).typeArguments h).mono fun _ _ hlt => hlt.le

/-- A decorator passes its at sign. -/
private theorem decorator_safe (h : Ready w c 0 b b') (hlt : c.next < c) :
    Safe w c (fun _ c' => c' < c) (decorator b) (decorator b') := by
  refine Safe.advance.bind fun t c₁ h₁ => ?_
  have hlt₁ : c₁ < c := h₁.2 ▸ hlt
  refine (Safe.dottedName (h.of_lt hlt₁ rfl)).bind fun name c₂ h₂ => ?_
  refine (decoratorTypeArguments_safe (h.of_lt (by order) rfl)).bind fun _ c₃ h₃ => ?_
  refine (decoratorArguments_safe (h.of_lt (by order) rfl)).bind fun _ c₄ h₄ => .pure ?_
  order

/-- Each decorator leaves fewer tokens for the next ones. -/
private theorem decorators_go_safe (h : Ready w c 1 s s') (hb : Ready w c 0 b b') :
    Safe w c (fun _ c' => c' ≤ c) (decorators.go b s) (decorators.go b' s') := by
  induction s using Nat.strong_induction_on generalizing s' w c with
  | _ s ih =>
    obtain ⟨s, s', rfl, rfl, ih⟩ := h.pred ih
    unfold decorators.go
    refine .enter h fun h => .cursor fun hc => .ite (fun hmark => ?_) fun _ => .pure le_rfl
    have hb' := h.withBounds hb
    refine (decorator_safe hb' (hc.next_lt_of_isMark hmark)).bind fun first c₁ h₁ => ?_
    refine (ih (h.of_lt h₁ rfl) (hb'.of_lt h₁ rfl)).bind fun rest c₂ h₂ => ?_
    exact .pure (by order)

private theorem decorators_safe : Keeps 1 b decorators :=
  fun _ _ _ h => decorators_go_safe h (h.of_le le_rfl rfl)

/-- The name of a parameter, or a pattern in brackets in its place. -/
private theorem parameterName_safe :
    Safe w c (fun _ c' => c' < c) parameterName parameterName := by
  refine .cursor fun hc => .ite (fun hopen => ?_) fun _ => .identifier
  have hlt : c.next < c := by
    simp only [Bool.or_eq_true] at hopen
    rcases hopen with hopen | hopen <;> exact hc.next_lt_of_isMark hopen
  exact Safe.skipGroup.bind fun _ c₁ h₁ => .pure (by order)

/-- The parts of a parameter, of which only the name must be there. -/
private theorem parameter_safe : Keeps 1 b parameter := by
  intro w c b' h
  refine (Safe.expectMore _).bind fun _ c₁ h₁ => ?_
  obtain rfl := h₁.1
  refine (decorators_safe h).bind fun _ c₂ h₂ => ?_
  refine (Safe.modifiers (h.of_le h₂ rfl)).bind fun _ c₃ h₃ => ?_
  refine (Safe.eat .ellipsis).bind fun _ c₄ h₄ => parameterName_safe.bind fun name c₅ h₅ => ?_
  refine (Safe.eat .question).bind fun _ c₆ h₆ => ?_
  refine (Safe.afterMark? fun hlt => ?_).bind fun _ c₇ h₇ => ?_
  · exact ((SafeTypes.all b).typeExpr (h.of_lt (by order) rfl)).mono fun _ _ h => by order
  refine (Safe.afterMark? fun hlt => ?_).bind fun _ c₈ h₈ => ?_
  · exact ((SafeExprs.all b).expression (h.of_lt (by order) rfl)).mono fun _ _ h => by order
  exact .ite (fun _ => .pure (by order)) fun _ => .pure (by order)

/-- Parameters pass their parentheses. -/
private theorem parameters_safe : Consumes 0 b parameters := by
  intro w c b' h
  refine (Safe.expect .leftParen).bind fun _ c₁ h₁ => ?_
  refine (Safe.commaList (parameter_safe.raise rfl) (h.of_lt h₁ rfl)).bind ?_
  intro parameters c₂ h₂
  exact (Safe.expect .rightParen).bind fun _ c₃ h₃ => .pure (by order)

/-! ## Classes -/

/-- A parent is a type, and what stands in parentheses behind it is passed over. -/
private theorem heritageType_safe : Consumes 2 b heritageType := by
  intro w c b' h
  refine .cursor fun hc => ((SafeTypes.all b).primaryType h).bind fun type c₁ h₁ => ?_
  refine .cursor fun _ => .ite (fun _ => ?_) fun _ => .pure h₁
  refine Safe.skipGroup.bind fun _ c₂ h₂ => ?_
  have hle := h₂.trans c₁.next_le
  exact (Safe.textSince hc (by order)).bind fun _ c₃ h₃ => .pure (by order)

/-- The two clauses may come in any order and more than once. -/
private theorem heritage_go_safe {superclass : Option TypeExpr} {interfaces : List TypeExpr}
    (h : Ready w c 1 s s') (hb : Ready w c 0 b b') :
    Safe w c (fun _ c' => c' ≤ c) (heritage.go b superclass interfaces s)
      (heritage.go b' superclass interfaces s') := by
  induction s using Nat.strong_induction_on generalizing s' w c superclass interfaces with
  | _ s ih =>
    obtain ⟨s, s', rfl, rfl, ih⟩ := h.pred ih
    unfold heritage.go
    refine .enter h fun h => .eatWord_ite (fun hlt => ?_)
      (.eatWord_ite (fun hlt => ?_) (.pure le_rfl))
    -- A superclass.
    · have hb' := h.withBounds hb
      refine (heritageType_safe (hb'.of_lt hlt rfl)).bind fun _ c₁ h₁ => ?_
      have hlt₁ : c₁ < c := by order
      exact (ih (h.of_lt hlt₁ rfl) (hb'.of_lt hlt₁ rfl)).mono fun _ _ h₂ => by order
    -- A list of interfaces.
    · have hb' := h.withBounds hb
      refine (Safe.commaSeparated (heritageType_safe.raise rfl) (hb'.of_lt hlt rfl)).bind
        fun _ c₁ h₁ => ?_
      have hlt₁ : c₁ < c := by order
      exact (ih (h.of_lt hlt₁ rfl) (hb'.of_lt hlt₁ rfl)).mono fun _ _ h₂ => by order

/-- What is left of a member is passed over, group by group. -/
private theorem skipMemberRest_safe : Keeps 1 b skipMemberRest := by
  intro w c b' h
  induction b using Nat.strong_induction_on generalizing b' w c with
  | _ b ih =>
    obtain ⟨b, b', rfl, rfl, ih⟩ := h.pred ih
    unfold skipMemberRest
    refine .enter h fun h => .cursor fun hc => .ite (fun _ => ?_) fun hmore => ?_
    · exact .discard (Safe.eat .semicolon)
    -- At the end the loop has stopped, so here is a token to pass.
    have hlt : c.next < c := hc.next_lt_of_not_atEnd fun hend => hmore (by simp [hend])
    refine .ite (fun _ => ?_) fun _ => .ite (fun _ => ?_) fun _ => ?_
    · exact Safe.skipGroup.mono fun _ _ h₁ => by order
    · refine Safe.skipGroup.bind fun _ c₁ h₁ => ?_
      exact (ih (h.of_lt (by order) rfl)).mono fun _ _ h₂ => by order
    · refine (Safe.discard_advance_lt hlt).bind fun _ c₁ h₁ => ?_
      exact (ih (h.of_lt h₁ rfl)).mono fun _ _ h₂ => by order

/-- A body, or a semicolon in its place. -/
private theorem body_safe : Safe w c (fun _ c' => c' ≤ c) body body := by
  refine .cursor fun _ => .ite (fun _ => ?_) fun _ => ?_
  · exact Safe.skipBody.mono fun _ _ h₁ => h₁.trans c.next_le
  · exact (Safe.discard (Safe.eat .semicolon)).bind fun _ _ h₁ => .pure h₁

/-- Type parameters may be missing. -/
private theorem typeParameters_safe : Keeps 1 b typeParameters := by
  intro w c b' h
  refine ((SafeTypes.all b).typeParameters h).mono fun _ c₁ h₁ => ?_
  rcases h₁ with h₁ | ⟨-, rfl⟩
  · exact h₁.le
  · exact le_rfl

/-- A method or a property, which both start with a name. -/
private theorem namedMember_safe {head : Parser.MemberHead} :
    Consumes 0 b fun b => namedMember b head := by
  intro w c b' h
  refine (Safe.eat .hash).bind fun _ c₁ h₁ => Safe.memberName.bind fun name c₂ h₂ => ?_
  refine (Safe.eat .question).bind fun _ c₃ h₃ => ?_
  refine (Safe.discard (Safe.eat .bang)).bind fun _ c₄ h₄ => ?_
  have hlt : c₄ < c := by order
  have htype : ∀ {d}, d < c → Safe w d (fun _ c' => c' < d) (typeExpr b)
      (typeExpr b') := fun hd => (SafeTypes.all b).typeExpr (h.of_lt hd rfl)
  refine .cursor fun _ => .ite (fun _ => ?_) fun _ => ?_
  -- A method, with or without a body.
  · refine (typeParameters_safe (h.of_lt hlt rfl)).bind fun _ c₅ h₅ => ?_
    refine (parameters_safe (h.of_lt (by order) rfl)).bind fun _ c₆ h₆ => ?_
    refine (Safe.afterMark? fun hnext => ?_).bind fun _ c₇ h₇ => ?_
    · exact ((SafeTypes.all b).returnType (h.of_lt (by order) rfl)).mono
        fun _ _ h => by order
    refine body_safe.bind fun _ c₈ h₈ => ?_
    exact .ite (fun _ => .pure (by order)) fun _ => .pure (by order)
  -- A property, with its type and its initializer.
  · refine (Safe.afterMark? fun hnext => ?_).bind fun _ c₅ h₅ => ?_
    · exact (htype (by order)).mono fun _ _ h => by order
    refine (Safe.afterMark? fun hnext => ?_).bind fun _ c₆ h₆ => ?_
    · exact ((SafeExprs.all b).expression (h.of_lt (by order) rfl)).mono
        fun _ _ h => by order
    exact (Safe.discard (Safe.eat .semicolon)).bind fun _ c₇ h₇ => .pure (by order)

/-- A member of a class takes at least one token. -/
private theorem classMember_safe : Consumes 1 b classMember := by
  intro w c b' h
  refine Safe.doc.bind fun doc c₁ hsame => ?_
  subst c₁
  refine .cursor fun _ => (decorators_safe h).bind fun _ c₁ h₁ => ?_
  refine (Safe.modifiers (h.of_le h₁ rfl)).bind fun modifiers c₂ h₂ => ?_
  refine .cursor fun hc₂ => .ite (fun hstatic => ?_) fun _ => ?_
  · simp only [Bool.and_eq_true] at hstatic
    have hlt := hc₂.next_lt_of_isMark hstatic.2
    exact Safe.skipGroup.bind fun _ c₃ h₃ => .pure (by order)
  refine (Safe.advanceIf _).bind fun _ c₃ h₃ => ?_
  refine (Safe.discard (Safe.eat .star)).bind fun _ c₄ h₄ => .cursor fun hc₄ => ?_
  have hle : c₄ ≤ c := by order
  -- A constructor, something in brackets, or a member with a name.
  refine .ite (fun hword => ?_) fun _ => .ite (fun hopen => ?_) fun _ => ?_
  · simp only [Bool.and_eq_true] at hword
    have hlt := hc₄.next_lt_of_isWord hword.1
    refine (Safe.discard_advance_lt hlt).bind fun _ c₅ h₅ => ?_
    refine (parameters_safe (h.of_lt (by order) rfl)).bind fun _ c₆ h₆ => ?_
    exact (Safe.discard body_safe).bind fun _ c₇ h₇ => .pure (by order)
  · refine ((SafeTypes.all b).indexSignature (h.of_le hle rfl)).bind fun index c₅ h₅ => ?_
    cases index with
    | some index =>
      have hlt : c₅ < c₄ := h₅
      exact (Safe.discard (Safe.eat .semicolon)).bind fun _ c₆ h₆ => .pure (by order)
    | none =>
      -- No index signature: the cursor is still at the bracket, so that the group is passed over.
      obtain rfl : c₅ = c₄ := h₅
      have hlt := hc₄.next_lt_of_isMark hopen
      refine Safe.skipGroup.bind fun _ c₆ h₆ => ?_
      refine (skipMemberRest_safe (h.of_lt (by order) rfl)).bind fun _ c₇ h₇ => .pure ?_
      order
  · exact (namedMember_safe (h.of_le hle rfl)).mono fun _ _ h₅ => by order

/-- Each member of a class leaves fewer tokens for the next ones. -/
private theorem classMembers_go_safe (h : Ready w c 2 s s') (hb : Ready w c 1 b b') :
    Safe w c (fun _ c' => c' ≤ c) (classMembers.go b s) (classMembers.go b' s') := by
  induction s using Nat.strong_induction_on generalizing s' w c with
  | _ s ih =>
    obtain ⟨s, s', rfl, rfl, ih⟩ := h.pred ih
    unfold classMembers.go
    refine .enter h fun h => .cursor fun hc => .ite (fun _ => .pure le_rfl) fun _ => ?_
    have hb' := h.withBounds hb
    -- Once something is read, the loop goes on with a smaller bound.
    have hrest : ∀ {d}, d < c → Safe (w.push .classMembers c) d (fun _ c' => c' ≤ c)
        (classMembers.go b s) (classMembers.go b' s') := fun hd =>
      (ih (h.of_lt hd rfl) (hb'.of_lt hd rfl)).mono fun _ _ h₂ => by order
    refine .ite (fun _ => .fail _) fun hmore => .ite (fun _ => ?_) fun _ => ?_
    · have hlt := hc.next_lt_of_not_atEnd hmore
      exact (Safe.discard_advance_lt hlt).bind fun _ c₁ h₁ => hrest h₁
    · refine (classMember_safe hb').bind fun member c₁ h₁ => ?_
      exact (hrest h₁).bind fun _ c₂ h₂ => .pure h₂

/-- The name of a class may be missing. -/
private theorem className_safe :
    Safe w c (fun _ c' => c' ≤ c) className className := by
  refine .cursor fun hc => ?_
  cases hword : c.word? with
  | none => exact .pure le_rfl
  | some name =>
    refine .ite (fun _ => .pure le_rfl) fun _ => ?_
    exact (Safe.moveTo (hc.of_le c.next_le)).bind fun _ _ hsame => .pure (hsame ▸ c.next_le)

/-- A class passes its keyword at least. -/
private theorem classDecl_safe {head : Parser.DeclarationHead} (h : Ready w c 0 b b')
    (hlt : c.next < c) :
    Safe w c (fun _ c' => c' < c) (classDecl b head) (classDecl b' head) := by
  refine (Safe.discard_advance_lt hlt).bind fun _ c₁ h₁ => className_safe.bind fun _ c₂ h₂ => ?_
  refine (typeParameters_safe (h.of_lt (by order) rfl)).bind fun _ c₃ h₃ => ?_
  refine (heritage_go_safe (h.of_lt (by order) rfl) (h.of_lt (by order) rfl)).bind ?_
  rintro ⟨superclass, interfaces⟩ c₄ h₄
  refine (Safe.expect .leftBrace).bind fun _ c₅ h₅ => ?_
  refine (classMembers_go_safe (h.of_lt (by order) rfl) (h.of_lt (by order) rfl)).bind
    fun _ c₆ h₆ => ?_
  exact (Safe.expect .rightBrace).bind fun _ c₇ h₇ => .pure (by order)

/-! ## Other declarations -/

section Declarations

variable {head : Parser.DeclarationHead}

/-- An interface passes its name. -/
private theorem interfaceDecl_safe : Consumes 0 b fun b => interfaceDecl b head := by
  intro w c b' h
  refine Safe.discard_advance.bind fun _ c₁ h₁ => Safe.identifier.bind fun _ c₂ h₂ => ?_
  refine (typeParameters_safe (h.of_lt (by order) rfl)).bind fun _ c₃ h₃ => ?_
  refine (Safe.afterWord? fun hnext => ?_).bind fun _ c₄ h₄ => ?_
  · exact (Safe.commaSeparated (heritageType_safe.raise rfl) (h.of_lt (by order) rfl)).mono
      fun _ _ h => by order
  -- The members follow the parents, and without them the declaration fails.
  have hready : Ready w c₄ 1 b b' := h.of_lt (by order) rfl
  refine ((SafeTypes.all b).typeMembers hready).bind fun members c₅ h₅ => ?_
  cases members with
  | some members => exact .pure (by order)
  | none => exact .fail _

/-- So does an alias. -/
private theorem aliasDecl_safe : Consumes 0 b fun b => aliasDecl b head := by
  intro w c b' h
  refine Safe.discard_advance.bind fun _ c₁ h₁ => Safe.identifier.bind fun _ c₂ h₂ => ?_
  refine (typeParameters_safe (h.of_lt (by order) rfl)).bind fun _ c₃ h₃ => ?_
  refine (Safe.expect .assign).bind fun _ c₄ h₄ => ?_
  refine ((SafeTypes.all b).typeExpr (h.of_lt (by order) rfl)).bind fun _ c₅ h₅ => ?_
  exact (Safe.discard (Safe.eat .semicolon)).bind fun _ c₆ h₆ => .pure (by order)

/-- A member of an enum may have a value. -/
private theorem enumMember_safe : Keeps 0 b enumMember := by
  intro w c b' h
  refine Safe.doc.bind fun doc c₁ hsame => ?_
  subst c₁
  refine Safe.memberName.bind fun name c₁ h₁ => ?_
  refine (Safe.afterMark? fun hnext => ?_).bind fun _ c₂ h₂ => .pure (by order)
  exact ((SafeExprs.all b).expression (h.of_lt (by order) rfl)).mono fun _ _ h => by order

/-- An enum passes its name. -/
private theorem enumDecl_safe {isConst : Bool} :
    Consumes 0 b fun b => enumDecl b head isConst := by
  intro w c b' h
  refine Safe.discard_advance.bind fun _ c₁ h₁ => Safe.identifier.bind fun _ c₂ h₂ => ?_
  refine (Safe.expect .leftBrace).bind fun _ c₃ h₃ => ?_
  have hready : Ready w c₃ 8 b b' := h.of_lt (by order) rfl
  refine (Safe.commaList (enumMember_safe.raise rfl) hready).bind fun _ c₄ h₄ => ?_
  exact (Safe.expect .rightBrace).bind fun _ c₅ h₅ => .pure (by order)

end Declarations

/-! ## Statements -/

/-- Each step of an import passes a token, unless it ends there. -/
private theorem importRest_safe : Keeps 1 b importRest := by
  intro w c b' h
  induction b using Nat.strong_induction_on generalizing b' w c with
  | _ b ih =>
    obtain ⟨b, b', rfl, rfl, ih⟩ := h.pred ih
    unfold importRest
    refine .enter h fun h => .cursor fun hc => ?_
    have hrest : ∀ {d}, d < c → Safe (w.push .importRest c) d (fun _ c' => c' ≤ c)
        (importRest b) (importRest b') := fun hd =>
      (ih (h.of_lt hd rfl)).mono fun _ _ h₂ => by order
    split
    · refine Safe.discard_advance.bind fun _ c₁ h₁ => ?_
      exact (Safe.discard (Safe.eat .semicolon)).bind fun _ c₂ h₂ => .pure (by order)
    · exact .pure le_rfl
    · exact Safe.discard_advance.bind fun _ c₁ h₁ => .pure h₁
    -- The group in braces has at least its first token.
    · next hkind =>
      have hlt := hc.next_lt (by rw [hkind]; exact nofun)
      exact Safe.skipGroup.bind fun _ c₁ h₁ => hrest (by order)
    · next hnot _ _ =>
      have hlt := hc.next_lt fun hend => hnot hend
      exact (Safe.discard_advance_lt hlt).bind fun _ c₁ h₁ => hrest h₁

/-- An import passes its keyword. -/
private theorem importStatement_safe (h : Ready w c 0 b b') (hlt : c.next < c) :
    Safe w c (fun _ c' => c' < c) (importStatement b) (importStatement b') := by
  refine (Safe.discard_advance_lt hlt).bind fun _ c₁ h₁ => ?_
  exact (importRest_safe (h.of_lt h₁ rfl)).mono fun _ _ h₂ => by order

/-- The head of a declaration may be empty. -/
private theorem declarationHead_safe : Keeps 1 b declarationHead := by
  intro w c b' h
  refine Safe.doc.bind fun doc c₁ hsame => ?_
  subst c₁
  refine .cursor fun _ => (decorators_safe h).bind fun _ c₁ h₁ => ?_
  refine (Safe.modifiers (h.of_le h₁ rfl)).bind fun _ c₂ h₂ => ?_
  exact (decorators_safe (h.of_le (by order) rfl)).bind fun _ c₃ h₃ => .pure (by order)

/-- The name of a namespace is a dotted name or a string. -/
private theorem namespaceName_safe : Consumes 0 b namespaceName := by
  -- The first token is known only after it has been passed.
  intro w c b' h hc
  refine Safe.bind Safe.advance ?_ hc
  rintro t c₁ ⟨rfl, rfl⟩
  have hrest : c.head.kind ≠ .endOfFile → ∀ first, Safe w c.next (fun _ c' => c' < c)
      (do return ".".intercalate (first :: (← afterEach .dot identifier b)))
      (do return ".".intercalate (first :: (← afterEach .dot identifier b'))) := by
    intro hkind first
    have hlt := hc.next_lt hkind
    refine (Safe.afterEach Safe.identifiers (h.of_lt hlt rfl)).bind ?_
    exact fun _ c₂ h₂ => .pure (by order)
  split
  · next hkind => exact hrest (by rw [hkind]; exact nofun) _
  · next hkind => exact hrest (by rw [hkind]; exact nofun) _
  · exact .fail _

/-- The parsers of statements are safe with the bound `b`. A statement takes at least one token,
unless there is none. -/
structure SafeStatements (b : Nat) : Prop where
  statements : ∀ ⦃inBlock⦄, Keeps 3 b fun b => statements b inBlock
  statement : ∀ {w c b'}, Ready w c 2 b b' → c.next < c →
    Safe w c (fun _ c' => c' < c) (statement b) (statement b')
  namespaceDecl : ∀ ⦃line⦄, Consumes 1 b fun b => namespaceDecl b line

namespace SafeStatements

/-- A list of statements, from what holds with smaller bounds. -/
private theorem statements_of_lt (ih : ∀ a < b, SafeStatements a) {inBlock : Bool} :
    Keeps 3 b fun b => Parser.statements b inBlock := by
  intro w c b' h
  obtain ⟨b, b', rfl, rfl, ih⟩ := h.pred ih
  unfold Parser.statements
  refine .enter h fun h => .cursor fun hc => .ite (fun _ => ?_) fun hmore => ?_
  · exact .ite (fun _ => .fail _) fun _ => .pure le_rfl
  have hlt := hc.next_lt_of_not_atEnd hmore
  -- Behind a token or a statement the loop goes on.
  have hrest : ∀ {d}, d < c → Safe (w.push .statements c) d (fun _ c' => c' ≤ c)
      (Parser.statements b inBlock) (Parser.statements b' inBlock) := fun hd =>
    (ih.statements (h.of_lt hd rfl)).mono fun _ _ h₂ => by order
  refine .ite (fun _ => .pure le_rfl) fun _ => .ite (fun _ => ?_) fun _ => ?_
  · exact (Safe.discard_advance_lt hlt).bind fun _ c₁ h₁ => hrest h₁
  · refine (ih.statement h hlt).bind ?_
    rintro ⟨first, imports⟩ c₁ h₁
    exact (hrest h₁).bind fun _ c₂ h₂ => .pure h₂

/-- One statement, from what holds with smaller bounds. -/
private theorem statement_of_lt (ih : ∀ a < b, SafeStatements a) (h : Ready w c 2 b b')
    (hlt : c.next < c) :
    Safe w c (fun _ c' => c' < c) (Parser.statement b) (Parser.statement b') := by
  obtain ⟨b, b', rfl, rfl, ih⟩ := h.pred ih
  unfold Parser.statement
  refine .enter h fun h => (declarationHead_safe h).bind fun head c₁ h₁ => .cursor fun hc₁ => ?_
  have hready : Ready (w.push .statement c) c₁ 1 b b' := h.of_le h₁ rfl
  have hlow : Ready (w.push .statement c) c₁ 0 b b' := hready.of_le le_rfl rfl
  -- Whatever stands before it has been passed already, a skipped statement takes a token.
  have hnext : c₁.next < c := Cursor.next_lt_of_le h₁ hlt
  have hskip : Safe (w.push .statement c) c₁ (fun _ c' => c' < c)
      (do skipStatement; return (([], []) : Parser.Statements))
      (do skipStatement; return (([], []) : Parser.Statements)) :=
    Safe.skipStatement.bind fun _ c₂ h₂ => .pure (by order)
  have hspace : ∀ {d}, d ≤ c₁ → Safe (w.push .statement c) d (fun _ c' => c' < c)
      (Parser.namespaceDecl b head.line) (Parser.namespaceDecl b' head.line) := fun hd =>
    (ih.namespaceDecl (hready.of_le hd rfl)).mono fun _ _ h₂ => by order
  -- One case for each keyword, and everything else is skipped.
  refine .ite (fun hword => ?_) fun _ => .ite (fun hword => ?_) fun _ => .ite (fun _ => ?_) fun _ =>
    .ite (fun _ => ?_) fun _ => .ite (fun _ => ?_) fun _ => .ite (fun _ => ?_) fun _ =>
    .ite (fun _ => ?_) fun _ => .ite (fun _ => ?_) fun _ => hskip
  · simp only [Bool.and_eq_true] at hword
    have hlt₁ := hc₁.next_lt_of_isWord hword.1
    exact (importStatement_safe hlow hlt₁).bind fun _ c₂ h₂ => .pure (by order)
  · have hlt₁ := hc₁.next_lt_of_isWord hword
    exact (classDecl_safe hlow hlt₁).bind fun _ c₂ h₂ => .pure (by order)
  · exact (interfaceDecl_safe hlow).bind fun _ c₂ h₂ => .pure (by order)
  · exact (aliasDecl_safe hlow).bind fun _ c₂ h₂ => .pure (by order)
  · exact (enumDecl_safe hlow).bind fun _ c₂ h₂ => .pure (by order)
  · refine Safe.discard_advance.bind fun _ c₂ h₂ => ?_
    exact (enumDecl_safe (hlow.of_le h₂ rfl)).bind fun _ c₃ h₃ => .pure (by order)
  · split
    · exact Safe.discard_advance.bind fun _ c₂ h₂ => hspace h₂
    · exact Safe.discard_advance.bind fun _ c₂ h₂ => hspace h₂
    · exact hskip
  · exact hspace le_rfl

/-- A namespace, from what holds with smaller bounds. -/
private theorem namespaceDecl_of_lt (ih : ∀ a < b, SafeStatements a) {line : Nat} :
    Consumes 1 b fun b => Parser.namespaceDecl b line := by
  intro w c b' h
  obtain ⟨b, b', rfl, rfl, ih⟩ := h.pred ih
  unfold Parser.namespaceDecl
  refine .enter h fun h => (namespaceName_safe h).bind fun name c₁ h₁ => ?_
  refine .eat_ite (fun hlt => ?_) fun _ => ?_
  · refine (ih.statements (h.of_lt (by order) rfl)).bind ?_
    rintro ⟨inner, imports⟩ c₂ h₂
    exact (Safe.expect .rightBrace).bind fun _ c₃ h₃ => .pure (by order)
  · exact (Safe.discard (Safe.eat .semicolon)).bind fun _ c₂ h₂ => .pure (by order)

/-- The parsers of statements are safe with any bound. -/
theorem all (b : Nat) : SafeStatements b := by
  induction b using Nat.strong_induction_on with
  | _ b ih => exact {
      statements _ := statements_of_lt ih
      statement := statement_of_lt ih
      namespaceDecl _ := namespaceDecl_of_lt ih }

end SafeStatements

/-! ## Source files -/

/-- The watched parse of a source text, with a bound that is larger by `extra`. -/
def SourceFile.watchedParse (source : String) (extra : Nat) :
    Except Breach (Except SyntaxError SourceFile) :=
  match TokenStream.ofText source with
  | .error e => .ok (.error ⟨e.line, .lexical e.fault⟩)
  | .ok stream =>
    match (sourceFile (stream.cursor.bound + extra) : Watched SourceFile).run
        ⟨source, stream, []⟩ stream.cursor with
    | .ok (.ok (file, _)) => .ok (.ok file)
    | .ok (.error e) => .ok (.error e)
    | .error breach => .error breach

/-- A file is parsed safely with any two bounds that are large enough. -/
theorem sourceFile_safe {source : String} {stream : TokenStream}
    (hb : stream.cursor.bound ≤ b) (hb' : stream.cursor.bound ≤ b') :
    Safe ⟨source, stream, []⟩ stream.cursor (fun _ _ => True) (sourceFile b)
      (sourceFile b') := by
  rw [Cursor.bound] at hb hb'
  have hready : Ready ⟨source, stream, []⟩ stream.cursor 3 b b' :=
    ⟨fun _ hmem => (nomatch hmem), by omega, by omega⟩
  exact ((SafeStatements.all b).statements hready).bind fun _ _ _ => .pure trivial

/-- Parsing is total: for every source text the bound suffices, and a run that is watched, with this
bound or any larger one, gives the same result. So no routine starts again before a token has been
passed, the cursor stays in the stream, every text is a slice of the source, and no bracket is
closed that is not open. -/
theorem parse_total (source : String) :
    (∀ extra, SourceFile.watchedParse source extra = .ok (SourceFile.parse source)) ∧
      ∀ line, SourceFile.parse source ≠ .error ⟨line, .unbounded⟩ := by
  unfold SourceFile.watchedParse SourceFile.parse
  cases htext : TokenStream.ofText source with
  | error e =>
    refine ⟨fun _ => rfl, fun line heq => ?_⟩
    exact nomatch (SyntaxError.mk.inj (Except.error.inj heq)).2
  | ok stream =>
    have hhas : (⟨source, stream, []⟩ : Watch).Has stream.cursor :=
      ⟨TokenStream.ofText_tiles htext, le_rfl⟩
    refine ⟨fun extra => ?_, fun line heq => ?_⟩
    -- The watched run has the larger bound, the plain one its own.
    · obtain ⟨hwatched, -⟩ := sourceFile_safe (Nat.le_add_right _ extra) le_rfl hhas
      simp only [hwatched, SourceFile.ofTokens]
      cases run (sourceFile stream.cursor.bound) stream.cursor <;> rfl
    · obtain ⟨-, hend⟩ := sourceFile_safe le_rfl le_rfl hhas
      simp only [SourceFile.ofTokens] at heq
      split at heq
      · exact nomatch heq
      · next e he =>
        rw [he] at hend
        exact hend (by rw [Except.error.inj heq])

end Endpoints
