import Endpoints.Proofs.Bare
import Endpoints.Syntax.SourceFile

/-!
# Declarations without places

Decorators, methods and declarations carry the line that they start on. `bare` takes the lines away.
Places do not matter to the parser of a file but for these lines.
-/

namespace Endpoints

open Cursor

/-! ## Lines -/

/-- The decorator without its line. -/
def Decorator.bare (d : Decorator) : Decorator :=
  { d with line := 0 }

def ParameterDecl.bare (p : ParameterDecl) : ParameterDecl :=
  { p with decorators := p.decorators.map Decorator.bare }

def PropertyDecl.bare (p : PropertyDecl) : PropertyDecl :=
  { p with decorators := p.decorators.map Decorator.bare }

def MethodDecl.bare (m : MethodDecl) : MethodDecl :=
  { m with
    decorators := m.decorators.map Decorator.bare
    parameters := m.parameters.map ParameterDecl.bare
    line := 0 }

def ClassMember.bare : ClassMember → ClassMember
  | property p => property p.bare
  | method m => method m.bare
  | constructor parameters => constructor (parameters.map ParameterDecl.bare)
  | index signature => index signature

def ClassDecl.bare (c : ClassDecl) : ClassDecl :=
  { c with
    decorators := c.decorators.map Decorator.bare
    members := c.members.map ClassMember.bare
    line := 0 }

def InterfaceDecl.bare (i : InterfaceDecl) : InterfaceDecl :=
  { i with line := 0 }

def AliasDecl.bare (a : AliasDecl) : AliasDecl :=
  { a with line := 0 }

def EnumDecl.bare (e : EnumDecl) : EnumDecl :=
  { e with line := 0 }

namespace Statement

mutual

def bare : Statement → Statement
  | classDecl c => classDecl c.bare
  | interfaceDecl i => interfaceDecl i.bare
  | aliasDecl a => aliasDecl a.bare
  | enumDecl e => enumDecl e.bare
  | namespaceDecl name _ statements => namespaceDecl name 0 (bareAll statements)

def bareAll : List Statement → List Statement
  | [] => []
  | s :: statements => s.bare :: bareAll statements

end

/-- `Statement.bareAll` is the map of `Statement.bare`. -/
private theorem bareAll_eq (statements : List Statement) :
    bareAll statements = statements.map bare := by
  induction statements with
  | nil => rfl
  | cons s statements ih => rw [bareAll, ih, List.map_cons]

end Statement

namespace Parser

open MonadParser

/-- What has been read before a declaration, without lines. -/
def DeclarationHead.bare (head : DeclarationHead) : DeclarationHead :=
  { head with decorators := head.decorators.map Decorator.bare, line := 0 }

def MemberHead.bare (head : MemberHead) : MemberHead :=
  { head with decorators := head.decorators.map Decorator.bare, line := 0 }

section Declarations

attribute [local simp] Option.bind_map Option.map_bind Function.comp_def

private theorem bare_doc : Bare id (doc : Parser (Option DocComment)) := by
  intro c
  simp

/-- Places do not matter to `advanceIf`. -/
private theorem bare_advanceIf (condition : Bool) :
    Bare id (advanceIf condition : Parser Unit) := by
  intro c
  cases condition <;> simp [advanceIf]

private theorem bare_discard_eat (mark : Punct) : Bare id (discard (eat mark) : Parser Unit) := by
  intro c
  cases h : c.isMark mark <;> simp [h]

/-! ## Decorators and parameters -/

variable (b : Nat)

/-- The arguments of a decorator in parentheses. -/
private theorem bare_decoratorArguments : Bare id (decoratorArguments b : Parser (List Expr)) := by
  have hargument : Bare id (decoratorArgument b : Parser Expr) := by
    intro c
    simp [decoratorArgument, (BareExprs.all b).expression]
  intro c
  simp [decoratorArguments, bare_commaList hargument]

/-- The type arguments of a decorator. -/
private theorem bare_decoratorTypeArguments :
    Bare id (decoratorTypeArguments b : Parser (List TypeExpr)) := by
  intro c
  simp [decoratorTypeArguments, (BareTypes.all b).typeArguments]

/-- A decorator, which notes its line. -/
private theorem bare_decorator : Bare Decorator.bare (decorator b : Parser Decorator) := by
  intro c
  simp [decorator, bare_dottedName, bare_decoratorTypeArguments, bare_decoratorArguments,
    Decorator.bare]

/-- The loop of `decorators`, with any number of steps left. -/
private theorem bare_decorators_go (steps : Nat) :
    Bare (List.map Decorator.bare) (decorators.go b steps : Parser (List Decorator)) := by
  induction steps with
  | zero => exact bare_unbounded
  | succ steps ih =>
    intro c
    -- One round reads a decorator if there is one, and ends otherwise.
    rw [decorators.go]
    simp [bare_decorator, ih]

private theorem bare_decorators :
    Bare (List.map Decorator.bare) (decorators b : Parser (List Decorator)) :=
  bare_decorators_go b b

private theorem bare_parameterModifiers (known : ParameterModifiers) (word : String) (c : Cursor) :
    known.add? word c.bare = known.add? word c := by
  simp [ParameterModifiers.add?]

private theorem bare_parameterName : Bare id (parameterName : Parser String) := by
  intro c
  simp [parameterName, bare_skipGroup]

/-- A parameter, with its decorators, type and initializer. -/
private theorem bare_parameter :
    Bare (Option.map ParameterDecl.bare) (parameter b : Parser (Option ParameterDecl)) := by
  intro c
  simp [parameter, bare_decorators, bare_modifiers bare_parameterModifiers, bare_parameterName,
    bare_afterMark? (BareTypes.all b).typeExpr,
    bare_afterMark? ((BareExprs.all b).expression false), ParameterDecl.bare]

/-- The parameters of a method, without those that are left out. -/
private theorem bare_parameters :
    Bare (List.map ParameterDecl.bare) (parameters b : Parser (List ParameterDecl)) := by
  intro c
  simp [parameters, bare_commaList (bare_parameter b), List.filterMap_map, List.map_filterMap]

/-! ## Classes -/

private theorem bare_heritageType : Bare id (heritageType b : Parser TypeExpr) := by
  intro c
  simp [heritageType, (BareTypes.all b).primaryType, bare_skipGroup]

/-- The loop of `heritage`, with the types that are known so far. -/
private theorem bare_heritage_go (steps : Nat) (superclass : Option TypeExpr)
    (interfaces : List TypeExpr) :
    Bare id (heritage.go b superclass interfaces steps :
      Parser (Option TypeExpr × List TypeExpr)) := by
  -- The types found so far are arguments of the loop, so the induction is for all of them.
  induction steps generalizing superclass interfaces with
  | zero => exact bare_unbounded
  | succ steps ih =>
    intro c
    rw [heritage.go]
    simp [bare_heritageType, bare_commaSeparated (bare_heritageType b), ih]

private theorem bare_heritage : Bare id (heritage b : Parser (Option TypeExpr × List TypeExpr)) :=
  bare_heritage_go b b none []

private theorem bare_memberModifiers (known : MemberModifiers) (word : String) (c : Cursor) :
    known.add? word c.bare = known.add? word c := by
  simp [MemberModifiers.add?, startsMember]

private theorem bare_startsAccessor (c : Cursor) : startsAccessor c.bare = startsAccessor c := by
  simp [startsAccessor]

/-- Places do not matter to `skipMemberRest`, which passes the rest of a member that is not kept. -/
private theorem bare_skipMemberRest : Bare id (skipMemberRest b : Parser Unit) := by
  induction b with
  | zero => exact bare_unbounded
  | succ b ih =>
    intro c
    rw [skipMemberRest]
    cases hsemicolon : c.isMark .semicolon <;> simp [hsemicolon, bare_skipGroup, ih]

/-- Passing a body does not look at places: `endsReturn` asks for kinds and fresh lines. -/
private theorem passBody_bare (last : Token) (depth : Nat) (returns : Bool) (tokens : List Token) :
    Brackets.passBody last.bare depth returns (tokens.map Token.bare) =
      ((Brackets.passBody last depth returns tokens).1,
        (Brackets.passBody last depth returns tokens).2.map Token.bare) := by
  -- Whether a `return` has a value is decided by the next token, or by the last one.
  have hends : ∀ tokens : List Token,
      Brackets.endsReturn ((tokens.map Token.bare).headD last.bare) =
        Brackets.endsReturn (tokens.headD last) := by
    intro tokens
    cases tokens <;> rfl
  -- Induction on the tokens of the body; depth and verdict are carried along.
  induction tokens generalizing depth returns with
  | nil => rfl
  | cons token tokens ih =>
    rw [List.map_cons, Brackets.passBody, Brackets.passBody, Token.bare_kind]
    cases token.kind with
    | endOfFile => rfl
    | word text => simp only [hends, ih]
    | punct mark =>
      simp only [ih]
      split_ifs <;> rfl
    | _ => exact ih ..

private theorem bare_skipBody : Bare id (skipBody : Parser Bool) := by
  intro c
  simp [skipBody, Cursor.bare, passBody_bare]

private theorem bare_body : Bare id (body : Parser Bool) := by
  intro c
  simp [body, bare_skipBody]

/-- A method or property, whose line is the one in the head. -/
private theorem bare_namedMember (head : MemberHead) :
    Strips (Option.map ClassMember.bare) (namedMember b head.bare) (namedMember b head) := by
  intro c
  simp [namedMember, (BareTypes.all b).typeParameters, bare_parameters,
    bare_afterMark? (BareTypes.all b).returnType, bare_body,
    bare_afterMark? (BareTypes.all b).typeExpr, bare_afterMark? ((BareExprs.all b).expression true),
    MemberHead.bare, ClassMember.bare, MethodDecl.bare, PropertyDecl.bare]

/-- A member of a class. -/
private theorem bare_classMember :
    Bare (Option.map ClassMember.bare) (classMember b : Parser (Option ClassMember)) := by
  intro c
  -- The line is read off the first token, before the decorators.
  refine Strips.bind bare_doc (fun doc first => strips_cursor ?_) c
  refine Strips.bind (bare_decorators b) (fun decorators =>
    Strips.bind (bare_modifiers bare_memberModifiers _ b) fun modifiers c => strips_cursor ?_) first
  rw [bare_isMark, bare_startsAccessor, id]
  -- A static block, a constructor, an index signature or a named member, by the next token.
  split
  · simp [bare_skipGroup]
  refine Strips.bind (bare_advanceIf _) (fun _ =>
    Strips.bind (bare_discard_eat .star) fun _ name => strips_cursor ?_) c
  rw [bare_isMark, bare_isMark, bare_isWord]
  split
  · simp [bare_parameters, bare_body, ClassMember.bare]
  split
  · refine Strips.bind (BareTypes.all b).indexSignature (fun index => ?_) name
    cases index <;> intro c <;> simp [bare_skipGroup, bare_skipMemberRest, ClassMember.bare]
  · rw [bare_head, Token.bare_line]
    exact bare_namedMember b
      ⟨doc, first.head.line, decorators, modifiers, startsAccessor c⟩ name

/-- The loop of `classMembers`, with any number of steps left. -/
private theorem bare_classMembers_go (steps : Nat) :
    Bare (List.map ClassMember.bare) (classMembers.go b steps : Parser (List ClassMember)) := by
  induction steps with
  | zero => exact bare_unbounded
  | succ steps ih =>
    intro c
    rw [classMembers.go]
    simp [bare_classMember, ih, Option.toList_map]

private theorem bare_classMembers :
    Bare (List.map ClassMember.bare) (classMembers b : Parser (List ClassMember)) :=
  bare_classMembers_go b b

/-- The name of a class, which may be missing. -/
private theorem bare_className : Bare id (className : Parser String) := by
  intro c
  rw [className]
  cases hword : c.word? <;> simp [hword]

/-- A class, whose line is the one in the head. -/
private theorem bare_classDecl (head : DeclarationHead) :
    Strips ClassDecl.bare (classDecl b head.bare) (classDecl b head) := by
  intro c
  simp [classDecl, bare_className, (BareTypes.all b).typeParameters, bare_heritage,
    bare_classMembers, DeclarationHead.bare, ClassDecl.bare]

/-! ## Other declarations -/

/-- An interface, whose line is the one in the head. -/
private theorem bare_interfaceDecl (head : DeclarationHead) :
    Strips InterfaceDecl.bare (interfaceDecl b head.bare) (interfaceDecl b head) := by
  refine Strips.bind bare_discard_advance fun _ => Strips.bind bare_identifier fun name =>
    Strips.bind (BareTypes.all b).typeParameters fun typeParameters =>
    Strips.bind (bare_afterWord? (bare_commaSeparated (bare_heritageType b) b)) fun parents =>
    Strips.bind (BareTypes.all b).typeMembers fun members => ?_
  -- A mapped type is no body of an interface, and is refused.
  cases members <;> intro c <;> simp [DeclarationHead.bare, InterfaceDecl.bare]

/-- An alias, whose line is the one in the head. -/
private theorem bare_aliasDecl (head : DeclarationHead) :
    Strips AliasDecl.bare (aliasDecl b head.bare) (aliasDecl b head) := by
  intro c
  simp [aliasDecl, (BareTypes.all b).typeParameters, (BareTypes.all b).typeExpr,
    DeclarationHead.bare, AliasDecl.bare]

/-- An enum, whose line is the one in the head. -/
private theorem bare_enumDecl (head : DeclarationHead) (isConst : Bool) :
    Strips EnumDecl.bare (enumDecl b head.bare isConst) (enumDecl b head isConst) := by
  have hmember : Bare id (enumMember b : Parser EnumMember) := by
    intro c
    simp [enumMember, bare_afterMark? ((BareExprs.all b).expression false)]
  intro c
  simp [enumDecl, bare_commaList hmember, DeclarationHead.bare, EnumDecl.bare]

/-! ## Statements -/

/-- The rest of an import up to the name of the file. -/
private theorem bare_importRest : Bare id (importRest b : Parser (Option String)) := by
  induction b with
  | zero => exact bare_unbounded
  | succ b ih =>
    intro c
    rw [importRest]
    refine strips_cursor ?_
    rw [bare_head, Token.bare_kind]
    -- By the kind of the next token: the file, the end, a group of names or anything else.
    split <;> simp [bare_skipGroup, ih]

/-- Whether a word is a modifier of a declaration is decided by the token behind it. -/
private theorem bare_declarationModifiers (known : DeclarationModifiers) (word : String)
    (c : Cursor) :
    known.add? word c.bare = known.add? word c := by
  simp [DeclarationModifiers.add?]

/-- What stands before a declaration; its line is that of the first token. -/
private theorem bare_declarationHead :
    Bare DeclarationHead.bare (declarationHead b : Parser DeclarationHead) := by
  intro c
  simp [declarationHead, bare_decorators, bare_modifiers bare_declarationModifiers,
    DeclarationHead.bare]

/-- The name of a namespace, in words or as a string. -/
private theorem bare_namespaceName : Bare id (namespaceName b : Parser String) := by
  intro c
  simp only [namespaceName, result?_bind, result?_advance, Option.bind_some, bare_head,
    Token.bare_kind, bare_next]
  split <;> simp [bare_afterEach bare_identifier]

end Declarations

/-- Places do not matter to the parsers of statements with the bound `b`. -/
structure BareStatements (b : Nat) : Prop where
  statements : ∀ inBlock,
    Bare (Prod.map (List.map Statement.bare) id) (Parser.statements b inBlock)
  statement : Bare (Prod.map (List.map Statement.bare) id) (Parser.statement b)
  namespaceDecl : ∀ line,
    Strips (Prod.map (List.map Statement.bare) id) (Parser.namespaceDecl b 0)
      (Parser.namespaceDecl b line)

namespace BareStatements

attribute [local simp] Option.bind_map Option.map_bind Function.comp_def

variable {b : Nat}

/-- Statements up to the end of the file or of a block. -/
theorem statements_succ (ih : BareStatements b) (inBlock : Bool) :
    Bare (Prod.map (List.map Statement.bare) id) (Parser.statements (b + 1) inBlock) := by
  intro c
  rw [Parser.statements]
  simp [ih.statements, ih.statement]

/-- One statement. -/
theorem statement_succ (ih : BareStatements b) :
    Bare (Prod.map (List.map Statement.bare) id) (Parser.statement (b + 1)) := by
  intro c
  rw [Parser.statement]
  refine Strips.bind (bare_declarationHead b) (fun head c => strips_cursor ?_) c
  simp only [bare_isWord, bare_isMark, bare_hasWord, bare_ahead,
    Token.bare_kind]
  -- By the first words behind the head, in the order in which the parser asks for them.
  split
  · simp [importStatement, bare_importRest]
  split
  · simp [bare_classDecl, Statement.bare]
  split
  · simp [bare_interfaceDecl, Statement.bare]
  split
  · simp [bare_aliasDecl, Statement.bare]
  split
  · simp [bare_enumDecl, Statement.bare]
  split
  · simp [bare_enumDecl, Statement.bare]
  split
  · split <;> simp [ih.namespaceDecl head.line, bare_skipStatement, DeclarationHead.bare]
  split
  · exact ih.namespaceDecl head.line c
  · simp [bare_skipStatement]

/-- A namespace, whose line is given. -/
theorem namespaceDecl_succ (ih : BareStatements b) (line : Nat) :
    Strips (Prod.map (List.map Statement.bare) id) (Parser.namespaceDecl (b + 1) 0)
      (Parser.namespaceDecl (b + 1) line) := by
  intro c
  rw [Parser.namespaceDecl, Parser.namespaceDecl]
  simp [bare_namespaceName, ih.statements, Statement.bare, Statement.bareAll_eq]

/-- Places do not matter to the parsers of statements. -/
theorem all (b : Nat) : BareStatements b := by
  induction b with
  | zero => exact ⟨fun _ => bare_unbounded, bare_unbounded, fun _ => bare_unbounded⟩
  | succ b ih => exact ⟨statements_succ ih, statement_succ ih, namespaceDecl_succ ih⟩

end BareStatements

end Parser

end Endpoints
