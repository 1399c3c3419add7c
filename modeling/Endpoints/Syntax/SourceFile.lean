import Endpoints.Syntax.Declaration.Parser

/-! # Source files

`SourceFile.parse` reads the declarations and imports of a source text. Statements that are no
declarations are passed over.
-/

namespace Endpoints.Parser

open MonadParser

variable {m : Type → Type} [MonadParser m]

/-- The rest of an import: the module it names. It ends with the module's name or a semicolon. -/
def importRest : (bound : Nat) → m (Option String)
  | 0 => unbounded
  | bound + 1 => enter .importRest do
    let c ← cursor
    match c.head.kind with
    | .string module =>
      discard advance
      discard (eat .semicolon)
      return some module
    | .endOfFile => return none
    | .punct .semicolon =>
      discard advance
      return none
    | .punct .leftBrace =>
      skipGroup
      importRest bound
    | _ =>
      discard advance
      importRest bound

/-- An import, from its keyword on. -/
def importStatement (bound : Nat) : m (Option String) := do
  discard advance
  importRest bound

/-- What the words before a declaration say. -/
structure DeclarationModifiers where
  /-- Whether there is one after which `default` can stand. -/
  modified : Bool
  isAbstract : Bool

/-- The effect of a modifier, if the word is one. `default` counts only after another modifier. -/
def DeclarationModifiers.add? (m : DeclarationModifiers) (word : String) (c : Cursor) :
    Option DeclarationModifiers :=
  if word == "export" || word == "declare" then some { m with modified := true }
  else if word == "default" && m.modified then some m
  else if word == "abstract" && c.isWord "class" 1 then some { m with isAbstract := true }
  else none

/-- What stands before the keyword of a declaration. Decorators may stand on both sides of the
modifiers. -/
def declarationHead (bound : Nat) : m DeclarationHead := do
  let doc ← doc
  let line := (← cursor).head.line
  let before ← decorators bound
  let modifiers ← modifiers DeclarationModifiers.add? ⟨false, false⟩ bound
  let after ← decorators bound
  return { doc, line, decorators := before ++ after, isAbstract := modifiers.isAbstract }

/-- The name of a namespace: a word or a string, with the words after points. -/
def namespaceName (bound : Nat) : m String := do
  match (← advance).kind with
  | .word first | .string first =>
    return ".".intercalate (first :: (← afterEach .dot identifier bound))
  | _ => fail .namespaceName

/-- What has been read of a source file. -/
abbrev Statements := List Statement × List String

mutual

/-- The statements up to the end of the file or, inside a block, up to its closing brace. -/
def statements (bound : Nat) (inBlock : Bool) : m Statements :=
  match bound with
  | 0 => unbounded
  | bound + 1 => enter .statements do
    let c ← cursor
    if c.atEnd then
      if inBlock then fail (.mark .rightBrace) else return ([], [])
    else if inBlock && c.isMark .rightBrace then
      return ([], [])
    else if c.isMark .semicolon ||
        (!inBlock && (c.isMark .rightBrace || c.isMark .rightParen || c.isMark .rightBracket)) then
      discard advance
      statements bound inBlock
    else
      let (first, imports) ← statement bound
      let (rest, moreImports) ← statements bound inBlock
      return (first ++ rest, imports ++ moreImports)

/-- One statement, with the imports in it. -/
def statement : (bound : Nat) → m Statements
  | 0 => unbounded
  | bound + 1 => enter .statement do
    let head ← declarationHead bound
    let c ← cursor
    if c.isWord "import" && !c.isMark .leftParen 1 then
      return ([], (← importStatement bound).toList)
    else if c.isWord "class" then
      return ([.classDecl (← classDecl bound head)], [])
    else if c.isWord "interface" && c.hasWord 1 then
      return ([.interfaceDecl (← interfaceDecl bound head)], [])
    else if c.isWord "type" && c.hasWord 1 && (c.isMark .assign 2 || c.isMark .less 2) then
      return ([.aliasDecl (← aliasDecl bound head)], [])
    else if c.isWord "enum" then
      return ([.enumDecl (← enumDecl bound head false)], [])
    else if c.isWord "const" && c.isWord "enum" 1 then
      discard advance
      return ([.enumDecl (← enumDecl bound head true)], [])
    else if c.isWord "namespace" || c.isWord "module" then
      match (c.ahead 1).kind with
      | .word _ | .string _ =>
        discard advance
        namespaceDecl bound head.line
      | _ =>
        skipStatement
        return ([], [])
    else if c.isWord "global" && c.isMark .leftBrace 1 then
      namespaceDecl bound head.line
    else
      skipStatement
      return ([], [])

/-- A namespace, from its name on. Without a body it is empty. -/
def namespaceDecl (bound : Nat) (line : Nat) : m Statements :=
  match bound with
  | 0 => unbounded
  | bound + 1 => enter .namespaceDecl do
    let name ← namespaceName bound
    if ← eat .leftBrace then
      let (inner, imports) ← statements bound true
      expect .rightBrace
      return ([.namespaceDecl name line inner], imports)
    else
      discard (eat .semicolon)
      return ([.namespaceDecl name line []], [])

end

/-- The declarations and imports of a whole file. -/
def sourceFile (bound : Nat) : m SourceFile := do
  let (statements, imports) ← statements bound false
  return { statements, imports }

end Endpoints.Parser

namespace Endpoints.SourceFile

/-- The declarations and imports of a stream of tokens. -/
def ofTokens (stream : TokenStream) : Except SyntaxError SourceFile :=
  match Parser.run (Parser.sourceFile stream.cursor.bound) stream.cursor with
  | .ok (file, _) => .ok file
  | .error e => .error e

/-- The declarations and imports of a source text. -/
def parse (source : String) : Except SyntaxError SourceFile :=
  match TokenStream.ofText source with
  | .error e => .error ⟨e.line, .lexical e.fault⟩
  | .ok stream => ofTokens stream

end Endpoints.SourceFile
