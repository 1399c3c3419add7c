import Endpoints.Token.Lexeme

/-! # The tokens of a source text

`TokenStream.ofText` splits a source text into its tokens. White space and comments go into the gaps
between them; the last documentation comment of a gap belongs to the token after it. The end of the
file is a token of its own.
-/

namespace Endpoints

/-- A fault of a source text and the line it is reported on. -/
structure LexError where
  line : Nat
  fault : LexFault
deriving DecidableEq, Repr

/-- The tokens of a text, in order, and the token that stands for its end. -/
structure TokenStream where
  tokens : List Token
  last : Token
deriving Repr

namespace TokenStream

/-- How much of the text has been read. -/
structure Progress where
  offset : Nat
  line : Nat
  /-- The text read since the last token. -/
  gap : List Char
  /-- The last documentation comment in that text. -/
  doc : Option (List Char)
  /-- The kind of the last token and its line. -/
  previous : Option (TokenKind × Nat)

def Progress.start : Progress := ⟨0, 1, [], none, none⟩

/-- The number of line breaks in a text. -/
def countLines (text : List Char) : Nat :=
  text.foldl Literal.countLine 0

/-- The token of this kind and text that starts at the current position. -/
def Progress.token (p : Progress) (kind : TokenKind) (text : List Char) : Token where
  kind
  raw := String.ofList text
  gap := String.ofList p.gap
  start := p.offset
  line := p.line
  freshLine := p.previous.any fun (_, line) => line < p.line
  doc := p.doc.map String.ofList

/-- The state after a lexeme. -/
def Progress.after (p : Progress) (lexeme : Lexeme) : Progress :=
  let offset := p.offset + (String.ofList lexeme.text).utf8ByteSize
  let line := p.line + countLines lexeme.text
  match lexeme with
  | .blank c => { p with offset, line, gap := p.gap ++ [c] }
  | .comment text doc => { p with offset, line, gap := p.gap ++ text, doc := doc.or p.doc }
  | .token kind _ => { offset, line, gap := [], doc := none, previous := some (kind, p.line) }

/-- The tokens of the rest of a text. -/
def scanFrom (p : Progress) (text : List Char) : Except LexError TokenStream :=
  match text with
  | [] => .ok ⟨[], p.token .endOfFile []⟩
  | c :: cs =>
    match _h : Lexeme.scan (p.previous.map (·.1)) c cs with
    | .error (fault, lines) => .error ⟨p.line + lines, fault⟩
    | .ok (lexeme, rest) =>
      match scanFrom (p.after lexeme) rest with
      | .error e => .error e
      | .ok stream =>
        match lexeme with
        | .token kind text => .ok { stream with tokens := p.token kind text :: stream.tokens }
        | _ => .ok stream
termination_by text.length
decreasing_by exact Lexeme.length_scan_lt ‹_›

def ofText (source : String) : Except LexError TokenStream :=
  scanFrom .start source.toList

/-- All tokens, the end of the file included. -/
def all (stream : TokenStream) : List Token :=
  stream.tokens ++ [stream.last]

end TokenStream

end Endpoints
