import Endpoints.Yaml.Token

/-! # Reading YAML text

`Yaml.parse?` reads a text with one document. Blocks and brackets, scalars with and without quotes
and comments are known; anchors, tags and block scalars are not.
-/

namespace Endpoints.Yaml

namespace Reader

/-- What stands where nothing is written. -/
def nothing : Node := .plain ""

/-- Whether an item of a block is left out: another one follows, or the block ends. -/
def isItemEnd : List Token → Bool
  | .entry :: _ => true
  | .closeBlock :: _ => true
  | _ => false

/-- Whether a key or value in a block is left out. -/
def isFieldEnd : List Token → Bool
  | .key :: _ => true
  | .value :: _ => true
  | .closeBlock :: _ => true
  | _ => false

/-- Whether a value in brackets is left out. -/
def isFlowEnd (closing : Token → Bool) : List Token → Bool
  | .comma :: _ => true
  | token :: _ => closing token
  | [] => false

def closesList : Token → Bool
  | .closeList => true
  | _ => false

def closesMap : Token → Bool
  | .closeMap => true
  | _ => false

/-- The tokens after the comma that has to stand before every item but the first. -/
def separated? (closing : Token → Bool) (first : Bool) (tokens : List Token) :
    Option (List Token) :=
  match tokens with
  | [] => none
  | .comma :: rest => some (if first then tokens else rest)
  | token :: _ => if first || closing token then some tokens else none

/-- Where a node stands. -/
inductive Setting where
  | block
  /-- In a field of a block, where a list needs no indentation of its own. -/
  | field
  | brackets
deriving DecidableEq, Repr

/-- Reads a node, or nothing if it is left out. -/
def orNothing (node : List Token → Option (Node × List Token)) (isEnd : Bool)
    (tokens : List Token) : Option (Node × List Token) :=
  if isEnd then some (nothing, tokens) else node tokens

/-- The value after a key in brackets. -/
def flowValue (node : Setting → List Token → Option (Node × List Token)) (closing : Token → Bool)
    (tokens : List Token) : Option (Node × List Token) :=
  match tokens with
  | .value :: rest => orNothing (node .brackets) (isFlowEnd closing rest) rest
  | tokens => some (nothing, tokens)

/-- A key in brackets, after its mark. -/
def flowKey (node : Setting → List Token → Option (Node × List Token)) (closing : Token → Bool)
    (tokens : List Token) : Option (Node × List Token) :=
  let isEnd := match tokens with
    | .value :: _ => true
    | tokens => isFlowEnd closing tokens
  orNothing (node .brackets) isEnd tokens

/-- A key with its value in brackets, after the mark of the key. -/
def flowField (node : Setting → List Token → Option (Node × List Token)) (closing : Token → Bool)
    (tokens : List Token) : Option ((Node × Node) × List Token) := do
  let (key, rest) ← flowKey node closing tokens
  let (value, rest) ← flowValue node closing rest
  return ((key, value), rest)

mutual

/-- Reads a node. -/
def node : (fuel : Nat) → Setting → List Token → Option (Node × List Token)
  | 0, _, _ => none
  | fuel + 1, setting, tokens =>
    match tokens with
    | .scalar node :: rest => some (node, rest)
    | .openList :: rest => (flowItems fuel true rest).map fun (items, rest) => (.list items, rest)
    | .openMap :: rest => (flowFields fuel true rest).map fun (fields, rest) => (.map fields, rest)
    | .openSequence :: rest =>
      if setting == .brackets then none
      else (blockItems fuel rest).map fun (items, rest) => (.list items, rest)
    | .openMapping :: rest =>
      if setting == .brackets then none
      else (blockFields fuel rest).map fun (fields, rest) => (.map fields, rest)
    | .entry :: _ =>
      if setting == .field then (looseItems fuel tokens).map fun (items, rest) =>
        (.list items, rest)
      else none
    | _ => none

/-- The items of a block, up to its end. -/
def blockItems : (fuel : Nat) → List Token → Option (List Node × List Token)
  | 0, _ => none
  | fuel + 1, tokens =>
    match tokens with
    | .entry :: rest => do
      let (item, rest) ← orNothing (node fuel .block) (isItemEnd rest) rest
      let (items, rest) ← blockItems fuel rest
      return (item :: items, rest)
    | .closeBlock :: rest => some ([], rest)
    | _ => none

/-- The items of a list that has no indentation of its own. -/
def looseItems : (fuel : Nat) → List Token → Option (List Node × List Token)
  | 0, _ => none
  | fuel + 1, tokens =>
    match tokens with
    | .entry :: rest => do
      let (item, rest) ← orNothing (node fuel .block) (isItemEnd rest || isFieldEnd rest) rest
      let (items, rest) ← looseItems fuel rest
      return (item :: items, rest)
    | tokens => some ([], tokens)

/-- The fields of a block, up to its end. -/
def blockFields : (fuel : Nat) → List Token → Option (List (Node × Node) × List Token)
  | 0, _ => none
  | fuel + 1, tokens =>
    match tokens with
    | .key :: rest => do
      let (key, rest) ← orNothing (node fuel .field) (isFieldEnd rest) rest
      let (value, rest) ← match rest with
        | .value :: rest => orNothing (node fuel .field) (isFieldEnd rest) rest
        | rest => some (nothing, rest)
      let (fields, rest) ← blockFields fuel rest
      return ((key, value) :: fields, rest)
    | .closeBlock :: rest => some ([], rest)
    | _ => none

/-- The items of a list in brackets, up to its end. A key with a value is an item too. -/
def flowItems : (fuel : Nat) → (first : Bool) → List Token → Option (List Node × List Token)
  | 0, _, _ => none
  | fuel + 1, first, tokens => do
    match ← separated? closesList first tokens with
    | .closeList :: rest => return ([], rest)
    | .key :: rest =>
      let (field, rest) ← flowField (node fuel) closesList rest
      let (items, rest) ← flowItems fuel false rest
      return (.map [field] :: items, rest)
    | tokens =>
      let (item, rest) ← node fuel .brackets tokens
      let (items, rest) ← flowItems fuel false rest
      return (item :: items, rest)

/-- The fields of a map in brackets, up to its end. -/
def flowFields :
    (fuel : Nat) → (first : Bool) → List Token → Option (List (Node × Node) × List Token)
  | 0, _, _ => none
  | fuel + 1, first, tokens => do
    match ← separated? closesMap first tokens with
    | .closeMap :: rest => return ([], rest)
    | .key :: rest =>
      let (field, rest) ← flowField (node fuel) closesMap rest
      let (fields, rest) ← flowFields fuel false rest
      return (field :: fields, rest)
    | tokens =>
      let (key, rest) ← node fuel .brackets tokens
      let (fields, rest) ← flowFields fuel false rest
      return ((key, nothing) :: fields, rest)

end

/-- Whether no document follows. -/
def isStreamEnd (tokens : List Token) : Bool :=
  tokens.all fun
    | .documentEnd => true
    | _ => false

/-- The tokens after the marks that end documents. -/
def skipEnds : List Token → List Token
  | .documentEnd :: rest => skipEnds rest
  | tokens => tokens

/-- The document of the tokens; there has to be exactly one. -/
def document? (tokens : List Token) : Option Node :=
  let read := fun tokens => do
    let (content, rest) ← node (2 * tokens.length + 1) .block tokens
    if isStreamEnd rest then some content else none
  match skipEnds tokens with
  | [] => none
  | .documentStart :: rest => if isStreamEnd rest then some nothing else read rest
  | tokens => read tokens

end Reader

def parse? (text : String) : Option Node :=
  (Token.scan? text).bind Reader.document?

end Endpoints.Yaml
