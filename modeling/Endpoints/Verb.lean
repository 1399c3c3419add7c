/-! # Request verbs -/

namespace Endpoints

inductive Verb where
  | get | post | put | patch | delete | head | options
deriving DecidableEq, Repr

namespace Verb

def text : Verb → String
  | get => "get"
  | post => "post"
  | put => "put"
  | patch => "patch"
  | delete => "delete"
  | head => "head"
  | options => "options"

/-- Whether a request may carry a body, form fields or files. -/
def allowsBody : Verb → Bool
  | head | options => false
  | _ => true

end Verb

end Endpoints
