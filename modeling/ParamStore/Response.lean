import ParamStore.Json.Record

/-!
# Responses

What a command answers: an output, or the message of its failure. In JSON
a response is a record tagged by the field `status`.
-/

namespace ParamStore

open Json (Tree)

inductive Response where
  | ok (output : String)
  | error (message : String)
  deriving Repr, DecidableEq

namespace Response

def tag : String := "status"

def toTree : Response → Tree
  | ok output => .object [(tag, .text "ok"), ("output", .text output)]
  | error message => .object [(tag, .text "error"), ("message", .text message)]

def ofTree? (t : Tree) : Option Response := do
  let (name, rest) ← t.tagged? tag
  match name with
  | "ok" => ok <$> (rest.record? ["output"]).bind (·.text? "output")
  | "error" => error <$> (rest.record? ["message"]).bind (·.text? "message")
  | _ => none

end Response

end ParamStore
