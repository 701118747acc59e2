import ParamStore.Text.Blank

/-!
# Words of a command line

Blanks separate words. Single or double quotes hold together what stands
between them, blanks and the other quote included, and are dropped; a
word may be made of several such parts, or of an empty one.
-/

namespace ParamStore.Command

open Text

structure OpenQuote where
  quote : Char
  deriving Repr, DecidableEq

def OpenQuote.message (e : OpenQuote) : String :=
  "Unterminated " ++ String.singleton e.quote ++ " quote"

def isQuote (c : Char) : Bool := c == '"' || c == '\''

/-- Where a scan of a line stands: between words, in the bare part of a
word, or after the quote in it that is open. What was read of the word
stands with its last character first. -/
inductive Place where
  | between
  | bare (word : List Char)
  | inside (quote : Char) (word : List Char)
  deriving Repr, DecidableEq

/-- The words from this place on. -/
def wordsFrom : Place → List Char → Except OpenQuote (List String)
  | .between, [] => .ok []
  | .bare w, [] => .ok [String.ofList w.reverse]
  | .inside q _, [] => .error ⟨q⟩
  | .between, c :: cs =>
    if isQuote c then wordsFrom (.inside c []) cs
    else if isBlank c then wordsFrom .between cs
    else wordsFrom (.bare [c]) cs
  | .bare w, c :: cs =>
    if isQuote c then wordsFrom (.inside c w) cs
    else if isBlank c then (String.ofList w.reverse :: ·) <$> wordsFrom .between cs
    else wordsFrom (.bare (c :: w)) cs
  | .inside q w, c :: cs =>
    if c = q then wordsFrom (.bare w) cs
    else wordsFrom (.inside q (c :: w)) cs

def words (line : String) : Except OpenQuote (List String) :=
  wordsFrom .between line.toList

end ParamStore.Command
