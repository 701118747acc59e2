/-!
# Characters of YAML texts

Which characters a YAML text may hold, which of them end a line, and which
can be printed as they are.
-/

namespace ParamStore.Yaml

def isBlank (c : Char) : Bool := c == ' ' || c == '\t'

def isBreak (c : Char) : Bool :=
  c == '\r' || c == '\n' || c == '\u0085' || c == '\u2028' || c == '\u2029'

/-- Whether a text ends here, or goes on with a blank or a new line. -/
def atGap : List Char → Bool
  | [] => true
  | c :: _ => isBlank c || isBreak c

/-- The mark that a text or a line of it may begin with. -/
def byteOrderMark : Char := '\ufeff'

/-- Whether a text may hold the character at all. -/
def isAllowed (c : Char) : Bool :=
  c == '\t' || c == '\n' || c == '\r' || (' ' ≤ c && c ≤ '~') || c == '\u0085'
    || ('\u00a0' ≤ c && c.toNat ≤ 0xfffd) || 0x10000 ≤ c.toNat

/-- Whether the character can be written without an escape. -/
def isPrintable (c : Char) : Bool :=
  c == '\n' || (' ' ≤ c && c ≤ '~')
    || ('\u00a0' ≤ c && c.toNat ≤ 0xfffd && c != byteOrderMark) || 0x10000 ≤ c.toNat

/-- How many characters the line break in front takes. -/
def breakLength : List Char → Nat
  | '\r' :: '\n' :: _ => 2
  | _ :: _ => 1
  | [] => 0

/-- What the line break in front counts for in a text. -/
def breakText : List Char → List Char
  | [] => []
  | c :: _ => if c == '\u2028' || c == '\u2029' then [c] else ['\n']

end ParamStore.Yaml
