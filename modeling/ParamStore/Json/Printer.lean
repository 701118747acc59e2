import ParamStore.Decimal.Shortest
import ParamStore.Json.Value

/-!
# JSON texts

The two written forms of a tree: the compact one without any white space,
and the indented one with a line to each item. Both escape in texts only
the quote, the backslash and the control characters below U+0020.
-/

namespace ParamStore.Json

/-! ## Numbers -/

/-- How floating-point numbers are written: between these exponents of ten
with a plain point, otherwise with an exponent. -/
structure FloatLayout where
  leastPlain : Int
  greatestPlain : Int

/-- Plain from 0.00001 up to below 10¹⁶. -/
def floatLayout : FloatLayout := ⟨-5, 15⟩

/-- A decimal with a plain point and at least one digit on either side. -/
def plainText (d : Decimal) : String :=
  if d.exponent < 0 then
    "0." ++ String.ofList (List.replicate (-d.exponent - 1).toNat '0' ++ d.digits)
  else
    let whole := d.exponent.toNat + 1
    let padded := d.digits ++ List.replicate (whole - d.digits.length) '0'
    let fraction := match padded.drop whole with
      | [] => ['0']
      | ds => ds
    String.ofList (padded.take whole) ++ "." ++ String.ofList fraction

/-- A decimal with one digit before the point and an exponent with its
sign. -/
def scientificText (d : Decimal) : String :=
  let fraction := match d.digits.drop 1 with
    | [] => ""
    | ds => "." ++ String.ofList ds
  String.ofList (d.digits.take 1) ++ fraction ++ "e"
    ++ (if 0 ≤ d.exponent then "+" else "-") ++ toString d.exponent.natAbs

/-- A floating-point number by the shortest digits that round to it. -/
def binaryText (x : Binary64) : String :=
  let magnitude :=
    if x.significand = 0 then "0.0"
    else
      let d := x.shortest
      if floatLayout.leastPlain ≤ d.exponent ∧ d.exponent ≤ floatLayout.greatestPlain then
        plainText d
      else scientificText d
  if x.negative then "-" ++ magnitude else magnitude

def Number.print : Number → String
  | .whole n _ => toString n
  | .binary x => binaryText x

/-! ## Texts -/

def escape (c : Char) : List Char :=
  match c with
  | '"' => ['\\', '"']
  | '\\' => ['\\', '\\']
  | '\x08' => ['\\', 'b']
  | '\x09' => ['\\', 't']
  | '\x0a' => ['\\', 'n']
  | '\x0c' => ['\\', 'f']
  | '\x0d' => ['\\', 'r']
  | c =>
    if c.toNat < 0x20 then
      ['\\', 'u', '0', '0', if c.toNat < 0x10 then '0' else '1', Nat.digitChar (c.toNat % 16)]
    else [c]

def quoted (s : String) : String :=
  "\"" ++ String.ofList (s.toList.flatMap escape) ++ "\""

/-! ## Trees -/

namespace Tree

mutual

/-- The text without white space. -/
def compact : Tree → String
  | null | unreadable => "null"
  | bool b => if b then "true" else "false"
  | number n => n.print
  | text s => quoted s
  | array items => "[" ++ ",".intercalate (compactItems items) ++ "]"
  | object fields => "\x7b" ++ ",".intercalate (compactFields fields) ++ "\x7d"

def compactItems : List Tree → List String
  | [] => []
  | t :: ts => t.compact :: compactItems ts

def compactFields : List (String × Tree) → List String
  | [] => []
  | (k, t) :: fs => (quoted k ++ ":" ++ t.compact) :: compactFields fs

end

/-- Lines between brackets, indented by two more than the brackets; no line
leaves the brackets side by side. -/
def bracketed (indent : Nat) (opening closing : String) (lines : List String) : String :=
  match lines with
  | [] => opening ++ closing
  | lines =>
    let margin := "\n" ++ String.ofList (List.replicate (indent + 2) ' ')
    opening ++ margin ++ ("," ++ margin).intercalate lines
      ++ "\n" ++ String.ofList (List.replicate indent ' ') ++ closing

mutual

/-- The text with every item and field on a line of its own. -/
def indented (indent : Nat) : Tree → String
  | array items => bracketed indent "[" "]" (indentedItems (indent + 2) items)
  | object fields => bracketed indent "\x7b" "\x7d" (indentedFields (indent + 2) fields)
  | null | unreadable => "null"
  | bool b => if b then "true" else "false"
  | number n => n.print
  | text s => quoted s

def indentedItems (indent : Nat) : List Tree → List String
  | [] => []
  | t :: ts => t.indented indent :: indentedItems indent ts

def indentedFields (indent : Nat) : List (String × Tree) → List String
  | [] => []
  | (k, t) :: fs => (quoted k ++ ": " ++ t.indented indent) :: indentedFields indent fs

end

/-- The text with a line to each item, starting at the margin. -/
def pretty (t : Tree) : String := t.indented 0

end Tree

namespace Value

/-- The text by which a value is identified. -/
def compact (v : Value) : String := v.tree.compact

/-- The text for a reader: bare for a text, compact for anything else. -/
def plain (v : Value) : String :=
  match v.tree with
  | .text s => s
  | t => t.compact

end Value

end ParamStore.Json
