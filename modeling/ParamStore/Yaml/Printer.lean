import ParamStore.Decimal.Binary64
import ParamStore.Json.Reader
import ParamStore.Yaml.Character

/-!
# Scalars as they are written

A text is written plain where it reads back as that text. One that would
read as null, a truth value or a number, or that holds marks, goes into
single quotes; one with line breaks becomes a literal block; what neither
can hold goes into double quotes with escapes.
-/

namespace ParamStore.Yaml

open Json.Reader (natOf)

/-! ## What a plain scalar means -/

def isNull (s : String) : Bool := ["", "null", "Null", "NULL", "~"].contains s

def isTruth (s : String) : Bool :=
  ["true", "True", "TRUE", "false", "False", "FALSE"].contains s

/-- Zeros and digits after a leading zero, with or without a sign: a text,
though it looks like a number. -/
def isZeroLed (cs : List Char) : Bool :=
  let digits := match cs with
    | '-' :: cs | '+' :: cs => cs
    | cs => cs
  match digits with
  | '0' :: d :: ds => (d :: ds).all Char.isDigit
  | _ => false

/-- The number that digits of a base write. -/
def ofBase? (base : Nat) (cs : List Char) : Option Nat :=
  if cs.isEmpty then none
  else cs.foldlM (fun n c => do
    let d ← Json.Reader.hexDigit? c
    if d < base then return n * base + d else none) 0

/-- Whether this is a whole number of at most `bits` bits in base sixteen,
eight or two, with the base in front. -/
def isBased (limit : Nat) : List Char → Bool
  | '0' :: 'x' :: cs => (ofBase? 16 cs).any (· ≤ limit)
  | '0' :: 'o' :: cs => (ofBase? 8 cs).any (· ≤ limit)
  | '0' :: 'b' :: cs => (ofBase? 2 cs).any (· ≤ limit)
  | _ => false

/-- Whether this is a whole number with a base in front, of 128 bits. -/
def isBasedNumber : List Char → Bool
  | '-' :: cs => isBased (1 <<< 127) cs
  | '+' :: cs => isBased (1 <<< 128 - 1) cs
  | cs => isBased (1 <<< 128 - 1) cs

/-- Whether this is a decimal number without sign, with digits on at least
one side of a point, that is not beyond the range. -/
def isDecimal (cs : List Char) : Bool :=
  let whole := cs.takeWhile Char.isDigit
  let rest := cs.dropWhile Char.isDigit
  let (fraction, rest) := match rest with
    | '.' :: rest => (rest.takeWhile Char.isDigit, rest.dropWhile Char.isDigit)
    | rest => ([], rest)
  let exponent? : Option Int := match rest with
    | [] => some 0
    | e :: rest =>
      if e != 'e' && e != 'E' then none
      else
        let (sign, digits) : Int × List Char := match rest with
          | '-' :: ds => (-1, ds)
          | '+' :: ds => (1, ds)
          | ds => (1, ds)
        if digits.isEmpty || !digits.all Char.isDigit then none
        else some (sign * natOf digits)
  match exponent? with
  | none => false
  | some exponent =>
    !(whole ++ fraction).isEmpty &&
      (Binary64.ofDecimal? false (natOf (whole ++ fraction)) (exponent - fraction.length)).isSome

/-- Whether this is a floating-point number, one of the infinities, or no
number at all by its own name. -/
def isFloat (s : String) : Bool :=
  let infinities := [".inf", ".Inf", ".INF"]
  match s.toList with
  | '+' :: cs => isDecimal cs || infinities.contains (String.ofList cs)
  | '-' :: cs => isDecimal cs || infinities.contains (String.ofList cs)
  | cs => isDecimal cs || infinities.contains s || [".nan", ".NaN", ".NAN"].contains s

/-- Whether a plain scalar would read as something else than this text. -/
def isAmbiguous (s : String) : Bool :=
  isNull s || isTruth s || isZeroLed s.toList || isBasedNumber s.toList || isFloat s

/-! ## What a text holds -/

/-- Whether marks would make something else of the text: at its start, or
as a colon or number sign at a gap. -/
def hasMarks (cs : List Char) : Bool :=
  let rec inside (afterGap : Bool) : List Char → Bool
    | [] => false
    | c :: cs =>
      (c == ':' && atGap cs) || (c == '#' && afterGap) || inside (isBlank c || isBreak c) cs
  match cs with
  | [] => false
  | c :: rest =>
    ['-', '-', '-'].isPrefixOf cs || ['.', '.', '.'].isPrefixOf cs
      || "#,[]\x7b\x7d&*!|>'\"%@\x60".toList.contains c
      || (['?', ':', '-'].contains c && atGap rest)
      || inside (isBlank c || isBreak c) rest

/-- Whether a space stands in front of a line break somewhere. -/
def hasSpaceBreak : List Char → Bool
  | a :: b :: cs => (a == ' ' && isBreak b) || hasSpaceBreak (b :: cs)
  | _ => false

/-- Whether a space stands behind a line break somewhere. -/
def hasBreakSpace : List Char → Bool
  | a :: b :: cs => (isBreak a && b == ' ') || hasBreakSpace (b :: cs)
  | _ => false

def isMargin (c : Char) : Bool := c == ' ' || isBreak c

def plainAllowed (cs : List Char) : Bool :=
  !hasMarks cs && cs.all isPrintable && !cs.any isBreak
    && !cs.head?.any isMargin && !cs.getLast?.any isMargin

def singleAllowed (cs : List Char) : Bool :=
  cs.all isPrintable && !hasSpaceBreak cs && !hasBreakSpace cs

def literalAllowed (cs : List Char) : Bool :=
  cs.all isPrintable && !hasSpaceBreak cs && cs.getLast? != some ' '

/-! ## The written forms -/

def lineMargin : List Char := [' ', ' ']

/-- Characters with the margin at the start of every line that is not
empty. -/
def withMargin (afterBreak : Bool) : List Char → List Char
  | [] => []
  | c :: cs =>
    if isBreak c then c :: withMargin true cs
    else (if afterBreak then lineMargin else []) ++ c :: withMargin false cs

def singleQuoted (cs : List Char) : List Char :=
  let body := withMargin false (cs.flatMap fun c => if c == '\'' then ['\'', '\''] else [c])
  ['\''] ++ body ++ (if cs.getLast?.any isBreak then lineMargin else []) ++ ['\'']

/-- A number in base sixteen with this many digits. -/
def hexDigits (width : Nat) (n : Nat) : List Char :=
  let ds := (Nat.toDigits 16 n).map Char.toUpper
  List.replicate (width - ds.length) '0' ++ ds

def escape (c : Char) : List Char :=
  match c with
  | '\x00' => ['\\', '0']
  | '\x07' => ['\\', 'a']
  | '\x08' => ['\\', 'b']
  | '\t' => ['\\', 't']
  | '\n' => ['\\', 'n']
  | '\x0b' => ['\\', 'v']
  | '\x0c' => ['\\', 'f']
  | '\r' => ['\\', 'r']
  | '\x1b' => ['\\', 'e']
  | '"' => ['\\', '"']
  | '\\' => ['\\', '\\']
  | '\u0085' => ['\\', 'N']
  | '\u2028' => ['\\', 'L']
  | '\u2029' => ['\\', 'P']
  | c =>
    if isPrintable c then [c]
    else if c.toNat ≤ 0xff then ['\\', 'x'] ++ hexDigits 2 c.toNat
    else if c.toNat ≤ 0xffff then ['\\', 'u'] ++ hexDigits 4 c.toNat
    else ['\\', 'U'] ++ hexDigits 8 c.toNat

def doubleQuoted (cs : List Char) : List Char := ['"'] ++ cs.flatMap escape ++ ['"']

/-- The header of a literal block: the margin where the text begins with a
space or a break, and what happens to the breaks at its end. -/
def literalHeader (cs : List Char) : List Char :=
  let hint := if cs.head?.any isMargin then ['2'] else []
  let chomping := match cs.reverse with
    | a :: b :: _ => if !isBreak a then ['-'] else if isBreak b then ['+'] else []
    | [a] => if isBreak a then ['+'] else ['-']
    | [] => ['-']
  ['|'] ++ hint ++ chomping ++ ['\n']

def literal (cs : List Char) : List Char := literalHeader cs ++ withMargin true cs

def scalarText (s : String) : List Char :=
  let cs := s.toList
  if cs.contains '\n' then (if literalAllowed cs then literal cs else doubleQuoted cs)
  else if !isAmbiguous s && plainAllowed cs then cs
  else if singleAllowed cs then singleQuoted cs
  else doubleQuoted cs

/-- A scalar at the end of a line, with a break after it unless it ends
with one, of whatever kind. -/
def scalarLine (s : String) : String :=
  let cs := scalarText s
  String.ofList (if cs.getLast?.any isBreak then cs else cs ++ ['\n'])

end ParamStore.Yaml
