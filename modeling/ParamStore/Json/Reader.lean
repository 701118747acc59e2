import ParamStore.Decimal.Stepwise
import ParamStore.Json.Tree

/-!
# Reading JSON

The grammar of JSON texts without any leniency: four blanks, no leading
zeros, no trailing commas, no control characters in texts. What follows
the grammar and names nothing becomes an unreadable part of the tree
instead of a failure.
-/

namespace ParamStore.Json.Reader

def isSpace (c : Char) : Bool := c == ' ' || c == '\t' || c == '\n' || c == '\r'

def skip (cs : List Char) : List Char := cs.dropWhile isSpace

/-! ## Numbers -/

def digitValue (c : Char) : Nat := c.toNat - '0'.toNat

/-- The number that decimal digits write. -/
def natOf (ds : List Char) : Nat := ds.foldl (fun n c => n * 10 + digitValue c) 0

structure Literal where
  negative : Bool
  whole : List Char
  fraction : Option (List Char)
  exponent : Option Int

/-- A whole number in range, except the negative zero, is kept as one; any
other number is read in steps as a floating-point one, if that is in range. -/
def Literal.tree (l : Literal) : Tree :=
  let n : Int := if l.negative then -(natOf l.whole : Int) else natOf l.whole
  if h : l.fraction.isNone ∧ l.exponent.isNone ∧ (l.negative = true → n ≠ 0) ∧ InRange n then
    .number (.whole n h.2.2.2)
  else
    match Binary64.ofDigits? l.negative (l.whole.map digitValue)
      ((l.fraction.getD []).map digitValue) (l.exponent.getD 0) with
    | some x => .number (.binary x)
    | none => .unreadable

/-- The digits in front, at least one. -/
def digits1? (cs : List Char) : Option (List Char × List Char) :=
  match cs.takeWhile Char.isDigit with
  | [] => none
  | ds => some (ds, cs.dropWhile Char.isDigit)

/-- The digits of a whole part: a zero alone, or digits that start with
none. -/
def whole? : List Char → Option (List Char × List Char)
  | '0' :: cs => some (['0'], cs)
  | cs => digits1? cs

def fraction? : List Char → Option (Option (List Char) × List Char)
  | '.' :: cs => (digits1? cs).map fun (ds, cs) => (some ds, cs)
  | cs => some (none, cs)

def exponent? (cs : List Char) : Option (Option Int × List Char) :=
  let signed (sign : Int) (cs : List Char) :=
    (digits1? cs).map fun (ds, cs) => (some (sign * natOf ds), cs)
  match cs with
  | 'e' :: '+' :: cs | 'E' :: '+' :: cs => signed 1 cs
  | 'e' :: '-' :: cs | 'E' :: '-' :: cs => signed (-1) cs
  | 'e' :: cs | 'E' :: cs => signed 1 cs
  | cs => some (none, cs)

def number? (cs : List Char) : Option (Tree × List Char) := do
  let (negative, cs) := match cs with
    | '-' :: cs => (true, cs)
    | cs => (false, cs)
  let (whole, cs) ← whole? cs
  let (fraction, cs) ← fraction? cs
  let (exponent, cs) ← exponent? cs
  return (Literal.tree ⟨negative, whole, fraction, exponent⟩, cs)

/-! ## Texts -/

def hexDigit? (c : Char) : Option Nat :=
  if c.isDigit then some (c.toNat - '0'.toNat)
  else if 'a' ≤ c ∧ c ≤ 'f' then some (c.toNat - 'a'.toNat + 10)
  else if 'A' ≤ c ∧ c ≤ 'F' then some (c.toNat - 'A'.toNat + 10)
  else none

def hex4? : List Char → Option (Nat × List Char)
  | a :: b :: c :: d :: cs => do
    let a ← hexDigit? a
    let b ← hexDigit? b
    let c ← hexDigit? c
    let d ← hexDigit? d
    return (((a * 16 + b) * 16 + c) * 16 + d, cs)
  | _ => none

def isHighHalf (n : Nat) : Bool := 0xd800 ≤ n && n < 0xdc00

def isLowHalf (n : Nat) : Bool := 0xdc00 ≤ n && n < 0xe000

/-- The character of a numeric escape, two escapes making up one beyond
U+FFFF. Half of such a pair alone is no character. -/
def unicode? (cs : List Char) : Option (Option Char × List Char) := do
  let (n, cs) ← hex4? cs
  if isHighHalf n then
    match cs with
    | '\\' :: 'u' :: cs' =>
      let (m, cs') ← hex4? cs'
      if isLowHalf m then
        return (some (Char.ofNat (0x10000 + (n - 0xd800) * 0x400 + (m - 0xdc00))), cs')
      else return (none, cs)
    | cs => return (none, cs)
  else if isLowHalf n then return (none, cs)
  else return (some (Char.ofNat n), cs)

/-- The character after a backslash. -/
def escaped? : List Char → Option (Option Char × List Char)
  | '"' :: cs => some (some '"', cs)
  | '\\' :: cs => some (some '\\', cs)
  | '/' :: cs => some (some '/', cs)
  | 'b' :: cs => some (some '\x08', cs)
  | 'f' :: cs => some (some '\x0c', cs)
  | 'n' :: cs => some (some '\n', cs)
  | 'r' :: cs => some (some '\r', cs)
  | 't' :: cs => some (some '\t', cs)
  | 'u' :: cs => unicode? cs
  | _ => none

/-- The characters up to the closing quote, or nothing in their place when
one of them is half a pair. -/
def text? (fuel : Nat) (cs : List Char) : Option (Option (List Char) × List Char) :=
  match fuel, cs with
  | 0, _ | _, [] => none
  | _, '"' :: cs => some (some [], cs)
  | fuel + 1, '\\' :: cs => do
    let (c, cs) ← escaped? cs
    let (rest, cs) ← text? fuel cs
    return ((return (← c) :: (← rest)), cs)
  | fuel + 1, c :: cs =>
    if c.toNat < 0x20 then none
    else do
      let (rest, cs) ← text? fuel cs
      return (rest.map (c :: ·), cs)

/-! ## Trees -/

/-- Arrays and objects may be nested this deep. -/
def deepest : Nat := 127

/-- What a container says, unless it stands too deep. -/
def atLevel (level : Nat) (t : Tree) : Tree := if level < deepest then t else .unreadable

/-- An object of fields that were all read, each under a key that is a
text. -/
def objectOf (fields : List (Option String × Tree)) : Tree :=
  match fields.mapM fun (k, t) => k.map (·, t) with
  | some fields => .object fields
  | none => .unreadable

mutual

/-- The tree in front. The level counts the containers around it. -/
def tree? (fuel level : Nat) (cs : List Char) : Option (Tree × List Char) :=
  match fuel with
  | 0 => none
  | fuel + 1 =>
    match skip cs with
    | 'n' :: 'u' :: 'l' :: 'l' :: cs => some (.null, cs)
    | 't' :: 'r' :: 'u' :: 'e' :: cs => some (.bool true, cs)
    | 'f' :: 'a' :: 'l' :: 's' :: 'e' :: cs => some (.bool false, cs)
    | '"' :: cs => do
      let (s, cs) ← text? (cs.length + 1) cs
      return (match s with
        | some s => .text (String.ofList s)
        | none => .unreadable, cs)
    | '[' :: cs =>
      match skip cs with
      | ']' :: cs => some (atLevel level (.array []), cs)
      | cs => do
        let (items, cs) ← items? fuel (level + 1) cs
        return (atLevel level (.array items), cs)
    | '{' :: cs =>
      match skip cs with
      | '}' :: cs => some (atLevel level (.object []), cs)
      | cs => do
        let (fields, cs) ← fields? fuel (level + 1) cs
        return (atLevel level (objectOf fields), cs)
    | cs => number? cs

/-- The items up to the closing bracket, at least one. -/
def items? (fuel level : Nat) (cs : List Char) : Option (List Tree × List Char) :=
  match fuel with
  | 0 => none
  | fuel + 1 => do
    let (t, cs) ← tree? fuel level cs
    match skip cs with
    | ']' :: cs => return ([t], cs)
    | ',' :: cs =>
      let (ts, cs) ← items? fuel level cs
      return (t :: ts, cs)
    | _ => none

/-- The fields up to the closing brace, at least one. -/
def fields? (fuel level : Nat) (cs : List Char) :
    Option (List (Option String × Tree) × List Char) :=
  match fuel with
  | 0 => none
  | fuel + 1 =>
    match skip cs with
    | '"' :: cs => do
      let (k, cs) ← text? (cs.length + 1) cs
      match skip cs with
      | ':' :: cs =>
        let (t, cs) ← tree? fuel level cs
        let field := (k.map String.ofList, t)
        match skip cs with
        | '}' :: cs => return ([field], cs)
        | ',' :: cs =>
          let (fs, cs) ← fields? fuel level cs
          return (field :: fs, cs)
        | _ => none
      | _ => none
    | _ => none

end

end Reader

/-- The tree that a whole text writes. Every step of the reader takes a
character away or ends, so three steps to a character are enough. -/
def Tree.read? (s : String) : Option Tree :=
  let cs := s.toList
  match Reader.tree? (3 * cs.length + 3) 0 cs with
  | some (t, cs) => if (Reader.skip cs).isEmpty then some t else none
  | none => none

end ParamStore.Json
