import ParamStore.Yaml.Token
import ParamStore.Yaml.Token.Scalar

/-!
# Properties and directives

A node may have a name, under which it can be used again, and a tag, which
says what kind of value it is. A tag is written in full between angle
brackets, or with a handle in front that stands for the start of it.
Directives come before a document: the version of the format, and what
further handles stand for.
-/

namespace ParamStore.Yaml

def isNameChar (c : Char) : Bool := c.isAlphanum || c == '_' || c == '-'

/-- The name of a node, with something after it that ends a name. -/
def scanName (c : Cursor) : Option (String × Cursor) :=
  let (name, c) := c.span isNameChar
  let ended := atGap c.rest || c.rest.head?.any fun x => "?:,]\x7d%@\x60".toList.contains x
  if name.isEmpty || !ended then none else some (String.ofList name, c)

/-! ## Tags -/

/-- The octet that a percent sign and two digits write. -/
def octet? : List Char → Option UInt8
  | '%' :: a :: b :: _ => do return UInt8.ofNat (16 * (← hexValue? a) + (← hexValue? b))
  | _ => none

/-- How many octets a character takes by its first one, or none if no
character begins with it. -/
def octetCount (first : UInt8) : Nat :=
  if first < 0x80 then 1
  else if first < 0xc0 then 0
  else if first < 0xe0 then 2
  else if first < 0xf0 then 3
  else if first < 0xf8 then 4
  else 0

/-- Octets that go on with a character. -/
def furtherOctets? : Nat → List Char → Option Octets
  | 0, _ => some []
  | n + 1, cs => do
    let octet ← octet? cs
    if octet < 0x80 || 0xc0 ≤ octet then none
    return octet :: (← furtherOctets? n (cs.drop 3))

/-- As many escaped octets as a character takes. Their number and their
places are checked, but not whether they are a character. -/
def escaped? (cs : List Char) : Option Octets := do
  let first ← octet? cs
  let count := octetCount first
  if count = 0 then none
  return first :: (← furtherOctets? (count - 1) (cs.drop 3))

/-- A character of the text of a tag. Those of lists are allowed only in a
tag in full and in a directive. -/
def isTagChar (full : Bool) (c : Char) : Bool :=
  isNameChar c || ";/?:@&=+$.!~*'()".toList.contains c || (full && ",[]".toList.contains c)

/-- The octets that the text of a tag writes, after those in `back`, which
are kept in reverse. -/
def scanOctets (full : Bool) (fuel : Nat) (back : Octets) (c : Cursor) :
    Option (Octets × Cursor) :=
  match fuel, c.rest with
  | 0, _ => none
  | _, [] => some (back.reverse, c)
  | fuel + 1, x :: _ =>
    if x == '%' then do
      let octets ← escaped? c.rest
      scanOctets full fuel (octets.reverse ++ back) (c.advance (3 * octets.length))
    else if isTagChar full x then scanOctets full fuel (x.toUInt8 :: back) (c.advance 1)
    else some (back.reverse, c)

/-- Octets end before the first NUL. -/
def untilNul (octets : Octets) : Octets := octets.takeWhile (· != 0)

/-- The octets of a tag, of which at least one is written. -/
def someOctets (full : Bool) (c : Cursor) : Option (Octets × Cursor) := do
  let (octets, c) ← scanOctets full (c.rest.length + 1) [] c
  if octets.isEmpty then none else some (untilNul octets, c)

/-- The handle of a tag: from one exclamation mark to the next, or else as
far as a name goes. -/
def scanHandle (c : Cursor) : Option (List Char × Cursor) :=
  match c.rest with
  | '!' :: _ =>
    let (name, c) := (c.advance 1).span isNameChar
    if c.rest.head? == some '!' then some ('!' :: name ++ ['!'], c.advance 1)
    else some ('!' :: name, c)
  | _ => none

/-- The handle of a tag and what comes after it. A tag in full has no
handle, and neither has the exclamation mark alone. -/
def tagParts (c : Cursor) : Option (String × Octets × Cursor) := do
  if ['!', '<'].isPrefixOf c.rest then
    let (octets, c) ← someOctets true (c.advance 2)
    if c.rest.head? == some '>' then return ("", octets, c.advance 1) else none
  else
    let (handle, c) ← scanHandle c
    if 1 < handle.length && handle.getLast? == some '!' then
      let (octets, c) ← someOctets false c
      return (String.ofList handle, octets, c)
    else
      let back := (handle.drop 1).reverse.map Char.toUInt8
      let (octets, c) ← scanOctets false (c.rest.length + 1) back c
      return if (untilNul octets).isEmpty then ("", ['!'.toUInt8], c)
        else ("!", untilNul octets, c)

/-- A tag, with a gap after it or a comma of the flow style. -/
def scanTag (inFlow : Bool) (c : Cursor) : Option (Token × Cursor) := do
  let (handle, octets, c) ← tagParts c
  if (inFlow && c.rest.head? == some ',') || atGap c.rest then
    return (.tag handle octets, c)
  else none

/-! ## Directives -/

/-- A number of at most nine digits. -/
def scanVersionPart (c : Cursor) : Option (Nat × Cursor) :=
  let (digits, c) := c.span Char.isDigit
  if digits.isEmpty || 9 < digits.length then none
  else some (digits.foldl (fun n d => 10 * n + (d.toNat - '0'.toNat)) 0, c)

/-- The version after the name of its directive. -/
def scanVersion (c : Cursor) : Option (Token × Cursor) := do
  let (major, c) ← scanVersionPart c
  if c.rest.head? != some '.' then none
  let (minor, c) ← scanVersionPart (c.advance 1)
  return (.version major minor, c)

/-- A handle of tags and what it stands for, after the name of the
directive. -/
def scanHandleMeaning (c : Cursor) : Option (Token × Cursor) := do
  let (handle, c) ← scanHandle c
  if handle.getLast? != some '!' || !c.rest.head?.any isBlank then none
  let (octets, c) ← someOctets true (c.span isBlank).2
  if atGap c.rest then return (.handle (String.ofList handle) octets, c) else none

/-- A directive after its percent sign, up to the next line. -/
def scanDirective (c : Cursor) : Option (Token × Cursor) := do
  let (name, c) := c.span isNameChar
  if !atGap c.rest then none
  let c := (c.span isBlank).2
  let (t, c) ← match String.ofList name with
    | "YAML" => scanVersion c
    | "TAG" => scanHandleMeaning c
    | _ => none
  return (t, ← c.nextLine?)

end ParamStore.Yaml
