import ParamStore.Yaml.Character

/-!
# Scalars as they are read

The four forms of a scalar: plain, in single or double quotes, and as a
literal block. Within the first three, blanks around a line break are
dropped, one break counts as a space, and of several all but the first are
kept.

What has been read of a scalar is kept backwards, the last character first.
-/

namespace ParamStore.Yaml

/-- How many bytes characters take in UTF-8. -/
def byteLength (cs : List Char) : Nat := cs.foldl (fun n c => n + c.utf8Size) 0

/-- Where a text stands: after so many bytes, in a line, and after so many
characters of it. -/
structure Place where
  bytes : Nat
  line : Nat
  column : Nat
  deriving Repr, DecidableEq

namespace Place

/-- The place after characters of the same line. -/
def next (p : Place) (cs : List Char) : Place :=
  { p with bytes := p.bytes + byteLength cs, column := p.column + cs.length }

/-- The place after a line break. -/
def newLine (p : Place) (cs : List Char) : Place := ⟨p.bytes + byteLength cs, p.line + 1, 0⟩

end Place

/-- A text from a place on. -/
structure Cursor where
  place : Place
  rest : List Char
  deriving Repr, DecidableEq

namespace Cursor

def advance (c : Cursor) (n : Nat) : Cursor := ⟨c.place.next (c.rest.take n), c.rest.drop n⟩

/-- The characters in front for which a test holds, and the place after
them. -/
def span (c : Cursor) (test : Char → Bool) : List Char × Cursor :=
  let cs := c.rest.takeWhile test
  (cs, c.advance cs.length)

/-- What the break in front counts for, and the place after it. -/
def takeBreak (c : Cursor) : List Char × Cursor :=
  let n := breakLength c.rest
  (breakText c.rest, ⟨c.place.newLine (c.rest.take n), c.rest.drop n⟩)

/-- The start of the next line, if nothing but blanks and a comment stands
before it. -/
def nextLine? (c : Cursor) : Option Cursor :=
  let c := (c.span isBlank).2
  let c := if c.rest.head? == some '#' then (c.span fun x => !isBreak x).2 else c
  match c.rest with
  | [] => some c
  | x :: _ => if isBreak x then some c.takeBreak.2 else none

end Cursor

/-- Blanks and breaks between two parts of a scalar. -/
structure Gap where
  /-- The blanks before the first break, backwards. -/
  blanks : List Char
  broken : Bool
  /-- The first break. -/
  first : List Char
  /-- The breaks after it, backwards. -/
  others : List Char

namespace Gap

def none : Gap := ⟨[], false, [], []⟩

/-- What the gap counts for in the text, backwards. -/
def text (g : Gap) : List Char :=
  if g.broken then
    if g.first = ['\n'] then (if g.others.isEmpty then [' '] else g.others)
    else g.others ++ g.first
  else g.blanks

def addBlank (g : Gap) (c : Char) : Gap :=
  if g.broken then g else { g with blanks := c :: g.blanks }

def addBreak (g : Gap) (b : List Char) : Gap :=
  if g.broken then { g with others := b ++ g.others } else ⟨[], true, b, []⟩

end Gap

/-- Whether a document ends or starts here: three dashes or dots at the
margin and a gap after them. -/
def atDocumentMark (c : Cursor) : Bool :=
  c.place.column == 0 &&
    match c.rest with
    | '-' :: '-' :: '-' :: cs | '.' :: '.' :: '.' :: cs => atGap cs
    | _ => false

/-- Whether the text goes on with a mark of the flow style. -/
def isFlowMark (c : Char) : Bool := c == ',' || c == '[' || c == ']' || c == '\x7b' || c == '\x7d'

/-- A plain scalar: its text, whether a line was broken after it, and the
place after it. The margin is how far to the right its lines have to
stand outside of the flow style. -/
def scanPlain (flow : Bool) (margin : Int) (fuel : Nat) (text : List Char) (gap : Gap)
    (fresh : Bool) (c : Cursor) : Option (List Char × Bool × Cursor) :=
  match fuel, c.rest with
  | 0, _ => none
  | _, [] => some (text.reverse, gap.broken, c)
  | fuel + 1, x :: xs =>
    if isBlank x then
      if gap.broken && (c.place.column : Int) < margin && x == '\t' then none
      else scanPlain flow margin fuel text (gap.addBlank x) true (c.advance 1)
    else if isBreak x then
      let (b, c) := c.takeBreak
      scanPlain flow margin fuel text (gap.addBreak b) true c
    else
      let ended := (gap.broken && !flow && (c.place.column : Int) < margin)
        || (fresh && (atDocumentMark c || x == '#'))
        || (x == ':' && atGap xs) || (flow && isFlowMark x)
      if ended then some (text.reverse, gap.broken, c)
      else if flow && x == ':' && (xs.head?.any fun y => isFlowMark y || y == '?') then none
      else scanPlain flow margin fuel (x :: gap.text ++ text) .none false (c.advance 1)

def hexValue? (c : Char) : Option Nat :=
  if c.isDigit then some (c.toNat - '0'.toNat)
  else if 'a' ≤ c ∧ c ≤ 'f' then some (c.toNat - 'a'.toNat + 10)
  else if 'A' ≤ c ∧ c ≤ 'F' then some (c.toNat - 'A'.toNat + 10)
  else none

def charOfHex? (digits : List Char) : Option Char := do
  let n ← digits.foldlM (fun n d => (n * 16 + ·) <$> hexValue? d) 0
  if h : n.isValidChar then return ⟨n.toUInt32, by
    rcases h with h | ⟨h₁, h₂⟩
    · exact .inl (by simp [Nat.toUInt32]; omega)
    · exact .inr (by simp [Nat.toUInt32]; omega)⟩
  else none

/-- The character of an escape, and how long the escape is without its
backslash. -/
def escape? : List Char → Option (Char × Nat)
  | 'x' :: cs => if cs.length < 2 then none else (charOfHex? (cs.take 2)).map (·, 3)
  | 'u' :: cs => if cs.length < 4 then none else (charOfHex? (cs.take 4)).map (·, 5)
  | 'U' :: cs => if cs.length < 8 then none else (charOfHex? (cs.take 8)).map (·, 9)
  | '0' :: _ => some ('\x00', 1)
  | 'a' :: _ => some ('\x07', 1)
  | 'b' :: _ => some ('\x08', 1)
  | 't' :: _ | '\t' :: _ => some ('\t', 1)
  | 'n' :: _ => some ('\n', 1)
  | 'v' :: _ => some ('\x0b', 1)
  | 'f' :: _ => some ('\x0c', 1)
  | 'r' :: _ => some ('\r', 1)
  | 'e' :: _ => some ('\x1b', 1)
  | ' ' :: _ => some (' ', 1)
  | '"' :: _ => some ('"', 1)
  | '/' :: _ => some ('/', 1)
  | '\\' :: _ => some ('\\', 1)
  | 'N' :: _ => some ('\u0085', 1)
  | '_' :: _ => some ('\u00a0', 1)
  | 'L' :: _ => some ('\u2028', 1)
  | 'P' :: _ => some ('\u2029', 1)
  | _ => none

/-- A quoted scalar after its opening quote: its text and the place after
the closing one. A doubled single quote stands for one; in double quotes a
backslash escapes a character or a break. -/
def scanQuoted (quote : Char) (fuel : Nat) (text : List Char) (gap : Gap) (fresh : Bool)
    (c : Cursor) : Option (List Char × Cursor) :=
  match fuel, c.rest with
  | 0, _ | _, [] => none
  | fuel + 1, x :: xs =>
    if isBlank x then scanQuoted quote fuel text (gap.addBlank x) true (c.advance 1)
    else if isBreak x then
      let (b, c) := c.takeBreak
      scanQuoted quote fuel text (gap.addBreak b) true c
    else if fresh && atDocumentMark c then none
    else
      let text := gap.text ++ text
      if x == quote then
        if quote == '\'' && xs.head? == some '\'' then
          scanQuoted quote fuel ('\'' :: text) .none false (c.advance 2)
        else some (text.reverse, c.advance 1)
      else if quote == '"' && x == '\\' then
        if xs.head?.any isBreak then
          scanQuoted quote fuel text ⟨[], true, [], []⟩ true (c.advance 1).takeBreak.2
        else
          match escape? xs with
          | none => none
          | some (y, n) => scanQuoted quote fuel (y :: text) .none false (c.advance (n + 1))
      else scanQuoted quote fuel (x :: text) .none false (c.advance 1)

/-! ## Blocks -/

/-- What happens to the breaks at the end of a block. -/
inductive Chomping where
  | strip
  | clip
  | keep
  deriving Repr, DecidableEq

/-- The header of a block after its mark: the indentation it asks for, the
chomping, and the place after both. -/
def blockHeader? (c : Cursor) : Option (Option Nat × Chomping × Cursor) :=
  let chomping? : Char → Option Chomping
    | '+' => some .keep
    | '-' => some .strip
    | _ => none
  let indent? (x : Char) : Option Nat :=
    if '1' ≤ x ∧ x ≤ '9' then some (x.toNat - '0'.toNat) else none
  match c.rest with
  | [] => some (none, .clip, c)
  | x :: xs =>
    match chomping? x with
    | some ch =>
      match xs.head?.bind indent? with
      | some n => some (some n, ch, c.advance 2)
      | none => some (none, ch, c.advance 1)
    | none =>
      match indent? x with
      | some n =>
        match xs.head?.bind chomping? with
        | some ch => some (some n, ch, c.advance 2)
        | none => some (some n, .clip, c.advance 1)
      | none => some (none, .clip, c)

/-- Empty lines and the indentation after them: the breaks backwards, the
furthest column that was reached, and the place of the first other character. Not
known yet, the indentation is no limit. -/
def blockBreaks (indent : Option Nat) (fuel : Nat) (breaks : List Char) (furthest : Nat)
    (c : Cursor) : Option (List Char × Nat × Cursor) :=
  let inside := indent.all fun n => decide (c.place.column < n)
  match fuel, c.rest with
  | 0, _ => none
  | _, [] => some (breaks, max furthest c.place.column, c)
  | fuel + 1, x :: _ =>
    if inside && x == ' ' then blockBreaks indent fuel breaks furthest (c.advance 1)
    else if inside && x == '\t' then none
    else if isBreak x then
      let furthest := max furthest c.place.column
      let (b, c) := c.takeBreak
      blockBreaks indent fuel (b ++ breaks) furthest c
    else some (breaks, max furthest c.place.column, c)

/-- The lines of a block from its first character on: the text backwards
without its last break, that break, the empty lines after it backwards, and
the place where it ends. In a folded block one break between two lines that start with no
blank counts as a space. -/
def blockLines (folded : Bool) (indent : Nat) (fuel : Nat) (text lastBreak breaks : List Char)
    (afterBlank : Bool) (c : Cursor) : Option (List Char × List Char × List Char × Cursor) :=
  match fuel with
  | 0 => none
  | fuel + 1 =>
    match c.rest with
    | [] => some (text, lastBreak, breaks, c)
    | x :: _ =>
      if c.place.column ≠ indent then some (text, lastBreak, breaks, c)
      else
        let isFold := folded && lastBreak == ['\n'] && !afterBlank && !isBlank x
        let between :=
          if isFold then (if breaks.isEmpty then [' '] else breaks) else breaks ++ lastBreak
        let (line, after) := c.span fun y => !isBreak y
        let (b, after) := after.takeBreak
        match blockBreaks (some indent) (fuel + 1) [] 0 after with
        | none => none
        | some (breaks, _, after) =>
          blockLines folded indent fuel (line.reverse ++ between ++ text) b breaks (isBlank x)
            after

/-- A block scalar after its mark: its text and the place after it. Its
lines stand further to the right than the parent's column. -/
def scanBlock (folded : Bool) (parent : Int) (fuel : Nat) (c : Cursor) :
    Option (List Char × Cursor) := do
  let (hint, chomping, c) ← blockHeader? c
  let c ← c.nextLine?
  let known := hint.map fun n => (max parent 0).toNat + n
  let (breaks, furthest, c) ← blockBreaks known fuel [] 0 c
  let indent := known.getD (max (max furthest (parent + 1).toNat) 1)
  let (text, lastBreak, breaks, c) ← blockLines folded indent fuel [] [] breaks false c
  let tail := match chomping with
    | .strip => []
    | .clip => lastBreak
    | .keep => breaks ++ lastBreak
  return ((tail ++ text).reverse, c)

end ParamStore.Yaml
