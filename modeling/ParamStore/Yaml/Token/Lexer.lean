import ParamStore.Yaml.Token
import ParamStore.Yaml.Token.Property

/-!
# Finding the tokens

A text is read from left to right. That a scalar was a key is known only
when the colon after it is reached; the key token is then put in front of
it, together with the start of the block if it is the first key there. So
each level of the flow style remembers the last place where a key may have
begun.
-/

namespace ParamStore.Yaml

/-- A place where a key may have begun: the token it would begin with, and
whether nothing but a key can stand there. -/
structure KeySite where
  required : Bool
  token : Nat
  place : Place
  deriving Repr, DecidableEq

/-- A text that is read in part. -/
structure Lexer where
  cursor : Cursor
  /-- The tokens so far, the last one first. -/
  tokens : List Token
  /-- How many tokens these are. -/
  count : Nat
  /-- The column of the innermost block, or -1 outside of all. -/
  indent : Int
  /-- The columns of the blocks around it. -/
  outer : List Int
  /-- The key site of the innermost level of the flow style. -/
  site : Option KeySite
  /-- The key sites of the levels around it. -/
  outerSites : List (Option KeySite)
  /-- Whether a key may begin at the next token. -/
  keyAllowed : Bool

namespace Lexer

def start (cs : List Char) : Lexer where
  cursor := ⟨⟨0, 0, 0⟩, cs⟩
  tokens := []
  count := 0
  indent := -1
  outer := []
  site := none
  outerSites := []
  keyAllowed := true

/-- Whether the text stands inside brackets or braces. -/
def inFlow (l : Lexer) : Bool := !l.outerSites.isEmpty

def column (l : Lexer) : Int := l.cursor.place.column

def push (l : Lexer) (t : Token) : Lexer :=
  { l with tokens := t :: l.tokens, count := l.count + 1 }

/-- Put a token in front of those from a position on. -/
def insert (l : Lexer) (position : Nat) (t : Token) : Lexer :=
  { l with tokens := l.tokens.insertIdx (l.count - position) t, count := l.count + 1 }

def advance (l : Lexer) (n : Nat) : Lexer := { l with cursor := l.cursor.advance n }

/-! ## Indentation and keys -/

/-- Open a block at a column further to the right, with its first token at
this position. -/
def openBlock (l : Lexer) (column : Int) (position : Nat) (t : Token) : Lexer :=
  if l.inFlow || column ≤ l.indent then l
  else { l.insert position t with outer := l.indent :: l.outer, indent := column }

/-- The blocks to the right of a column, from the innermost one: the
column of the block that stays, those around it, and how many end. -/
def endedBlocks (column indent : Int) : List Int → Int × List Int × Nat
  | [] => (indent, [], 0)
  | o :: os =>
    if column < indent then
      let (i, rest, n) := endedBlocks column o os
      (i, rest, n + 1)
    else (indent, o :: os, 0)

def closeBlocks (l : Lexer) (column : Int) : Lexer :=
  if l.inFlow then l
  else
    let (indent, outer, n) := endedBlocks column l.indent l.outer
    { l with
      indent, outer
      tokens := List.replicate n .blockEnd ++ l.tokens
      count := l.count + n }

/-- Give up the key site of this level, unless a key has to be there. -/
def dropSite (l : Lexer) : Option Lexer :=
  if l.site.any KeySite.required then none else some { l with site := none }

/-- Remember that a key may begin with the next token. -/
def saveSite (l : Lexer) : Option Lexer :=
  if l.keyAllowed then do
    let l ← l.dropSite
    let site : KeySite := ⟨!l.inFlow && l.indent == l.column, l.count, l.cursor.place⟩
    return { l with site := some site }
  else some l

/-- The longest key, in bytes. -/
def longestKey : Nat := 1024

/-- Whether a key that began at a site would be too long by now: keys stay
on one line. -/
def isStale (l : Lexer) (s : KeySite) : Bool :=
  s.place.line < l.cursor.place.line || s.place.bytes + longestKey < l.cursor.place.bytes

/-- Give up a site that is too far away. -/
def refresh (l : Lexer) : Option KeySite → Option (Option KeySite)
  | none => some none
  | some s => if l.isStale s then (if s.required then none else some none) else some (some s)

/-- Give up all key sites that are too far away. -/
def refreshSites (l : Lexer) : Option Lexer := do
  let site ← l.refresh l.site
  let outerSites ← l.outerSites.mapM l.refresh
  return { l with site, outerSites }

/-! ## Between tokens -/

/-- Skip blanks, comments, line breaks, and the mark that a line may begin
with. The mark takes a column, so what follows it is indented. A tab is no
blank where it could be taken for indentation. -/
def skipGap (keyAllowed : Bool) (inFlow : Bool) (fuel : Nat) (c : Cursor) : Cursor × Bool :=
  match fuel, c.rest with
  | 0, _ | _, [] => (c, keyAllowed)
  | fuel + 1, x :: _ =>
    let skipped := x == ' ' || (x == byteOrderMark && c.place.column == 0)
      || (x == '\t' && (inFlow || !keyAllowed))
    if skipped then
      skipGap keyAllowed inFlow fuel (c.advance 1)
    else if x == '#' then
      skipGap keyAllowed inFlow fuel (c.span fun y => !isBreak y).2
    else if isBreak x then
      skipGap (keyAllowed || !inFlow) inFlow fuel c.takeBreak.2
    else (c, keyAllowed)

/-! ## Tokens -/

def flowStart (l : Lexer) (t : Token) : Option Lexer := do
  let l ← l.saveSite
  return { (l.advance 1).push t with
    site := none
    outerSites := l.site :: l.outerSites
    keyAllowed := true }

def flowEnd (l : Lexer) (t : Token) : Option Lexer := do
  let l ← l.dropSite
  let (site, outerSites) := match l.outerSites with
    | [] => (l.site, [])
    | s :: ss => (s, ss)
  return { (l.advance 1).push t with site, outerSites, keyAllowed := false }

def comma (l : Lexer) : Option Lexer := do
  let l ← l.dropSite
  return { (l.advance 1).push .comma with keyAllowed := true }

def entry (l : Lexer) : Option Lexer := do
  if !l.inFlow && !l.keyAllowed then none
  let l ← (l.openBlock l.column l.count .sequenceStart).dropSite
  return { (l.advance 1).push .entry with keyAllowed := true }

def explicitKey (l : Lexer) : Option Lexer := do
  if !l.inFlow && !l.keyAllowed then none
  let l ← (l.openBlock l.column l.count .mappingStart).dropSite
  return { (l.advance 1).push .key with keyAllowed := !l.inFlow }

def colon (l : Lexer) : Option Lexer :=
  match l.site with
  | some s =>
    let l := (l.insert s.token .key).openBlock s.place.column s.token .mappingStart
    some { (l.advance 1).push .value with site := none, keyAllowed := false }
  | none =>
    if !l.inFlow && !l.keyAllowed then none
    else
      let l := l.openBlock l.column l.count .mappingStart
      some { (l.advance 1).push .value with keyAllowed := !l.inFlow }

def documentMark (l : Lexer) (t : Token) : Option Lexer := do
  let l ← (l.closeBlocks (-1)).dropSite
  return { (l.advance 3).push t with keyAllowed := false }

def quoted (fuel : Nat) (l : Lexer) (quote : Char) : Option Lexer := do
  let l ← l.saveSite
  let c := l.cursor.advance 1
  let (text, c) ← scanQuoted quote fuel [] .none false c
  return { l.push (.scalar false (String.ofList text)) with cursor := c, keyAllowed := false }

def block (fuel : Nat) (l : Lexer) (folded : Bool) : Option Lexer := do
  let l ← l.dropSite
  let (text, c) ← scanBlock folded l.indent fuel (l.cursor.advance 1)
  return { l.push (.scalar false (String.ofList text)) with cursor := c, keyAllowed := true }

def plain (fuel : Nat) (l : Lexer) : Option Lexer := do
  let l ← l.saveSite
  let (text, broken, c) ← scanPlain l.inFlow (l.indent + 1) fuel [] .none false l.cursor
  return { l.push (.scalar true (String.ofList text)) with cursor := c, keyAllowed := broken }

/-- A name, in front of its node or in its place. -/
def name (l : Lexer) (make : String → Token) : Option Lexer := do
  let l ← l.saveSite
  let (name, c) ← scanName (l.cursor.advance 1)
  return { l.push (make name) with cursor := c, keyAllowed := false }

def tag (l : Lexer) : Option Lexer := do
  let l ← l.saveSite
  let (t, c) ← scanTag l.inFlow l.cursor
  return { l.push t with cursor := c, keyAllowed := false }

def directive (l : Lexer) : Option Lexer := do
  let l ← (l.closeBlocks (-1)).dropSite
  let (t, c) ← scanDirective (l.cursor.advance 1)
  return { l.push t with cursor := c, keyAllowed := false }

/-- Whether a plain scalar may begin with the first of these characters. -/
def beginsPlain (inFlow : Bool) (x : Char) (xs : List Char) : Bool :=
  if x == '-' then !xs.head?.any isBlank
  else if x == '?' || x == ':' then !inFlow && !atGap xs
  else !"\t,[]\x7b\x7d#&*!|>'\"%@\x60".toList.contains x

/-- The token that begins at a character. The fuel is more than what is
left of the text. -/
def token (fuel : Nat) (l : Lexer) (x : Char) (xs : List Char) : Option Lexer :=
  if l.cursor.place.column == 0 && x == '%' then l.directive
  else if atDocumentMark l.cursor then
    l.documentMark (if x == '-' then .documentStart else .documentEnd)
  else if x == '[' then l.flowStart .flowSequenceStart
  else if x == '\x7b' then l.flowStart .flowMappingStart
  else if x == ']' then l.flowEnd .flowSequenceEnd
  else if x == '\x7d' then l.flowEnd .flowMappingEnd
  else if x == ',' then l.comma
  else if x == '-' && atGap xs then l.entry
  else if x == '?' && (l.inFlow || atGap xs) then l.explicitKey
  else if x == ':' && (l.inFlow || atGap xs) then l.colon
  else if x == '*' then l.name .reference
  else if x == '&' then l.name .anchor
  else if x == '!' then l.tag
  else if x == '|' && !l.inFlow then l.block fuel false
  else if x == '>' && !l.inFlow then l.block fuel true
  else if x == '\'' || x == '"' then l.quoted fuel x
  else if beginsPlain l.inFlow x xs then l.plain fuel
  else none

/-- The tokens of the text, of which every one takes at least a character. -/
def run (fuel : Nat) (l : Lexer) : Option (List Token) :=
  match fuel with
  | 0 => none
  | fuel + 1 => do
    let (cursor, keyAllowed) := skipGap l.keyAllowed l.inFlow (fuel + 1) l.cursor
    let l ← { l with cursor, keyAllowed }.refreshSites
    let l := l.closeBlocks l.column
    match l.cursor.rest with
    | [] =>
      let l ← (l.closeBlocks (-1)).dropSite
      return l.tokens.reverse
    | x :: xs =>
      let l ← l.token (fuel + 1) x xs
      run fuel l

end Lexer

def Token.scan (text : String) : Option (List Token) :=
  let cs := text.toList
  if cs.all isAllowed then (Lexer.start cs).run (cs.length + 1) else none

end ParamStore.Yaml
