import ParamStore.Yaml.Token.Lexer

/-!
# YAML documents

What a text says: scalars, lists and mappings, with the names and tags in
front of them and references to them by name. A value that is left out is an
empty plain scalar.
-/

namespace ParamStore.Yaml

inductive Node where
  | scalar (plain : Bool) (text : String)
  | sequence (items : List Node)
  | mapping (fields : List (Node × Node))
  /-- A node with a name. -/
  | named (name : String) (node : Node)
  /-- A node with a tag: its handle, and what comes after it. -/
  | tagged (handle : String) (octets : Octets) (node : Node)
  | reference (name : String)

namespace Node

def absent : Node := .scalar true ""

/-- Whether a value after a key, a colon or a dash is left out. -/
def isAbsent (closing : List Token) : List Token → Bool
  | [] => true
  | t :: _ => closing.contains t

/-- Whether a node without properties begins here. -/
def begins (inBlock dashes : Bool) : List Token → Bool
  | .entry :: _ => dashes
  | .scalar .. :: _ | .flowSequenceStart :: _ | .flowMappingStart :: _ => true
  | .sequenceStart :: _ | .mappingStart :: _ => inBlock
  | _ => false

mutual

/-- The node in front. Where `inBlock` holds it may be written as a block,
and where `dashes` holds also as a list whose dashes stand no further to
the right than the keys around it. -/
def node? (fuel : Nat) (inBlock dashes : Bool) (ts : List Token) : Option (Node × List Token) :=
  match fuel with
  | 0 => none
  | fuel + 1 =>
    match ts with
    | .reference name :: ts => some (.reference name, ts)
    | .anchor a :: .tag h s :: ts | .tag h s :: .anchor a :: ts => do
      let (n, ts) ← described? fuel inBlock dashes ts
      return (.named a (.tagged h s n), ts)
    | .anchor a :: ts => do
      let (n, ts) ← described? fuel inBlock dashes ts
      return (.named a n, ts)
    | .tag h s :: ts => do
      let (n, ts) ← described? fuel inBlock dashes ts
      return (.tagged h s n, ts)
    | ts => content? fuel inBlock dashes ts

/-- The node after its properties, which may be left out. -/
def described? (fuel : Nat) (inBlock dashes : Bool) (ts : List Token) :
    Option (Node × List Token) :=
  match fuel with
  | 0 => none
  | fuel + 1 =>
    if begins inBlock dashes ts then content? fuel inBlock dashes ts else some (absent, ts)

/-- The node in front, which has no properties. -/
def content? (fuel : Nat) (inBlock dashes : Bool) (ts : List Token) :
    Option (Node × List Token) :=
  match fuel with
  | 0 => none
  | fuel + 1 =>
    match ts with
    | .entry :: ts => if dashes then looseItems? fuel (.entry :: ts) else none
    | .scalar p s :: ts => some (.scalar p s, ts)
    | .flowSequenceStart :: ts => flowItems? fuel true ts
    | .flowMappingStart :: ts => flowFields? fuel true ts
    | .sequenceStart :: ts => if inBlock then items? fuel ts else none
    | .mappingStart :: ts => if inBlock then fields? fuel ts else none
    | _ => none

/-- The node in front, or the absent one before one of the closing tokens. -/
def optional? (fuel : Nat) (inBlock dashes : Bool) (closing ts : List Token) :
    Option (Node × List Token) :=
  match fuel with
  | 0 => none
  | fuel + 1 =>
    if isAbsent closing ts then some (absent, ts) else node? fuel inBlock dashes ts

/-- The items of a list up to the end of its block. -/
def items? (fuel : Nat) (ts : List Token) : Option (Node × List Token) :=
  match fuel with
  | 0 => none
  | fuel + 1 =>
    match ts with
    | .blockEnd :: ts => some (.sequence [], ts)
    | .entry :: ts => do
      let (n, ts) ← optional? fuel true false [.entry, .blockEnd] ts
      match ← items? fuel ts with
      | (.sequence ns, ts) => return (.sequence (n :: ns), ts)
      | _ => none
    | _ => none

/-- The items of a list without a block of its own. -/
def looseItems? (fuel : Nat) (ts : List Token) : Option (Node × List Token) :=
  match fuel with
  | 0 => none
  | fuel + 1 =>
    match ts with
    | .entry :: ts => do
      let (n, ts) ← optional? fuel true false [.entry, .key, .value, .blockEnd] ts
      match ← looseItems? fuel ts with
      | (.sequence ns, ts) => return (.sequence (n :: ns), ts)
      | _ => none
    | ts => some (.sequence [], ts)

/-- The value after a key in a block. -/
def blockValue? (fuel : Nat) (ts : List Token) : Option (Node × List Token) :=
  match fuel with
  | 0 => none
  | fuel + 1 =>
    match ts with
    | .value :: ts => optional? fuel true true [.key, .value, .blockEnd] ts
    | ts => some (absent, ts)

/-- The fields of a mapping up to the end of its block. -/
def fields? (fuel : Nat) (ts : List Token) : Option (Node × List Token) :=
  match fuel with
  | 0 => none
  | fuel + 1 =>
    match ts with
    | .blockEnd :: ts => some (.mapping [], ts)
    | .key :: ts => do
      let (k, ts) ← optional? fuel true true [.key, .value, .blockEnd] ts
      let (v, ts) ← blockValue? fuel ts
      match ← fields? fuel ts with
      | (.mapping fs, ts) => return (.mapping ((k, v) :: fs), ts)
      | _ => none
    | _ => none

/-- The value after a key between brackets or braces. -/
def flowValue? (fuel : Nat) (closing : Token) (ts : List Token) : Option (Node × List Token) :=
  match fuel with
  | 0 => none
  | fuel + 1 =>
    match ts with
    | .value :: ts => optional? fuel false false [.comma, closing] ts
    | ts => some (absent, ts)

/-- The key after a question mark between brackets. One that is left out
takes the mark in its place with it, so that `[? ,, a]` has two items. -/
def itemKey? (fuel : Nat) (ts : List Token) : Option (Node × List Token) :=
  match fuel with
  | 0 => none
  | fuel + 1 =>
    match ts with
    | .value :: ts | .comma :: ts | .flowSequenceEnd :: ts => some (absent, ts)
    | ts => node? fuel false false ts

/-- The items up to the closing bracket; all but the first follow a comma.
A key among them makes a mapping of one field. -/
def flowItems? (fuel : Nat) (first : Bool) (ts : List Token) : Option (Node × List Token) :=
  match fuel with
  | 0 => none
  | fuel + 1 =>
    match ts with
    | .flowSequenceEnd :: ts => some (.sequence [], ts)
    | ts => do
      let ts ← match first, ts with
        | true, ts => some ts
        | false, .comma :: ts => some ts
        | false, _ => none
      match ts with
      | .flowSequenceEnd :: ts => return (.sequence [], ts)
      | .key :: ts =>
        let (k, ts) ← itemKey? fuel ts
        let (v, ts) ← flowValue? fuel .flowSequenceEnd ts
        match ← flowItems? fuel false ts with
        | (.sequence ns, ts) => return (.sequence (.mapping [(k, v)] :: ns), ts)
        | _ => none
      | ts =>
        let (n, ts) ← node? fuel false false ts
        match ← flowItems? fuel false ts with
        | (.sequence ns, ts) => return (.sequence (n :: ns), ts)
        | _ => none

/-- A key and its value between braces. A key may stand there without a
value. -/
def flowField? (fuel : Nat) (ts : List Token) : Option (Node × Node × List Token) :=
  match fuel with
  | 0 => none
  | fuel + 1 =>
    match ts with
    | .key :: ts => do
      let (k, ts) ← optional? fuel false false [.value, .comma, .flowMappingEnd] ts
      let (v, ts) ← flowValue? fuel .flowMappingEnd ts
      return (k, v, ts)
    | ts => do
      let (k, ts) ← node? fuel false false ts
      return (k, absent, ts)

/-- The fields up to the closing brace; all but the first follow a comma. -/
def flowFields? (fuel : Nat) (first : Bool) (ts : List Token) : Option (Node × List Token) :=
  match fuel with
  | 0 => none
  | fuel + 1 =>
    match ts with
    | .flowMappingEnd :: ts => some (.mapping [], ts)
    | ts => do
      let ts ← match first, ts with
        | true, ts => some ts
        | false, .comma :: ts => some ts
        | false, _ => none
      match ts with
      | .flowMappingEnd :: ts => return (.mapping [], ts)
      | ts =>
        let (k, v, ts) ← flowField? fuel ts
        match ← flowFields? fuel false ts with
        | (.mapping fs, ts) => return (.mapping ((k, v) :: fs), ts)
        | _ => none

end

end Node

end ParamStore.Yaml
