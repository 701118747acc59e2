import ParamStore.Table.Basic
import ParamStore.Yaml.Node

/-!
# Documents

The documents of a text, with handles and names given their meaning: every
tag is there in full, and names have become numbers.

A node that gets a name takes as its number how many names there are before
it. A name that is given again is not counted again, so that the node after
it that gets a new name may have the same number; of the nodes with one
number the last one counts, for the references in front of it, too.
-/

namespace ParamStore.Yaml

/-- What stands at a place of a document. -/
inductive Content where
  | scalar (plain : Bool) (text : String)
  | sequence (items : List Content)
  | mapping (fields : List (Content × Content))
  /-- What has a tag, with the tag in full. -/
  | tagged (tag : String) (content : Content)
  /-- The number of a node in its place. -/
  | reference (number : Nat)

namespace Content

/-- What stands at a place, its tag aside. -/
def untagged : Content → Content
  | tagged _ c => c.untagged
  | c => c

/-- Octets that are no text are no tag. -/
def withTag (octets : Octets) (c : Content) : Content :=
  match String.fromUTF8? ⟨octets.toArray⟩ with
  | some tag => .tagged tag c
  | none => c

end Content

/-! ## Handles -/

/-- Handles of tags, with what they stand for. -/
abbrev Handles := List (String × Octets)

namespace Handles

/-- The handles that need no directive. -/
def standard : Handles :=
  [("!", "!".toUTF8.toList), ("!!", "tag:yaml.org,2002:".toUTF8.toList)]

/-- The handles that directives define. There is at most one directive
about the version, and at most one about a handle. -/
def ofDirectives? (versioned : Bool) (handles : Handles) : List Token → Option Handles
  | [] => some (handles ++ standard)
  | .version major minor :: ts =>
    if versioned || major != 1 || (minor != 1 && minor != 2) then none
    else ofDirectives? true handles ts
  | .handle h octets :: ts =>
    if (handles.lookup h).isSome then none
    else ofDirectives? versioned (handles ++ [(h, octets)]) ts
  | _ => none

def tag? (handles : Handles) (handle : String) (octets : Octets) : Option Octets :=
  if handle = "" then some octets else (handles.lookup handle).map (· ++ octets)

end Handles

/-! ## Names -/

/-- The names in a document up to a place. -/
structure Names where
  /-- The number that each name has at this place. -/
  numbers : Table String Nat := .empty
  /-- The nodes that have numbers, the one that begins last in front. -/
  nodes : List (Nat × Content) := []

namespace Node

mutual

/-- What a node says, and the names up to its end. -/
def resolve (handles : Handles) (names : Names) : Node → Option (Content × Names)
  | scalar plain s => some (.scalar plain s, names)
  | sequence ns => do
    let (cs, names) ← resolveItems handles names ns
    return (.sequence cs, names)
  | mapping fs => do
    let (fs, names) ← resolveFields handles names fs
    return (.mapping fs, names)
  | named name n => do
    let number := names.numbers.size
    let (c, inner) ← resolve handles { numbers := names.numbers.insert name number } n
    return (c, { inner with nodes := inner.nodes ++ (number, c) :: names.nodes })
  | tagged handle octets n => do
    let tag ← handles.tag? handle octets
    let (c, names) ← resolve handles names n
    return (c.withTag tag, names)
  | reference name => do
    let number ← names.numbers.find? name
    return (.reference number, names)

def resolveItems (handles : Handles) (names : Names) :
    List Node → Option (List Content × Names)
  | [] => some ([], names)
  | n :: ns => do
    let (c, names) ← resolve handles names n
    let (cs, names) ← resolveItems handles names ns
    return (c :: cs, names)

def resolveFields (handles : Handles) (names : Names) :
    List (Node × Node) → Option (List (Content × Content) × Names)
  | [] => some ([], names)
  | (k, v) :: fs => do
    let (k, names) ← resolve handles names k
    let (v, names) ← resolve handles names v
    let (fs, names) ← resolveFields handles names fs
    return ((k, v) :: fs, names)

end

end Node

/-! ## Documents -/

structure Document where
  root : Content
  /-- The nodes that have numbers, the one that begins last in front. -/
  nodes : List (Nat × Content)

namespace Document

/-- What a place shows. A reference shows the last node with its number,
which is never a reference itself. -/
def shown (d : Document) : Content → Content
  | .reference number => (d.nodes.lookup number).getD (.reference number)
  | c => c

/-- The document that a node makes up under handles of tags. -/
def ofNode? (handles : Handles) (n : Node) : Option Document :=
  (n.resolve handles {}).map fun (root, names) => ⟨root, names.nodes⟩

def isDirective : Token → Bool
  | .version .. | .handle .. => true
  | _ => false

/-- The documents that tokens make up. A document begins with its
directives and its mark, and the first one may also do without. -/
def ofTokens? (fuel : Nat) (first : Bool) (ts : List Token) : Option (List Document) :=
  match fuel with
  | 0 => none
  | fuel + 1 => do
    let ts := if first then ts else ts.dropWhile (· == .documentEnd)
    if ts.isEmpty then return []
    let directives := ts.takeWhile isDirective
    let handles ← Handles.ofDirectives? false [] directives
    let budget := 8 * ts.length + 8
    let (n, ts) ← match ts.drop directives.length with
      | .documentStart :: ts =>
        Node.optional? budget true false [.documentStart, .documentEnd] ts
      | ts => if first && directives.isEmpty then Node.node? budget true false ts else none
    let d ← ofNode? handles n
    return d :: (← ofTokens? fuel false ts)

def read? (text : String) : Option (List Document) := do
  let ts ← Token.scan text
  ofTokens? (ts.length + 2) true ts

end Document

end ParamStore.Yaml
