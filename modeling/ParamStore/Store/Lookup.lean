import ParamStore.Store.Basic

/-!
# Looking up

Reading one value, a dictionary of values, or what is known about a node.
Every look-up goes by the trie first and looks at slots afterwards, so
what a token may abbreviate depends on the paths of all nodes.
-/

namespace ParamStore

structure LookupOptions where
  /-- Take no abbreviations. -/
  exact : Bool := false
  /-- Look into the shared slot first instead of the caller's scope. -/
  shared : Bool := false
  /-- Look into the other slot when the first is empty. -/
  fallback : Bool := true
  /-- Refuse an ambiguous path instead of finding nothing. -/
  strict : Bool := true
  deriving Repr, DecidableEq

namespace Store

/-- The token at which a walk stopped, or the last one if it came through. -/
def stoppedAt (tokens : List String) (w : Trie.Walk NodeId) : String :=
  (tokens[w.count]?.or tokens.getLast?).getD ""

/-- The refusal of a walk that could not choose. -/
def ambiguity (tokens : List String) (w : Trie.Walk NodeId) : StoreError :=
  .ambiguousPath (stoppedAt tokens w) w.matched w.candidates

def readPath (text : String) : Except StoreError Path :=
  (Path.read text).mapError (.invalidPath text)

/-- The node at exactly the path, or what is missing of it. -/
def locate (s : Store) (text : String) : Except StoreError (NodeId × Node) := do
  let path ← readPath text
  let w := s.trie.walk true path.tokens
  match w.value.bind fun id => (s.nodes.find? id).map (id, ·) with
  | some found => return found
  | none => throw (.unknownPath (stoppedAt path.tokens w) w.matched)

/-- The value that a caller sees at a node. -/
def visible (key : ScopeKey) (shared fallback : Bool) (n : Node) : Option Parameter :=
  let pick (shared : Bool) := if shared then n.shared else n.inScope? key
  (pick shared).or (if fallback then pick !shared else none)

/-- The value that the caller sees at a path. -/
def get (s : Store) (caller : Caller) (text : String) (o : LookupOptions) :
    Except StoreError (Option Parameter) := do
  let path ← readPath text
  let w := s.trie.walk o.exact path.tokens
  if o.strict && w.ambiguous then throw (ambiguity path.tokens w)
  return (w.value.bind s.nodes.find?).bind (visible caller.scope o.shared o.fallback)

/-- Whether the caller sees a value at a path. -/
def has (s : Store) (caller : Caller) (text : String) (o : LookupOptions) :
    Except StoreError Bool :=
  Option.isSome <$> s.get caller text o

/-- Every value that the caller sees at a path starting with these tokens,
by the dotted text of its path. The tokens may be abbreviated. -/
def dictionary (s : Store) (caller : Caller) (start : String) (shared fallback : Bool) :
    Except StoreError (Table String Parameter) := do
  let tokens ← (readTokens start).mapError (.invalidPath start)
  let w := s.trie.walk false tokens
  if w.ambiguous then throw (ambiguity tokens w)
  if w.count < tokens.length then return ∅
  return .ofList ((s.trie.listFrom w.matched).filterMap fun e => do
    let n ← s.nodes.find? e.2
    let p ← visible caller.scope shared fallback n
    return (n.path.dotted, p))

def owner (s : Store) (text : String) : Except StoreError (Option Group) :=
  (·.2.owner) <$> s.locate text

def isFrozen (s : Store) (text : String) : Except StoreError Bool :=
  (·.2.isFrozen) <$> s.locate text

end Store

end ParamStore
