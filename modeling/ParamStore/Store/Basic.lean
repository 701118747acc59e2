import ParamStore.Node
import ParamStore.Store.Index
import ParamStore.Trie

/-!
# Stores

The parameters of one kind. Nodes are kept under identifiers that are
never given out twice; the trie leads from paths to identifiers, and two
indices from scopes and from owners to the nodes that they touch.

A node is in the store as long as it holds a value or is frozen.
-/

namespace ParamStore

structure Store where
  trie : Trie NodeId
  nodes : Table NodeId Node
  /-- The identifier of the next new node. -/
  nextId : NodeId
  /-- The nodes with a value in a scope. -/
  scopes : Index ScopeKey
  /-- The nodes that a group owns. -/
  groups : Index Group

namespace Store

def empty : Store := ⟨.empty, ∅, 0, ∅, ∅⟩

instance : Inhabited Store := ⟨empty⟩

def size (s : Store) : Nat := s.nodes.size

def isEmpty (s : Store) : Bool := s.nodes.isEmpty

/-- The node at exactly these tokens, with its identifier. -/
def node? (s : Store) (tokens : List String) : Option (NodeId × Node) :=
  (s.trie.get? tokens).bind fun id => (s.nodes.find? id).map (id, ·)

def update (s : Store) (id : NodeId) (n : Node) : Store :=
  { s with nodes := s.nodes.insert id n }

/-- Take up a new node under a new identifier. -/
def attach (s : Store) (n : Node) : Store :=
  { s with
    trie := (Trie.insert s.nextId n.path.tokens s.trie).2
    nodes := s.nodes.insert s.nextId n
    nextId := s.nextId + 1 }

/-- Let go of the node `id` if it holds no value and is not frozen. -/
def prune (s : Store) (id : NodeId) : Store :=
  match s.nodes.find? id with
  | none => s
  | some n =>
    if n.isRemovable then
      { s with
        trie := (Trie.remove n.path.tokens s.trie).2
        nodes := s.nodes.erase id }
    else s

/-! ## Listings -/

/-- Paths in the order of their tokens. -/
def sortPaths (ps : List Path) : List Path :=
  ps.mergeSort fun p q => !decide (q < p)

/-- The paths of the nodes with these identifiers, in order. -/
def pathsOf (s : Store) (ids : List NodeId) : List Path :=
  sortPaths (ids.filterMap fun id => (s.nodes.find? id).map Node.path)

/-- Every path with a node, whoever sees a value there. -/
def paths (s : Store) : List Path := sortPaths (s.nodes.values.map Node.path)

def groupPaths (s : Store) (group : Group) : List Path := s.pathsOf (s.groups.ids group)

/-- The paths with a value in a scope. -/
def scopePaths (s : Store) (key : ScopeKey) : List Path := s.pathsOf (s.scopes.ids key)

def hasScope (s : Store) (key : ScopeKey) : Bool := s.scopes.contains key

/-- The groups that own a node, in order. -/
def groupNames (s : Store) : List Group := s.groups.keys

end Store

end ParamStore
