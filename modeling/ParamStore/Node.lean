import ParamStore.Family
import ParamStore.Scope

/-!
# Nodes

What a store keeps at one path: the shared value, the values of scopes,
the group that owns the shared value, and the pin of a frozen node. A
frozen node keeps its owner and its pin until the owner releases it, also
while it holds no shared value; such a node is a placeholder.

Every operation either refuses and changes nothing, or gives back the
changed node.
-/

namespace ParamStore

structure Node where
  path : Path
  shared : Option Parameter
  locals : Table ScopeKey Parameter
  owner : Option Group
  /-- The identity of the value with which the node was frozen. -/
  pin : Option UInt64
  deriving DecidableEq

namespace Node

def fresh (path : Path) : Node := ⟨path, none, ∅, none, none⟩

def isFrozen (n : Node) : Bool := n.pin.isSome

/-- Whether the node holds no value and is not frozen. -/
def isRemovable (n : Node) : Bool := n.shared.isNone && n.locals.isEmpty && n.pin.isNone

def inScope? (n : Node) (key : ScopeKey) : Option Parameter := n.locals.find? key

/-! ## Values of scopes -/

/-- Store a parameter in a scope, in the place of one that is not read
only. -/
def setLocal (n : Node) (key : ScopeKey) (p : Parameter) : Except StoreError (Parameter × Node) :=
  if (n.inScope? key).any Parameter.readOnly then .error (.readOnly n.path)
  else .ok (p.toScope, { n with locals := n.locals.insert key p.toScope })

/-- Take away the value of a scope, if it is removable or by force. -/
def unsetLocal (n : Node) (key : ScopeKey) (force : Bool) :
    Except StoreError (Option Parameter × Node) :=
  if (n.inScope? key).any fun p => !force && !p.removable then .error (.notRemovable n.path)
  else .ok (n.inScope? key, { n with locals := n.locals.erase key })

/-- Take away the value of a scope that ends. -/
def clearLocal (n : Node) (key : ScopeKey) : Option Parameter × Node :=
  (n.inScope? key, { n with locals := n.locals.erase key })

/-! ## The shared value -/

/-- The parameter as the shared slot keeps it: pinned to the identity under
which the node is frozen, or else to its own. -/
def pinned (n : Node) (p : Parameter) : Parameter :=
  p.toShared.withPin (n.pin.getD p.toShared.identity)

/-- Store a parameter in the shared slot for `group`, and freeze the node
with it if asked to. -/
def setShared (n : Node) (p : Parameter) (group : Group) (freeze : Bool) :
    Except StoreError (Parameter × Node) :=
  if n.shared.any Parameter.readOnly then .error (.readOnly n.path)
  else if freeze && n.isFrozen then .error (.alreadyFrozen n.path)
  else if group = "" then .error (.namelessGroup n.path)
  else match n.owner.filter (· ≠ group) with
    | some owner => .error (.ownershipConflict n.path owner group)
    | none =>
      let stored := n.pinned p
      .ok (stored, { n with
        shared := some stored
        owner := some group
        pin := if freeze then stored.pin else n.pin })

/-- Empty the shared slot, if its value is removable or by force. The node
loses its owner unless it is frozen. -/
def unsetShared (n : Node) (force : Bool) : Except StoreError (Option Parameter × Node) :=
  if n.shared.any fun p => !force && !p.removable then .error (.notRemovable n.path)
  else .ok (n.shared, { n with
    shared := none
    owner := if n.isFrozen then n.owner else none })

/-- Release the freeze that `group` holds. A node that is not frozen stays
as it is; one without a shared value loses its owner. -/
def unfreeze (n : Node) (group : Group) : Except StoreError Node :=
  if !n.isFrozen then .ok n
  else if n.owner ≠ some group then .error (.wrongGroup n.path group n.owner)
  else .ok { n with
    pin := none
    owner := if n.shared.isNone then none else n.owner }

end Node

end ParamStore
