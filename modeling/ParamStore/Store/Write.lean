import ParamStore.Reply
import ParamStore.Store.Lookup

/-!
# Setting and unsetting

Setting stores a parameter at a path, on a new node if there is none.
Unsetting empties one slot of the node at exactly the path: the one that is
asked for if it holds a value, otherwise perhaps the other.

Both write in steps, and a step that is refused leaves the store as the
steps before it have made it.
-/

namespace ParamStore

structure SetOptions where
  /-- In the shared slot instead of the caller's scope. -/
  shared : Bool := false
  /-- The group that owns the shared value. -/
  group : Option Group := none
  freeze : Bool := false
  deriving Repr, DecidableEq

structure UnsetOptions where
  /-- From the shared slot instead of the caller's scope. -/
  shared : Bool := false
  /-- From the other slot when the one asked for is empty. -/
  fallback : Bool := true
  /-- Even if it is not removable. -/
  force : Bool := false
  /-- The group that acts on the shared slot. -/
  group : Option Group := none
  /-- Release the freeze that the group holds, too. -/
  unfreeze : Bool := false
  deriving Repr, DecidableEq

namespace Store

/-! ## Setting -/

/-- Write to the node at a path, or to a new one, which is taken up only if
the write goes through. -/
def writeNode {α : Type} (s : Store) (path : Path) (write : Node → Except StoreError (α × Node)) :
    Reply Store (NodeId × α) :=
  match s.node? path.tokens with
  | some (id, n) =>
    match write n with
    | .error e => (.error e, s)
    | .ok (a, n) => (.ok (id, a), s.update id n)
  | none =>
    match write (.fresh path) with
    | .error e => (.error e, s)
    | .ok (a, n) => (.ok (s.nextId, a), s.attach n)

/-- Store a parameter in the caller's scope. -/
def setLocal (s : Store) (key : ScopeKey) (path : Path) (p : Parameter) :
    Reply Store Parameter :=
  match s.writeNode path (·.setLocal key p) with
  | (.error e, s) => (.error e, s)
  | (.ok (id, stored), s) => (.ok stored, { s with scopes := s.scopes.add key id })

/-- Store a parameter in the shared slot for `group`, and list the node for
it instead of another owner that it had. -/
def setShared (s : Store) (group : Group) (path : Path) (p : Parameter) (freeze : Bool) :
    Reply Store Parameter :=
  match s.writeNode path fun n =>
    (n.setShared p group freeze).map fun (stored, n') => ((stored, n.owner), n') with
  | (.error e, s) => (.error e, s)
  | (.ok (id, stored, previous), s) =>
    let groups := s.groups.add group id
    let groups := match previous.filter (· ≠ group) with
      | some owner => groups.drop owner id
      | none => groups
    (.ok stored, { s with groups })

/-- Store what is given at a path. -/
def set (s : Store) (kind : Kind) (caller : Caller) (text : String) (input : Input)
    (o : SetOptions) : Reply Store Parameter :=
  match kind.coerce input with
  | .error e => (.error e, s)
  | .ok p =>
    if !o.shared && o.freeze then (.error .freezeInScope, s)
    else match readPath text with
      | .error e => (.error e, s)
      | .ok path =>
        if o.shared then
          let group := caller.actingGroup o.group
          match caller.authorize kind group with
          | .error e => (.error e, s)
          | .ok () => s.setShared group path p o.freeze
        else s.setLocal caller.scope path p

/-! ## Unsetting -/

/-- Which of its two slots an unset empties, if it finds one to empty. A
placeholder is released like a shared value. -/
def unsetsShared? (n : Node) (key : ScopeKey) (o : UnsetOptions) : Option Bool :=
  let holds (shared : Bool) := if shared then n.shared.isSome else (n.inScope? key).isSome
  if holds o.shared then some o.shared
  else if o.shared && o.unfreeze && n.isFrozen then some true
  else if o.fallback && holds !o.shared && !o.unfreeze then some !o.shared
  else none

/-- Empty the slot of a scope at the node `id`. -/
def unsetLocal (s : Store) (key : ScopeKey) (id : NodeId) (n : Node) (force : Bool) :
    Reply Store (Option Parameter) :=
  match n.unsetLocal key force with
  | .error e => (.error e, s)
  | .ok (removed, n) =>
    (.ok removed, { s.update id n with scopes := s.scopes.drop key id }.prune id)

/-- Empty the shared slot of the node `id` for `group`, and release the
freeze if asked to. -/
def unsetShared (s : Store) (group : Group) (id : NodeId) (n : Node) (force unfreeze : Bool) :
    Reply Store (Option Parameter) :=
  if unfreeze && n.owner != some group then (.error (.wrongGroup n.path group n.owner), s)
  else match n.unsetShared force with
    | .error e => (.error e, s)
    | .ok (removed, emptied) =>
      match if unfreeze then emptied.unfreeze group else .ok emptied with
      | .error e => (.error e, s.update id emptied)
      | .ok after =>
        let s := s.update id after
        let s := match n.owner with
          | some owner => if after.isFrozen then s else { s with groups := s.groups.drop owner id }
          | none => s
        (.ok removed, s.prune id)

/-- Take a value away at exactly the path. -/
def unset (s : Store) (kind : Kind) (caller : Caller) (text : String) (o : UnsetOptions) :
    Reply Store (Option Parameter) :=
  if !o.shared && o.unfreeze then (.error .unfreezeInScope, s)
  else match s.locate text with
    | .error e => (.error e, s)
    | .ok (id, n) =>
      match unsetsShared? n caller.scope o with
      | none => (.error (.unknownPath (n.path.tokens.getLastD "") n.path.tokens), s)
      | some false => s.unsetLocal caller.scope id n o.force
      | some true =>
        let group := caller.actingGroup o.group
        match caller.authorize kind group with
        | .error e => (.error e, s)
        | .ok () => s.unsetShared group id n o.force o.unfreeze

end Store

end ParamStore
