import ParamStore.Reply
import ParamStore.Store.Basic

/-!
# Ending scopes and freezes

Flushing drops every value of a scope, and clearing releases every freeze
of a group. Both visit the nodes that an index lists, one after the other;
the lists are arguments of the walks, so that it can be said that their
order does not matter.
-/

namespace ParamStore

namespace Store

/-! ## Flushing -/

/-- Drop the values of a scope at these nodes. Gives back how many there
were. -/
def flushNodes (key : ScopeKey) : List NodeId → Store → Nat × Store
  | [], s => (0, s)
  | id :: ids, s =>
    let (removed, s) := match s.nodes.find? id with
      | none => (none, s)
      | some n =>
        let (removed, n) := n.clearLocal key
        (removed, s.update id n)
    let (count, s) := flushNodes key ids (s.prune id)
    (count + removed.toList.length, s)

/-- Drop every value of a scope, also what is read only or not removable.
Gives back how many there were. -/
def flush (s : Store) (key : ScopeKey) : Nat × Store :=
  flushNodes key (s.scopes.ids key) { s with scopes := s.scopes.erase key }

/-! ## Clearing -/

/-- Release the freezes of a group at these nodes. Gives back how many
there were. -/
def releaseNodes (group : Group) : List NodeId → Store → Reply Store Nat
  | [], s => (.ok 0, s)
  | id :: ids, s =>
    match s.nodes.find? id with
    | none => releaseNodes group ids { s with groups := s.groups.drop group id }
    | some n =>
      match n.unfreeze group with
      | .error e => (.error e, s)
      | .ok after =>
        let s := s.update id after
        let s := if n.shared.isNone then { s with groups := s.groups.drop group id } else s
        let (count, s) := releaseNodes group ids (s.prune id)
        (count.map (· + if n.isFrozen then 1 else 0), s)

/-- Release every freeze of a group. Shared values stay, placeholders
disappear. Gives back how many nodes were frozen. -/
def clearFrozen (s : Store) (group : Group) : Reply Store Nat :=
  releaseNodes group (s.groups.ids group) s

end Store

end ParamStore
