import ParamStore.Kind
import ParamStore.Path

/-!
# Causes of refusal

What can go wrong with an operation on a store, each cause with the data
that its wording needs.
-/

namespace ParamStore

/-- The name of the party that owns a shared value. -/
abbrev Group := String

inductive StoreError where
  | invalidPath (text : String) (fault : PathFault)
  /-- A token abbreviates several keys. -/
  | ambiguousPath (token : String) (start : List String) (candidates : List String)
  /-- The store knows no entry under this token. -/
  | unknownPath (token : String) (existing : List String)
  | kindMismatch (store : Kind) (found : Kind)
  | invalidValue (kind : Kind) (reason : String)
  | readOnly (path : Path)
  | notRemovable (path : Path)
  | alreadyFrozen (path : Path)
  /-- The entry is not owned by the group that wants to release it. -/
  | wrongGroup (path : Path) (given : Group) (owner : Option Group)
  | ownershipConflict (path : Path) (owner : Group) (requested : Group)
  /-- A shared value needs an owner with a name. -/
  | namelessGroup (path : Path)
  | freezeInScope
  | unfreezeInScope
  | unauthorized (group : Group) (store : Kind)
  /-- The call is not inside a frame. -/
  | scopeUnderflow
  /-- The store was not given what it needs of its owner. -/
  | invalidCollaborator
  deriving DecidableEq

namespace StoreError

/-- The short name by which commands report the cause. -/
def code : StoreError → String
  | invalidPath .. => "invalid_path"
  | ambiguousPath .. => "ambiguous_path"
  | unknownPath .. => "unknown_path"
  | kindMismatch .. | invalidValue .. => "type_mismatch"
  | readOnly .. => "read_only"
  | notRemovable .. => "not_removable"
  | alreadyFrozen .. => "already_frozen"
  | wrongGroup .. => "wrong_group"
  | ownershipConflict .. => "ownership_conflict"
  | namelessGroup .. => "invalid_group"
  | freezeInScope | unfreezeInScope => "scope_mismatch"
  | unauthorized .. => "unauthorized"
  | scopeUnderflow => "scope_underflow"
  | invalidCollaborator => "invalid_collaborator"

def message : StoreError → String
  | invalidPath text fault => "invalid path '" ++ text ++ "': " ++ fault.message
  | ambiguousPath token start candidates =>
    "ambiguous token '" ++ token ++ "' after '" ++ ".".intercalate start
      ++ "', candidates: " ++ ", ".intercalate candidates
  | unknownPath token existing =>
    "unknown path, token '" ++ token ++ "' not found after '"
      ++ ".".intercalate existing ++ "'"
  | kindMismatch store found =>
    "manager '" ++ store.name ++ "' does not accept " ++ found.name ++ " parameters"
  | invalidValue kind reason =>
    "invalid value for " ++ kind.name ++ " parameter: " ++ reason
  | readOnly path => "parameter '" ++ path.dotted ++ "' is read only"
  | notRemovable path => "parameter '" ++ path.dotted ++ "' is not removable"
  | alreadyFrozen path => "parameter '" ++ path.dotted ++ "' is already frozen"
  | wrongGroup path given owner =>
    "group '" ++ given ++ "' does not own '" ++ path.dotted
      ++ "' (owner: " ++ owner.getD "<none>" ++ ")"
  | ownershipConflict path owner requested =>
    "parameter '" ++ path.dotted ++ "' belongs to group '" ++ owner
      ++ "', group '" ++ requested ++ "' cannot take it"
  | namelessGroup path =>
    "invalid origin group for '" ++ path.dotted ++ "': group name is empty"
  | freezeInScope => "a local parameter cannot be frozen"
  | unfreezeInScope => "unfreeze only applies to global parameters"
  | unauthorized group store =>
    "group '" ++ group ++ "' is not allowed to alter " ++ store.name ++ " parameters"
  | scopeUnderflow => "no call frame to leave"
  | invalidCollaborator => "invalid collaborator: expected a parent manager"

end StoreError

end ParamStore
