import ParamStore.Json.Value
import ParamStore.Kind

/-!
# Commands

Everything that can be asked of a store at the command line, in scripts
and by JSON, with all its options. A flag that is not given is off.
-/

namespace ParamStore

structure SetFlags where
  /-- Store in the shared slot instead of the caller's scope. -/
  shared : Bool := false
  /-- The owner of a shared value. -/
  group : Option String := none
  freeze : Bool := false
  readOnly : Bool := false
  fixed : Bool := false
  transient : Bool := false
  deriving Repr, DecidableEq

structure LookupFlags where
  shared : Bool := false
  exact : Bool := false
  scopeOnly : Bool := false
  deriving Repr, DecidableEq

structure UnsetFlags where
  shared : Bool := false
  scopeOnly : Bool := false
  force : Bool := false
  group : Option String := none
  unfreeze : Bool := false
  deriving Repr, DecidableEq

structure ListFlags where
  shared : Bool := false
  scopeOnly : Bool := false
  /-- The layout of the listing; `json` asks for an object. -/
  format : Option String := none
  deriving Repr, DecidableEq

inductive Command where
  /-- How many entries each kind has, and the frame depth. -/
  | status (format : Option String)
  | help (topic : Option String)
  | run (path : String)
  | set (kind : Kind) (path : String) (value : Json.Value) (flags : SetFlags)
  | get (kind : Kind) (path : String) (flags : LookupFlags)
  | has (kind : Kind) (path : String) (flags : LookupFlags)
  | unset (kind : Kind) (path : String) (flags : UnsetFlags)
  /-- Every value whose path starts in this way. -/
  | list (kind : Kind) (start : String) (flags : ListFlags)
  | owner (kind : Kind) (path : String)
  | groupNodes (kind : Kind) (group : String)
  | groupClear (group : String)
  | scopePush
  | scopePop
  | scopeFlush
  deriving DecidableEq

end ParamStore
