import ParamStore.Config
import ParamStore.Scope

/-!
# The scope registry

Keeps how deep each thread is in call frames, and which groups may write
shared values: the default group and the trusted ones always, others as
long as they are registered.
-/

namespace ParamStore

structure Registry where
  defaultGroup : Group
  mode : ScopeMode
  trusted : List Group
  registered : Table Group Unit
  /-- The frame depth of the threads that are inside a frame. -/
  frames : Table Nat Nat
  deriving DecidableEq

namespace Registry

def ofConfig (c : Config) : Registry :=
  { defaultGroup := c.defaultGroup
    mode := c.scopeMode
    trusted := c.trustedGroups
    registered := ∅
    frames := ∅ }

/-! ## Groups -/

def isAuthorized (r : Registry) (group : Group) : Bool :=
  group == r.defaultGroup || r.trusted.contains group || r.registered.contains group

/-- Let a group write shared values. Gives back whether it could not
before. -/
def register (r : Registry) (group : Group) : Bool × Registry :=
  if r.isAuthorized group then (false, r)
  else (true, { r with registered := r.registered.insert group () })

def unregister (r : Registry) (group : Group) : Registry :=
  { r with registered := r.registered.erase group }

/-! ## Frames -/

/-- How many frames a thread is in. -/
def depth (r : Registry) (thread : Nat) : Nat := (r.frames.find? thread).getD 0

/-- Enter a frame. Gives back the new depth. -/
def push (r : Registry) (thread : Nat) : Nat × Registry :=
  (r.depth thread + 1, { r with frames := r.frames.insert thread (r.depth thread + 1) })

/-- Leave a frame. Gives back the new depth. -/
def pop (r : Registry) (thread : Nat) : Except StoreError (Nat × Registry) :=
  match r.depth thread with
  | 0 => .error .scopeUnderflow
  | 1 => .ok (0, { r with frames := r.frames.erase thread })
  | d + 1 => .ok (d, { r with frames := r.frames.insert thread d })

def scope (r : Registry) (thread : Nat) : ScopeKey :=
  match r.mode with
  | .thread => ⟨thread, 0⟩
  | .threadAndFrame => ⟨thread, r.depth thread⟩

def caller (r : Registry) (thread : Nat) : Caller :=
  ⟨r.scope thread, r.defaultGroup, r.isAuthorized⟩

end Registry

end ParamStore
