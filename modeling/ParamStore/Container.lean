import ParamStore.Registry
import ParamStore.Store.Release
import ParamStore.Store.Write

/-!
# Containers

One store for each kind, all over the same registry. An operation is
called by a thread, whose scope and rights the registry knows.
-/

namespace ParamStore

structure Container where
  registry : Registry
  env : Store
  var : Store
  ctx : Store
  key : Store
  proc : Store

namespace Container

def ofConfig (c : Config) : Container :=
  ⟨.ofConfig c, .empty, .empty, .empty, .empty, .empty⟩

def store (c : Container) : Kind → Store
  | .env => c.env
  | .var => c.var
  | .ctx => c.ctx
  | .key => c.key
  | .proc => c.proc

def withStore (c : Container) (k : Kind) (s : Store) : Container :=
  match k with
  | .env => { c with env := s }
  | .var => { c with var := s }
  | .ctx => { c with ctx := s }
  | .key => { c with key := s }
  | .proc => { c with proc := s }

theorem store_withStore (c : Container) (k k' : Kind) (s : Store) :
    (c.withStore k s).store k' = if k = k' then s else c.store k' := by
  cases k <;> cases k' <;> rfl

@[simp] theorem registry_withStore (c : Container) (k : Kind) (s : Store) :
    (c.withStore k s).registry = c.registry := by
  cases k <;> rfl

def caller (c : Container) (thread : Nat) : Caller := c.registry.caller thread

/-! ## Operations on one store -/

def set (c : Container) (thread : Nat) (k : Kind) (path : String) (input : Input)
    (o : SetOptions) : Reply Container Parameter :=
  let (answer, s) := (c.store k).set k (c.caller thread) path input o
  (answer, c.withStore k s)

def unset (c : Container) (thread : Nat) (k : Kind) (path : String) (o : UnsetOptions) :
    Reply Container (Option Parameter) :=
  let (answer, s) := (c.store k).unset k (c.caller thread) path o
  (answer, c.withStore k s)

def get (c : Container) (thread : Nat) (k : Kind) (path : String) (o : LookupOptions) :
    Except StoreError (Option Parameter) :=
  (c.store k).get (c.caller thread) path o

def has (c : Container) (thread : Nat) (k : Kind) (path : String) (o : LookupOptions) :
    Except StoreError Bool :=
  (c.store k).has (c.caller thread) path o

def dictionary (c : Container) (thread : Nat) (k : Kind) (start : String)
    (shared fallback : Bool) : Except StoreError (Table String Parameter) :=
  (c.store k).dictionary (c.caller thread) start shared fallback

/-- Drop the values of the thread's scope in one store. -/
def flushKind (c : Container) (thread : Nat) (k : Kind) : Nat × Container :=
  let (count, s) := (c.store k).flush (c.caller thread).scope
  (count, c.withStore k s)

/-- Release the freezes of a group in one store. -/
def clearKind (c : Container) (k : Kind) (group : Group) : Reply Container Nat :=
  let (answer, s) := (c.store k).clearFrozen group
  (answer, c.withStore k s)

/-! ## Operations on all stores -/

/-- Drop the values of the thread's scope in these stores. -/
def flushKinds (thread : Nat) : List Kind → Container → Nat × Container
  | [], c => (0, c)
  | k :: ks, c =>
    let (count, c) := c.flushKind thread k
    let (counts, c) := flushKinds thread ks c
    (count + counts, c)

/-- Drop the values of the thread's scope. Gives back how many there were. -/
def flush (c : Container) (thread : Nat) : Nat × Container := flushKinds thread Kind.all c

/-- Release the freezes of a group in these stores. -/
def clearKinds (group : Group) : List Kind → Container → Reply Container Nat
  | [], c => (.ok 0, c)
  | k :: ks, c =>
    match c.clearKind k group with
    | (.error e, c) => (.error e, c)
    | (.ok count, c) =>
      let (counts, c) := clearKinds group ks c
      (counts.map (count + ·), c)

/-- Release every freeze of a group. Gives back how many there were. -/
def clearFrozen (c : Container) (group : Group) : Reply Container Nat :=
  clearKinds group Kind.all c

def size (c : Container) : Nat := Kind.all.foldr (fun k n => (c.store k).size + n) 0

/-! ## Frames and groups -/

/-- Enter a frame. Gives back the new depth. -/
def push (c : Container) (thread : Nat) : Nat × Container :=
  let (depth, r) := c.registry.push thread
  (depth, { c with registry := r })

/-- Leave a frame. Where scopes are frames, its values are dropped from
every store first. Gives back the new depth. -/
def pop (c : Container) (thread : Nat) : Reply Container Nat :=
  if c.registry.depth thread = 0 then (.error .scopeUnderflow, c)
  else
    let c := if c.registry.mode = .threadAndFrame then (c.flush thread).2 else c
    match c.registry.pop thread with
    | .error e => (.error e, c)
    | .ok (depth, r) => (.ok depth, { c with registry := r })

def register (c : Container) (group : Group) : Bool × Container :=
  let (added, r) := c.registry.register group
  (added, { c with registry := r })

def unregister (c : Container) (group : Group) : Container :=
  { c with registry := c.registry.unregister group }

end Container

end ParamStore
