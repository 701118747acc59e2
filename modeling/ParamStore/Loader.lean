import ParamStore.Container
import ParamStore.Json.Record

/-!
# Loaders

A loader stores the entries of a snapshot as frozen shared values of its
group. When it unloads, the pins tell which values were changed since, and
the placeholders which ones were taken away; the others go.

Loading is all or nothing: when an entry fails, those before it are taken
back and what they replaced is put in their place again.
-/

namespace ParamStore

open Json (Value)
open Json.Fields (required)

/-- Values by the text of their path. -/
abbrev Snapshot := Table String Value

/-- What an unload leaves to be saved. -/
structure Report where
  /-- The values that are not those of the snapshot any more. -/
  changed : Snapshot
  /-- The paths whose value was taken away. -/
  removed : List String
  deriving DecidableEq

namespace Report

def toTree (r : Report) : Json.Tree :=
  .object [("changed", .object (r.changed.entries.map fun e => (e.1, e.2.tree))),
    ("removed", .array (r.removed.map .text))]

/-- Values by the keys of an object. -/
def snapshotOf? : Json.Tree → Option Snapshot
  | .object fs => (fs.mapM fun f => (Value.ofTree? f.2).map (f.1, ·)).map .ofList
  | _ => none

def ofTree? (t : Json.Tree) : Option Report := do
  let fs ← t.record? ["changed", "removed"]
  let changed ← required snapshotOf? "changed" fs
  let removed ← required (Json.Tree.list? Json.Tree.text?) "removed" fs
  return { changed, removed }

end Report

structure Loader where
  group : Group
  kind : Kind
  deriving Repr, DecidableEq

namespace Loader

/-- How a loader looks at the shared slot of a path. -/
def lookup : LookupOptions := { exact := true, shared := true, fallback := false }

/-- How a loader takes a value of its group away. -/
def withdrawal (l : Loader) : UnsetOptions :=
  { shared := true, fallback := false, force := true, unfreeze := true, group := some l.group }

/-- How a loader stores an entry. -/
def deposit (l : Loader) : SetOptions :=
  { shared := true, group := some l.group, freeze := true }

/-! ## Loading -/

/-- An entry that was stored, and the value it replaced. -/
structure Written where
  path : String
  previous : Option Parameter
  deriving DecidableEq

/-- Take back the entries that were stored, the last one first. -/
def rollBack (l : Loader) (thread : Nat) : List Written → Container → Container
  | [], c => c
  | w :: ws, c =>
    let (taken, c) := c.unset thread l.kind w.path l.withdrawal
    let c := match taken, w.previous with
      | .ok _, some p =>
        (c.set thread l.kind w.path (.made p) { shared := true, group := some l.group }).2
      | _, _ => c
    l.rollBack thread ws c

def loadEntry (l : Loader) (thread : Nat) (path : String) (v : Value) (c : Container) :
    Reply Container Written :=
  match c.get thread l.kind path lookup with
  | .error e => (.error e, c)
  | .ok previous =>
    let (stored, c) := c.set thread l.kind path (.bare v) l.deposit
    (stored.map fun _ => ⟨path, previous⟩, c)

/-- Store entries one after the other; when one fails, take back those
before it, which are listed with the last one first. -/
def loadEntries (l : Loader) (thread : Nat) (written : List Written) :
    List (String × Value) → Container → Reply Container Unit
  | [], c => (.ok (), c)
  | (path, v) :: es, c =>
    match l.loadEntry thread path v c with
    | (.error e, c) => (.error e, l.rollBack thread written c)
    | (.ok w, c) => l.loadEntries thread (w :: written) es c

/-- Store every entry of a snapshot, frozen and owned by the group. The
group is registered for it, and stays so unless the load fails. Gives back
the number of entries. -/
def load (l : Loader) (thread : Nat) (snapshot : Snapshot) (c : Container) :
    Reply Container Nat :=
  let (registered, c) := c.register l.group
  match l.loadEntries thread [] snapshot.entries c with
  | (.error e, c) => (.error e, if registered then c.unregister l.group else c)
  | (.ok (), c) => (.ok snapshot.size, c)

/-! ## Unloading -/

def reportOn (l : Loader) (thread : Nat) (c : Container) : List Path → Except StoreError Report
  | [] => .ok ⟨∅, []⟩
  | p :: ps => do
    let found ← c.get thread l.kind p.dotted lookup
    let report ← l.reportOn thread c ps
    return match found with
      | none => { report with removed := p.dotted :: report.removed }
      | some q =>
        if q.isPinned || q.transient then report
        else { report with changed := report.changed.insert p.dotted q.value }

/-- What was changed and taken away since the load. -/
def pending (l : Loader) (thread : Nat) (c : Container) : Except StoreError Report :=
  l.reportOn thread c ((c.store l.kind).groupPaths l.group)

/-- Take away the values at these paths, but for those in the report. -/
def withdraw (l : Loader) (thread : Nat) (report : Report) :
    List Path → Container → Reply Container Unit
  | [], c => (.ok (), c)
  | p :: ps, c =>
    if report.changed.contains p.dotted || report.removed.contains p.dotted then
      l.withdraw thread report ps c
    else match c.unset thread l.kind p.dotted l.withdrawal with
      | (.error e, c) => (.error e, c)
      | (.ok _, c) => l.withdraw thread report ps c

/-- Take away what was loaded and not touched since, release the rest, and
give up the registration of the group. -/
def unload (l : Loader) (thread : Nat) (c : Container) : Reply Container Report :=
  match l.pending thread c with
  | .error e => (.error e, c)
  | .ok report =>
    match l.withdraw thread report ((c.store l.kind).groupPaths l.group) c with
    | (.error e, c) => (.error e, c)
    | (.ok (), c) =>
      match c.clearKind l.kind l.group with
      | (.error e, c) => (.error e, c)
      | (.ok _, c) => (.ok report, c.unregister l.group)

/-- Release what an earlier load froze, and load afresh. -/
def reload (l : Loader) (thread : Nat) (snapshot : Snapshot) (c : Container) :
    Reply Container Nat :=
  match c.clearKind l.kind l.group with
  | (.error e, c) => (.error e, c)
  | (.ok _, c) => l.load thread snapshot c

end Loader

end ParamStore
