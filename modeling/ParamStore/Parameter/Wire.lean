import ParamStore.Command.Wire
import ParamStore.Parameter

/-!
# Parameters in JSON

A parameter is a record of its kind, its value and its settings, and the
settings are a record tagged by the field `scope`. A pin is written only
where there is one.
-/

namespace ParamStore

open Json (Tree Value)
open Json.Fields (required defaulted)

namespace Settings

def tag : String := "scope"

def toTree : Settings → Tree
  | inScope s =>
    .object [(tag, .text "local"), ("read_only", .bool s.readOnly),
      ("removable", .bool s.removable)]
  | shared s =>
    .object ([(tag, .text "global"), ("read_only", .bool s.readOnly),
      ("removable", .bool s.removable), ("transient", .bool s.transient)]
        ++ match s.pin with
          | none => []
          | some pin => [("starting_hash", .natural pin)])

def ofTree? (t : Tree) : Option Settings := do
  let (name, rest) ← t.tagged? tag
  match name with
  | "local" =>
    let fs ← rest.record? ["read_only", "removable"]
    let readOnly ← required Tree.bool? "read_only" fs
    let removable ← required Tree.bool? "removable" fs
    return inScope { readOnly, removable }
  | "global" =>
    let fs ← rest.record? ["read_only", "removable", "transient", "starting_hash"]
    let readOnly ← required Tree.bool? "read_only" fs
    let removable ← required Tree.bool? "removable" fs
    let transient ← required Tree.bool? "transient" fs
    let pin ← defaulted none (Tree.nullable? Tree.natural?) "starting_hash" fs
    return shared { readOnly, removable, transient, pin }
  | _ => none

end Settings

namespace Parameter

def toTree (p : Parameter) : Tree :=
  .object [("kind", p.kind.toTree), ("value", p.value.tree), ("settings", p.settings.toTree)]

def ofTree? (t : Tree) : Option Parameter := do
  let fs ← t.record? ["kind", "value", "settings"]
  let kind ← required Kind.ofTree? "kind" fs
  let value ← required Value.ofTree? "value" fs
  let settings ← required Settings.ofTree? "settings" fs
  return { kind, value, settings }

end Parameter

end ParamStore
