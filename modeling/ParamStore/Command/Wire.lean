import ParamStore.Command
import ParamStore.Json.Record

/-!
# Commands in JSON

A command is a record tagged by the field `command`. Flags are always
written; texts that may be missing are left out when they are.
-/

namespace ParamStore

open Json (Tree Value)
open Json.Fields (required defaulted)

namespace Kind

def toTree (k : Kind) : Tree := .text k.name

def ofTree? (t : Tree) : Option Kind := (t.name? Tree.isNull).bind ofName?

/-- A kind inside a tagged record. -/
def ofTaggedTree? (t : Tree) : Option Kind := (t.name? Tree.isHollow).bind ofName?

end Kind

def SetFlags.toFields (f : SetFlags) : Json.Fields :=
  [("global", .bool f.shared)] ++ Json.Fields.optional "group" f.group ++
    [("freeze", .bool f.freeze), ("read_only", .bool f.readOnly), ("fixed", .bool f.fixed),
     ("transient", .bool f.transient)]

def LookupFlags.toFields (f : LookupFlags) : Json.Fields :=
  [("global", .bool f.shared), ("exact", .bool f.exact), ("scope_only", .bool f.scopeOnly)]

def UnsetFlags.toFields (f : UnsetFlags) : Json.Fields :=
  [("global", .bool f.shared), ("scope_only", .bool f.scopeOnly), ("force", .bool f.force)]
    ++ Json.Fields.optional "group" f.group ++ [("unfreeze", .bool f.unfreeze)]

def ListFlags.toFields (f : ListFlags) : Json.Fields :=
  [("global", .bool f.shared), ("scope_only", .bool f.scopeOnly)]
    ++ Json.Fields.optional "format" f.format

def LookupFlags.ofFields? (fs : Json.Fields) : Option LookupFlags := do
  let shared ← fs.flag? "global"
  let exact ← fs.flag? "exact"
  let scopeOnly ← fs.flag? "scope_only"
  return { shared, exact, scopeOnly }

namespace Command

def tag : String := "command"

/-- The tag and the fields of a command, in the order in which they are
written. -/
def toFields : Command → String × Json.Fields
  | status format => ("status", Json.Fields.optional "format" format)
  | help topic => ("help", Json.Fields.optional "topic" topic)
  | run path => ("run", [("path", .text path)])
  | set kind path value flags =>
    ("set", [("kind", kind.toTree), ("path", .text path), ("value", value.tree)]
      ++ flags.toFields)
  | get kind path flags =>
    ("get", [("kind", kind.toTree), ("path", .text path)] ++ flags.toFields)
  | has kind path flags =>
    ("has", [("kind", kind.toTree), ("path", .text path)] ++ flags.toFields)
  | unset kind path flags =>
    ("unset", [("kind", kind.toTree), ("path", .text path)] ++ flags.toFields)
  | list kind start flags =>
    ("list", [("kind", kind.toTree), ("prefix", .text start)] ++ flags.toFields)
  | owner kind path => ("owner", [("kind", kind.toTree), ("path", .text path)])
  | groupNodes kind group => ("group.nodes", [("kind", kind.toTree), ("group", .text group)])
  | groupClear group => ("group.clear", [("group", .text group)])
  | scopePush => ("scope.push", [])
  | scopePop => ("scope.pop", [])
  | scopeFlush => ("scope.flush", [])

def toTree (c : Command) : Tree :=
  let (name, fields) := c.toFields
  .object ((tag, .text name) :: fields)

/-! ## Reading -/

def kindField (fs : Json.Fields) : Option Kind := required Kind.ofTaggedTree? "kind" fs

/-- The names of the fields of each command, in their order. -/
def fieldNames : String → List String
  | "status" => ["format"]
  | "help" => ["topic"]
  | "run" => ["path"]
  | "set" =>
    ["kind", "path", "value", "global", "group", "freeze", "read_only", "fixed", "transient"]
  | "get" | "has" => ["kind", "path", "global", "exact", "scope_only"]
  | "unset" => ["kind", "path", "global", "scope_only", "force", "group", "unfreeze"]
  | "list" => ["kind", "prefix", "global", "scope_only", "format"]
  | "owner" => ["kind", "path"]
  | "group.nodes" => ["kind", "group"]
  | "group.clear" => ["group"]
  | _ => []

def ofFields? (fs : Json.Fields) : String → Option Command
  | "status" => status <$> fs.optionalText? "format"
  | "help" => help <$> fs.optionalText? "topic"
  | "run" => run <$> fs.text? "path"
  | "set" => do
    let kind ← kindField fs
    let path ← fs.text? "path"
    let value ← required Value.ofTree? "value" fs
    let shared ← fs.flag? "global"
    let group ← fs.optionalText? "group"
    let freeze ← fs.flag? "freeze"
    let readOnly ← fs.flag? "read_only"
    let fixed ← fs.flag? "fixed"
    let transient ← fs.flag? "transient"
    return set kind path value { shared, group, freeze, readOnly, fixed, transient }
  | "get" => do
    return get (← kindField fs) (← fs.text? "path") (← LookupFlags.ofFields? fs)
  | "has" => do
    return has (← kindField fs) (← fs.text? "path") (← LookupFlags.ofFields? fs)
  | "unset" => do
    let kind ← kindField fs
    let path ← fs.text? "path"
    let shared ← fs.flag? "global"
    let scopeOnly ← fs.flag? "scope_only"
    let force ← fs.flag? "force"
    let group ← fs.optionalText? "group"
    let unfreeze ← fs.flag? "unfreeze"
    return unset kind path { shared, scopeOnly, force, group, unfreeze }
  | "list" => do
    let kind ← kindField fs
    let start ← defaulted "" Tree.text? "prefix" fs
    let shared ← fs.flag? "global"
    let scopeOnly ← fs.flag? "scope_only"
    let format ← fs.optionalText? "format"
    return list kind start { shared, scopeOnly, format }
  | "owner" => do return owner (← kindField fs) (← fs.text? "path")
  | "group.nodes" => do return groupNodes (← kindField fs) (← fs.text? "group")
  | "group.clear" => groupClear <$> fs.text? "group"
  | "scope.push" => some scopePush
  | "scope.pop" => some scopePop
  | "scope.flush" => some scopeFlush
  | _ => none

def ofTree? (t : Tree) : Option Command := do
  let (name, rest) ← t.tagged? tag
  let fields ← rest.record? (fieldNames name)
  ofFields? fields name

end Command

end ParamStore
