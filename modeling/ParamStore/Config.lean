import ParamStore.Json.Record

/-!
# Configuration

What a store is set up with: the group that owns shared values when none
is named, the extent of a scope, the amount of logging, and the groups
that may write shared values from the start.
-/

namespace ParamStore

open Json (Tree)
open Json.Fields (defaulted)

/-- How far a scope reaches: a whole thread, or one call frame of it. -/
inductive ScopeMode where
  | thread
  | threadAndFrame
  deriving Repr, DecidableEq

namespace ScopeMode

def name : ScopeMode → String
  | thread => "thread"
  | threadAndFrame => "thread_and_frame"

def ofName? : String → Option ScopeMode
  | "thread" => some thread
  | "thread_and_frame" => some threadAndFrame
  | _ => none

theorem ofName?_name (m : ScopeMode) : ofName? m.name = some m := by cases m <;> rfl

end ScopeMode

structure Config where
  defaultGroup : String := "shell"
  scopeMode : ScopeMode := .threadAndFrame
  logLevel : String := "warn"
  trustedGroups : List String := []
  deriving Repr, DecidableEq

namespace Config

def fieldNames : List String :=
  ["default_group", "scope_mode", "log_level", "trusted_groups"]

def toTree (c : Config) : Tree :=
  .object [("default_group", .text c.defaultGroup), ("scope_mode", .text c.scopeMode.name),
    ("log_level", .text c.logLevel), ("trusted_groups", .array (c.trustedGroups.map .text))]

/-- Every field that is left out has its default. -/
def ofTree? (t : Tree) : Option Config := do
  let fs ← t.record? fieldNames
  let base : Config := {}
  let defaultGroup ← defaulted base.defaultGroup Tree.text? "default_group" fs
  let scopeMode ← defaulted base.scopeMode
    (fun t => (t.name? Tree.isNull).bind ScopeMode.ofName?) "scope_mode" fs
  let logLevel ← defaulted base.logLevel Tree.text? "log_level" fs
  let trustedGroups ← defaulted base.trustedGroups (Tree.list? Tree.text?) "trusted_groups" fs
  return { defaultGroup, scopeMode, logLevel, trustedGroups }

end Config

end ParamStore
