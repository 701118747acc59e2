import ParamStore.Command
import ParamStore.Json.Reader

/-!
# Commands from arguments

The first argument names the command. The arguments that a command needs
stand at fixed places after it; flags follow in any order and number, and
the last one with a value counts. Of a faulty list the first offending
argument is reported.
-/

namespace ParamStore.Command

inductive ArgumentError where
  | noCommand
  | unknownCommand (name : String)
  | incomplete (usage : String)
  | unknownKind (name : String)
  | unknownFlag (command : String) (flag : String)
  | missingValue (flag : String)
  /-- One positional argument more than the command takes. -/
  | surplus (command : String) (argument : String)
  | unknownScopeAction (name : String)
  deriving Repr, DecidableEq

def ArgumentError.message : ArgumentError → String
  | noCommand => "No command specified. Run 'psh help' for usage."
  | unknownCommand name => "Unknown command: '" ++ name ++ "'"
  | incomplete usage => "Usage: psh " ++ usage
  | unknownKind name => "unknown parameter kind '" ++ name ++ "'"
  | unknownFlag command flag => "Unknown flag for " ++ command ++ ": '" ++ flag ++ "'"
  | missingValue flag => flag ++ " requires a value"
  | surplus command argument =>
    "Unexpected argument for " ++ command ++ ": '" ++ argument ++ "'"
  | unknownScopeAction name => "Unknown scope subcommand: '" ++ name ++ "'"

/-! ## Flags -/

/-- The flags that a command takes: those that are on or off, each with
what it switches on, and whether there is one that names a group. -/
structure FlagTable (F : Type) where
  command : String
  switches : List (String × (F → F))
  group : Option (String → F → F)

/-- The flag that takes the argument after it. -/
def groupFlag : String := "--group"

/-- Read flags from left to right. A group flag takes the next argument,
whatever it looks like. -/
def FlagTable.read {F : Type} (table : FlagTable F) (flags : F) :
    List String → Except ArgumentError F
  | [] => .ok flags
  | a :: as =>
    match Entries.find? a table.switches with
    | some switch => table.read (switch flags) as
    | none =>
      match table.group with
      | some setGroup =>
        if a = groupFlag then
          match as with
          | [] => .error (.missingValue groupFlag)
          | g :: as => table.read (setGroup g flags) as
        else .error (.unknownFlag table.command a)
      | none => .error (.unknownFlag table.command a)

def setTable : FlagTable SetFlags where
  command := "set"
  switches :=
    [("--global", fun f => { f with shared := true }),
     ("--freeze", fun f => { f with freeze := true }),
     ("--read-only", fun f => { f with readOnly := true }),
     ("--fixed", fun f => { f with fixed := true }),
     ("--transient", fun f => { f with transient := true })]
  group := some fun g f => { f with group := some g }

def lookupTable (command : String) : FlagTable LookupFlags where
  command := command
  switches :=
    [("--global", fun f => { f with shared := true }),
     ("--exact", fun f => { f with exact := true }),
     ("--scope-only", fun f => { f with scopeOnly := true })]
  group := none

def unsetTable : FlagTable UnsetFlags where
  command := "unset"
  switches :=
    [("--global", fun f => { f with shared := true }),
     ("--scope-only", fun f => { f with scopeOnly := true }),
     ("--force", fun f => { f with force := true }),
     ("--unfreeze", fun f => { f with unfreeze := true })]
  group := some fun g f => { f with group := some g }

def listSwitches : List (String × (ListFlags → ListFlags)) :=
  [("--global", fun f => { f with shared := true }),
   ("--scope-only", fun f => { f with scopeOnly := true }),
   ("--json", fun f => { f with format := some "json" })]

def looksLikeFlag (a : String) : Bool := ['-', '-'].isPrefixOf a.toList

/-- Read the flags of `list` and the start of the paths among them. As
long as the start is empty, another one may take its place. -/
def readList (start : String) (flags : ListFlags) :
    List String → Except ArgumentError (String × ListFlags)
  | [] => .ok (start, flags)
  | a :: as =>
    match Entries.find? a listSwitches with
    | some switch => readList start (switch flags) as
    | none =>
      if looksLikeFlag a then .error (.unknownFlag "list" a)
      else if start = "" then readList a flags as
      else .error (.surplus "list" a)

/-! ## Commands -/

def readKind (a : String) : Except ArgumentError Kind :=
  match Kind.read? a with
  | some k => .ok k
  | none => .error (.unknownKind a)

/-- A value argument is JSON where it reads as JSON, and a text otherwise. -/
def readValue (a : String) : Json.Value :=
  ((Json.Tree.read? a).bind Json.Value.ofTree?).getD (.text a)

def setUsage : String :=
  "set <kind> <path> <value> [--global] [--group <g>] [--freeze] "
    ++ "[--read-only] [--fixed] [--transient]"

def lookupUsage (command : String) : String :=
  command ++ " <kind> <path> [--global] [--exact] [--scope-only]"

def unsetUsage : String :=
  "unset <kind> <path> [--global] [--scope-only] [--force] [--group <g>] [--unfreeze]"

def readStatus (as : List String) : Command :=
  .status (if as.contains "--json" then some "json" else none)

def readHelp : List String → Command
  | [] => .help none
  | as => .help (some (" ".intercalate as))

def readRun : List String → Except ArgumentError Command
  | path :: _ => .ok (.run path)
  | _ => .error (.incomplete "run <file>")

def readSet : List String → Except ArgumentError Command
  | kind :: path :: value :: flags => do
    let kind ← readKind kind
    return .set kind path (readValue value) (← setTable.read {} flags)
  | _ => .error (.incomplete setUsage)

def readLookup (command : String) (make : Kind → String → LookupFlags → Command) :
    List String → Except ArgumentError Command
  | kind :: path :: flags => do
    let kind ← readKind kind
    return make kind path (← (lookupTable command).read {} flags)
  | _ => .error (.incomplete (lookupUsage command))

def readUnset : List String → Except ArgumentError Command
  | kind :: path :: flags => do
    let kind ← readKind kind
    return .unset kind path (← unsetTable.read {} flags)
  | _ => .error (.incomplete unsetUsage)

def readListing : List String → Except ArgumentError Command
  | kind :: as => do
    let kind ← readKind kind
    let (start, flags) ← readList "" {} as
    return .list kind start flags
  | _ => .error (.incomplete "list <kind> [prefix] [--global] [--scope-only] [--json]")

def readOwner : List String → Except ArgumentError Command
  | kind :: path :: _ => do return .owner (← readKind kind) path
  | _ => .error (.incomplete "owner <kind> <path>")

def readGroup : List String → Except ArgumentError Command
  | kind :: group :: _ => do return .groupNodes (← readKind kind) group
  | _ => .error (.incomplete "group <kind> <group>")

def readClear : List String → Except ArgumentError Command
  | group :: _ => .ok (.groupClear group)
  | _ => .error (.incomplete "clear-frozen <group>")

def readScope : List String → Except ArgumentError Command
  | "push" :: _ => .ok .scopePush
  | "pop" :: _ => .ok .scopePop
  | "flush" :: _ => .ok .scopeFlush
  | action :: _ => .error (.unknownScopeAction action)
  | _ => .error (.incomplete "scope <push|pop|flush>")

def ofArguments : List String → Except ArgumentError Command
  | [] => .error .noCommand
  | "status" :: as => .ok (readStatus as)
  | "help" :: as => .ok (readHelp as)
  | "run" :: as => readRun as
  | "set" :: as => readSet as
  | "get" :: as => readLookup "get" .get as
  | "has" :: as => readLookup "has" .has as
  | "unset" :: as => readUnset as
  | "list" :: as => readListing as
  | "owner" :: as => readOwner as
  | "group" :: as => readGroup as
  | "clear-frozen" :: as => readClear as
  | "scope" :: as => readScope as
  | name :: _ => .error (.unknownCommand name)

end ParamStore.Command
