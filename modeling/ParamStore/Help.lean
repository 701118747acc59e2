/-!
# Help

The texts that explain the commands: an overview of all of them, and one
for each command with its flags.
-/

namespace ParamStore.Help

def lines (ls : List String) : String := "\n".intercalate ls

def overview : String :=
  lines [
    "psh: pshell parameter store",
    "",
    "Usage: psh <command> [args...]",
    "",
    "Kinds: environment (env), variable (var), context (ctx), key, procedure (proc)",
    "",
    "Commands:",
    "  status [--json]                     Node counts per family and current frame",
    "  help [command]                      Show help (this message, or help on a command)",
    "  set <kind> <path> <value> [flags]   Store a value, locally or globally",
    "  get <kind> <path> [flags]           Print the value visible at a path",
    "  has <kind> <path> [flags]           Print true or false",
    "  unset <kind> <path> [flags]         Remove a value",
    "  list <kind> [prefix] [flags]        Print every value under a prefix",
    "  owner <kind> <path>                 Print the group owning a path",
    "  group <kind> <group>                List the paths a group owns",
    "  clear-frozen <group>                Release every freeze held by a group",
    "  scope push|pop|flush                Enter or leave a call frame, or drop its locals",
    "  run <file>                          Execute one command per line",
    "",
    "Paths are dotted (shell.prompt). Lookups accept unique abbreviations",
    "of each token (sh.pr) unless --exact is given."]

def statusHelp : String :=
  lines [
    "psh status [--json]",
    "",
    "Show how many entries each family holds and the current call-frame depth."]

def setHelp : String :=
  lines [
    "psh set <kind> <path> <value> [--global] [--group <g>] [--freeze]",
    "        [--read-only] [--fixed] [--transient]",
    "",
    "Store <value> at <path>. The value is read as JSON when it parses,",
    "otherwise as a plain string.",
    "",
    "  --global      store in the shared slot instead of the caller's scope",
    "  --group <g>   owning group of a global value (default from settings)",
    "  --freeze      pin the identity hash (global only)",
    "  --read-only   refuse later overwrites",
    "  --fixed       refuse later unsets without --force",
    "  --transient   never reported back to loaders"]

def lookupHelp : String :=
  lines [
    "psh get <kind> <path> [--global] [--exact] [--scope-only]",
    "psh has <kind> <path> [--global] [--exact] [--scope-only]",
    "",
    "Look up <path> in the caller's scope (or the shared slot with --global),",
    "falling back to the other one unless --scope-only is given."]

def unsetHelp : String :=
  lines [
    "psh unset <kind> <path> [--global] [--scope-only] [--force] [--group <g>] [--unfreeze]",
    "",
    "Remove the value at exactly <path>.",
    "",
    "  --force       remove even a value marked fixed",
    "  --unfreeze    release the freeze too; --group must name the owner"]

def listHelp : String :=
  lines [
    "psh list <kind> [prefix] [--global] [--scope-only] [--json]",
    "",
    "Print every value whose path starts with <prefix>."]

def ownerHelp : String :=
  lines [
    "psh owner <kind> <path>",
    "",
    "Print the group owning the global value at <path>."]

def groupHelp : String :=
  lines [
    "psh group <kind> <group>",
    "",
    "List the paths <group> owns or holds frozen."]

def clearHelp : String :=
  lines [
    "psh clear-frozen <group>",
    "",
    "Release every freeze held by <group>. Frozen placeholders without a value",
    "disappear."]

def scopeHelp : String :=
  lines [
    "psh scope push",
    "psh scope pop",
    "psh scope flush",
    "",
    "push enters a call frame, pop leaves it (dropping its local values),",
    "flush drops the local values of the current frame."]

def runHelp : String :=
  lines [
    "psh run <file>",
    "",
    "Execute <file> one command per line. Blank lines and lines starting",
    "with # are skipped. Stops at the first failing line."]

/-- What there is to say about one command. -/
def about? : String → Option String
  | "status" => some statusHelp
  | "set" => some setHelp
  | "get" | "has" => some lookupHelp
  | "unset" => some unsetHelp
  | "list" => some listHelp
  | "owner" => some ownerHelp
  | "group" => some groupHelp
  | "clear-frozen" => some clearHelp
  | "scope" => some scopeHelp
  | "run" => some runHelp
  | _ => none

def text : Option String → String
  | none => overview
  | some topic =>
    (about? topic).getD
      ("Unknown help topic: '" ++ topic ++ "'. Run 'psh help' for a list of commands.")

end ParamStore.Help
