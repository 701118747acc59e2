import ParamStore.Config
import ParamStore.Text.Blank
import ParamStore.Yaml.Document
import ParamStore.Yaml.Printer

/-!
# Configuration in YAML

A configuration is written as one mapping. When it is read, fields may be
left out and unknown ones are passed over; a text may be any scalar, taken
as it is written. Tags are passed over, too, except that a scope mode may
be the tag of a value that is left out. Where a reference stands, the node
that it shows is read.
-/

namespace ParamStore

namespace Config

/-- The text of the configuration, a line to each field and to each trusted
group. -/
def toYaml (c : Config) : String :=
  "default_group: " ++ Yaml.scalarLine c.defaultGroup
    ++ "scope_mode: " ++ c.scopeMode.name ++ "\n"
    ++ "log_level: " ++ Yaml.scalarLine c.logLevel
    ++ match c.trustedGroups with
      | [] => "trusted_groups: []\n"
      | gs => "trusted_groups:\n" ++ String.join (gs.map fun g => "- " ++ Yaml.scalarLine g)

/-! ## Reading -/

def scalar? (d : Yaml.Document) (c : Yaml.Content) : Option String :=
  match (d.shown c).untagged with
  | .scalar _ s => some s
  | _ => none

/-- A list of texts, which may also be left out after its name. -/
def scalars? (d : Yaml.Document) (c : Yaml.Content) : Option (List String) :=
  match (d.shown c).untagged with
  | .sequence cs => cs.mapM (scalar? d)
  | .scalar true "" => some []
  | _ => none

/-- Whether a value is left out or null. -/
def isNothing : Yaml.Content → Bool
  | .scalar true s => Yaml.isNull s
  | _ => false

/-- A scope mode, by its name or as a tag of its own. A tag that begins with
an exclamation mark always stands for one. -/
def scopeMode? (d : Yaml.Document) (c : Yaml.Content) : Option ScopeMode :=
  let byName := (scalar? d c).bind ScopeMode.ofName?
  match d.shown c with
  | .tagged tag value =>
    match tag.toList with
    | '!' :: cs => if isNothing value then ScopeMode.ofName? (String.ofList cs) else none
    | _ => byName
  | _ => byName

/-- The value of a field that stands at most once. -/
def field? (fs : List (String × Yaml.Content)) (name : String) :
    Option (Option Yaml.Content) :=
  match fs.filter fun f => f.1 == name with
  | [] => some none
  | [f] => some (some f.2)
  | _ => none

/-- The value that a field reads as, or the default without the field. -/
def fieldOr {α : Type} (default : α) (read : Yaml.Content → Option α) (name : String)
    (fs : List (String × Yaml.Content)) : Option α := do
  match ← field? fs name with
  | none => return default
  | some c => read c

def ofDocument? (d : Yaml.Document) : Option Config :=
  match d.root.untagged with
  | .mapping fields => do
    let fs ← fields.mapM fun f => (scalar? d f.1).map (·, f.2)
    let base : Config := {}
    let defaultGroup ← fieldOr base.defaultGroup (scalar? d) "default_group" fs
    let scopeMode ← fieldOr base.scopeMode (scopeMode? d) "scope_mode" fs
    let logLevel ← fieldOr base.logLevel (scalar? d) "log_level" fs
    let trustedGroups ← fieldOr base.trustedGroups (scalars? d) "trusted_groups" fs
    return { defaultGroup, scopeMode, logLevel, trustedGroups }
  | .scalar true "" => some {}
  | _ => none

/-- The configuration that a text writes. A text without a document gives
the defaults. -/
def ofYaml? (text : String) : Option Config :=
  if Text.isBlankText text.toList then some {}
  else match Yaml.Document.read? text with
    | some [] => some {}
    | some [d] => ofDocument? d
    | _ => none

end Config

end ParamStore
