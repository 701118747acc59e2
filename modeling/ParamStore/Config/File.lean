import ParamStore.Config.Yaml
import ParamStore.FileTree

/-!
# Configuration files

A configuration is kept in a file. Where there is none, the defaults hold.
-/

namespace ParamStore

inductive ConfigError where
  | unreadable (path : String) (cause : FileFailure)
  | unwritable (path : String) (cause : FileFailure)
  | invalid
  deriving Repr, DecidableEq

namespace ConfigError

def message : ConfigError → String
  | unreadable path cause => "cannot read " ++ path ++ ": " ++ cause.message
  | unwritable path cause => "cannot write " ++ path ++ ": " ++ cause.message
  | invalid => "invalid settings"

end ConfigError

namespace Config

def parse (text : String) : Except ConfigError Config :=
  match ofYaml? text with
  | some c => .ok c
  | none => .error .invalid

/-- The configuration of the file at a path, from what reading the file
gave. -/
def load (path : String) : FileText → Except ConfigError Config
  | .ok text => parse text
  | .error .missing | .error .notDirectory | .error .nameTooLong | .error .nulInside => .ok {}
  | .error cause => .error (.unreadable path cause)

/-- Write the configuration to the file at a path, and make the directories
above it where they are missing. -/
def save (c : Config) (path : String) (t : FileTree) : Except ConfigError Unit × FileTree :=
  let (written, t) := t.writeWithin path c.toYaml.toUTF8
  (written.mapError (.unwritable path), t)

end Config

end ParamStore
