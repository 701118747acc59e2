/-!
# Tokens of YAML texts

The marks, scalars, properties and directives of a text, with the
indentation turned into opening and closing tokens. A block is opened where
its first key or dash stands and closed by the first token that stands
further left.
-/

namespace ParamStore.Yaml

/-- What a tag is made of. Its octets can be written one by one, and then
they need not be those of a text. -/
abbrev Octets := List UInt8

inductive Token where
  | documentStart
  | documentEnd
  /-- The first key of a block of keys stands here. -/
  | mappingStart
  /-- The first dash of a block of dashes stands here. -/
  | sequenceStart
  | blockEnd
  | flowSequenceStart
  | flowSequenceEnd
  | flowMappingStart
  | flowMappingEnd
  | entry
  | comma
  | key
  | value
  /-- A scalar, and whether it stands there without quotes. -/
  | scalar (plain : Bool) (text : String)
  /-- The name of the node that follows. -/
  | anchor (name : String)
  /-- The name of a node in its place. -/
  | reference (name : String)
  /-- The tag of the node that follows: its handle, and what comes after
  it. -/
  | tag (handle : String) (octets : Octets)
  /-- The directive about the version of the format. -/
  | version (major minor : Nat)
  /-- The directive about what a handle of tags stands for. -/
  | handle (handle : String) (octets : Octets)
  deriving Repr, DecidableEq

end ParamStore.Yaml
