import ParamStore.Json.Value

/-!
# Records in JSON

A record is an object with named fields. Fields that the record does not
know are passed over, whatever they hold; one that it knows may stand only
once. A record may also be written as the list of its fields in their
order, the last ones left out.

A tagged record has one more field, whose text says which case it is. All
of it has to be readable, the unknown fields too, for it is read as a
whole before the case is known. As a list it starts with the tag.
-/

namespace ParamStore.Json

/-- The fields of a record as they are found in a tree. -/
abbrev Fields := List (String × Tree)

namespace Fields

/-- Whether no name of the record stands twice. -/
def isSingle (names : List String) (fs : Fields) : Bool :=
  names.all fun n => (fs.filter fun f => f.1 == n).length ≤ 1

/-- A field that has to be there. -/
def required {α : Type} (read : Tree → Option α) (name : String) (fs : Fields) : Option α :=
  (Entries.find? name fs).bind read

/-- A field that has this value when it is left out. -/
def defaulted {α : Type} (default : α) (read : Tree → Option α) (name : String) (fs : Fields) :
    Option α :=
  match Entries.find? name fs with
  | none => some default
  | some t => read t

/-- The field of a text that is left out when there is none. -/
def optional (name : String) : Option String → Fields
  | none => []
  | some s => [(name, .text s)]

end Fields

namespace Tree

def text? : Tree → Option String
  | text s => some s
  | _ => none

def bool? : Tree → Option Bool
  | bool b => some b
  | _ => none

/-- A whole number of 64 bits without sign. -/
def natural? : Tree → Option UInt64
  | number (.whole n _) => if 0 ≤ n then some (UInt64.ofNat n.toNat) else none
  | _ => none

/-- What may be null instead. -/
def nullable? {α : Type} (read : Tree → Option α) : Tree → Option (Option α)
  | null => some none
  | t => (read t).map some

def list? {α : Type} (read : Tree → Option α) : Tree → Option (List α)
  | array items => items.mapM read
  | _ => none

/-- A name alone, or as the only field of an object, with nothing in it. -/
def name? (isNothing : Tree → Bool) : Tree → Option String
  | text s => some s
  | object [(s, t)] => if isNothing t then some s else none
  | _ => none

def record? (names : List String) : Tree → Option Fields
  | object fs => if Fields.isSingle names fs then some fs else none
  | array items => if items.length ≤ names.length then some (names.zip items) else none
  | _ => none

/-- The tag of a tagged record, and the record without it. -/
def tagged? (tag : String) (t : Tree) : Option (String × Tree) :=
  if t.normalise.isNone then none
  else match t with
    | object fs =>
      match fs.filter fun f => f.1 == tag with
      | [(_, text s)] => some (s, object (Entries.erase tag fs))
      | _ => none
    | array (text s :: items) => some (s, array items)
    | _ => none

/-- Whether a field inside a tagged record holds nothing. -/
def isHollow : Tree → Bool
  | null => true
  | object [] => true
  | _ => false

end Tree

namespace Fields

def text? (fs : Fields) (name : String) : Option String := required Tree.text? name fs

/-- A flag that is off when it is left out. -/
def flag? (fs : Fields) (name : String) : Option Bool := defaulted false Tree.bool? name fs

/-- A text that may be left out or null. -/
def optionalText? (fs : Fields) (name : String) : Option (Option String) :=
  defaulted none (Tree.nullable? Tree.text?) name fs

end Fields

end ParamStore.Json
