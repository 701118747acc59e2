import ParamStore.Json.Printer
import ParamStore.Kind
import ParamStore.SipHash

/-!
# Parameters

A parameter is a value with its kind and its settings. The settings take
one shape in a scope and another one in the shared slot; both say whether
the value may be overwritten and taken away, and the shared shape also
whether the value is transient and which identity it had when it was
stored.

The identity of a parameter is the hash of its kind, the compact text of
its value and the three flags. It depends neither on the shape nor on the
identity recorded in it.
-/

namespace ParamStore

structure ScopeSettings where
  readOnly : Bool
  removable : Bool
  deriving Repr, DecidableEq

structure SharedSettings where
  readOnly : Bool
  removable : Bool
  /-- Not to be given back to the party that loaded the value. -/
  transient : Bool
  /-- The identity recorded when the value was stored. -/
  pin : Option UInt64
  deriving Repr, DecidableEq

inductive Settings where
  | inScope (s : ScopeSettings)
  | shared (s : SharedSettings)
  deriving Repr, DecidableEq

namespace Settings

def readOnly : Settings → Bool
  | inScope s => s.readOnly
  | shared s => s.readOnly

def removable : Settings → Bool
  | inScope s => s.removable
  | shared s => s.removable

def transient : Settings → Bool
  | inScope _ => false
  | shared s => s.transient

def pin : Settings → Option UInt64
  | inScope _ => none
  | shared s => s.pin

def isShared : Settings → Bool
  | inScope _ => false
  | shared _ => true

/-- The same flags in the shape of a scope. -/
def toScope : Settings → Settings
  | inScope s => inScope s
  | shared s => inScope ⟨s.readOnly, s.removable⟩

/-- The same flags in the shape of the shared slot, neither transient nor
pinned unless they were before. -/
def toShared : Settings → Settings
  | inScope s => shared ⟨s.readOnly, s.removable, false, none⟩
  | shared s => shared s

def withReadOnly (b : Bool) : Settings → Settings
  | inScope s => inScope { s with readOnly := b }
  | shared s => shared { s with readOnly := b }

def withRemovable (b : Bool) : Settings → Settings
  | inScope s => inScope { s with removable := b }
  | shared s => shared { s with removable := b }

/-- Only the shared shape carries this flag. -/
def withTransient (b : Bool) (s : Settings) : Settings :=
  match s.toShared with
  | inScope s => inScope s
  | shared s => shared { s with transient := b }

/-- Only the shared shape carries a pin. -/
def withPin (pin : UInt64) : Settings → Settings
  | inScope s => inScope s
  | shared s => shared { s with pin := some pin }

end Settings

/-- A value with its kind and settings. -/
structure Parameter where
  kind : Kind
  value : Json.Value
  settings : Settings
  deriving DecidableEq

namespace Parameter

/-- A parameter in the shape of a scope that may be overwritten and taken
away. -/
def plain (kind : Kind) (value : Json.Value) : Parameter :=
  ⟨kind, value, .inScope ⟨false, true⟩⟩

def readOnly (p : Parameter) : Bool := p.settings.readOnly

def removable (p : Parameter) : Bool := p.settings.removable

def transient (p : Parameter) : Bool := p.settings.transient

def pin (p : Parameter) : Option UInt64 := p.settings.pin

def isShared (p : Parameter) : Bool := p.settings.isShared

def toScope (p : Parameter) : Parameter := { p with settings := p.settings.toScope }

def toShared (p : Parameter) : Parameter := { p with settings := p.settings.toShared }

def withReadOnly (b : Bool) (p : Parameter) : Parameter :=
  { p with settings := p.settings.withReadOnly b }

def withRemovable (b : Bool) (p : Parameter) : Parameter :=
  { p with settings := p.settings.withRemovable b }

def withTransient (b : Bool) (p : Parameter) : Parameter :=
  { p with settings := p.settings.withTransient b }

def withPin (pin : UInt64) (p : Parameter) : Parameter :=
  { p with settings := p.settings.withPin pin }

/-! ## Identity -/

def boolByte (b : Bool) : UInt8 := if b then 1 else 0

/-- A number as eight bytes, the least significant one first. -/
def wordBytes (n : Nat) : List UInt8 :=
  (List.range 8).map fun i => UInt8.ofNat (n >>> (8 * i))

/-- The bytes by which a parameter is identified: its kind, the compact
text of its value up to a byte that no text holds, and its flags. -/
def identityBytes (p : Parameter) : List UInt8 :=
  wordBytes p.kind.index ++ p.value.compact.toUTF8.data.toList ++ [0xff]
    ++ [boolByte p.readOnly, boolByte p.removable, boolByte p.transient]

/-- The hash that stands for a parameter's kind, value and flags. -/
def identity (p : Parameter) : UInt64 := SipHash.hash p.identityBytes

/-- Whether the parameter is the one whose identity was recorded. -/
def isPinned (p : Parameter) : Bool := p.pin == some p.identity

@[simp] theorem identity_withPin (p : Parameter) (pin : UInt64) :
    (p.withPin pin).identity = p.identity := by
  obtain ⟨k, v, s⟩ := p
  cases s <;> rfl

@[simp] theorem identity_toShared (p : Parameter) : p.toShared.identity = p.identity := by
  obtain ⟨k, v, s⟩ := p
  cases s <;> rfl

end Parameter

end ParamStore
