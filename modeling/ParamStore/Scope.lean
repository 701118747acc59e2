import ParamStore.Error
import ParamStore.Table.Basic

/-!
# Scopes and callers

A scope is a call frame of a thread; values in it are seen from it alone.
A store knows of its caller the scope, the group that owns what the caller
shares without naming one, and the groups that may write shared values.
-/

namespace ParamStore

/-- A frame of a thread. -/
structure ScopeKey where
  thread : Nat
  frame : Nat
  deriving Repr, DecidableEq

namespace ScopeKey

/-- Scopes are ordered by thread and then by frame. -/
instance : LT ScopeKey :=
  ⟨fun a b => a.thread < b.thread ∨ a.thread = b.thread ∧ a.frame < b.frame⟩

theorem lt_iff {a b : ScopeKey} :
    a < b ↔ a.thread < b.thread ∨ a.thread = b.thread ∧ a.frame < b.frame :=
  Iff.rfl

instance : DecidableLT ScopeKey := fun a b =>
  inferInstanceAs (Decidable (a.thread < b.thread ∨ a.thread = b.thread ∧ a.frame < b.frame))

instance : StrictOrder ScopeKey where
  irrefl a := by simp [lt_iff]
  trans := by simp only [lt_iff]; omega
  connected := by
    rintro ⟨t, f⟩ ⟨u, g⟩
    simp only [lt_iff, mk.injEq]
    omega

end ScopeKey

/-- Who calls, and what the caller may do. -/
structure Caller where
  scope : ScopeKey
  defaultGroup : Group
  authorized : Group → Bool

namespace Caller

/-- The group that acts: the one named, or the default. -/
def actingGroup (c : Caller) (named : Option Group) : Group := named.getD c.defaultGroup

/-- Refuse a group that may not touch shared values. -/
def authorize (c : Caller) (kind : Kind) (group : Group) : Except StoreError Unit :=
  if c.authorized group then .ok () else .error (.unauthorized group kind)

end Caller

end ParamStore
