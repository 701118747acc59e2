import ParamStore.Node

/-!
# What nodes go through

One inversion lemma for each operation on nodes (`setShared_eq_ok` and so
on): when it goes through, and which node it then gives. Everything that
is proved about nodes later uses these and never the operations' bodies.

`WellFormed` is what holds of every node that a store keeps; each
operation preserves it.
-/

namespace ParamStore

/-- The parameters that a store of kind `k` may hold. -/
def Kind.Admits (k : Kind) (p : Parameter) : Prop :=
  p.kind = k ∧ k.validate p.value = .ok ()

namespace Parameter

variable (p : Parameter)

@[simp] theorem kind_toShared : p.toShared.kind = p.kind := rfl
@[simp] theorem value_toShared : p.toShared.value = p.value := rfl
@[simp] theorem kind_toScope : p.toScope.kind = p.kind := rfl
@[simp] theorem value_toScope : p.toScope.value = p.value := rfl
@[simp] theorem kind_withPin (h : UInt64) : (p.withPin h).kind = p.kind := rfl
@[simp] theorem value_withPin (h : UInt64) : (p.withPin h).value = p.value := rfl

@[simp] theorem isShared_toShared : p.toShared.isShared = true := by
  obtain ⟨k, v, s⟩ := p
  cases s <;> rfl

@[simp] theorem isShared_toScope : p.toScope.isShared = false := by
  obtain ⟨k, v, s⟩ := p
  cases s <;> rfl

@[simp] theorem isShared_withPin (h : UInt64) : (p.withPin h).isShared = p.isShared := by
  obtain ⟨k, v, s⟩ := p
  cases s <;> rfl

@[simp] theorem readOnly_withPin (h : UInt64) : (p.withPin h).readOnly = p.readOnly := by
  obtain ⟨k, v, s⟩ := p
  cases s <;> rfl

@[simp] theorem transient_withPin (h : UInt64) : (p.withPin h).transient = p.transient := by
  obtain ⟨k, v, s⟩ := p
  cases s <;> rfl

theorem toShared_of_isShared {p : Parameter} (h : p.isShared = true) : p.toShared = p := by
  obtain ⟨k, v, s⟩ := p
  cases s with
  | inScope s => cases h
  | shared s => rfl

theorem pin_withPin {p : Parameter} (hp : p.isShared = true) (h : UInt64) :
    (p.withPin h).pin = some h := by
  obtain ⟨k, v, s⟩ := p
  cases s with
  | inScope s => cases hp
  | shared s => rfl

theorem withPin_of_pin {p : Parameter} {h : UInt64} (hp : p.pin = some h) :
    p.withPin h = p := by
  obtain ⟨k, v, s⟩ := p
  cases s with
  | inScope s => cases hp
  | shared s =>
    obtain ⟨ro, rm, tr, pin⟩ := s
    cases hp
    rfl

theorem isPinned_iff {p : Parameter} : p.isPinned = true ↔ p.pin = some p.identity := by
  simp [isPinned]

theorem isPinned_iff_of_pin {p : Parameter} {pin : UInt64} (h : p.pin = some pin) :
    p.isPinned = true ↔ p.identity = pin := by
  rw [isPinned_iff, h, Option.some_inj, eq_comm]

end Parameter

namespace Node

/-! ## The operations, inverted -/

@[simp] theorem pin_pinned (n : Node) (p : Parameter) :
    (n.pinned p).pin = some (n.pin.getD p.identity) := by
  rw [pinned, Parameter.pin_withPin (Parameter.isShared_toShared p), Parameter.identity_toShared]

@[simp] theorem identity_pinned (n : Node) (p : Parameter) :
    (n.pinned p).identity = p.identity := by
  rw [pinned, Parameter.identity_withPin, Parameter.identity_toShared]

theorem setLocal_eq_ok {n n' : Node} {key : ScopeKey} {p stored : Parameter} :
    n.setLocal key p = .ok (stored, n') ↔
      (n.inScope? key).any Parameter.readOnly = false ∧ stored = p.toScope
        ∧ n' = { n with locals := n.locals.insert key p.toScope } := by
  unfold setLocal
  by_cases hro : (n.inScope? key).any Parameter.readOnly = true
  · simp [hro]
  · rw [if_neg hro]
    simp only [Except.ok.injEq, Prod.mk.injEq, Bool.not_eq_true] at hro ⊢
    exact ⟨fun h => ⟨hro, h.1.symm, h.2.symm⟩, fun h => ⟨h.2.1.symm, h.2.2.symm⟩⟩

theorem unsetLocal_eq_ok {n n' : Node} {key : ScopeKey} {force : Bool}
    {removed : Option Parameter} :
    n.unsetLocal key force = .ok (removed, n') ↔
      (∀ p, n.inScope? key = some p → force = true ∨ p.removable = true)
        ∧ removed = n.inScope? key ∧ n' = { n with locals := n.locals.erase key } := by
  have hkept : ((n.inScope? key).any fun p => !force && !p.removable) = true ↔
      ¬ ∀ p, n.inScope? key = some p → force = true ∨ p.removable = true := by
    cases n.inScope? key <;> simp
  unfold unsetLocal
  by_cases h : ((n.inScope? key).any fun p => !force && !p.removable) = true
  · rw [if_pos h]
    exact ⟨fun he => (by cases he), fun he => absurd he.1 (hkept.1 h)⟩
  · rw [if_neg h]
    simp only [Except.ok.injEq, Prod.mk.injEq]
    exact ⟨fun he => ⟨Classical.not_not.1 (mt hkept.2 h), he.1.symm, he.2.symm⟩,
      fun he => ⟨he.2.1.symm, he.2.2.symm⟩⟩

theorem setShared_eq_ok {n n' : Node} {p stored : Parameter} {g : Group} {freeze : Bool} :
    n.setShared p g freeze = .ok (stored, n') ↔
      (∀ q, n.shared = some q → q.readOnly = false) ∧ (freeze = true → n.pin = none)
        ∧ g ≠ "" ∧ (∀ o, n.owner = some o → o = g) ∧ stored = n.pinned p
        ∧ n' = { n with
            shared := some (n.pinned p)
            owner := some g
            pin := if freeze then (n.pinned p).pin else n.pin } := by
  have hro : n.shared.any Parameter.readOnly = true ↔
      ¬ ∀ q, n.shared = some q → q.readOnly = false := by
    cases n.shared <;> simp
  have hfrozen : (freeze && n.isFrozen) = true ↔ ¬ (freeze = true → n.pin = none) := by
    cases freeze <;> cases hp : n.pin <;> simp [isFrozen, hp]
  unfold setShared
  by_cases h₁ : n.shared.any Parameter.readOnly = true
  · rw [if_pos h₁]
    simp [hro.1 h₁]
  by_cases h₂ : (freeze && n.isFrozen) = true
  · rw [if_neg h₁, if_pos h₂]
    exact ⟨fun h => (by cases h), fun h => absurd h.2.1 (hfrozen.1 h₂)⟩
  by_cases h₃ : g = ""
  · rw [if_neg h₁, if_neg h₂, if_pos h₃]
    exact ⟨fun h => (by cases h), fun h => absurd h₃ h.2.2.1⟩
  rw [if_neg h₁, if_neg h₂, if_neg h₃]
  have h₁' := Classical.not_not.1 (mt hro.2 h₁)
  have h₂' := Classical.not_not.1 (mt hfrozen.2 h₂)
  cases ho : n.owner with
  | none =>
    simp only [Option.filter_none, Except.ok.injEq, Prod.mk.injEq]
    exact ⟨fun h => ⟨h₁', h₂', h₃, by simp, h.1.symm, h.2.symm⟩,
      fun h => ⟨h.2.2.2.2.1.symm, h.2.2.2.2.2.symm⟩⟩
  | some o =>
    by_cases hog : o = g
    · simp only [Option.filter, hog, ne_eq, not_true_eq_false, decide_false, Bool.false_eq_true,
        if_false, Except.ok.injEq, Prod.mk.injEq]
      exact ⟨fun h => ⟨h₁', h₂', h₃, fun o ho => (Option.some.inj ho).symm, h.1.symm, h.2.symm⟩,
        fun h => ⟨h.2.2.2.2.1.symm, h.2.2.2.2.2.symm⟩⟩
    · simp only [Option.filter, hog, ne_eq, not_false_eq_true, decide_true, if_true, reduceCtorEq,
        false_iff]
      exact fun h => hog (h.2.2.2.1 o rfl)

theorem unsetShared_eq_ok {n n' : Node} {force : Bool} {removed : Option Parameter} :
    n.unsetShared force = .ok (removed, n') ↔
      (∀ q, n.shared = some q → force = true ∨ q.removable = true) ∧ removed = n.shared
        ∧ n' = { n with shared := none, owner := if n.isFrozen then n.owner else none } := by
  have hkept : (n.shared.any fun p => !force && !p.removable) = true ↔
      ¬ ∀ q, n.shared = some q → force = true ∨ q.removable = true := by
    cases n.shared <;> simp
  unfold unsetShared
  by_cases h : (n.shared.any fun p => !force && !p.removable) = true
  · rw [if_pos h]
    exact ⟨fun he => (by cases he), fun he => absurd he.1 (hkept.1 h)⟩
  · rw [if_neg h]
    simp only [Except.ok.injEq, Prod.mk.injEq]
    exact ⟨fun he => ⟨Classical.not_not.1 (mt hkept.2 h), he.1.symm, he.2.symm⟩,
      fun he => ⟨he.2.1.symm, he.2.2.symm⟩⟩

/-- The node without its freeze: one without a shared value loses its
owner with it. -/
def released (n : Node) : Node :=
  { n with pin := none, owner := if n.shared.isNone then none else n.owner }

/-- The owner of a node: some group iff the node has a shared value or is
frozen. -/
def Owned (n : Node) : Prop := n.owner.isSome = (n.shared.isSome || n.pin.isSome)

instance (n : Node) : Decidable n.Owned := inferInstanceAs (Decidable (_ = _))

theorem released_of_not_frozen {n : Node} (ho : n.Owned) (h : n.pin = none) :
    n.released = n := by
  obtain ⟨path, shared, locals, owner, pin⟩ := n
  subst h
  cases shared <;> cases owner <;> simp [Owned, released] at ho ⊢

theorem unfreeze_of_owner {n : Node} {g : Group} (ho : n.Owned)
    (h : n.pin.isSome = true → n.owner = some g) : n.unfreeze g = .ok n.released := by
  unfold unfreeze isFrozen
  cases hp : n.pin with
  | none => simp [released_of_not_frozen ho hp]
  | some v =>
    have howner : n.owner = some g := h (by simp [hp])
    simp [howner, released]

/-! ## Well-formed nodes -/

/-- The node holds the parameter in one of its slots. -/
def Holds (n : Node) (q : Parameter) : Prop :=
  n.shared = some q ∨ ∃ key, n.inScope? key = some q

/-- What holds of every node of a store of kind `k`. -/
structure WellFormed (k : Kind) (n : Node) : Prop where
  owned : n.Owned
  named : n.owner ≠ some ""
  /-- The shared value of a frozen node carries the pin of the node. -/
  pinned : ∀ h q, n.pin = some h → n.shared = some q → q.pin = some h
  shared_shape : ∀ q, n.shared = some q → q.isShared = true ∧ q.pin.isSome = true
  scope_shape : ∀ key q, n.inScope? key = some q → q.isShared = false
  admitted : ∀ q, n.Holds q → k.Admits q

/-! ### What an operation leaves of the owner -/

theorem Owned.fresh (path : Path) : (fresh path).Owned := rfl

theorem Owned.setShared {n n' : Node} {p stored : Parameter} {g : Group} {freeze : Bool}
    (h : n.setShared p g freeze = .ok (stored, n')) : n'.Owned := by
  obtain ⟨-, -, -, -, -, rfl⟩ := setShared_eq_ok.1 h
  simp [Owned]

theorem Owned.unsetShared {n n' : Node} {force : Bool} {removed : Option Parameter}
    (ho : n.Owned) (h : n.unsetShared force = .ok (removed, n')) : n'.Owned := by
  obtain ⟨-, -, rfl⟩ := unsetShared_eq_ok.1 h
  unfold Owned isFrozen at *
  cases hp : n.pin with
  | none => simp
  | some v => simpa [hp] using ho

theorem Owned.released {n : Node} (ho : n.Owned) : n.released.Owned := by
  unfold Owned Node.released at *
  cases hs : n.shared <;> simp_all

/-! ### What an operation leaves well formed -/

theorem WellFormed.fresh (k : Kind) (path : Path) : (fresh path).WellFormed k where
  owned := .fresh path
  named := by simp [Node.fresh]
  pinned := by simp [Node.fresh]
  shared_shape := by simp [Node.fresh]
  scope_shape := fun key q h => by cases h
  admitted := fun q h => by
    rcases h with h | ⟨key, h⟩ <;> cases h

theorem WellFormed.setLocal {k : Kind} {n n' : Node} {key : ScopeKey} {p stored : Parameter}
    (hn : n.WellFormed k) (hp : k.Admits p) (h : n.setLocal key p = .ok (stored, n')) :
    n'.WellFormed k := by
  obtain ⟨-, -, rfl⟩ := setLocal_eq_ok.1 h
  have hscope : ∀ key' q, (n.locals.insert key p.toScope).find? key' = some q →
      q = p.toScope ∨ n.inScope? key' = some q := by
    intro key' q hq
    rw [Table.find?_insert] at hq
    split at hq
    · exact .inl (Option.some.inj hq).symm
    · exact .inr hq
  refine ⟨hn.owned, hn.named, hn.pinned, hn.shared_shape, fun key' q hq => ?_, ?_⟩
  · rcases hscope key' q hq with rfl | hq
    · exact Parameter.isShared_toScope p
    · exact hn.scope_shape key' q hq
  · rintro q (hq | ⟨key', hq⟩)
    · exact hn.admitted q (.inl hq)
    · rcases hscope key' q hq with rfl | hq
      · exact hp
      · exact hn.admitted q (.inr ⟨key', hq⟩)

theorem WellFormed.eraseLocal {k : Kind} {n : Node} (hn : n.WellFormed k) (key : ScopeKey) :
    { n with locals := n.locals.erase key }.WellFormed k := by
  have hscope : ∀ key' q, (n.locals.erase key).find? key' = some q →
      n.inScope? key' = some q := by
    intro key' q hq
    rw [Table.find?_erase] at hq
    split at hq
    · cases hq
    · exact hq
  refine ⟨hn.owned, hn.named, hn.pinned, hn.shared_shape,
    fun key' q hq => hn.scope_shape key' q (hscope key' q hq), ?_⟩
  rintro q (hq | ⟨key', hq⟩)
  · exact hn.admitted q (.inl hq)
  · exact hn.admitted q (.inr ⟨key', hscope key' q hq⟩)

theorem WellFormed.setShared {k : Kind} {n n' : Node} {p stored : Parameter} {g : Group}
    {freeze : Bool} (hn : n.WellFormed k) (hp : k.Admits p)
    (h : n.setShared p g freeze = .ok (stored, n')) : n'.WellFormed k := by
  have howned := Owned.setShared h
  obtain ⟨-, hfreeze, hg, -, -, rfl⟩ := setShared_eq_ok.1 h
  refine ⟨howned, by simpa using hg, ?_, ?_, hn.scope_shape, ?_⟩
  · intro v q hv hq
    cases hq
    rw [pin_pinned]
    cases freeze with
    | true => simpa using hv
    | false => simp [show n.pin = some v from hv]
  · intro q hq
    cases hq
    exact ⟨by simp [Node.pinned], by simp⟩
  · rintro q (hq | hq)
    · cases hq
      exact hp
    · exact hn.admitted q (.inr hq)

theorem WellFormed.unsetShared {k : Kind} {n n' : Node} {force : Bool}
    {removed : Option Parameter} (hn : n.WellFormed k)
    (h : n.unsetShared force = .ok (removed, n')) : n'.WellFormed k := by
  have howned := hn.owned.unsetShared h
  obtain ⟨-, -, rfl⟩ := unsetShared_eq_ok.1 h
  refine ⟨howned, ?_, by simp, by simp, hn.scope_shape, ?_⟩
  · have hnamed := hn.named
    by_cases hf : n.isFrozen = true <;> simp [hf, hnamed]
  · rintro q (hq | hq)
    · cases hq
    · exact hn.admitted q (.inr hq)

theorem WellFormed.released {k : Kind} {n : Node} (hn : n.WellFormed k) :
    n.released.WellFormed k := by
  refine ⟨hn.owned.released, ?_, by simp [Node.released], hn.shared_shape, hn.scope_shape,
    hn.admitted⟩
  have hnamed := hn.named
  cases hs : n.shared <;> simp [Node.released, hs, hnamed]

/-! ## Nodes that are kept -/

/-- The node, if a store keeps it. -/
def kept (n : Node) : Option Node := if n.isRemovable then none else some n

theorem isRemovable_iff {n : Node} :
    n.isRemovable = true ↔ n.shared = none ∧ (∀ key, n.inScope? key = none) ∧ n.pin = none := by
  simp [isRemovable, inScope?, Table.isEmpty_iff, and_assoc]

theorem kept_eq_some {n m : Node} : n.kept = some m ↔ n.isRemovable = false ∧ m = n := by
  unfold kept
  cases n.isRemovable <;> simp [eq_comm]

theorem kept_of_not_removable {n : Node} (h : n.isRemovable = false) : n.kept = some n := by
  simp [kept, h]

theorem owner_of_isRemovable {n : Node} (ho : n.Owned) (h : n.isRemovable = true) :
    n.owner = none := by
  obtain ⟨hs, -, hp⟩ := isRemovable_iff.1 h
  simpa [Owned, hs, hp] using ho

end Node

end ParamStore
