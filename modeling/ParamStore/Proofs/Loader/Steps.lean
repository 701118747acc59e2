import ParamStore.Loader
import ParamStore.Proofs.Container

/-!
# The steps of a loader

Loading and unloading go through the operations that everyone uses: they
set, unset and look up at one path at a time. For each of these steps, with
the options that a loader gives, this is when it goes through and what it
makes of the node at its path.
-/

namespace ParamStore

open Json (Value)

namespace Node

/-- The node without a shared value, an owner and a freeze. -/
def stripped (n : Node) : Node := { n with shared := none, owner := none, pin := none }

@[simp] theorem path_stripped (n : Node) : n.stripped.path = n.path := rfl

theorem owned_stripped (n : Node) : n.stripped.Owned := rfl

/-- A node that nobody owns has nothing to be stripped of. -/
theorem stripped_of_unowned {n : Node} (ho : n.Owned) (h : n.owner = none) : n.stripped = n := by
  obtain ⟨path, shared, locals, owner, pin⟩ := n
  cases h
  cases shared <;> cases pin <;> simp [Owned, stripped] at ho ⊢

theorem eq_fresh_of_isRemovable {n : Node} (ho : n.Owned) (hr : n.isRemovable = true) :
    n = .fresh n.path := by
  have howner : n.owner = none := owner_of_isRemovable ho hr
  obtain ⟨hs, hlocals, hp⟩ := isRemovable_iff.1 hr
  have hempty : n.locals = ∅ := Table.ext fun key => hlocals key
  obtain ⟨path, shared, locals, owner, pin⟩ := n
  cases hs
  cases hp
  cases howner
  cases hempty
  rfl

/-- A node that a store let go is the one that a new write starts from. -/
theorem getD_kept {n : Node} (ho : n.Owned) : n.kept.getD (.fresh n.path) = n := by
  unfold kept
  split
  · next hr => exact (eq_fresh_of_isRemovable ho hr).symm
  · rfl

end Node

namespace Loader

variable {c : Container} {thread : Nat} {text : String} {p : Path} {n : Node}

/-! ## Looking -/

theorem get_lookup (c : Container) (thread : Nat) (k : Kind) (text : String) :
    c.get thread k text lookup =
      (Store.readPath text).map fun p => (c.at? k p).bind Node.shared := by
  have hvisible : ∀ key, Store.visible key true false = Node.shared := by
    intro key
    funext n
    simp [Store.visible]
  unfold Container.get
  rw [Store.get_exact _ _ _ rfl]
  change (Store.readPath text).map
    (fun p => (c.at? k p).bind (Store.visible _ true false)) = _
  rw [hvisible]

/-! ## Storing an entry -/

/-- The parameter as which a load stores a value. -/
def stored (l : Loader) (v : Value) : Parameter :=
  (Parameter.plain l.kind v).toShared.withPin (Parameter.plain l.kind v).identity

@[simp] theorem identity_stored (l : Loader) (v : Value) :
    (l.stored v).identity = (Parameter.plain l.kind v).identity := by
  simp [stored]

/-- A node with an entry that the loader put there. -/
def filled (l : Loader) (v : Value) (n : Node) : Node :=
  { n with
    shared := some (l.stored v)
    owner := some l.group
    pin := some (Parameter.plain l.kind v).identity }

/-- The nodes at which a loader may store an entry. -/
structure Accepts (l : Loader) (n : Node) : Prop where
  named : l.group ≠ ""
  unfrozen : n.pin = none
  owner_eq : ∀ g, n.owner = some g → g = l.group
  writable : ∀ q, n.shared = some q → q.readOnly = false

theorem pin_stored (l : Loader) (v : Value) :
    (l.stored v).pin = some (Parameter.plain l.kind v).identity :=
  Parameter.pin_withPin (Parameter.isShared_toShared _) _

theorem pinned_plain (l : Loader) (v : Value) (h : n.pin = none) :
    n.pinned (.plain l.kind v) = l.stored v := by
  unfold Node.pinned
  rw [h, Parameter.identity_toShared]
  rfl

/-- What storing an entry asks of a node, and makes of it. -/
theorem setShared_entry {l : Loader} {v : Value} {n n' : Node} {q : Parameter}
    (h : n.setShared (.plain l.kind v) l.group true = .ok (q, n')) :
    l.Accepts n ∧ q = l.stored v ∧ n' = l.filled v n := by
  obtain ⟨hwritable, hpin, hnamed, howner, hq, hn'⟩ := Node.setShared_eq_ok.1 h
  have hunfrozen : n.pin = none := hpin rfl
  rw [pinned_plain l v hunfrozen] at hq hn'
  refine ⟨⟨hnamed, hunfrozen, howner, hwritable⟩, hq, ?_⟩
  rw [hn', if_pos rfl, pin_stored]
  rfl

theorem Accepts.setShared {l : Loader} (h : l.Accepts n) (v : Value) :
    n.setShared (.plain l.kind v) l.group true = .ok (l.stored v, l.filled v n) := by
  have hpinned := pinned_plain l v h.unfrozen
  refine Node.setShared_eq_ok.2
    ⟨h.writable, fun _ => h.unfrozen, h.named, h.owner_eq, hpinned.symm, ?_⟩
  rw [hpinned, if_pos rfl, pin_stored]
  rfl

/-- An entry is refused and changes nothing, or it fills the node at its
path. -/
theorem deposit_cases (h : c.Sound) (l : Loader) (thread : Nat) (text : String) (v : Value) :
    (∃ e, c.set thread l.kind text (.bare v) l.deposit = (.error e, c)) ∨
    ∃ p, Store.readPath text = .ok p ∧ l.Accepts ((c.at? l.kind p).getD (.fresh p))
      ∧ (c.set thread l.kind text (.bare v) l.deposit).1 = .ok (l.stored v)
      ∧ Container.Turns l.kind c (c.set thread l.kind text (.bare v) l.deposit).2 fun q =>
          if p = q then some (l.filled v ((c.at? l.kind p).getD (.fresh p)))
          else c.at? l.kind q := by
  obtain ⟨e, -, heq⟩ | ⟨p, q, n', hplan, hok, hturns⟩ :=
    h.turns_set thread l.kind text (.bare v) l.deposit
  · exact .inl ⟨e, heq⟩
  obtain ⟨q', hq', -, hp, hnode⟩ := Store.planSet_eq_ok.1 hplan
  obtain rfl := Kind.coerce_bare hq'
  obtain ⟨-, hset⟩ := (Store.setNode_shared rfl).1 hnode
  obtain ⟨haccepts, rfl, rfl⟩ := setShared_entry hset
  exact .inr ⟨p, hp, haccepts, hok, hturns⟩

/-! ## Taking a value away -/

/-- What a loader that is refused for want of the right would have done. -/
theorem unsetNode_withdrawal (caller : Caller) {l : Loader} (hn : n.Owned)
    (ho : n.owner = some l.group) :
    Store.unsetNode l.kind caller l.withdrawal n =
      if caller.authorized l.group then .ok (n.shared, n.stripped)
      else .error (.unauthorized l.group l.kind) := by
  have hheld : (n.shared.isSome || n.pin.isSome) = true := by
    rw [← hn, ho]
    rfl
  have hslot : Store.unsetsShared? n caller.scope l.withdrawal = some true := by
    unfold Store.unsetsShared? withdrawal Node.isFrozen
    cases hs : n.shared with
    | some q => simp
    | none =>
      have hp : n.pin.isSome = true := by simpa [hs] using hheld
      simp [hp]
  have hempty : Store.emptyShared l.group true true n = .ok (n.shared, n.stripped) := by
    refine Store.emptyShared_eq_ok.2 ⟨fun _ => ho, _, Node.unsetShared_eq_ok.2
      ⟨fun _ _ => .inl rfl, rfl, rfl⟩, ?_⟩
    rw [if_pos rfl]
    rfl
  have hacts : caller.authorize l.kind (caller.actingGroup l.withdrawal.group) =
      if caller.authorized l.group then .ok () else .error (.unauthorized l.group l.kind) := rfl
  unfold Store.unsetNode
  rw [hslot]
  dsimp only
  rw [hacts]
  cases caller.authorized l.group with
  | false => rfl
  | true => exact hempty

theorem planUnset_withdrawal (h : c.Sound) (thread : Nat) {l : Loader}
    (hp : Store.readPath text = .ok p) (hn : c.at? l.kind p = some n)
    (ho : n.owner = some l.group) :
    (c.store l.kind).planUnset l.kind (c.caller thread) text l.withdrawal =
      if c.registry.isAuthorized l.group then .ok (p, n.shared, n.stripped)
      else .error (.unauthorized l.group l.kind) := by
  obtain ⟨id, hid⟩ := Store.locate_of_at? hp hn
  have hnode := unsetNode_withdrawal (c.caller thread) (h.wellFormed hn).owned ho
  unfold Store.planUnset
  rw [if_neg (by simp [withdrawal]), hid]
  simp only [hnode, h.path_at? hn]
  change ((if c.registry.isAuthorized l.group then _ else _ : Except StoreError _).map _) = _
  split <;> rfl

/-- A loader whose group may write takes away what the group owns at a path:
the value, the freeze and the owner. -/
theorem withdrawal_ok (h : c.Sound) (thread : Nat) {l : Loader}
    (ha : c.registry.isAuthorized l.group = true) (hp : Store.readPath text = .ok p)
    (hn : c.at? l.kind p = some n) (ho : n.owner = some l.group) :
    (c.unset thread l.kind text l.withdrawal).1 = .ok n.shared ∧
      Container.Turns l.kind c (c.unset thread l.kind text l.withdrawal).2 fun q =>
        if p = q then n.stripped.kept else c.at? l.kind q := by
  have hplan := planUnset_withdrawal h thread hp hn ho
  rw [if_pos ha] at hplan
  obtain ⟨e, he, -⟩ | ⟨p', removed, n', hplan', hok, hturns⟩ :=
    h.turns_unset thread l.kind text l.withdrawal
  · cases he.symm.trans hplan
  · cases hplan'.symm.trans hplan
    exact ⟨hok, hturns⟩

theorem withdrawal_unauthorized (h : c.Sound) (thread : Nat) {l : Loader}
    (ha : c.registry.isAuthorized l.group = false) (hp : Store.readPath text = .ok p)
    (hn : c.at? l.kind p = some n) (ho : n.owner = some l.group) :
    c.unset thread l.kind text l.withdrawal = (.error (.unauthorized l.group l.kind), c) := by
  have hplan := planUnset_withdrawal h thread hp hn ho
  rw [if_neg (by simp [ha])] at hplan
  obtain ⟨e, he, heq⟩ | ⟨p', removed, n', hplan', -⟩ :=
    h.turns_unset thread l.kind text l.withdrawal
  · cases he.symm.trans hplan
    exact heq
  · cases hplan'.symm.trans hplan

/-! ## Putting a value back -/

/-- How a loader puts back a value that an entry replaced. -/
def restoration (l : Loader) : SetOptions := { shared := true, group := some l.group }

/-- A loader whose group may write puts a value back at a path that nobody
owns, and the value is then pinned to its own identity. -/
theorem restoration_ok (h : c.Sound) (thread : Nat) {l : Loader} {q : Parameter}
    (ha : c.registry.isAuthorized l.group = true) (hp : Store.readPath text = .ok p)
    (hg : l.group ≠ "") (hq : l.kind.Admits q)
    (hn : (c.at? l.kind p).getD (.fresh p) = n.stripped) :
    Container.Turns l.kind c (c.set thread l.kind text (.made q) l.restoration).2 fun r =>
      if p = r then some { n with
        shared := some (q.toShared.withPin q.identity)
        owner := some l.group
        pin := none } else c.at? l.kind r := by
  have hset : n.stripped.setShared q l.group false =
      .ok (q.toShared.withPin q.identity, { n with
        shared := some (q.toShared.withPin q.identity)
        owner := some l.group
        pin := none }) := by
    have hpinned : n.stripped.pinned q = q.toShared.withPin q.identity := by
      unfold Node.pinned
      rw [Parameter.identity_toShared]
      rfl
    refine Node.setShared_eq_ok.2 ⟨fun _ hs => ?_, fun hf => ?_, hg, fun _ hown => ?_,
      hpinned.symm, ?_⟩
    · cases hs
    · cases hf
    · cases hown
    · rw [hpinned]
      rfl
  have hnode : Store.setNode l.kind (c.caller thread) l.restoration q n.stripped = .ok _ :=
    (Store.setNode_shared rfl).2 ⟨ha, hset⟩
  have hplan := Store.planSet_eq_ok.2
    ⟨q, Kind.coerce_made hq, fun hf => (by cases hf), hp, hn.symm ▸ hnode⟩
  obtain ⟨e, he, -⟩ | ⟨p', stored, n', hplan', -, hturns⟩ :=
    h.turns_set thread l.kind text (.made q) l.restoration
  · cases he.symm.trans hplan
  · cases hplan'.symm.trans hplan
    exact hturns

end Loader

end ParamStore
