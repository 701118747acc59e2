import ParamStore.Proofs.Store.Request

/-!
# The slots of a node

A node has one shared slot and one for each scope. A request writes to the
shared slot and to that of its caller's scope, and its options say to which
of the two (`Request.Reaches`). An unset chooses one of them by what they hold
(`unsetsShared?_eq_some`) and empties it, if nothing stands in the way
(`unsetNode_eq_ok`). All other slots keep what they hold (`slot?_serve`), so a
slot that none of many requests reaches is found as it was (`slot?_run`).
-/

namespace ParamStore

/-- A place for a value at a path. -/
inductive Slot where
  | shared
  | scope (key : ScopeKey)
  deriving DecidableEq

/-- The slot that a caller asks for: the shared one or that of its scope. -/
def Slot.of (key : ScopeKey) (shared : Bool) : Slot := if shared then .shared else .scope key

theorem Slot.scope_ne_of {key key' : ScopeKey} (hkey : key ≠ key') (shared : Bool) :
    scope key ≠ .of key' shared := by
  cases shared <;> simp [of, hkey]

theorem Slot.of_inj {key : ScopeKey} {b b' : Bool} : of key b = of key b' ↔ b = b' := by
  cases b <;> cases b' <;> simp [of]

namespace Node

/-- The value in a slot. -/
def slot? (n : Node) : Slot → Option Parameter
  | .shared => n.shared
  | .scope key => n.inScope? key

/-- A node that is let go takes no value with it. -/
@[simp] theorem slot?_kept (n : Node) (i : Slot) :
    (n.kept.bind fun m => m.slot? i) = n.slot? i := by
  unfold kept
  split
  · next hr =>
    obtain ⟨hshared, hscope, -⟩ := isRemovable_iff.1 hr
    cases i with
    | shared => exact hshared.symm
    | scope key => exact (hscope key).symm
  · rfl

@[simp] theorem slot?_fresh (p : Path) (i : Slot) : (fresh p).slot? i = none := by
  cases i <;> rfl

/-- The node without the value in a slot. The owner of the shared value stays
with a freeze, and with nothing else. -/
def emptied (n : Node) (unfreeze : Bool) : Slot → Node
  | .scope key => { n with locals := n.locals.erase key }
  | .shared => { n with
      shared := none
      owner := if n.isFrozen && !unfreeze then n.owner else none
      pin := if unfreeze then none else n.pin }

theorem Owned.isSome_owner {n : Node} (ho : n.Owned) (h : n.isFrozen = true) :
    n.owner.isSome = true := by
  have hpin : n.pin.isSome = true := h
  rw [ho, hpin, Bool.or_true]

/-- A frozen node that is not released is kept, with its pin and its owner. -/
theorem emptied_of_frozen {n : Node} (h : n.isFrozen = true) (i : Slot) :
    (n.emptied false i).kept = some (n.emptied false i)
      ∧ (n.emptied false i).pin = n.pin ∧ (n.emptied false i).owner = n.owner := by
  have hpin : (n.emptied false i).pin = n.pin := by cases i <;> rfl
  refine ⟨kept_of_not_removable ?_, hpin, ?_⟩
  · rw [isFrozen, ← hpin, Option.isSome_iff_ne_none] at h
    rw [Bool.eq_false_iff, ne_eq, isRemovable_iff]
    exact fun hremovable => h hremovable.2.2
  · cases i with
    | shared => simp [emptied, h]
    | scope key => rfl

theorem slot?_emptied (n : Node) (unfreeze : Bool) (i j : Slot) :
    (n.emptied unfreeze i).slot? j = if i = j then none else n.slot? j := by
  cases i with
  | shared => cases j <;> simp [emptied, slot?, inScope?]
  | scope key =>
    cases j with
    | shared => simp [emptied, slot?]
    | scope key' =>
      simp only [Slot.scope.injEq]
      exact Table.find?_erase _ key key'

end Node

namespace UnsetOptions

/-- The slot that may be emptied: the one asked for or, where that is empty,
the other, if there is to be a fallback and no release. -/
def Picks (o : UnsetOptions) (key : ScopeKey) (n : Node) (i : Slot) : Prop :=
  i = .of key o.shared ∨
    n.slot? (.of key o.shared) = none ∧ o.fallback = true ∧ o.unfreeze = false
      ∧ i = .of key !o.shared

/-- Nothing stands in the way of emptying the slot. -/
structure Permits (o : UnsetOptions) (caller : Caller) (n : Node) (i : Slot) : Prop where
  removable : ∀ p, n.slot? i = some p → o.force = true ∨ p.removable = true
  right : i = .shared → caller.authorized (caller.actingGroup o.group) = true
  owner : i = .shared → o.unfreeze = true → n.owner = some (caller.actingGroup o.group)

end UnsetOptions

namespace Store

variable {s s' : Store} {k : Kind} {caller : Caller} {key : ScopeKey} {n n' : Node} {i : Slot}

/-- The value in a slot at a path. -/
def slot? (s : Store) (p : Path) (i : Slot) : Option Parameter :=
  (s.at? p).bind fun n => n.slot? i

/-- The value of a scope at a path. -/
def inScope? (s : Store) (p : Path) (key : ScopeKey) : Option Parameter := s.slot? p (.scope key)

theorem slot?_getD (s : Store) (p : Path) (i : Slot) :
    ((s.at? p).getD (.fresh p)).slot? i = s.slot? p i := by
  unfold slot?
  cases s.at? p with
  | none => exact Node.slot?_fresh p i
  | some n => rfl

@[simp] theorem inScope?_empty (p : Path) (key : ScopeKey) : empty.inScope? p key = none := by
  simp [inScope?, slot?]

/-! ## One node -/

theorem slot?_setNode {o : SetOptions} {p stored : Parameter}
    (h : setNode k caller o p n = .ok (stored, n')) (hi : i ≠ .of caller.scope o.shared) :
    n'.slot? i = n.slot? i := by
  obtain ⟨ho, -, hset⟩ | ⟨ho, hset⟩ := setNode_cases h
  · obtain ⟨-, -, -, -, -, rfl⟩ := Node.setShared_eq_ok.1 hset
    cases i with
    | shared => exact absurd (by rw [ho]; rfl) hi
    | scope key => rfl
  · obtain ⟨-, -, rfl⟩ := Node.setLocal_eq_ok.1 hset
    cases i with
    | shared => rfl
    | scope key =>
      have hkey : caller.scope ≠ key := fun heq => hi (by rw [ho, heq]; rfl)
      exact (Table.find?_insert _ _ _ _).trans (if_neg hkey)

/-! ### What an unset empties -/

section Unset

variable {kind : Kind} {o : UnsetOptions} {removed : Option Parameter}

/-- The choice of the slot, told by what the slots hold. -/
theorem unsetsShared?_eq (n : Node) (key : ScopeKey) (o : UnsetOptions) :
    unsetsShared? n key o =
      if (n.slot? (.of key o.shared)).isSome then some o.shared
      else if o.shared && o.unfreeze && n.isFrozen then some true
      else if o.fallback && (n.slot? (.of key !o.shared)).isSome && !o.unfreeze then
        some !o.shared
      else none := by
  unfold unsetsShared?
  cases o.shared <;> rfl

/-- An unset goes for a slot that it may empty and that holds a value, or for
the shared slot of a frozen node that it is to release. -/
theorem unsetsShared?_eq_some {shared : Bool} :
    unsetsShared? n key o = some shared ↔
      o.Picks key n (.of key shared) ∧
        ((n.slot? (.of key shared)).isSome = true ∨
          (shared = true ∧ o.shared = true ∧ o.unfreeze = true ∧ n.isFrozen = true)) := by
  -- one case for each branch of the choice, which excludes those before it
  rw [unsetsShared?_eq]
  split
  · next hheld =>
    rw [Option.some_inj]
    constructor
    · rintro rfl
      exact ⟨.inl rfl, .inl hheld⟩
    · rintro ⟨hpick | ⟨hnone, -⟩, -⟩
      · exact (Slot.of_inj.1 hpick).symm
      · rw [hnone] at hheld
        cases hheld
  next hempty =>
  split
  · next hrelease =>
    simp only [Bool.and_eq_true] at hrelease
    obtain ⟨⟨hshared, hunfreeze⟩, hfrozen⟩ := hrelease
    rw [Option.some_inj]
    constructor
    · rintro rfl
      exact ⟨.inl (by rw [hshared]), .inr ⟨rfl, hshared, hunfreeze, hfrozen⟩⟩
    · rintro ⟨hpick | ⟨-, -, hf, -⟩, -⟩
      · exact hshared.symm.trans (Slot.of_inj.1 hpick).symm
      · rw [hunfreeze] at hf
        cases hf
  next hkept =>
  split
  · next hother =>
    simp only [Bool.and_eq_true, Bool.not_eq_true'] at hother
    obtain ⟨⟨hfallback, hheld⟩, hunfreeze⟩ := hother
    rw [Option.some_inj]
    constructor
    · rintro rfl
      exact ⟨.inr ⟨by simpa using hempty, hfallback, hunfreeze, rfl⟩, .inl hheld⟩
    · rintro ⟨hpick | ⟨-, -, -, hpick⟩, hwhy⟩
      · rw [hpick] at hwhy
        rcases hwhy with hheld | ⟨-, -, hf, -⟩
        · exact absurd hheld hempty
        · rw [hunfreeze] at hf
          cases hf
      · exact (Slot.of_inj.1 hpick).symm
  · next hnone =>
    simp only [reduceCtorEq, false_iff]
    rintro ⟨hpick, hheld | ⟨-, hshared, hunfreeze, hfrozen⟩⟩
    · rcases hpick with hpick | ⟨-, hfallback, hunfreeze, hpick⟩
      · exact hempty (hpick ▸ hheld)
      · rw [hpick] at hheld
        exact hnone (by simp [hfallback, hheld, hunfreeze])
    · exact hkept (by simp [hshared, hunfreeze, hfrozen])

theorem emptyShared_permits :
    (caller.authorized (caller.actingGroup o.group) = true
      ∧ emptyShared (caller.actingGroup o.group) o.force o.unfreeze n = .ok (removed, n')) ↔
      o.Permits caller n .shared ∧ removed = n.shared ∧ n' = n.emptied o.unfreeze .shared := by
  rw [emptyShared_eq_ok]
  have hafter : (if o.unfreeze then Node.released { n with
        shared := none, owner := if n.isFrozen then n.owner else none }
      else { n with shared := none, owner := if n.isFrozen then n.owner else none })
      = n.emptied o.unfreeze .shared := by
    cases hu : o.unfreeze <;> simp [Node.emptied, Node.released]
  constructor
  · rintro ⟨hright, howner, emptied, hempty, rfl⟩
    obtain ⟨hremovable, rfl, rfl⟩ := Node.unsetShared_eq_ok.1 hempty
    exact ⟨⟨hremovable, fun _ => hright, fun _ => howner⟩, rfl, hafter⟩
  · rintro ⟨hpermits, rfl, rfl⟩
    exact ⟨hpermits.right rfl, hpermits.owner rfl, _,
      Node.unsetShared_eq_ok.2 ⟨hpermits.removable, rfl, rfl⟩, hafter.symm⟩

theorem unsetLocal_permits :
    n.unsetLocal caller.scope o.force = .ok (removed, n') ↔
      o.Permits caller n (.scope caller.scope) ∧ removed = n.slot? (.scope caller.scope)
        ∧ n' = n.emptied o.unfreeze (.scope caller.scope) := by
  rw [Node.unsetLocal_eq_ok]
  constructor
  · rintro ⟨hremovable, rfl, rfl⟩
    exact ⟨⟨hremovable, nofun, nofun⟩, rfl, rfl⟩
  · rintro ⟨hpermits, rfl, rfl⟩
    exact ⟨hpermits.removable, rfl, rfl⟩

/-- An unset of a node goes through if it finds a slot to empty and nothing
stands in its way. -/
theorem unsetNode_eq_ok :
    unsetNode kind caller o n = .ok (removed, n') ↔
      ∃ shared, unsetsShared? n caller.scope o = some shared
        ∧ o.Permits caller n (.of caller.scope shared)
        ∧ removed = n.slot? (.of caller.scope shared)
        ∧ n' = n.emptied o.unfreeze (.of caller.scope shared) := by
  unfold unsetNode
  cases unsetsShared? n caller.scope o with
  | none => simp
  | some shared =>
    simp only [Option.some_inj, exists_eq_left']
    cases shared with
    | false => exact unsetLocal_permits
    | true =>
      refine Iff.trans ?_ emptyShared_permits
      rw [← Caller.authorize_eq_ok (k := kind)]
      cases caller.authorize kind (caller.actingGroup o.group) <;> simp

end Unset

theorem slot?_unsetNode {o : UnsetOptions} {removed : Option Parameter}
    (h : unsetNode k caller o n = .ok (removed, n')) (hi : i ≠ .of caller.scope o.shared)
    (hother : o.fallback = true → i ≠ .of caller.scope !o.shared) : n'.slot? i = n.slot? i := by
  obtain ⟨shared, hslot, -, -, rfl⟩ := unsetNode_eq_ok.1 h
  rw [Node.slot?_emptied, if_neg]
  rintro rfl
  rcases (unsetsShared?_eq_some.1 hslot).1 with hpick | ⟨-, hfallback, -, hpick⟩
  · exact hi hpick
  · exact hother hfallback hpick

/-! ## One request -/

/-- Whether a request may write to a slot. -/
def Request.Reaches (caller : Caller) (i : Slot) : Request → Prop
  | .set _ _ o => i = .of caller.scope o.shared
  | .unset _ o => i = .of caller.scope o.shared ∨ o.fallback = true ∧ i = .of caller.scope !o.shared
  | .flush => i = .scope caller.scope
  | _ => False

/-- After one node was put in the place of another, a slot in which both
hold the same finds what it found before. -/
theorem slot?_of_change {p : Path} {m : Option Node}
    (hat : ∀ q, s'.at? q = if p = q then m else s.at? q)
    (hm : (m.bind fun n => n.slot? i) = s.slot? p i) (q : Path) :
    s'.slot? q i = s.slot? q i := by
  unfold slot? at hm ⊢
  rw [hat]
  split
  · next hq => exact hq ▸ hm
  · rfl

/-- A flush empties the slots of its scope. -/
theorem slot?_flush (h : s.Consistent) (key : ScopeKey) (i : Slot) (q : Path) :
    (s.flush key).2.slot? q i = if i = .scope key then none else s.slot? q i := by
  unfold slot?
  rw [(yields_flush h key).at?_eq]
  cases s.at? q with
  | none => simp
  | some n =>
    rw [Option.bind_some, Node.slot?_kept, Option.bind_some]
    cases i with
    | shared => rfl
    | scope key' =>
      refine (inScope?_withoutScope key key' n).trans ?_
      simp only [Slot.scope.injEq, eq_comm (a := key)]
      rfl

theorem slot?_clearFrozen (h : s.Consistent) (g : Group) (i : Slot) (q : Path) :
    (s.clearFrozen g).2.slot? q i = s.slot? q i := by
  unfold slot?
  rw [(yields_clearFrozen h g).2.at?_eq]
  cases s.at? q with
  | none => rfl
  | some n =>
    rw [Option.bind_some, Node.slot?_kept, Option.bind_some]
    unfold releasedFor
    split <;> cases i <;> rfl

/-- Whatever a caller asks for, the slots that it does not reach stay. -/
theorem slot?_serve (h : s.Consistent) {r : Request} (hi : ¬ r.Reaches caller i) (q : Path) :
    (s.serve k caller r).2.slot? q i = s.slot? q i := by
  cases r with
  | set text input o =>
    change (s.set k caller text input o).2.slot? q i = _
    obtain ⟨e, -, heq⟩ | ⟨p, stored, n', hplan, -, hy⟩ := set_cases k caller h text input o
    · rw [heq]
    · obtain ⟨_, -, -, -, hnode⟩ := planSet_eq_ok.1 hplan
      refine slot?_of_change hy.at?_eq ?_ q
      rw [Option.bind_some, slot?_setNode hnode hi, slot?_getD]
  | unset text o =>
    change (s.unset k caller text o).2.slot? q i = _
    obtain ⟨e, -, heq⟩ | ⟨p, removed, n', hplan, -, hy⟩ := unset_cases k caller h text o
    · rw [heq]
    · obtain ⟨-, -, n, hn, hnode⟩ := (planUnset_eq_ok h.toTraced).1 hplan
      refine slot?_of_change hy.at?_eq ?_ q
      rw [Node.slot?_kept, slot?_unsetNode hnode (fun heq => hi (.inl heq))
        (fun hf heq => hi (.inr ⟨hf, heq⟩)), slot?, hn, Option.bind_some]
  | flush => exact (slot?_flush h caller.scope i q).trans (if_neg hi)
  | clearFrozen g => exact slot?_clearFrozen h g i q
  | get | has | dictionary | owner | isFrozen | groupPaths | scopePaths | hasScope | groupNames
  | paths | size => rfl

theorem Request.not_reaches_scope (r : Request) (hkey : key ≠ caller.scope) :
    ¬ r.Reaches caller (.scope key) := by
  cases r with
  | set text input o => exact Slot.scope_ne_of hkey o.shared
  | unset text o =>
    exact fun h => h.elim (Slot.scope_ne_of hkey _) fun h => Slot.scope_ne_of hkey _ h.2
  | flush => exact fun h => hkey (Slot.scope.inj h)
  | clearFrozen | get | has | dictionary | owner | isFrozen | groupPaths | scopePaths | hasScope
  | groupNames | paths | size => exact id

/-- The values of other scopes stay. -/
theorem inScope?_serve (h : s.Consistent) (r : Request) (hkey : key ≠ caller.scope) (q : Path) :
    (s.serve k caller r).2.inScope? q key = s.inScope? q key :=
  slot?_serve h (r.not_reaches_scope hkey) q

/-! ## Many requests -/

theorem slot?_run (h : s.Consistent) {calls : List (Caller × Request)}
    (hi : ∀ c ∈ calls, ¬ c.2.Reaches c.1 i) (q : Path) :
    (run k s calls).slot? q i = s.slot? q i := by
  induction calls generalizing s with
  | nil => rfl
  | cons c calls ih =>
    rw [List.forall_mem_cons] at hi
    exact (ih (consistent_serve h k c.1 c.2).1 hi.2).trans (slot?_serve h hi.1 q)

end Store

end ParamStore
