import ParamStore.Proofs.Store.Resolution
import ParamStore.Proofs.Store.Sound

/-!
# Reading back what was set

A set that goes through fills one slot of the node at its path, with what was
handed over in the shape of that slot (`slot?_setNode_self`). Whoever looks
there first then finds it, by any text for the path: a path that is written
out is taken as such, whatever other keys its tokens abbreviate
(`get_of_at?`). Everything else is as before (`set_read_back`).
-/

namespace ParamStore

namespace Input

def value : Input → Json.Value
  | bare v => v
  | made p => p.value

/-- A bare value may be overwritten. -/
def readOnly : Input → Bool
  | bare _ => false
  | made p => p.readOnly

/-- A bare value may be taken away. -/
def removable : Input → Bool
  | bare _ => true
  | made p => p.removable

end Input

namespace Parameter

/-- The parameter is of kind `k` and says what was handed over. -/
structure Carries (p : Parameter) (k : Kind) (input : Input) : Prop where
  kind_eq : p.kind = k
  value_eq : p.value = input.value
  readOnly_eq : p.readOnly = input.readOnly
  removable_eq : p.removable = input.removable

variable {p : Parameter} {k : Kind} {input : Input}

theorem Carries.of_coerce (h : k.coerce input = .ok p) : p.Carries k input := by
  cases input with
  | bare v =>
    obtain rfl := Kind.coerce_bare h
    exact ⟨rfl, rfl, rfl, rfl⟩
  | made q =>
    unfold Kind.coerce at h
    dsimp only at h
    split at h
    · next hk =>
      obtain ⟨-, -, hq⟩ := bind_eq_ok.1 h
      cases hq
      exact ⟨hk, rfl, rfl, rfl⟩
    · cases h

/-- The shape of a scope says the same. -/
theorem Carries.toScope (h : p.Carries k input) : p.toScope.Carries k input := by
  obtain ⟨k', v, s⟩ := p
  cases s <;> exact ⟨h.kind_eq, h.value_eq, h.readOnly_eq, h.removable_eq⟩

/-- The shape of the shared slot says the same, whatever it is pinned to. -/
theorem Carries.pinned (h : p.Carries k input) (n : Node) : (n.pinned p).Carries k input := by
  obtain ⟨k', v, s⟩ := p
  cases s <;> exact ⟨h.kind_eq, h.value_eq, h.readOnly_eq, h.removable_eq⟩

end Parameter

namespace Store

variable {s s' : Store} {kind : Kind} {caller : Caller} {o : SetOptions} {n n' : Node}
  {p stored : Parameter} {path : Path}

/-! ## The node that a set writes to -/

/-- What a set stores is in the slot that it writes to, in the shape of that
slot. -/
theorem slot?_setNode_self (h : setNode kind caller o p n = .ok (stored, n')) :
    n'.slot? (.of caller.scope o.shared) = some stored ∧ stored.isShared = o.shared := by
  obtain ⟨ho, -, hset⟩ | ⟨ho, hset⟩ := setNode_cases h
  · obtain ⟨-, -, -, -, rfl, rfl⟩ := Node.setShared_eq_ok.1 hset
    rw [ho]
    exact ⟨rfl, by simp [Node.pinned]⟩
  · obtain ⟨-, rfl, rfl⟩ := Node.setLocal_eq_ok.1 hset
    rw [ho]
    exact ⟨(Table.find?_insert _ _ _ _).trans (if_pos rfl), Parameter.isShared_toScope p⟩

theorem carries_setNode {k : Kind} {input : Input} (hp : p.Carries k input)
    (h : setNode kind caller o p n = .ok (stored, n')) : stored.Carries k input := by
  obtain ⟨-, -, hset⟩ | ⟨-, hset⟩ := setNode_cases h
  · obtain ⟨-, -, -, -, rfl, -⟩ := Node.setShared_eq_ok.1 hset
    exact hp.pinned n
  · obtain ⟨-, rfl, -⟩ := Node.setLocal_eq_ok.1 hset
    exact hp.toScope

/-- Only a set of the shared slot gives the node an owner, and only one that
freezes gives it a pin. -/
theorem owner_setNode (ho : o.shared = false)
    (h : setNode kind caller o p n = .ok (stored, n')) : n'.owner = n.owner := by
  rw [setNode_scope ho] at h
  obtain ⟨-, -, rfl⟩ := Node.setLocal_eq_ok.1 h
  rfl

theorem pin_setNode (ho : o.freeze = false)
    (h : setNode kind caller o p n = .ok (stored, n')) : n'.pin = n.pin := by
  obtain ⟨-, -, hset⟩ | ⟨-, hset⟩ := setNode_cases h
  · obtain ⟨-, -, -, -, -, rfl⟩ := Node.setShared_eq_ok.1 hset
    exact if_neg (by simp [ho])
  · obtain ⟨-, -, rfl⟩ := Node.setLocal_eq_ok.1 hset
    rfl

/-! ## The store afterwards -/

/-- What a set at a path leaves of a store: every other node, every other slot
of the node at the path, and its owner and its pin unless the set is to give
it these. -/
structure SetsOnly (s s' : Store) (caller : Caller) (o : SetOptions) (path : Path) : Prop where
  nodes : ∀ q, q ≠ path → s'.at? q = s.at? q
  slots : ∀ q i, q ≠ path ∨ i ≠ .of caller.scope o.shared → s'.slot? q i = s.slot? q i
  owner : o.shared = false → (s'.at? path).bind Node.owner = (s.at? path).bind Node.owner
  pin : o.freeze = false → (s'.at? path).bind Node.pin = (s.at? path).bind Node.pin

theorem setsOnly_of_yields
    (hnode : setNode kind caller o p ((s.at? path).getD (.fresh path)) = .ok (stored, n'))
    (hy : s.Yields s' fun q => if path = q then some n' else s.at? q) :
    s.SetsOnly s' caller o path := by
  have hself : s'.at? path = some n' := by rw [hy.at?_eq, if_pos rfl]
  have hother (q : Path) (hq : q ≠ path) : s'.at? q = s.at? q := by
    rw [hy.at?_eq, if_neg (Ne.symm hq)]
  have hslot (i : Slot) (hi : i ≠ .of caller.scope o.shared) :
      s'.slot? path i = s.slot? path i := by
    rw [← s.slot?_getD, slot?, hself, Option.bind_some, slot?_setNode hnode hi]
  refine ⟨hother, fun q i hqi => ?_, fun ho => ?_, fun ho => ?_⟩
  · by_cases hq : q = path
    · subst hq
      exact hslot i (hqi.resolve_left fun hne => hne rfl)
    · unfold slot?
      rw [hother q hq]
  · rw [hself, Option.bind_some, owner_setNode ho hnode]
    cases s.at? path <;> rfl
  · rw [hself, Option.bind_some, pin_setNode ho hnode]
    cases s.at? path <;> rfl

/-- What is set is read back. Whatever was asked of a store before: a set that
goes through stores what was handed over in the shape of its slot, every
reader that looks into that slot first finds exactly this by any text for the
same path, abbreviations allowed or not, and nothing else has changed. -/
theorem set_read_back (calls : List (Caller × Request)) {text : String} {input : Input}
    (hset : (run kind .empty calls).set kind caller text input o = (.ok stored, s')) :
    stored.Carries kind input ∧ stored.isShared = o.shared
      ∧ ∃ path, readPath text = .ok path
        ∧ (∀ (reader : Caller) (text' : String) (lo : LookupOptions),
            readPath text' = .ok path →
            Slot.of reader.scope lo.shared = .of caller.scope o.shared →
            s'.get reader text' lo = .ok (some stored))
        ∧ (run kind .empty calls).SetsOnly s' caller o path := by
  have h := (consistent_run .empty kind calls).1
  obtain ⟨p, path, n', hp, -, hpath, hnode, hy⟩ := set_eq_ok h hset
  obtain ⟨hslot, hshape⟩ := slot?_setNode_self hnode
  have hself : s'.at? path = some n' := by rw [hy.at?_eq, if_pos rfl]
  refine ⟨carries_setNode (.of_coerce hp) hnode, hshape, path, hpath,
    fun reader text' lo htext hlo => ?_, setsOnly_of_yields hnode hy⟩
  rw [get_of_at? s' reader htext (by rw [hself]; rfl), seen?_eq, slot?, hself, Option.bind_some,
    hlo, hslot, Option.some_or]

/-- A caller that may share values for its group. -/
def themer : Caller := ⟨⟨0, 0⟩, "addon.theme", fun g => g == "addon.theme"⟩

/-- The theme has frozen a prompt and taken it away again; another thread has
values below it and at a longer name. -/
def prompted : Store :=
  run .var .empty
    [sets 1 "prompt.left" ">", sets 1 "prompter" "yes",
      (themer, .set "prompt" (.bare (.text "$")) { shared := true, freeze := true }),
      (themer, .unset "prompt" { shared := true, force := true })]

/-- A value in the shape of a scope that is to stay as it is. -/
def lasting : Parameter := ⟨.var, .text "%", .inScope ⟨true, false⟩⟩

/-- The same on the node that is still frozen for the value before it. -/
def lastingShared : Parameter :=
  ⟨.var, .text "%", .shared ⟨true, false, false, some (Parameter.plain .var (.text "$")).identity⟩⟩

theorem set_read_back_lasting :
    ∃ s', prompted.set .var themer " prompt . " (.made lasting) { shared := true }
        = (.ok lastingShared, s')
      ∧ lastingShared.Carries .var (.made lasting)
      ∧ (∀ exact, s'.get (guest 1) "prompt" { exact, shared := true } = .ok (some lastingShared))
      ∧ ∃ path, readPath "prompt" = .ok path
        ∧ prompted.SetsOnly s' themer { shared := true } path := by
  have hset : prompted.set .var themer " prompt . " (.made lasting) { shared := true }
      = (.ok lastingShared, _) := Prod.ext (by decide +kernel) rfl
  obtain ⟨hcarries, -, path, hpath, hget, honly⟩ := set_read_back _ hset
  have htext : readPath "prompt" = .ok path := by
    rw [← hpath]
    decide +kernel
  exact ⟨_, hset, hcarries, fun exact => hget (guest 1) "prompt" _ htext rfl, path, htext, honly⟩

end Store

end ParamStore
