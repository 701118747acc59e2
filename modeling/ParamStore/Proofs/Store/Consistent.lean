import ParamStore.Proofs.Node
import ParamStore.Proofs.Trie
import ParamStore.Store.Basic

/-!
# Consistent stores

A store keeps the same facts several times over: the nodes, the trie that
leads to them and the two indices. `Consistent` says that they agree, that
no node is kept without need, and that identifiers are given out upwards.

Operations change one node at a time, so there are two ways to show that
they keep a store consistent: `Consistent.change`, for a step that leaves
the indices in order, and `Traced.update`, `Traced.attach` and
`Traced.prune` below it, which are about the nodes and the trie alone and
hold in the middle of a walk as well.

`at?` is what a store is to its callers: the node at each path, whatever
its identifier.
-/

namespace ParamStore

theorem Path.eq_of_tokens {p q : Path} (h : p.tokens = q.tokens) : p = q := by
  obtain ⟨ts, _, _⟩ := p
  obtain ⟨us, _, _⟩ := q
  cases h
  rfl

theorem Table.mem_keys {κ α : Type} [LT κ] [DecidableEq κ] [StrictOrder κ] {t : Table κ α}
    {k : κ} : k ∈ t.keys ↔ t.contains k = true := by
  rw [contains, Option.isSome_iff_exists]
  simp only [find?_eq_some_iff, keys, List.mem_map, Prod.exists, exists_and_right,
    exists_eq_right]

namespace Index

variable {κ : Type} [LT κ] [DecidableEq κ]

/-- No key stands without an identifier under it. -/
def Filled (ix : Index κ) : Prop := ∀ k s, ix.find? k = some s → s.isEmpty = false

theorem Filled.empty : Filled (∅ : Index κ) := fun k s h => by cases h

theorem Filled.erase {ix : Index κ} (h : ix.Filled) (k : κ) : Filled (Table.erase ix k) := by
  intro k' s hs
  rw [Table.find?_erase] at hs
  split at hs
  · cases hs
  · exact h k' s hs

/-- The keys of the index are those with an identifier under them. -/
theorem Filled.contains_iff {ix : Index κ} (h : ix.Filled) {k : κ} :
    Table.contains ix k = true ↔ ∃ id, ix.holds k id = true := by
  unfold Table.contains holds
  cases hk : Table.find? ix k with
  | none => simp
  | some ids =>
    have hfilled := h k ids hk
    rw [← Bool.not_eq_true, Table.isEmpty_iff, Classical.not_forall] at hfilled
    obtain ⟨id, hid⟩ := hfilled
    simp only [Option.isSome_some, Option.any_some, true_iff]
    exact ⟨id, Option.isSome_iff_ne_none.2 hid⟩

theorem holds_erase (ix : Index κ) (k k' : κ) (id : NodeId) :
    holds (Table.erase ix k) k' id = true ↔ k ≠ k' ∧ holds ix k' id = true := by
  unfold holds
  rw [Table.find?_erase]
  by_cases hk : k = k' <;> simp [hk]

theorem mem_ids {ix : Index κ} {k : κ} {id : NodeId} :
    id ∈ ix.ids k ↔ ix.holds k id = true := by
  unfold ids holds
  cases ix.find? k with
  | none => simp
  | some s => exact Table.mem_keys

/-- The index lists `id` under the keys of `P`, and every other identifier as
`ix` does. -/
def Revises (ix' ix : Index κ) (id : NodeId) (P : κ → Prop) : Prop :=
  ∀ k id', ix'.holds k id' = true ↔ if id = id' then P k else ix.holds k id' = true

section Revises

variable {ix ix' : Index κ} {id : NodeId} {P Q : κ → Prop}

theorem Revises.refl (h : ∀ k, ix.holds k id = true ↔ P k) : ix.Revises ix id P := by
  intro k id'
  by_cases hid : id = id'
  · subst hid
    rw [if_pos rfl, h]
  · rw [if_neg hid]

theorem Revises.congr (h : ix'.Revises ix id P) (hq : ∀ k, P k ↔ Q k) :
    ix'.Revises ix id Q := by
  intro k id'
  rw [h k id', hq k]

variable [DecidableLT κ] [StrictOrder κ]

theorem Revises.add (h : ix'.Revises ix id P) (k : κ) (hq : ∀ k', Q k' ↔ k = k' ∨ P k') :
    (ix'.add k id).Revises ix id Q := by
  intro k' id'
  rw [mem_add, h k' id']
  by_cases hid : id = id' <;> simp [hid, hq]

theorem Revises.drop (h : ix'.Revises ix id P) (k : κ) (hq : ∀ k', Q k' ↔ k ≠ k' ∧ P k') :
    (ix'.drop k id).Revises ix id Q := by
  intro k' id'
  rw [mem_drop, h k' id']
  by_cases hid : id = id' <;> simp [hid, hq]

end Revises

variable [DecidableLT κ] [StrictOrder κ]

theorem Filled.add {ix : Index κ} (h : ix.Filled) (k : κ) (id : NodeId) :
    (ix.add k id).Filled := by
  intro k' s hs
  unfold Index.add at hs
  rw [Table.find?_insert] at hs
  split at hs
  · have hfind : s.find? id = some () := by
      rw [← Option.some.inj hs, Table.find?_insert, if_pos rfl]
    by_cases he : s.isEmpty = true
    · simp [Table.isEmpty_iff.1 he id] at hfind
    · simpa using he
  · exact h k' s hs

theorem Filled.drop {ix : Index κ} (h : ix.Filled) (k : κ) (id : NodeId) :
    (ix.drop k id).Filled := by
  unfold Index.drop
  cases hk : ix.find? k with
  | none => exact h
  | some s =>
    by_cases he : (s.erase id).isEmpty = true
    · simp only [he, if_true]
      exact h.erase k
    · simp only [he, Bool.false_eq_true, if_false]
      intro k' s' hs'
      rw [Table.find?_insert] at hs'
      split at hs'
      · cases hs'
        simpa using he
      · exact h k' s' hs'

end Index

namespace Store

/-! ## The node at a path -/

/-- The node at a path. -/
def at? (s : Store) (p : Path) : Option Node := (s.node? p.tokens).map (·.2)

@[simp] theorem at?_empty (p : Path) : empty.at? p = none := by
  simp [at?, node?, empty]

/-! ## The trie and the nodes -/

/-- The trie leads to exactly the nodes, to each by its own path, and new
identifiers have not been used before. -/
structure Traced (s : Store) : Prop where
  proper : s.trie.Proper
  leads : ∀ ts id, s.trie.get? ts = some id ↔
    ∃ n, s.nodes.find? id = some n ∧ n.path.tokens = ts
  fresh : ∀ id n, s.nodes.find? id = some n → id < s.nextId

namespace Traced

variable {s s' : Store}

theorem empty : Traced empty where
  proper := .empty
  leads := fun ts id => by
    constructor
    · intro h
      simp [Store.empty] at h
    · rintro ⟨n, h, -⟩
      cases h
  fresh := fun id n h => by cases h

/-- The indices are of no concern to the trie. -/
theorem reindex (h : s.Traced) (sc : Index ScopeKey) (gr : Index Group) :
    Traced { s with scopes := sc, groups := gr } := ⟨h.proper, h.leads, h.fresh⟩

theorem node?_eq_some (h : s.Traced) {ts : List String} {id : NodeId} {n : Node} :
    s.node? ts = some (id, n) ↔ s.nodes.find? id = some n ∧ n.path.tokens = ts := by
  simp only [node?, Option.bind_eq_some_iff, Option.map_eq_some_iff, Prod.mk.injEq]
  constructor
  · rintro ⟨id', hid', n', hn', rfl, rfl⟩
    obtain ⟨n₀, hn₀, hts⟩ := (h.leads ts id').1 hid'
    cases hn'.symm.trans hn₀
    exact ⟨hn', hts⟩
  · rintro ⟨hn, hts⟩
    exact ⟨id, (h.leads ts id).2 ⟨n, hn, hts⟩, n, hn, rfl, rfl⟩

theorem at?_eq_some (h : s.Traced) {p : Path} {n : Node} :
    s.at? p = some n ↔ ∃ id, s.nodes.find? id = some n ∧ n.path = p := by
  simp only [at?, Option.map_eq_some_iff, Prod.exists, h.node?_eq_some]
  constructor
  · rintro ⟨id, n', ⟨hn', hts⟩, rfl⟩
    exact ⟨id, hn', Path.eq_of_tokens hts⟩
  · rintro ⟨id, hn, rfl⟩
    exact ⟨id, n, ⟨hn, rfl⟩, rfl⟩

theorem path_at? (h : s.Traced) {p : Path} {n : Node} (hn : s.at? p = some n) : n.path = p := by
  obtain ⟨_, _, hp⟩ := h.at?_eq_some.1 hn
  exact hp

/-- Two nodes have different paths. -/
theorem id_unique (h : s.Traced) {id id' : NodeId} {n n' : Node} (hn : s.nodes.find? id = some n)
    (hn' : s.nodes.find? id' = some n') (hp : n.path = n'.path) : id = id' := by
  have hid := (h.leads n'.path.tokens id).2 ⟨n, hn, by rw [hp]⟩
  have hid' := (h.leads n'.path.tokens id').2 ⟨n', hn', rfl⟩
  exact Option.some.inj (hid.symm.trans hid')

theorem update (h : s.Traced) {id : NodeId} {n n' : Node} (hn : s.nodes.find? id = some n)
    (hp : n'.path = n.path) : (s.update id n').Traced where
  proper := h.proper
  leads := fun ts id' => by
    refine (h.leads ts id').trans ?_
    simp only [Store.update, Table.find?_insert]
    by_cases hid : id = id'
    · subst hid
      simp [hn, hp]
    · simp [hid]
  fresh := fun id' m hm => by
    rw [Store.update, Table.find?_insert] at hm
    split at hm
    · next hid => exact hid ▸ h.fresh id n hn
    · exact h.fresh id' m hm

theorem attach (h : s.Traced) {n : Node} (hn : s.node? n.path.tokens = none) :
    (s.attach n).Traced where
  proper := h.proper.insert _ _
  leads := fun ts id => by
    simp only [Store.attach, Trie.get?_insert, Table.find?_insert]
    by_cases hts : n.path.tokens = ts
    · -- no other node is at the path of the new one
      subst hts
      rw [if_pos rfl]
      constructor
      · rintro hid
        cases hid
        exact ⟨n, by simp, rfl⟩
      · rintro ⟨m, hm, hmp⟩
        split at hm
        · next hid => rw [hid]
        · have := h.node?_eq_some.2 ⟨hm, hmp⟩
          rw [hn] at this
          cases this
    · rw [if_neg hts, h.leads]
      constructor
      · rintro ⟨m, hm, hmp⟩
        have hlt := h.fresh id m hm
        exact ⟨m, by rw [if_neg (Nat.ne_of_gt hlt)]; exact hm, hmp⟩
      · rintro ⟨m, hm, hmp⟩
        split at hm
        · cases hm
          exact absurd hmp hts
        · exact ⟨m, hm, hmp⟩
  fresh := fun id m hm => by
    simp only [Store.attach, Table.find?_insert] at hm ⊢
    split at hm
    · next hid => exact hid ▸ Nat.lt_succ_self _
    · exact Nat.lt_succ_of_lt (h.fresh id m hm)

end Traced

/-! ## Pruning -/

theorem prune_of_none {s : Store} {id : NodeId} (h : s.nodes.find? id = none) :
    s.prune id = s := by
  simp [prune, h]

theorem prune_of_kept {s : Store} {id : NodeId} {n : Node} (hn : s.nodes.find? id = some n)
    (hr : n.isRemovable = false) : s.prune id = s := by
  simp [prune, hn, hr]

theorem prune_of_removable {s : Store} {id : NodeId} {n : Node}
    (hn : s.nodes.find? id = some n) (hr : n.isRemovable = true) :
    s.prune id = { s with
      trie := (Trie.remove n.path.tokens s.trie).2
      nodes := s.nodes.erase id } := by
  simp [prune, hn, hr]

/-- Pruning changes nothing or takes one removable node out of the trie and
the nodes. -/
theorem prune_cases (s : Store) (id : NodeId) :
    (s.prune id = s ∧ ∀ n, s.nodes.find? id = some n → n.isRemovable = false) ∨
      ∃ n, s.nodes.find? id = some n ∧ n.isRemovable = true ∧
        s.prune id = { s with
          trie := (Trie.remove n.path.tokens s.trie).2
          nodes := s.nodes.erase id } := by
  cases hn : s.nodes.find? id with
  | none => exact .inl ⟨prune_of_none hn, by simp⟩
  | some n =>
    cases hr : n.isRemovable with
    | false => exact .inl ⟨prune_of_kept hn hr, fun m hm => Option.some.inj hm ▸ hr⟩
    | true => exact .inr ⟨n, rfl, hr, prune_of_removable hn hr⟩

@[simp] theorem scopes_prune (s : Store) (id : NodeId) : (s.prune id).scopes = s.scopes := by
  obtain ⟨h, -⟩ | ⟨n, -, -, h⟩ := s.prune_cases id <;> rw [h]

@[simp] theorem groups_prune (s : Store) (id : NodeId) : (s.prune id).groups = s.groups := by
  obtain ⟨h, -⟩ | ⟨n, -, -, h⟩ := s.prune_cases id <;> rw [h]

@[simp] theorem nextId_prune (s : Store) (id : NodeId) : (s.prune id).nextId = s.nextId := by
  obtain ⟨h, -⟩ | ⟨n, -, -, h⟩ := s.prune_cases id <;> rw [h]

theorem nodes_prune (s : Store) (id id' : NodeId) :
    (s.prune id).nodes.find? id' =
      if id = id' then (s.nodes.find? id').bind Node.kept else s.nodes.find? id' := by
  obtain ⟨h, hk⟩ | ⟨n, hn, hr, h⟩ := s.prune_cases id
  · rw [h]
    by_cases hid : id = id'
    · subst hid
      cases hn : s.nodes.find? id with
      | none => simp
      | some n => simp [Node.kept_of_not_removable (hk n hn)]
    · rw [if_neg hid]
  · rw [h, Table.find?_erase]
    by_cases hid : id = id'
    · subst hid
      simp [hn, Node.kept, hr]
    · rw [if_neg hid, if_neg hid]

theorem Traced.prune {s : Store} (h : s.Traced) (id : NodeId) : (s.prune id).Traced := by
  obtain ⟨heq, -⟩ | ⟨n, hn, hr, heq⟩ := s.prune_cases id
  · rw [heq]
    exact h
  rw [heq]
  refine ⟨h.proper.remove _, fun ts id' => ?_, fun id' m hm => ?_⟩
  · simp only [Trie.get?_remove, Table.find?_erase]
    by_cases hts : n.path.tokens = ts
    · -- the node that goes was the only one at its path
      subst hts
      rw [if_pos rfl]
      constructor
      · rintro ⟨⟩
      · rintro ⟨m, hm, hmp⟩
        split at hm
        · cases hm
        · next hid => exact absurd (h.id_unique hn hm (Path.eq_of_tokens hmp.symm)) hid
    · rw [if_neg hts, h.leads]
      constructor
      · rintro ⟨m, hm, hmp⟩
        have hid : id ≠ id' := by
          rintro rfl
          cases hn.symm.trans hm
          exact hts hmp
        exact ⟨m, by rw [if_neg hid]; exact hm, hmp⟩
      · rintro ⟨m, hm, hmp⟩
        split at hm
        · cases hm
        · exact ⟨m, hm, hmp⟩
  · rw [Table.find?_erase] at hm
    split at hm
    · cases hm
    · exact h.fresh id' m hm

/-! ## Consistency -/

/-- The nodes, the trie and the indices agree, and nothing is kept without
need. -/
structure Consistent (s : Store) : Prop extends s.Traced where
  owned : ∀ id n, s.nodes.find? id = some n → n.Owned
  kept : ∀ id n, s.nodes.find? id = some n → n.isRemovable = false
  scopes_iff : ∀ key id, s.scopes.holds key id = true ↔
    ∃ n, s.nodes.find? id = some n ∧ (n.inScope? key).isSome = true
  groups_iff : ∀ g id, s.groups.holds g id = true ↔
    ∃ n, s.nodes.find? id = some n ∧ n.owner = some g
  scopes_filled : s.scopes.Filled
  groups_filled : s.groups.Filled

theorem Consistent.empty : Consistent empty where
  toTraced := .empty
  owned := fun id n h => by cases h
  kept := fun id n h => by cases h
  scopes_iff := fun key id => by
    constructor
    · rintro ⟨⟩
    · rintro ⟨n, h, -⟩
      cases h
  groups_iff := fun g id => by
    constructor
    · rintro ⟨⟩
    · rintro ⟨n, h, -⟩
      cases h
  scopes_filled := .empty
  groups_filled := .empty

/-- The indices list the node `n` at `id`, and every other identifier as those
of `s` do. -/
structure Relists (s : Store) (id : NodeId) (n : Node) (sc : Index ScopeKey)
    (gr : Index Group) : Prop where
  scopes : sc.Revises s.scopes id fun key => (n.inScope? key).isSome = true
  groups : gr.Revises s.groups id fun g => n.owner = some g
  scopes_filled : sc.Filled
  groups_filled : gr.Filled

theorem Consistent.lists {s : Store} (h : s.Consistent) {id : NodeId} {n : Node}
    (hn : s.nodes.find? id = some n) : s.Relists id n s.scopes s.groups where
  scopes := .refl fun key => by
    rw [h.scopes_iff]
    simp [hn]
  groups := .refl fun g => by
    rw [h.groups_iff]
    simp [hn]
  scopes_filled := h.scopes_filled
  groups_filled := h.groups_filled

/-- An identifier that was given out in `s` and still has a node in `s'`
had one in `s` already, and at the same path. -/
structure Precedes (s s' : Store) : Prop where
  nextId_le : s.nextId ≤ s'.nextId
  same_path : ∀ id n, id < s.nextId → s'.nodes.find? id = some n →
    ∃ m, s.nodes.find? id = some m ∧ m.path = n.path

theorem Precedes.refl (s : Store) : s.Precedes s := ⟨Nat.le_refl _, fun _ n _ h => ⟨n, h, rfl⟩⟩

theorem Precedes.trans {s₁ s₂ s₃ : Store} (h₁ : s₁.Precedes s₂) (h₂ : s₂.Precedes s₃) :
    s₁.Precedes s₃ := by
  refine ⟨Nat.le_trans h₁.nextId_le h₂.nextId_le, fun id n hid hn => ?_⟩
  obtain ⟨m, hm, hmp⟩ := h₂.same_path id n (Nat.lt_of_lt_of_le hid h₁.nextId_le) hn
  obtain ⟨l, hl, hlp⟩ := h₁.same_path id m hid hm
  exact ⟨l, hl, hlp.trans hmp⟩

/-- What an operation makes of `s`: a consistent store that holds the nodes
of `view` and in which no identifier came back. -/
structure Yields (s s' : Store) (view : Path → Option Node) : Prop where
  consistent : s'.Consistent
  precedes : s.Precedes s'
  at?_eq : ∀ p, s'.at? p = view p

theorem Consistent.at?_kept {s : Store} (h : s.Consistent) {p : Path} {n : Node}
    (hn : s.at? p = some n) : n.isRemovable = false := by
  obtain ⟨id, hid, -⟩ := h.at?_eq_some.1 hn
  exact h.kept id n hid

theorem Consistent.at?_owned {s : Store} (h : s.Consistent) {p : Path} {n : Node}
    (hn : s.at? p = some n) : n.Owned := by
  obtain ⟨id, hid, -⟩ := h.at?_eq_some.1 hn
  exact h.owned id n hid

section Change

variable {s s' : Store} {id : NodeId} {p : Path}

/-- The nodes by path after a change at `id` alone, which is the identifier
of the node at `p` if there is one. -/
theorem at?_change (h : s.Traced) (h' : s'.Traced) {m : Option Node}
    (hp : ∀ n, m = some n → n.path = p)
    (hid : ∀ id' n, s.nodes.find? id' = some n → (n.path = p ↔ id = id'))
    (hnodes : ∀ id', s'.nodes.find? id' = if id = id' then m else s.nodes.find? id') (q : Path) :
    s'.at? q = if p = q then m else s.at? q := by
  refine Option.ext fun x => h'.at?_eq_some.trans ?_
  constructor
  · rintro ⟨id', hx, hxq⟩
    rw [hnodes] at hx
    split at hx
    · rw [if_pos ((hp x hx).symm.trans hxq)]
      exact hx
    · next hne =>
      rw [if_neg fun hpq => hne ((hid id' x hx).1 (hxq.trans hpq.symm))]
      exact h.at?_eq_some.2 ⟨id', hx, hxq⟩
  · intro hx
    split at hx
    · next hpq =>
      subst hpq
      exact ⟨id, by rw [hnodes, if_pos rfl]; exact hx, hp x hx⟩
    · next hpq =>
      obtain ⟨id', hx', hxq⟩ := h.at?_eq_some.1 hx
      have hne : id ≠ id' := fun he => hpq (((hid id' x hx').2 he).symm.trans hxq)
      exact ⟨id', by rw [hnodes, if_neg hne]; exact hx', hxq⟩

/-- A step that puts `n'` at `id`, or nothing where a store would not keep
`n'`, and brings both indices in line with it. -/
theorem Consistent.change (h : s.Consistent) (h' : s'.Traced) {n' : Node} (ho : n'.Owned)
    (hp : n'.path = p) (hle : s.nextId ≤ s'.nextId)
    (hnew : id < s.nextId → ∃ n, s.nodes.find? id = some n)
    (hid : ∀ id' n, s.nodes.find? id' = some n → (n.path = p ↔ id = id'))
    (hnodes : ∀ id', s'.nodes.find? id' = if id = id' then n'.kept else s.nodes.find? id')
    (hix : s.Relists id n' s'.scopes s'.groups) :
    s.Yields s' fun q => if p = q then n'.kept else s.at? q := by
  have hkept : ∀ n, n'.kept = some n → n'.isRemovable = false ∧ n = n' := fun n hn =>
    Node.kept_eq_some.1 hn
  refine ⟨⟨h', ?_, ?_, ?_, ?_, hix.scopes_filled, hix.groups_filled⟩, ⟨hle, ?_⟩, ?_⟩
  · intro id' n hn
    rw [hnodes] at hn
    split at hn
    · obtain ⟨-, rfl⟩ := hkept n hn
      exact ho
    · exact h.owned id' n hn
  · intro id' n hn
    rw [hnodes] at hn
    split at hn
    · obtain ⟨hr, rfl⟩ := hkept n hn
      exact hr
    · exact h.kept id' n hn
  · intro key id'
    rw [hix.scopes key id', hnodes]
    split
    · cases hr : n'.isRemovable with
      | false => simp [Node.kept, hr]
      | true => simp [Node.kept, hr, (Node.isRemovable_iff.1 hr).2.1 key]
    · exact h.scopes_iff key id'
  · intro g id'
    rw [hix.groups g id', hnodes]
    split
    · cases hr : n'.isRemovable with
      | false => simp [Node.kept, hr]
      | true => simp [Node.kept, hr, Node.owner_of_isRemovable ho hr]
    · exact h.groups_iff g id'
  · intro id' n hlt hn
    rw [hnodes] at hn
    split at hn
    · next heq =>
      subst heq
      obtain ⟨-, rfl⟩ := hkept n hn
      obtain ⟨m, hm⟩ := hnew hlt
      exact ⟨m, hm, ((hid id m hm).2 rfl).trans hp.symm⟩
    · exact ⟨n, hn, rfl⟩
  · refine at?_change h.toTraced h' (fun n hn => ?_) hid hnodes
    obtain ⟨-, rfl⟩ := hkept n hn
    exact hp

/-- A step that puts `g n` in the place of every node `n`, or nothing where
a store would not keep `g n`, and brings both indices in line with it. -/
theorem Consistent.change_all (h : s.Consistent) (h' : s'.Traced) {g : Node → Node}
    (hpath : ∀ n, (g n).path = n.path) (ho : ∀ n, n.Owned → (g n).Owned)
    (hnext : s'.nextId = s.nextId)
    (hnodes : ∀ id, s'.nodes.find? id = (s.nodes.find? id).bind fun n => (g n).kept)
    (hscopes : ∀ key id, s'.scopes.holds key id = true ↔
      ∃ n, s.nodes.find? id = some n ∧ ((g n).inScope? key).isSome = true)
    (hgroups : ∀ gr id, s'.groups.holds gr id = true ↔
      ∃ n, s.nodes.find? id = some n ∧ (g n).owner = some gr)
    (hsf : s'.scopes.Filled) (hgf : s'.groups.Filled) :
    s.Yields s' fun p => (s.at? p).bind fun n => (g n).kept := by
  have hsome : ∀ id m, s'.nodes.find? id = some m ↔
      ∃ n, s.nodes.find? id = some n ∧ (g n).isRemovable = false ∧ m = g n := by
    intro id m
    rw [hnodes, Option.bind_eq_some_iff]
    simp only [Node.kept_eq_some]
  refine ⟨⟨h', ?_, ?_, ?_, ?_, hsf, hgf⟩, ⟨Nat.le_of_eq hnext.symm, ?_⟩, ?_⟩
  · intro id m hm
    obtain ⟨n, hn, -, rfl⟩ := (hsome id m).1 hm
    exact ho n (h.owned id n hn)
  · intro id m hm
    obtain ⟨n, -, hr, rfl⟩ := (hsome id m).1 hm
    exact hr
  · intro key id
    rw [hscopes]
    constructor
    · rintro ⟨n, hn, hk⟩
      refine ⟨g n, (hsome id _).2 ⟨n, hn, ?_, rfl⟩, hk⟩
      cases hr : (g n).isRemovable with
      | false => rfl
      | true => simp [(Node.isRemovable_iff.1 hr).2.1 key] at hk
    · rintro ⟨m, hm, hk⟩
      obtain ⟨n, hn, -, rfl⟩ := (hsome id m).1 hm
      exact ⟨n, hn, hk⟩
  · intro gr id
    rw [hgroups]
    constructor
    · rintro ⟨n, hn, hk⟩
      refine ⟨g n, (hsome id _).2 ⟨n, hn, ?_, rfl⟩, hk⟩
      cases hr : (g n).isRemovable with
      | false => rfl
      | true => simp [Node.owner_of_isRemovable (ho n (h.owned id n hn)) hr] at hk
    · rintro ⟨m, hm, hk⟩
      obtain ⟨n, hn, -, rfl⟩ := (hsome id m).1 hm
      exact ⟨n, hn, hk⟩
  · intro id m _ hm
    obtain ⟨n, hn, -, rfl⟩ := (hsome id m).1 hm
    exact ⟨n, hn, (hpath n).symm⟩
  · intro p
    refine Option.ext fun m => h'.at?_eq_some.trans ?_
    simp only [Option.bind_eq_some_iff, Node.kept_eq_some, h.at?_eq_some, hsome]
    constructor
    · rintro ⟨id, ⟨n, hn, hr, rfl⟩, rfl⟩
      exact ⟨n, ⟨id, hn, (hpath n).symm⟩, hr, rfl⟩
    · rintro ⟨n, ⟨id, hn, rfl⟩, hr, rfl⟩
      exact ⟨id, ⟨n, hn, hr, rfl⟩, hpath n⟩

end Change

end Store

end ParamStore
