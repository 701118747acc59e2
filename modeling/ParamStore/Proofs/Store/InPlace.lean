import ParamStore.Proofs.Store.Request
import ParamStore.Proofs.Trie.Refinement

/-!
# Identifiers

The only trace that a node leaves behind is its identifier, which is not given
out again. A new identifier is needed for a node that is taken up, and for
nothing else (`nextId_set`, `nextId_unset`); an operation that takes none changes
the store in place (`InPlace`).

So if a store shows the same nodes as before and no identifier is new, then the
trie, the nodes and both indices are literally those from before
(`Consistent.eq_of_at?`), not merely others that look alike.
-/

namespace ParamStore

/-- Two indices without empty keys are the same if they list the same. -/
theorem Index.Filled.ext {κ : Type} [LT κ] [DecidableEq κ] [StrictOrder κ] {ix ix' : Index κ}
    (h : ix.Filled) (h' : ix'.Filled)
    (heq : ∀ k id, ix.holds k id = true ↔ ix'.holds k id = true) : ix = ix' := by
  refine Table.ext fun k => ?_
  have hkeys : Table.contains ix k = true ↔ Table.contains ix' k = true := by
    rw [h.contains_iff, h'.contains_iff]
    simp only [heq]
  have hids := heq k
  unfold Index.holds at hids
  unfold Table.contains at hkeys
  cases hk : ix.find? k with
  | none =>
    cases hk' : ix'.find? k with
    | none => rfl
    | some ids' => simp [hk, hk'] at hkeys
  | some ids =>
    cases hk' : ix'.find? k with
    | none => simp [hk, hk'] at hkeys
    | some ids' =>
      rw [hk, hk'] at hids
      exact congrArg some (Table.ext_contains hids)

namespace Store

variable {s s' s₁ s₂ : Store} {kind : Kind} {caller : Caller} {text : String} {path : Path}

/-! ## The same nodes under the same identifiers -/

/-- The nodes of a store determine its trie and both indices. -/
theorem Consistent.eq_of_nodes (h : s.Consistent) (h' : s'.Consistent)
    (hnodes : s'.nodes = s.nodes) : s' = { s with nextId := s'.nextId } := by
  have htrie : s'.trie = s.trie := h'.proper.ext h.proper fun ts => Option.ext fun id => by
    rw [h'.leads, h.leads, hnodes]
  have hscopes : s'.scopes = s.scopes := h'.scopes_filled.ext h.scopes_filled fun key id => by
    rw [h'.scopes_iff, h.scopes_iff, hnodes]
  have hgroups : s'.groups = s.groups := h'.groups_filled.ext h.groups_filled fun g id => by
    rw [h'.groups_iff, h.groups_iff, hnodes]
  rw [← htrie, ← hnodes, ← hscopes, ← hgroups]

/-- If `s'` shows the nodes of `s` and none of them under a new identifier, the two
stores are the same but for the counter of identifiers. -/
theorem Consistent.eq_of_at? (h : s.Consistent) (h' : s'.Consistent)
    (hat : ∀ p, s'.at? p = s.at? p) (hprecedes : s.Precedes s')
    (hold : ∀ id n, s'.nodes.find? id = some n → id < s.nextId) :
    s' = { s with nextId := s'.nextId } := by
  have hsub : ∀ id n, s'.nodes.find? id = some n → s.nodes.find? id = some n := by
    intro id n hn
    obtain ⟨m, hm, hmp⟩ := hprecedes.same_path id n (hold id n hn) hn
    have hatn := (hat n.path).symm.trans (h'.at?_eq_some.2 ⟨id, hn, rfl⟩)
    have hatm := h.at?_eq_some.2 ⟨id, hm, hmp⟩
    rw [hm, ← hatm, hatn]
  have hnodes : s'.nodes = s.nodes := by
    refine Table.ext fun id => Option.ext fun n => ⟨hsub id n, fun hn => ?_⟩
    obtain ⟨id', hid', hp⟩ :=
      h'.at?_eq_some.1 ((hat n.path).trans (h.at?_eq_some.2 ⟨id, hn, rfl⟩))
    obtain rfl := h.id_unique hn (hsub id' n hid') rfl
    exact hid'
  exact h.eq_of_nodes h' hnodes

/-- No identifier was given out, and none came back. -/
structure InPlace (s s' : Store) : Prop extends s.Precedes s' where
  nextId_eq : s'.nextId = s.nextId

theorem InPlace.refl (s : Store) : s.InPlace s := ⟨.refl s, rfl⟩

theorem InPlace.trans (h : s.InPlace s₁) (h' : s₁.InPlace s₂) : s.InPlace s₂ :=
  ⟨h.toPrecedes.trans h'.toPrecedes, h'.nextId_eq.trans h.nextId_eq⟩

theorem InPlace.eq_of_at? (hplace : s.InPlace s') (h : s.Consistent) (h' : s'.Consistent)
    (hat : ∀ p, s'.at? p = s.at? p) : s' = s := by
  have heq := h.eq_of_at? h' hat hplace.toPrecedes fun id n hn =>
    hplace.nextId_eq ▸ h'.fresh id n hn
  rwa [hplace.nextId_eq] at heq

/-! ## Which operations take an identifier -/

theorem nextId_writeNode {α : Type} {write : Node → Except StoreError (α × Node)}
    {r : NodeId × α} (h : s.writeNode path write = (.ok r, s')) :
    s'.nextId = if (s.at? path).isSome then s.nextId else s.nextId + 1 := by
  unfold writeNode at h
  cases hn : s.node? path.tokens with
  | none =>
    simp only [hn] at h
    split at h
    · cases h
    · cases h
      simp [at?, hn, attach]
  | some r =>
    simp only [hn] at h
    split at h
    · cases h
    · cases h
      simp [at?, hn, update]

theorem nextId_setLocal {key : ScopeKey} {p stored : Parameter}
    (h : s.setLocal key path p = (.ok stored, s')) :
    s'.nextId = if (s.at? path).isSome then s.nextId else s.nextId + 1 := by
  unfold setLocal at h
  split at h
  · cases h
  · next hw =>
    have hnext := nextId_writeNode hw
    cases h
    exact hnext

theorem nextId_setShared {g : Group} {p stored : Parameter} {freeze : Bool}
    (h : s.setShared g path p freeze = (.ok stored, s')) :
    s'.nextId = if (s.at? path).isSome then s.nextId else s.nextId + 1 := by
  unfold setShared at h
  split at h
  · cases h
  · next hw =>
    have hnext := nextId_writeNode hw
    cases h
    exact hnext

/-- A set takes an identifier where there is no node at its path. -/
theorem nextId_set {input : Input} {o : SetOptions} {stored : Parameter}
    (hpath : readPath text = .ok path)
    (h : s.set kind caller text input o = (.ok stored, s')) :
    s'.nextId = if (s.at? path).isSome then s.nextId else s.nextId + 1 := by
  unfold set at h
  cases hc : kind.coerce input with
  | error e => simp [hc] at h
  | ok p =>
    cases hf : !o.shared && o.freeze with
    | true => simp [hc, hf] at h
    | false =>
      simp only [hc, hf, hpath, Bool.false_eq_true, if_false] at h
      split at h
      · split at h
        · cases h
        · exact nextId_setShared h
      · exact nextId_setLocal h

theorem nextId_unsetLocal (s : Store) (key : ScopeKey) (id : NodeId) (n : Node) (force : Bool) :
    (s.unsetLocal key id n force).2.nextId = s.nextId := by
  unfold unsetLocal
  split
  · rfl
  · rw [nextId_prune]
    rfl

theorem nextId_unsetShared (s : Store) (g : Group) (id : NodeId) (n : Node)
    (force unfreeze : Bool) : (s.unsetShared g id n force unfreeze).2.nextId = s.nextId := by
  unfold unsetShared
  split
  · rfl
  split
  · rfl
  split
  · rfl
  · rw [nextId_prune]
    split
    · split <;> rfl
    · rfl

theorem nextId_unset (s : Store) (kind : Kind) (caller : Caller) (text : String)
    (o : UnsetOptions) : (s.unset kind caller text o).2.nextId = s.nextId := by
  unfold unset
  split
  · rfl
  split
  · rfl
  split
  · rfl
  · exact nextId_unsetLocal s _ _ _ _
  · dsimp only
    split
    · rfl
    · exact nextId_unsetShared s _ _ _ _ _

/-- A node that a set takes up has the identifier that was next. -/
theorem find?_nextId_set (h : s.Consistent) {input : Input} {o : SetOptions} {stored : Parameter}
    (hpath : readPath text = .ok path) (hset : s.set kind caller text input o = (.ok stored, s'))
    (hat : s.at? path = none) : ∃ n, s'.nodes.find? s.nextId = some n ∧ n.path = path := by
  obtain ⟨p, path', n, -, -, hpath', -, hy⟩ := set_eq_ok h hset
  cases hpath.symm.trans hpath'
  have hself : s'.at? path = some n := by rw [hy.at?_eq, if_pos rfl]
  obtain ⟨id, hid, hp⟩ := hy.consistent.at?_eq_some.1 hself
  have hnew : s.nextId ≤ id := Nat.le_of_not_lt fun hold => by
    obtain ⟨m, hm, hmp⟩ := hy.precedes.same_path id n hold hid
    have hsome := h.at?_eq_some.2 ⟨id, hm, hmp.trans hp⟩
    rw [hat] at hsome
    cases hsome
  have hlt : id < s.nextId + 1 := by
    have hnext := nextId_set hpath hset
    rw [hat, if_neg (by simp)] at hnext
    exact hnext ▸ hy.consistent.fresh id n hid
  obtain rfl : id = s.nextId := Nat.le_antisymm (Nat.le_of_lt_succ hlt) hnew
  exact ⟨n, hid, hp⟩

/-- Where there is a node, a set writes to it. -/
theorem inPlace_set (h : s.Consistent) {input : Input} {o : SetOptions} {stored : Parameter}
    (hpath : readPath text = .ok path) (hset : s.set kind caller text input o = (.ok stored, s'))
    (hat : (s.at? path).isSome = true) : s.InPlace s' where
  toPrecedes := by
    have hserve := (consistent_serve h kind caller (.set text input o)).2
    change s.Precedes (s.set kind caller text input o).2 at hserve
    rwa [hset] at hserve
  nextId_eq := by rw [nextId_set hpath hset, if_pos hat]

/-- Clearing takes no identifier. -/
theorem inPlace_clearFrozen (h : s.Consistent) (g : Group) : s.InPlace (s.clearFrozen g).2 where
  toPrecedes := (yields_clearFrozen h g).2.precedes
  nextId_eq := (releasedAt_releaseNodes (h.releasable fun _ => Index.mem_ids)).2.nextId_eq

end Store

end ParamStore
