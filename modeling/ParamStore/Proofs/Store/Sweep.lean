import ParamStore.Proofs.Store.InPlace
import ParamStore.Proofs.Store.Partition

/-!
# Flushing and clearing as wholes

Flushing a scope and clearing the freezes of a group walk over what an index
lists, removing nodes as they go. Here they are told as one change of the
whole store: how many values or freezes there were, what is at every path
afterwards (`Flushes`, `Clears`), and that the store is literally the same
one in whatever order the index was visited (`flushNodes_perm`,
`releaseNodes_perm`).
-/

namespace ParamStore

/-- A list of the keys of some values of a table is as long as there are such
values. -/
theorem Table.length_eq_countP {κ α : Type} [LT κ] [DecidableEq κ] [StrictOrder κ]
    {t : Table κ α} {P : α → Bool} {ks : List κ} (hks : ks.Nodup)
    (hmem : ∀ k, k ∈ ks ↔ ∃ a, t.find? k = some a ∧ P a = true) :
    ks.length = t.values.countP P := by
  have hkeys : ((t.entries.filter fun e => P e.2).map (·.1)).Nodup := by
    refine List.pairwise_map.2 ((t.ascending.filter _).imp ?_)
    intro e e' hlt heq
    rw [heq] at hlt
    exact StrictOrder.irrefl _ hlt
  have hperm : ks.Perm ((t.entries.filter fun e => P e.2).map (·.1)) := by
    refine (List.perm_ext_iff_of_nodup hks hkeys).2 fun k => ?_
    rw [hmem]
    simp only [find?_eq_some_iff, List.mem_map, List.mem_filter, Prod.exists, exists_and_right,
      exists_eq_right]
  rw [hperm.length_eq, values, List.countP_map, List.length_map, List.countP_eq_length_filter]
  rfl

namespace Node

/-- A node that is let go has no owner. -/
theorem owner_kept {n : Node} (ho : n.Owned) : n.kept.bind owner = n.owner := by
  unfold kept
  split
  · next hr => exact (owner_of_isRemovable ho hr).symm
  · rfl

/-- The node is frozen, and the group owns it. -/
def frozenUnder (g : Group) (n : Node) : Bool := n.isFrozen && n.owner == some g

theorem frozenUnder_iff {g : Group} {n : Node} :
    n.frozenUnder g = true ↔ n.isFrozen = true ∧ n.owner = some g := by
  simp [frozenUnder]

theorem pin_kept (n : Node) : n.kept.bind pin = n.pin := by
  unfold kept
  split
  · next hr => exact (isRemovable_iff.1 hr).2.2.symm
  · rfl

end Node

namespace Store

variable {s s' : Store} {g : Group} {key : ScopeKey}

theorem Consistent.ext (h : s.Consistent) (h' : s'.Consistent)
    (hnodes : ∀ id, s'.nodes.find? id = s.nodes.find? id) (hnext : s'.nextId = s.nextId) :
    s' = s := by
  have heq := h.eq_of_nodes h' (Table.ext hnodes)
  rwa [hnext] at heq

/-! ## In any order -/

/-- Whatever the order in which a flush visits its nodes, it drops as many
values and leaves the same store. -/
theorem flushNodes_perm (h : s.Consistent) (key : ScopeKey) {ids : List NodeId}
    (hids : ids.Perm (s.scopes.ids key)) :
    flushNodes key ids { s with scopes := s.scopes.erase key } = s.flush key := by
  have hnodup := Index.nodup_ids s.scopes key
  have hmem : ∀ id, id ∈ ids ↔ s.scopes.holds key id = true := fun id =>
    hids.mem_iff.trans Index.mem_ids
  have ht : { s with scopes := s.scopes.erase key }.Traced :=
    h.toTraced.reindex (s.scopes.erase key) s.groups
  obtain ⟨-, -, -, hnext, hnodes⟩ := nodes_flushNodes key ids ht
  obtain ⟨-, -, -, hnext', hnodes'⟩ := nodes_flushNodes key (s.scopes.ids key) ht
  refine Prod.ext ?_ ?_
  · rw [flush, count_flushNodes _ hnodup, count_flushNodes _ (hids.nodup_iff.2 hnodup)]
    exact (hids.filterMap _).length_eq
  · refine (yields_flush h key).consistent.ext (yields_flushNodes h key hmem).consistent
      (fun id => ?_) (hnext.trans hnext'.symm)
    rw [hnodes, flush, hnodes']
    simp only [hids.mem_iff]

/-- Whatever the order in which clearing visits its nodes, it releases as many
and leaves the same store. -/
theorem releaseNodes_perm (h : s.Consistent) (g : Group) {ids : List NodeId}
    (hids : ids.Perm (s.groups.ids g)) : releaseNodes g ids s = s.clearFrozen g := by
  have hnodup := Index.nodup_ids s.groups g
  have hmem : ∀ id, id ∈ ids ↔ s.groups.holds g id = true := fun id =>
    hids.mem_iff.trans Index.mem_ids
  -- which walk it was shows in no node and in no identifier
  have hrel := releasedAt_releaseNodes (h.releasable hmem)
  have hrel' := releasedAt_releaseNodes (h.releasable (g := g) fun _ => Index.mem_ids)
  refine Prod.ext ?_ ?_
  · rw [clearFrozen, count_releaseNodes hnodup (h.releasable fun _ => Index.mem_ids),
      count_releaseNodes (hids.nodup_iff.2 hnodup) (h.releasable hmem), hids.countP_eq]
  · refine (yields_clearFrozen h g).2.consistent.ext (yields_releaseNodes h g hmem).2.consistent
      (fun id => ?_) (hrel.2.nextId_eq.trans hrel'.2.nextId_eq.symm)
    rw [hrel.2.nodes_eq, clearFrozen, hrel'.2.nodes_eq]
    simp only [hids.mem_iff]

/-! ## Flushing -/

/-- How many nodes, each at a path of its own, have a value in the scope. -/
def countHeld (s : Store) (key : ScopeKey) : Nat :=
  s.nodes.values.countP fun n => (n.inScope? key).isSome

theorem Consistent.fst_flush (h : s.Consistent) (key : ScopeKey) :
    (s.flush key).1 = s.countHeld key := by
  rw [h.length_ids_flush, countHeld]
  refine Table.length_eq_countP (Index.nodup_ids s.scopes key) fun id => ?_
  rw [Index.mem_ids, h.scopes_iff]

/-- Flushing the scope `key` takes the store `s` to `s'`. -/
structure Flushes (key : ScopeKey) (s s' : Store) : Prop where
  /-- The order in which the index is visited does not matter. -/
  reply : ∀ ids, ids.Perm (s.scopes.ids key) →
    flushNodes key ids { s with scopes := s.scopes.erase key } = (s.countHeld key, s')
  gone : ∀ p, s'.inScope? p key = none
  unlisted : s'.hasScope key = false
  slots : ∀ p i, i ≠ .scope key → s'.slot? p i = s.slot? p i
  owners : ∀ p, (s'.at? p).bind Node.owner = (s.at? p).bind Node.owner
  pins : ∀ p, (s'.at? p).bind Node.pin = (s.at? p).bind Node.pin
  /-- Another scope has a value there, or there is a shared one, or it is frozen. -/
  nodes : ∀ p, (s'.at? p).isSome = true ↔
    (∃ key', key' ≠ key ∧ (s.inScope? p key').isSome = true)
      ∨ (s.slot? p .shared).isSome = true ∨ (s.at? p).any Node.isFrozen = true

theorem isRemovable_withoutScope {n : Node} :
    (withoutScope key n).isRemovable = true ↔
      (∀ key', key' ≠ key → n.inScope? key' = none) ∧ n.shared = none ∧ n.pin = none := by
  have hscopes : (∀ key', (withoutScope key n).inScope? key' = none) ↔
      ∀ key', key' ≠ key → n.inScope? key' = none := by
    refine forall_congr' fun key' => ?_
    rw [inScope?_withoutScope]
    by_cases hkey : key = key'
    · simp [hkey]
    · simp [hkey, Ne.symm hkey]
  rw [Node.isRemovable_iff, hscopes]
  exact and_left_comm

/-- A flush keeps the nodes that something else needs. -/
theorem isSome_kept_withoutScope {n : Node} :
    (withoutScope key n).kept.isSome = true ↔
      (∃ key', key' ≠ key ∧ (n.inScope? key').isSome = true)
        ∨ n.shared.isSome = true ∨ n.isFrozen = true := by
  have hkept : (withoutScope key n).kept.isSome = true ↔
      ¬ (withoutScope key n).isRemovable = true := by
    unfold Node.kept
    cases (withoutScope key n).isRemovable <;> simp
  rw [hkept, isRemovable_withoutScope, not_and_or, not_and_or, Node.isFrozen]
  simp only [not_forall, exists_prop, Option.isSome_iff_ne_none, ne_eq]

theorem Consistent.flushes (h : s.Consistent) (key : ScopeKey) :
    Flushes key s (s.flush key).2 := by
  have hy := yields_flush h key
  have hgone : ∀ p, (s.flush key).2.inScope? p key = none := fun p =>
    (slot?_flush h key _ p).trans (if_pos rfl)
  refine ⟨fun ids hids => ?_, hgone, ?_, fun p i hi => (slot?_flush h key i p).trans (if_neg hi),
    fun p => ?_, fun p => ?_, fun p => ?_⟩
  · rw [flushNodes_perm h key hids, ← h.fst_flush key]
  · rw [Bool.eq_false_iff, ne_eq, hy.consistent.hasScope_iff]
    rintro ⟨p, hp⟩
    rw [hgone] at hp
    cases hp
  · rw [hy.at?_eq]
    cases hn : s.at? p with
    | none => rfl
    | some n =>
      have ho : n.Owned := h.at?_owned hn
      exact Node.owner_kept (n := withoutScope key n) ho
  · rw [hy.at?_eq]
    cases hn : s.at? p with
    | none => rfl
    | some n => exact Node.pin_kept (withoutScope key n)
  · rw [hy.at?_eq]
    unfold inScope? slot?
    cases s.at? p with
    | none => simp
    | some n => exact isSome_kept_withoutScope

/-! ## Clearing -/

/-- How many nodes are frozen under the group. -/
def countFrozen (s : Store) (g : Group) : Nat := s.nodes.values.countP (Node.frozenUnder g)

theorem Consistent.fst_clearFrozen (h : s.Consistent) (g : Group) :
    (s.clearFrozen g).1 = .ok (s.countFrozen g) := by
  have hnodup := Index.nodup_ids s.groups g
  have hids : ∀ id, id ∈ (s.groups.ids g).filter s.frozenAt ↔
      ∃ n, s.nodes.find? id = some n ∧ n.frozenUnder g = true := fun id => by
    rw [List.mem_filter, Index.mem_ids, h.groups_iff, frozenAt]
    cases s.nodes.find? id with
    | none => simp
    | some n => simp [Node.frozenUnder_iff, and_comm]
  rw [countFrozen, ← Table.length_eq_countP (hnodup.filter _) hids, clearFrozen,
    count_releaseNodes hnodup (h.releasable fun _ => Index.mem_ids),
    List.countP_eq_length_filter]

/-- Clearing the freezes of `g` takes the store `s` to `s'`. -/
structure Clears (g : Group) (s s' : Store) : Prop where
  /-- The order in which the index is visited does not matter. -/
  reply : ∀ ids, ids.Perm (s.groups.ids g) →
    releaseNodes g ids s = (.ok (s.countFrozen g), s')
  valued : ∀ p n, s.at? p = some n → n.frozenUnder g = true → n.shared.isSome = true →
    s'.at? p = some { n with pin := none } ∧ p ∈ s'.groupPaths g
  /-- A placeholder is left without an owner, where it is left at all. -/
  emptied : ∀ p n, s.at? p = some n → n.frozenUnder g = true → n.shared = none →
    p ∉ s'.groupPaths g ∧
      ∀ m, s'.at? p = some m ↔
        (∃ key, (n.inScope? key).isSome = true) ∧ m = { n with pin := none, owner := none }
  others : ∀ p, (∀ n, s.at? p = some n → n.frozenUnder g = false) → s'.at? p = s.at? p
  scopes : ∀ p key, s'.inScope? p key = s.inScope? p key
  /-- The index lists what the group owns. -/
  listed : ∀ id, s'.groups.holds g id = true ↔ ∃ n, s'.nodes.find? id = some n ∧ n.owner = some g
  again : ∀ ids, ids.Perm (s'.groups.ids g) → releaseNodes g ids s' = (.ok 0, s')

theorem releasedFor_of_not_frozenUnder {n : Node} (ho : n.Owned) (h : n.frozenUnder g = false) :
    releasedFor g n = n := by
  unfold releasedFor
  split
  · next howner =>
    refine Node.released_of_not_frozen ho ?_
    simpa [Node.frozenUnder, howner, Node.isFrozen] using h
  · rfl

theorem frozenUnder_releasedFor (g : Group) (n : Node) :
    (releasedFor g n).frozenUnder g = false := by
  unfold releasedFor
  split
  · rfl
  · next howner => simp [Node.frozenUnder, howner]

/-- The node that was a placeholder is of use for the values of scopes only. -/
theorem kept_placeholder {n m : Node} (hn : n.shared = none) :
    Node.kept { n with pin := none, owner := none } = some m ↔
      (∃ key, (n.inScope? key).isSome = true) ∧ m = { n with pin := none, owner := none } := by
  rw [Node.kept_eq_some, Bool.eq_false_iff, ne_eq, Node.isRemovable_iff]
  simp only [hn, true_and, and_true, not_forall, Option.isSome_iff_ne_none, ne_eq]
  rfl

theorem at?_clearFrozen_other (h : s.Consistent) {p : Path}
    (hp : ∀ n, s.at? p = some n → n.frozenUnder g = false) :
    (s.clearFrozen g).2.at? p = s.at? p := by
  rw [(yields_clearFrozen h g).2.at?_eq]
  cases hn : s.at? p with
  | none => rfl
  | some n =>
    rw [Option.bind_some, releasedFor_of_not_frozenUnder (h.at?_owned hn) (hp n hn),
      Node.kept_of_not_removable (h.at?_kept hn)]

theorem countFrozen_clearFrozen (h : s.Consistent) (g : Group) :
    (s.clearFrozen g).2.countFrozen g = 0 := by
  have hy := (yields_clearFrozen h g).2
  refine List.countP_eq_zero.2 fun m hm => ?_
  have hat := hy.consistent.mem_values.1 hm
  rw [hy.at?_eq] at hat
  obtain ⟨n, -, hkept⟩ := Option.bind_eq_some_iff.1 hat
  obtain ⟨-, rfl⟩ := Node.kept_eq_some.1 hkept
  simp [frozenUnder_releasedFor]

/-- Where there is no freeze, clearing changes nothing. -/
theorem clearFrozen_of_unfrozen (h : s.Consistent) (hg : s.countFrozen g = 0) :
    s.clearFrozen g = (.ok 0, s) := by
  refine Prod.ext ((h.fst_clearFrozen g).trans (by rw [hg])) ?_
  refine (inPlace_clearFrozen h g).eq_of_at? h (yields_clearFrozen h g).2.consistent fun p => ?_
  refine at?_clearFrozen_other h fun n hn => ?_
  have hmem := (h.at?_iff.1 hn).1
  simpa using List.countP_eq_zero.1 hg n hmem

theorem Consistent.clears (h : s.Consistent) (g : Group) : Clears g s (s.clearFrozen g).2 := by
  have hy := (yields_clearFrozen h g).2
  have hc := hy.consistent
  have hfrozen : ∀ p n, s.at? p = some n → n.frozenUnder g = true →
      (s.clearFrozen g).2.at? p = n.released.kept := fun p n hn hf => by
    rw [hy.at?_eq, hn, Option.bind_some, releasedFor, if_pos (Node.frozenUnder_iff.1 hf).2]
  refine ⟨fun ids hids => ?_, fun p n hn hf hs => ?_, fun p n hn hf hs => ?_,
    fun p hp => at?_clearFrozen_other h hp, fun p key => slot?_clearFrozen h g _ p,
    hc.groups_iff g, fun ids hids => ?_⟩
  · rw [releaseNodes_perm h g hids, ← h.fst_clearFrozen g]
  · obtain ⟨v, hv⟩ := Option.isSome_iff_exists.1 hs
    have hreleased : n.released = { n with pin := none } := by simp [Node.released, hv]
    have hat : (s.clearFrozen g).2.at? p = some { n with pin := none } := by
      rw [hfrozen p n hn hf, hreleased, Node.kept_of_not_removable]
      simp [Node.isRemovable, hv]
    exact ⟨hat, hc.mem_groupPaths.2 ⟨_, hat, (Node.frozenUnder_iff.1 hf).2⟩⟩
  · have hreleased : n.released = { n with pin := none, owner := none } := by
      simp [Node.released, hs]
    have hat : ∀ m, (s.clearFrozen g).2.at? p = some m ↔
        (∃ key, (n.inScope? key).isSome = true) ∧ m = { n with pin := none, owner := none } :=
      fun m => by rw [hfrozen p n hn hf, hreleased, kept_placeholder hs]
    refine ⟨fun hlisted => ?_, hat⟩
    obtain ⟨m, hm, howner⟩ := hc.mem_groupPaths.1 hlisted
    obtain ⟨-, rfl⟩ := (hat m).1 hm
    cases howner
  · rw [releaseNodes_perm hc g hids, clearFrozen_of_unfrozen hc (countFrozen_clearFrozen h g)]

end Store

end ParamStore
