import ParamStore.Proofs.Store.Consistent
import ParamStore.Store.Release

/-!
# What flushing and clearing do

Both walk over the identifiers that an index lists. A walk is described by
what it leaves under each identifier, for any list to walk over; that the
index lists the right identifiers then turns this into one change of all
nodes, whatever the order of the walk: flushing takes the values of a scope
away from every node (`yields_flushNodes`, `yields_flush`), clearing releases
every node of a group (`yields_releaseNodes`, `yields_clearFrozen`). A node
that is of no more use goes.
-/

namespace ParamStore

namespace Store

variable {s : Store}

/-! ## Flushing -/

/-- The node without its value in a scope. -/
def withoutScope (key : ScopeKey) (n : Node) : Node := (n.clearLocal key).2

theorem inScope?_withoutScope (key key' : ScopeKey) (n : Node) :
    (withoutScope key n).inScope? key' = if key = key' then none else n.inScope? key' :=
  Table.find?_erase _ key key'

theorem withoutScope_of_none {key : ScopeKey} {n : Node} (h : n.inScope? key = none) :
    withoutScope key n = n := by
  unfold withoutScope Node.clearLocal
  rw [Table.erase_of_none h]

theorem withoutScope_idem (key : ScopeKey) (n : Node) :
    withoutScope key (withoutScope key n) = withoutScope key n :=
  withoutScope_of_none (by rw [inScope?_withoutScope, if_pos rfl])

/-- What a walk over `ids` leaves of the nodes. The indices are not touched. -/
theorem nodes_flushNodes (key : ScopeKey) (ids : List NodeId) (h : s.Traced) :
    let s' := (flushNodes key ids s).2
    s'.Traced ∧ s'.scopes = s.scopes ∧ s'.groups = s.groups ∧ s'.nextId = s.nextId ∧
      ∀ id, s'.nodes.find? id = (s.nodes.find? id).bind fun n =>
        if id ∈ ids then (withoutScope key n).kept else some n := by
  induction ids generalizing s with
  | nil => exact ⟨h, rfl, rfl, rfl, fun id => by simp [flushNodes]⟩
  | cons id₀ ids ih =>
    cases hn : s.nodes.find? id₀ with
    | none =>
      have hstep : (flushNodes key (id₀ :: ids) s).2 = (flushNodes key ids s).2 := by
        simp [flushNodes, hn, prune_of_none hn]
      obtain ⟨ht, hsc, hgr, hnext, hnodes⟩ := ih h
      refine ⟨hstep ▸ ht, hstep ▸ hsc, hstep ▸ hgr, hstep ▸ hnext, fun id => ?_⟩
      rw [hstep, hnodes]
      by_cases hid : id = id₀
      · subst hid
        simp [hn]
      · simp [hid]
    | some n₀ =>
      have hstep : (flushNodes key (id₀ :: ids) s).2 =
          (flushNodes key ids ((s.update id₀ (withoutScope key n₀)).prune id₀)).2 := by
        simp [flushNodes, hn, withoutScope]
      have hu : (s.update id₀ (withoutScope key n₀)).Traced := h.update hn rfl
      obtain ⟨ht, hsc, hgr, hnext, hnodes⟩ := ih (hu.prune id₀)
      refine ⟨hstep ▸ ht, ?_, ?_, ?_, fun id => ?_⟩
      · rw [hstep, hsc, scopes_prune]
        rfl
      · rw [hstep, hgr, groups_prune]
        rfl
      · rw [hstep, hnext, nextId_prune]
        rfl
      · rw [hstep, hnodes, nodes_prune]
        simp only [update, Table.find?_insert]
        by_cases hid : id₀ = id
        · subst hid
          simp only [if_true, List.mem_cons, true_or, hn, Option.bind_some]
          cases hk : (withoutScope key n₀).kept with
          | none => rfl
          | some m =>
            obtain ⟨-, rfl⟩ := Node.kept_eq_some.1 hk
            simp [withoutScope_idem, hk]
        · simp [hid, Ne.symm hid]

/-- A walk over the nodes with a value in the scope, in any order, takes these
values away and changes nothing else. -/
theorem yields_flushNodes (h : s.Consistent) (key : ScopeKey) {ids : List NodeId}
    (hids : ∀ id, id ∈ ids ↔ s.scopes.holds key id = true) :
    s.Yields (flushNodes key ids { s with scopes := s.scopes.erase key }).2 fun p =>
      (s.at? p).bind fun n => (withoutScope key n).kept := by
  obtain ⟨ht', hsc, hgr, hnext, hnodes⟩ :=
    nodes_flushNodes key ids (h.toTraced.reindex (s.scopes.erase key) s.groups)
  refine h.change_all ht' (fun n => rfl) (fun n ho => ho) hnext (fun id => ?_)
    (fun key' id => ?_) (fun g id => ?_) ?_ ?_
  · rw [hnodes]
    cases hn : s.nodes.find? id with
    | none => rfl
    | some n =>
      simp only [Option.bind_some]
      by_cases hid : id ∈ ids
      · rw [if_pos hid]
      · -- the walk visits every node with a value in the scope
        rw [if_neg hid]
        have hnone : n.inScope? key = none := by
          rw [hids, h.scopes_iff] at hid
          cases hk : n.inScope? key with
          | none => rfl
          | some p => exact absurd ⟨n, hn, by simp [hk]⟩ hid
        rw [withoutScope_of_none hnone, Node.kept_of_not_removable (h.kept id n hn)]
  · rw [hsc, Index.holds_erase, h.scopes_iff]
    simp only [inScope?_withoutScope]
    by_cases hk : key = key' <;> simp [hk]
  · rw [hgr]
    exact h.groups_iff g id
  · rw [hsc]
    exact h.scopes_filled.erase key
  · rw [hgr]
    exact h.groups_filled

/-- A flush takes the values of the scope away and changes nothing else. -/
theorem yields_flush (h : s.Consistent) (key : ScopeKey) :
    s.Yields (s.flush key).2 fun p => (s.at? p).bind fun n => (withoutScope key n).kept :=
  yields_flushNodes h key fun _ => Index.mem_ids

/-! ## Clearing -/

/-- The node as clearing the freezes of a group leaves it. -/
def releasedFor (g : Group) (n : Node) : Node := if n.owner = some g then n.released else n

theorem path_releasedFor (g : Group) (n : Node) : (releasedFor g n).path = n.path := by
  unfold releasedFor
  split <;> rfl

theorem inScope?_releasedFor (g : Group) (n : Node) (key : ScopeKey) :
    (releasedFor g n).inScope? key = n.inScope? key := by
  unfold releasedFor
  split <;> rfl

theorem owned_releasedFor {g : Group} {n : Node} (ho : n.Owned) : (releasedFor g n).Owned := by
  unfold releasedFor
  split
  · exact ho.released
  · exact ho

/-- The owner goes with the freeze where there is no shared value to own. -/
theorem owner_releasedFor {g g' : Group} {n : Node} :
    (releasedFor g n).owner = some g' ↔ n.owner = some g' ∧ ¬ (g = g' ∧ n.shared = none) := by
  unfold releasedFor
  split
  · next ho =>
    rw [ho, Option.some_inj]
    cases hs : n.shared with
    | none => simp [Node.released, hs]
    | some q => simp [Node.released, hs, ho]
  · next ho =>
    constructor
    · intro ho'
      exact ⟨ho', fun hgone => ho (hgone.1 ▸ ho')⟩
    · exact And.left

theorem released_idem (n : Node) : n.released.released = n.released := by
  unfold Node.released
  cases n.shared <;> rfl

/-- The store after the release of one node. The node leaves the index of
its group if it has no shared value. -/
def releaseNode (s : Store) (g : Group) (id : NodeId) (n : Node) : Store :=
  prune { s.update id n.released with
    groups := if n.shared.isNone then s.groups.drop g id else s.groups } id

/-- Every frozen node on a walk over `ids` belongs to the group, so that
nothing refuses to release it. -/
structure Releasable (s : Store) (g : Group) (ids : List NodeId) : Prop extends s.Traced where
  owned : ∀ id n, s.nodes.find? id = some n → n.Owned
  owner : ∀ id ∈ ids, ∀ n, s.nodes.find? id = some n → n.pin.isSome = true → n.owner = some g
  groups_filled : s.groups.Filled

/-- What a walk over `ids` leaves of the nodes and of the index of owners. -/
structure ReleasedAt (s s' : Store) (g : Group) (ids : List NodeId) : Prop where
  traced : s'.Traced
  scopes_eq : s'.scopes = s.scopes
  nextId_eq : s'.nextId = s.nextId
  groups_filled : s'.groups.Filled
  nodes_eq : ∀ id, s'.nodes.find? id = (s.nodes.find? id).bind fun n =>
    if id ∈ ids then n.released.kept else some n
  groups_iff : ∀ g' id, s'.groups.holds g' id = true ↔ s.groups.holds g' id = true ∧
    ¬ (g = g' ∧ id ∈ ids ∧ ∀ n, s.nodes.find? id = some n → n.shared = none)

section Walk

variable {g : Group} {id₀ : NodeId} {ids : List NodeId} {n₀ : Node}

theorem nodes_releaseNode (id : NodeId) :
    (s.releaseNode g id₀ n₀).nodes.find? id =
      if id₀ = id then n₀.released.kept else s.nodes.find? id := by
  simp only [releaseNode, nodes_prune, update, Table.find?_insert]
  by_cases hid : id₀ = id <;> simp [hid]

theorem groups_releaseNode (g' : Group) (id : NodeId) :
    (s.releaseNode g id₀ n₀).groups.holds g' id = true ↔
      ¬ (n₀.shared = none ∧ g = g' ∧ id₀ = id) ∧ s.groups.holds g' id = true := by
  simp only [releaseNode, groups_prune]
  cases n₀.shared with
  | none => simp [Index.mem_drop]
  | some q => simp

theorem Releasable.skip (h : s.Releasable g (id₀ :: ids)) :
    Releasable { s with groups := s.groups.drop g id₀ } g ids where
  proper := h.proper
  leads := h.leads
  fresh := h.fresh
  owned := h.owned
  owner := fun id hid => h.owner id (List.mem_cons_of_mem _ hid)
  groups_filled := h.groups_filled.drop g id₀

theorem Releasable.release (h : s.Releasable g (id₀ :: ids))
    (hn : s.nodes.find? id₀ = some n₀) : (s.releaseNode g id₀ n₀).Releasable g ids where
  toTraced := by
    have hu : (s.update id₀ n₀.released).Traced := h.toTraced.update hn rfl
    exact (hu.reindex _ _).prune id₀
  owned := fun id n hm => by
    rw [nodes_releaseNode] at hm
    split at hm
    · obtain ⟨-, rfl⟩ := Node.kept_eq_some.1 hm
      exact (h.owned id₀ n₀ hn).released
    · exact h.owned id n hm
  owner := fun id hid n hm hp => by
    rw [nodes_releaseNode] at hm
    split at hm
    · obtain ⟨-, rfl⟩ := Node.kept_eq_some.1 hm
      cases hp
    · exact h.owner id (List.mem_cons_of_mem _ hid) n hm hp
  groups_filled := by
    simp only [releaseNode, groups_prune]
    split
    · exact h.groups_filled.drop g id₀
    · exact h.groups_filled

theorem releaseNodes_of_none (hn : s.nodes.find? id₀ = none) :
    releaseNodes g (id₀ :: ids) s =
      releaseNodes g ids { s with groups := s.groups.drop g id₀ } := by
  simp [releaseNodes, hn]

theorem Releasable.releaseNodes_of_some (h : s.Releasable g (id₀ :: ids))
    (hn : s.nodes.find? id₀ = some n₀) :
    releaseNodes g (id₀ :: ids) s =
      ((releaseNodes g ids (s.releaseNode g id₀ n₀)).1.map (· + if n₀.isFrozen then 1 else 0),
        (releaseNodes g ids (s.releaseNode g id₀ n₀)).2) := by
  have hrel : n₀.unfreeze g = .ok n₀.released :=
    Node.unfreeze_of_owner (h.owned id₀ n₀ hn) (h.owner id₀ List.mem_cons_self n₀ hn)
  simp only [releaseNodes, hn, hrel, releaseNode]
  cases n₀.shared <;> rfl

theorem ReleasedAt.skip {s' : Store} (hn : s.nodes.find? id₀ = none)
    (hr : ReleasedAt { s with groups := s.groups.drop g id₀ } s' g ids) :
    s.ReleasedAt s' g (id₀ :: ids) where
  traced := hr.traced
  scopes_eq := hr.scopes_eq
  nextId_eq := hr.nextId_eq
  groups_filled := hr.groups_filled
  nodes_eq := fun id => by
    rw [hr.nodes_eq]
    by_cases hid : id = id₀
    · subst hid
      simp [hn]
    · simp [hid]
  groups_iff := fun g' id => by
    rw [hr.groups_iff, Index.mem_drop]
    by_cases hid : id₀ = id
    · subst hid
      by_cases hg : g = g' <;> simp [hg, hn]
    · simp [hid, Ne.symm hid]

/-- A second visit of a node that was released finds nothing more to do. -/
theorem ReleasedAt.release {s' : Store} (hn : s.nodes.find? id₀ = some n₀)
    (hr : (s.releaseNode g id₀ n₀).ReleasedAt s' g ids) : s.ReleasedAt s' g (id₀ :: ids) where
  traced := hr.traced
  scopes_eq := hr.scopes_eq.trans (scopes_prune _ _)
  nextId_eq := hr.nextId_eq.trans (nextId_prune _ _)
  groups_filled := hr.groups_filled
  nodes_eq := fun id => by
    rw [hr.nodes_eq, nodes_releaseNode]
    by_cases hid : id₀ = id
    · subst hid
      simp only [if_true, List.mem_cons, true_or, hn, Option.bind_some]
      cases hk : n₀.released.kept with
      | none => rfl
      | some m =>
        obtain ⟨-, rfl⟩ := Node.kept_eq_some.1 hk
        simp [released_idem, hk]
    · simp [hid, Ne.symm hid]
  groups_iff := fun g' id => by
    rw [hr.groups_iff, groups_releaseNode, nodes_releaseNode]
    by_cases hid : id₀ = id
    · subst hid
      cases hs : n₀.shared with
      | none => by_cases hg : g = g' <;> simp [hg, hn, hs]
      | some q =>
        have hk : n₀.released.kept = some n₀.released :=
          Node.kept_of_not_removable (by simp [Node.isRemovable, Node.released, hs])
        have hsh : n₀.released.shared = some q := hs
        simp [hn, hs, hk, hsh]
    · simp [hid, Ne.symm hid]

end Walk

theorem releasedAt_releaseNodes {g : Group} {ids : List NodeId} (h : s.Releasable g ids) :
    (∃ count, (releaseNodes g ids s).1 = .ok count) ∧
      s.ReleasedAt (releaseNodes g ids s).2 g ids := by
  induction ids generalizing s with
  | nil =>
    exact ⟨⟨0, rfl⟩, h.toTraced, rfl, rfl, h.groups_filled, fun id => by simp [releaseNodes],
      fun g' id => by simp [releaseNodes]⟩
  | cons id₀ ids ih =>
    cases hn : s.nodes.find? id₀ with
    | none =>
      rw [releaseNodes_of_none hn]
      obtain ⟨hok, hr⟩ := ih h.skip
      exact ⟨hok, hr.skip hn⟩
    | some n₀ =>
      rw [h.releaseNodes_of_some hn]
      obtain ⟨⟨count, hok⟩, hr⟩ := ih (h.release hn)
      exact ⟨⟨_, by rw [hok]; rfl⟩, hr.release hn⟩

/-- Whether there is a frozen node at `id`. -/
def frozenAt (s : Store) (id : NodeId) : Bool := (s.nodes.find? id).any Node.isFrozen

/-- A walk that visits no node twice counts the frozen nodes on it. -/
theorem count_releaseNodes {g : Group} {ids : List NodeId} (hids : ids.Nodup)
    (h : s.Releasable g ids) : (releaseNodes g ids s).1 = .ok (ids.countP s.frozenAt) := by
  induction ids generalizing s with
  | nil => rfl
  | cons id₀ ids ih =>
    obtain ⟨hid₀, hids⟩ := List.nodup_cons.1 hids
    cases hn : s.nodes.find? id₀ with
    | none =>
      have hnot : ¬ s.frozenAt id₀ = true := by simp [frozenAt, hn]
      rw [releaseNodes_of_none hn, ih hids h.skip, List.countP_cons_of_neg hnot]
      rfl
    | some n₀ =>
      have hrest : ids.countP (s.releaseNode g id₀ n₀).frozenAt = ids.countP s.frozenAt := by
        refine List.countP_congr fun id hid => ?_
        have hne : id₀ ≠ id := fun heq => hid₀ (heq ▸ hid)
        rw [frozenAt, nodes_releaseNode, if_neg hne, frozenAt]
      have hfirst : s.frozenAt id₀ = n₀.isFrozen := by simp [frozenAt, hn]
      rw [h.releaseNodes_of_some hn, ih hids (h.release hn), hrest, List.countP_cons, hfirst]
      rfl

theorem Consistent.releasable (h : s.Consistent) {g : Group} {ids : List NodeId}
    (hids : ∀ id, id ∈ ids ↔ s.groups.holds g id = true) : s.Releasable g ids where
  toTraced := h.toTraced
  owned := h.owned
  owner := fun id hid n hn _ => by
    obtain ⟨m, hm, ho⟩ := (h.groups_iff g id).1 ((hids id).1 hid)
    cases hn.symm.trans hm
    exact ho
  groups_filled := h.groups_filled

/-- A walk over the nodes of a group, in any order, is not refused. It
releases them and changes nothing else. -/
theorem yields_releaseNodes (h : s.Consistent) (g : Group) {ids : List NodeId}
    (hids : ∀ id, id ∈ ids ↔ s.groups.holds g id = true) :
    (∃ count, (releaseNodes g ids s).1 = .ok count) ∧
      s.Yields (releaseNodes g ids s).2 fun p =>
        (s.at? p).bind fun n => (releasedFor g n).kept := by
  have hmem : ∀ id, id ∈ ids ↔ ∃ n, s.nodes.find? id = some n ∧ n.owner = some g :=
    fun id => by rw [hids, h.groups_iff]
  obtain ⟨hok, hr⟩ := releasedAt_releaseNodes (h.releasable hids)
  refine ⟨hok, h.change_all hr.traced (path_releasedFor g) (fun n => owned_releasedFor)
    hr.nextId_eq (fun id => ?_) (fun key id => ?_) (fun g' id => ?_)
    (hr.scopes_eq ▸ h.scopes_filled) hr.groups_filled⟩
  · refine (hr.nodes_eq id).trans ?_
    cases hn : s.nodes.find? id with
    | none => rfl
    | some n =>
      simp only [Option.bind_some, releasedFor]
      by_cases ho : n.owner = some g
      · rw [if_pos ((hmem id).2 ⟨n, hn, ho⟩), if_pos ho]
      · have hid : id ∉ ids := fun hid => by
          obtain ⟨m, hm, hom⟩ := (hmem id).1 hid
          cases hn.symm.trans hm
          exact ho hom
        rw [if_neg hid, if_neg ho, Node.kept_of_not_removable (h.kept id n hn)]
  · rw [hr.scopes_eq, h.scopes_iff]
    simp only [inScope?_releasedFor]
  · refine (hr.groups_iff g' id).trans ?_
    simp only [h.groups_iff, hmem, owner_releasedFor]
    constructor
    · rintro ⟨⟨n, hn, ho⟩, hne⟩
      refine ⟨n, hn, ho, fun hgone => hne ⟨hgone.1, ⟨n, hn, hgone.1 ▸ ho⟩, fun m hm => ?_⟩⟩
      cases hn.symm.trans hm
      exact hgone.2
    · rintro ⟨n, hn, ho, hne⟩
      exact ⟨⟨n, hn, ho⟩, fun hgone => hne ⟨hgone.1, hgone.2.2 n hn⟩⟩

/-- Clearing is never refused. It releases every node that the group owns and
changes nothing else. -/
theorem yields_clearFrozen (h : s.Consistent) (g : Group) :
    (∃ count, (s.clearFrozen g).1 = .ok count) ∧
      s.Yields (s.clearFrozen g).2 fun p => (s.at? p).bind fun n => (releasedFor g n).kept :=
  yields_releaseNodes h g fun _ => Index.mem_ids

end Store

end ParamStore
