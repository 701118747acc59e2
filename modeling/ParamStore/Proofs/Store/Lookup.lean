import ParamStore.Proofs.Path
import ParamStore.Proofs.Store.Consistent
import Mathlib.Data.List.Nodup

/-!
# What is seen of a store

An exact look-up sees the node at its path and nothing else of the store,
and a listing sees the nodes that an index is about. So two consistent
stores with the same nodes at the same paths cannot be told apart by either
(`get_exact`, `Consistent.groupPaths_congr`, `Consistent.scopePaths_congr`).
-/

namespace ParamStore

namespace Index

theorem nodup_ids {κ : Type} [LT κ] [DecidableEq κ] (ix : Index κ) (k : κ) :
    (ix.ids k).Nodup := by
  unfold ids
  cases ix.find? k with
  | none => exact List.nodup_nil
  | some t =>
    refine List.Pairwise.map _ (fun e e' hlt heq => ?_) t.ascending
    exact Nat.lt_irrefl _ (heq ▸ hlt)

end Index

namespace Store

variable {s s' : Store}

/-! ## Look-ups -/

theorem at?_eq_bind (s : Store) (p : Path) :
    s.at? p = (s.trie.get? p.tokens).bind s.nodes.find? := by
  unfold at? node?
  cases s.trie.get? p.tokens with
  | none => rfl
  | some id => cases hn : s.nodes.find? id <;> simp [hn]

theorem Traced.at?_iff (h : s.Traced) {p : Path} {n : Node} :
    s.at? p = some n ↔ n ∈ s.nodes.values ∧ n.path = p := by
  rw [h.at?_eq_some, Table.values, List.mem_map]
  simp only [Prod.exists, exists_eq_right, ← Table.find?_eq_some_iff, exists_and_right]

theorem Traced.mem_values (h : s.Traced) {n : Node} :
    n ∈ s.nodes.values ↔ s.at? n.path = some n := by
  rw [h.at?_iff, and_iff_left rfl]

/-- An exact look-up sees what the node at its path shows. -/
theorem get_exact (s : Store) (caller : Caller) (text : String) {o : LookupOptions}
    (ho : o.exact = true) :
    s.get caller text o = (readPath text).map fun p =>
      (s.at? p).bind (visible caller.scope o.shared o.fallback) := by
  unfold get
  cases readPath text with
  | error e => rfl
  | ok p =>
    have hclear : (s.trie.walk true p.tokens).ambiguous = false := by
      simp [Trie.Walk.ambiguous, Trie.candidates_walk_exact]
    have hat : ((s.trie.walk true p.tokens).value.bind s.nodes.find?) = s.at? p := by
      rw [Trie.value_walk_exact, at?_eq_bind]
    simp [ho, hclear, hat, bind, Except.bind, pure, Except.pure, Except.map]

/-! ## Listings -/

theorem pairwise_sortPaths (ps : List Path) :
    (sortPaths ps).Pairwise fun p q => ¬ q < p := by
  have htrans : ∀ p q r : Path, (!decide (q < p)) = true → (!decide (r < q)) = true →
      (!decide (r < p)) = true := by
    simp only [Bool.not_eq_true', decide_eq_false_iff_not]
    intro p q r hpq hqr
    exact List.not_lt.2 (List.le_trans (List.not_lt.1 hpq) (List.not_lt.1 hqr))
  have htotal : ∀ p q : Path, (!decide (q < p) || !decide (p < q)) = true := by
    intro p q
    simp only [Bool.or_eq_true, Bool.not_eq_true', decide_eq_false_iff_not]
    exact (List.le_total p.tokens q.tokens).imp List.not_lt.2 List.not_lt.2
  exact (List.pairwise_mergeSort htrans htotal ps).imp fun h => by simpa using h

theorem mem_sortPaths {ps : List Path} {p : Path} : p ∈ sortPaths ps ↔ p ∈ ps :=
  (List.mergeSort_perm ps _).mem_iff

/-- What is listed in order does not depend on the order it came in. -/
theorem sortPaths_perm {ps qs : List Path} (h : ps.Perm qs) : sortPaths ps = sortPaths qs := by
  have hperm : (sortPaths ps).Perm (sortPaths qs) :=
    (List.mergeSort_perm ps _).trans (h.trans (List.mergeSort_perm qs _).symm)
  refine hperm.eq_of_pairwise (fun p q _ _ hpq hqp => ?_) (pairwise_sortPaths ps)
    (pairwise_sortPaths qs)
  exact Path.eq_of_tokens (List.le_antisymm (List.not_lt.1 hpq) (List.not_lt.1 hqp))

theorem mem_pathsOf {ids : List NodeId} {p : Path} :
    p ∈ s.pathsOf ids ↔ ∃ id ∈ ids, ∃ n, s.nodes.find? id = some n ∧ n.path = p := by
  unfold pathsOf
  rw [mem_sortPaths]
  simp only [List.mem_filterMap, Option.map_eq_some_iff]

theorem Traced.nodup_listed (h : s.Traced) {ids : List NodeId} (hids : ids.Nodup) :
    (ids.filterMap fun id => (s.nodes.find? id).map Node.path).Nodup := by
  refine hids.filterMap fun id id' p hp hp' => ?_
  obtain ⟨n, hn, rfl⟩ := Option.map_eq_some_iff.1 hp
  obtain ⟨n', hn', hpath⟩ := Option.map_eq_some_iff.1 hp'
  exact h.id_unique hn hn' hpath.symm

theorem Traced.nodup_pathsOf (h : s.Traced) {ids : List NodeId} (hids : ids.Nodup) :
    (s.pathsOf ids).Nodup :=
  (List.mergeSort_perm _ _).nodup_iff.2 (h.nodup_listed hids)

/-- Listings with the same members are the same. -/
theorem Traced.pathsOf_congr (h : s.Traced) (h' : s'.Traced) {ids ids' : List NodeId}
    (hids : ids.Nodup) (hids' : ids'.Nodup)
    (hmem : ∀ p, p ∈ s.pathsOf ids ↔ p ∈ s'.pathsOf ids') :
    s.pathsOf ids = s'.pathsOf ids' := by
  refine sortPaths_perm ((List.perm_ext_iff_of_nodup (h.nodup_listed hids)
    (h'.nodup_listed hids')).2 fun p => ?_)
  exact mem_sortPaths.symm.trans ((hmem p).trans mem_sortPaths)

namespace Consistent

theorem mem_groupPaths (h : s.Consistent) {g : Group} {p : Path} :
    p ∈ s.groupPaths g ↔ ∃ n, s.at? p = some n ∧ n.owner = some g := by
  unfold groupPaths
  rw [mem_pathsOf]
  constructor
  · rintro ⟨id, hid, n, hn, hp⟩
    obtain ⟨m, hm, ho⟩ := (h.groups_iff g id).1 (Index.mem_ids.1 hid)
    cases hn.symm.trans hm
    exact ⟨n, h.at?_eq_some.2 ⟨id, hn, hp⟩, ho⟩
  · rintro ⟨n, hn, ho⟩
    obtain ⟨id, hid, hp⟩ := h.at?_eq_some.1 hn
    exact ⟨id, Index.mem_ids.2 ((h.groups_iff g id).2 ⟨n, hid, ho⟩), n, hid, hp⟩

theorem mem_scopePaths (h : s.Consistent) {key : ScopeKey} {p : Path} :
    p ∈ s.scopePaths key ↔ ∃ n, s.at? p = some n ∧ (n.inScope? key).isSome = true := by
  unfold scopePaths
  rw [mem_pathsOf]
  constructor
  · rintro ⟨id, hid, n, hn, hp⟩
    obtain ⟨m, hm, hk⟩ := (h.scopes_iff key id).1 (Index.mem_ids.1 hid)
    cases hn.symm.trans hm
    exact ⟨n, h.at?_eq_some.2 ⟨id, hn, hp⟩, hk⟩
  · rintro ⟨n, hn, hk⟩
    obtain ⟨id, hid, hp⟩ := h.at?_eq_some.1 hn
    exact ⟨id, Index.mem_ids.2 ((h.scopes_iff key id).2 ⟨n, hid, hk⟩), n, hid, hp⟩

theorem nodup_groupPaths (h : s.Consistent) (g : Group) : (s.groupPaths g).Nodup :=
  h.nodup_pathsOf (Index.nodup_ids s.groups g)

/-- The paths of a group are listed in order. -/
theorem ascending_groupPaths (h : s.Consistent) (g : Group) :
    (s.groupPaths g).Pairwise (· < ·) := by
  refine ((pairwise_sortPaths _).and (h.nodup_groupPaths g)).imp fun {p q} hpq => ?_
  obtain ⟨hnot, hne⟩ := hpq
  by_contra hlt
  exact hne (Path.eq_of_tokens (List.le_antisymm (List.not_lt.1 hnot) (List.not_lt.1 hlt)))

theorem groupPaths_congr (h : s.Consistent) (h' : s'.Consistent)
    (heq : ∀ p, s.at? p = s'.at? p) (g : Group) : s.groupPaths g = s'.groupPaths g := by
  refine h.pathsOf_congr h'.toTraced (Index.nodup_ids s.groups g) (Index.nodup_ids s'.groups g)
    fun p => ?_
  change p ∈ s.groupPaths g ↔ p ∈ s'.groupPaths g
  rw [h.mem_groupPaths, h'.mem_groupPaths, heq]

/-- What a scope lists is told by its values. -/
theorem scopePaths_congr (h : s.Consistent) (h' : s'.Consistent) {key : ScopeKey}
    (heq : ∀ p, ((s.at? p).bind fun n => n.inScope? key)
      = (s'.at? p).bind fun n => n.inScope? key) : s.scopePaths key = s'.scopePaths key := by
  have hholds (o : Option Node) : (∃ n, o = some n ∧ (n.inScope? key).isSome = true) ↔
      (o.bind fun n => n.inScope? key).isSome = true := by
    cases o <;> simp
  refine h.pathsOf_congr h'.toTraced (Index.nodup_ids s.scopes key)
    (Index.nodup_ids s'.scopes key) fun p => ?_
  change p ∈ s.scopePaths key ↔ p ∈ s'.scopePaths key
  rw [h.mem_scopePaths, h'.mem_scopePaths, hholds, hholds, heq]

end Consistent

end Store

end ParamStore
