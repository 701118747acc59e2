import ParamStore.Proofs.Store.Release
import ParamStore.Proofs.Store.Write

/-!
# Runs of a store

A store as a machine that takes one request after the other, each from a
caller of its own. Whoever calls, and whether a request is answered or
refused, the store stays consistent (`consistent_serve`, and by induction
`consistent_run`).
-/

namespace ParamStore

namespace Store

/-- What a caller may ask of a store. -/
inductive Request where
  | set (path : String) (input : Input) (o : SetOptions)
  | unset (path : String) (o : UnsetOptions)
  | flush
  | clearFrozen (group : Group)
  | get (path : String) (o : LookupOptions)
  | has (path : String) (o : LookupOptions)
  | dictionary (start : String) (shared fallback : Bool)
  | owner (path : String)
  | isFrozen (path : String)
  | groupPaths (group : Group)
  | scopePaths (key : ScopeKey)
  | hasScope (key : ScopeKey)
  | groupNames
  | paths
  | size

inductive Answer where
  | stored (p : Parameter)
  | found (p : Option Parameter)
  | table (t : Table String Parameter)
  | owner (g : Option Group)
  | flag (b : Bool)
  | count (n : Nat)
  | paths (ps : List Path)
  | groups (gs : List Group)
  | refused (e : StoreError)

/-- The answer to an operation that may be refused. -/
def Answer.ofExcept {α : Type} (f : α → Answer) : Except StoreError α → Answer
  | .ok a => f a
  | .error e => .refused e

/-- Answer a request. -/
def serve (s : Store) (kind : Kind) (caller : Caller) : Request → Answer × Store
  | .set path input o =>
    let (answer, s) := s.set kind caller path input o
    (.ofExcept .stored answer, s)
  | .unset path o =>
    let (answer, s) := s.unset kind caller path o
    (.ofExcept .found answer, s)
  | .flush =>
    let (count, s) := s.flush caller.scope
    (.count count, s)
  | .clearFrozen group =>
    let (answer, s) := s.clearFrozen group
    (.ofExcept .count answer, s)
  | .get path o => (.ofExcept .found (s.get caller path o), s)
  | .has path o => (.ofExcept .flag (s.has caller path o), s)
  | .dictionary start shared fallback =>
    (.ofExcept .table (s.dictionary caller start shared fallback), s)
  | .owner path => (.ofExcept .owner (s.owner path), s)
  | .isFrozen path => (.ofExcept .flag (s.isFrozen path), s)
  | .groupPaths group => (.paths (s.groupPaths group), s)
  | .scopePaths key => (.paths (s.scopePaths key), s)
  | .hasScope key => (.flag (s.hasScope key), s)
  | .groupNames => (.groups s.groupNames, s)
  | .paths => (.paths s.paths, s)
  | .size => (.count s.size, s)

/-- The store after requests, each from the caller beside it. -/
def run (kind : Kind) (s : Store) (calls : List (Caller × Request)) : Store :=
  calls.foldl (fun s c => (s.serve kind c.1 c.2).2) s

theorem run_append (kind : Kind) (s : Store) (calls more : List (Caller × Request)) :
    run kind s (calls ++ more) = run kind (run kind s calls) more :=
  List.foldl_append

/-! ## One request -/

theorem consistent_serve {s : Store} (h : s.Consistent) (kind : Kind) (caller : Caller)
    (r : Request) :
    (s.serve kind caller r).2.Consistent ∧ s.Precedes (s.serve kind caller r).2 := by
  cases r with
  | set text input o =>
    change (s.set kind caller text input o).2.Consistent ∧
      s.Precedes (s.set kind caller text input o).2
    obtain ⟨e, -, heq⟩ | ⟨p, stored, n', -, -, hy⟩ := set_cases kind caller h text input o
    · rw [heq]
      exact ⟨h, .refl s⟩
    · exact ⟨hy.consistent, hy.precedes⟩
  | unset text o =>
    change (s.unset kind caller text o).2.Consistent ∧
      s.Precedes (s.unset kind caller text o).2
    obtain ⟨e, -, heq⟩ | ⟨p, removed, n', -, -, hy⟩ := unset_cases kind caller h text o
    · rw [heq]
      exact ⟨h, .refl s⟩
    · exact ⟨hy.consistent, hy.precedes⟩
  | flush =>
    have hy := yields_flush h caller.scope
    exact ⟨hy.consistent, hy.precedes⟩
  | clearFrozen g =>
    have hy := (yields_clearFrozen h g).2
    exact ⟨hy.consistent, hy.precedes⟩
  | get | has | dictionary | owner | isFrozen | groupPaths | scopePaths | hasScope | groupNames
  | paths | size => exact ⟨h, .refl s⟩

/-! ## Many requests -/

theorem consistent_run {s : Store} (h : s.Consistent) (kind : Kind)
    (calls : List (Caller × Request)) :
    (run kind s calls).Consistent ∧ s.Precedes (run kind s calls) := by
  induction calls generalizing s with
  | nil => exact ⟨h, .refl s⟩
  | cons c calls ih =>
    obtain ⟨hc, hp⟩ := consistent_serve h kind c.1 c.2
    obtain ⟨hc', hp'⟩ := ih hc
    exact ⟨hc', hp.trans hp'⟩

/-- The trie of a consistent store lists its nodes, each once. -/
theorem Traced.toList_perm {s : Store} (h : s.Traced) :
    s.trie.toList.Perm (s.nodes.entries.map fun e => (e.2.path.tokens, e.1)) := by
  have hnodup : (s.nodes.entries.map fun e => (e.2.path.tokens, e.1)).Nodup := by
    refine List.Pairwise.map _ (fun e e' hlt heq => ?_) s.nodes.ascending
    have hid : e.1 = e'.1 := congrArg Prod.snd heq
    exact Nat.lt_irrefl _ (hid ▸ hlt)
  refine (List.perm_ext_iff_of_nodup (Trie.nodup_toList h.proper) hnodup).2 ?_
  rintro ⟨ts, id⟩
  rw [Trie.mem_toList h.proper, h.leads, List.mem_map]
  constructor
  · rintro ⟨n, hn, hts⟩
    exact ⟨(id, n), Table.find?_eq_some_iff.1 hn, by rw [hts]⟩
  · rintro ⟨⟨id', n⟩, hn, heq⟩
    cases heq
    exact ⟨n, Table.find?_eq_some_iff.2 hn, rfl⟩

/-- Whatever is asked of a store that was empty, by whomever: it is
consistent, its trie lists the nodes with their paths and nothing else, and
none of the identifiers that it gave out ever comes back for another node. -/
theorem run_empty_consistent (kind : Kind) (calls more : List (Caller × Request)) :
    (run kind .empty calls).Consistent
      ∧ (run kind .empty calls).trie.toList.Perm
          ((run kind .empty calls).nodes.entries.map fun e => (e.2.path.tokens, e.1))
      ∧ (run kind .empty calls).Precedes (run kind .empty (calls ++ more)) := by
  have h := (consistent_run .empty kind calls).1
  refine ⟨h, h.toList_perm, ?_⟩
  rw [run_append]
  exact (consistent_run h kind more).2

end Store

end ParamStore
