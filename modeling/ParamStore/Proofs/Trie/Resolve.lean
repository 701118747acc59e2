import ParamStore.Proofs.Text.Utf8
import ParamStore.Proofs.Trie.Refinement

/-!
# Walks and plain resolution

A walk reads the keys of a level from the first one on that is not smaller
than the token, and stops at the first that does not begin with it. What it is
to find is told without the order (`resolve`): the key that equals the token
or else, of all the keys of the level, the only one that begins with it. In a
trie made by insertions and removals both come to the same (`walks_resolve`).
-/

namespace ParamStore

namespace Trie

variable {α : Type} {t c : Trie α}

/-- The walk that takes at each level the key that equals the token or, where
there is none, the only key that begins with it. Where several do, it stops
with all of them. -/
def resolve (t : Trie α) : List String → Walk α
  | [] => { matched := [], candidates := [], value := t.value }
  | token :: ts =>
    match t.children.lookup token with
    | some c => (c.resolve ts).through token
    | none =>
      match t.children.filter fun e => decide (token.toList <+: e.1.toList) with
      | [(k, c)] => (c.resolve ts).through k
      | levels => { matched := [], candidates := levels.map (·.1), value := none }

theorem find?_eq_lookup (k : String) (b : List (String × Trie α)) :
    Entries.find? k b = b.lookup k := by
  induction b with
  | nil => rfl
  | cons e b ih =>
    obtain ⟨k', c⟩ := e
    rw [Entries.find?, List.lookup_cons, ih]
    by_cases hk : k' = k
    · simp [hk]
    · have hbeq : (k == k') = false := by simpa using Ne.symm hk
      rw [if_neg hk, hbeq]

/-- The scan misses no key and takes none too many. -/
theorem walk_eq_resolve (h : t.Proper) (ts : List String) : t.walk false ts = t.resolve ts := by
  induction ts generalizing t with
  | nil => rfl
  | cons token ts ih =>
    rw [walk, resolve, find?_eq_lookup, abbreviated_eq_filter token h.ascending]
    cases hc : t.children.lookup token with
    | some c =>
      rw [← find?_eq_lookup] at hc
      exact congrArg (Walk.through token) (ih (h.child (Entries.mem_of_find? hc)))
    | none =>
      have habb : (fun e : String × Trie α => abbreviates token e.1)
          = fun e => decide (token.toList <+: e.1.toList) := by
        funext e
        rw [Bool.eq_iff_iff, abbreviates_iff, decide_eq_true_iff]
      rw [habb]
      rcases hlevels : t.children.filter _ with _ | ⟨⟨k, c⟩, _ | ⟨e, es⟩⟩
      · rfl
      · have hmem : (k, c) ∈ t.children :=
          (List.mem_filter.1 (hlevels ▸ List.mem_singleton_self _)).1
        exact congrArg (Walk.through k) (ih (h.child hmem))
      · rfl

/-! ## What a walk says of itself -/

/-- The keys of a level are in the order of their bytes. -/
theorem Proper.ascending_utf8 (h : t.Proper) : (t.keys.map Text.utf8).Pairwise (· < ·) := by
  rw [keys, List.map_map]
  exact List.Pairwise.map _ (fun e e' hlt => Text.utf8_lt_iff.2 hlt) h.ascending

/-- A walk goes on through a key that begins with its token, or stops at keys
in ascending order. An exact one takes no other key than the token. -/
theorem Proper.walk_cases (h : t.Proper) (exact : Bool) (token : String) (ts : List String) :
    (∃ k c, Entries.find? k t.children = some c ∧ token.toList <+: k.toList
      ∧ (exact = true → k = token)
      ∧ t.walk exact (token :: ts) = (c.walk exact ts).through k) ∨
    ∃ ks, ks.Pairwise (· < ·)
      ∧ t.walk exact (token :: ts) = { matched := [], candidates := ks, value := none } := by
  cases exact with
  | true =>
    rw [walk]
    cases hc : Entries.find? token t.children with
    | none => exact .inr ⟨[], .nil, rfl⟩
    | some c => exact .inl ⟨token, c, hc, List.prefix_refl _, fun _ => rfl, rfl⟩
  | false =>
    rw [walk_cons h]
    have hmeant := h.pairwise_meant token
    rcases hm : t.meant token with _ | ⟨k, _ | ⟨k', ks⟩⟩
    · exact .inr ⟨[], .nil, rfl⟩
    · obtain ⟨hk, hbegins⟩ := mem_meant.1 (hm ▸ List.mem_singleton_self k)
      obtain ⟨c, hc⟩ := Trie.mem_keys.1 hk
      refine .inl ⟨k, c, hc, ?_, fun hexact => (by cases hexact), by simp [Walk.choose, hc]⟩
      obtain rfl | ⟨habb, -⟩ := hbegins
      · exact List.prefix_refl _
      · exact abbreviates_iff.1 habb
    · exact .inr ⟨_, hm ▸ hmeant, rfl⟩

theorem Proper.matched_extends (h : t.Proper) (exact : Bool) (tokens : List String) :
    List.Forall₂ (fun token key => token.toList <+: key.toList)
      (tokens.take (t.walk exact tokens).count) (t.walk exact tokens).matched := by
  induction tokens generalizing t with
  | nil => exact .nil
  | cons token ts ih =>
    obtain ⟨k, c, hc, hk, -, heq⟩ | ⟨ks, -, heq⟩ := h.walk_cases exact token ts
    · rw [heq]
      exact .cons hk (ih (h.child (Entries.mem_of_find? hc)))
    · rw [heq]
      exact .nil

theorem Proper.ascending_candidates (h : t.Proper) (exact : Bool) (tokens : List String) :
    (t.walk exact tokens).candidates.Pairwise (· < ·) := by
  induction tokens generalizing t with
  | nil => exact .nil
  | cons token ts ih =>
    obtain ⟨k, c, hc, -, -, heq⟩ | ⟨ks, hks, heq⟩ := h.walk_cases exact token ts
    · rw [heq]
      exact ih (h.child (Entries.mem_of_find? hc))
    · rw [heq]
      exact hks

/-- A walk that came through comes to the same when its keys are written out. -/
theorem Proper.walk_matched (h : t.Proper) {exact : Bool} {tokens : List String}
    (hcount : (t.walk exact tokens).count = tokens.length) :
    t.walk true (t.walk exact tokens).matched = t.walk exact tokens := by
  induction tokens generalizing t with
  | nil => rfl
  | cons token ts ih =>
    obtain ⟨k, c, hc, -, -, heq⟩ | ⟨ks, -, heq⟩ := h.walk_cases exact token ts
    · rw [heq] at hcount ⊢
      have hrest := ih (h.child (Entries.mem_of_find? hc)) (Nat.succ.inj hcount)
      simp only [Walk.through, walk, hc, hrest]
    · rw [heq] at hcount
      cases hcount

/-- An exact walk takes no key for a token but the token. -/
theorem matched_walk_exact (t : Trie α) (tokens : List String) :
    (t.walk true tokens).matched <+: tokens := by
  induction tokens generalizing t with
  | nil => exact List.prefix_refl _
  | cons token ts ih =>
    rw [walk]
    cases Entries.find? token t.children with
    | none => exact List.nil_prefix
    | some c => exact List.cons_prefix_cons.2 ⟨rfl, ih c⟩

/-- An exact walk comes as far along its tokens as there are levels. -/
theorem isSome_find?_iff_count (t : Trie α) {tokens start : List String}
    (hstart : start <+: tokens) :
    (t.find? start).isSome = true ↔ start.length ≤ (t.walk true tokens).count := by
  induction tokens generalizing t start with
  | nil =>
    obtain rfl := List.prefix_nil.1 hstart
    exact iff_of_true rfl (Nat.le_refl 0)
  | cons token ts ih =>
    cases start with
    | nil => exact iff_of_true rfl (Nat.zero_le _)
    | cons k start =>
      obtain ⟨rfl, hrest⟩ := List.cons_prefix_cons.1 hstart
      rw [walk, Trie.find?]
      cases Entries.find? k t.children with
      | none => exact iff_of_false Bool.false_ne_true (Nat.not_succ_le_zero _)
      | some c => exact (ih c hrest).trans Nat.succ_le_succ_iff.symm

/-- What a walk along these tokens shows: how far it came, among which keys it
could not choose, and where it ended. -/
structure Walk.Accounts (t : Trie α) (tokens : List String) (w : Walk α) : Prop where
  count_eq : w.count = w.matched.length
  /-- Each key that was taken equals its token or extends it. -/
  matched_extends :
    List.Forall₂ (fun token key => token.toList <+: key.toList) (tokens.take w.count) w.matched
  ambiguous_iff : w.ambiguous = true ↔ w.candidates ≠ []
  ascending : (w.candidates.map Text.utf8).Pairwise (· < ·)
  /-- Once every token is resolved, an exact walk along the keys is the same. -/
  written_out : w.count = tokens.length → t.walk true w.matched = w
  stored : ∀ a, t.get? tokens = some a → w.found = true ∧ w.value = some a

theorem Proper.accounts (h : t.Proper) (exact : Bool) (tokens : List String) :
    (t.walk exact tokens).Accounts t tokens where
  count_eq := rfl
  matched_extends := h.matched_extends exact tokens
  ambiguous_iff := by simp [Walk.ambiguous]
  ascending := (h.ascending_candidates exact tokens).map _ fun _ _ => Text.utf8_lt_iff.2
  written_out := h.walk_matched
  stored := fun a ha => by
    rw [walk_of_get? ha]
    exact ⟨rfl, rfl⟩

/-- Whatever was inserted and removed: the keys of every level are in the order
of their bytes, a walk with abbreviations is the plain resolution of its
tokens, and an exact walk takes the tokens as they are and finds what is stored
at them. -/
theorem walks_resolve (edits : List (Edit α)) (tokens : List String) :
    (∀ start c, (ofEdits edits).find? start = some c → (c.keys.map Text.utf8).Pairwise (· < ·))
      ∧ (ofEdits edits).walk false tokens = (ofEdits edits).resolve tokens
      ∧ ((ofEdits edits).walk true tokens).matched <+: tokens
      ∧ ((ofEdits edits).walk true tokens).candidates = []
      ∧ ((ofEdits edits).walk true tokens).value = (ofEdits edits).get? tokens
      ∧ ∀ exact, ((ofEdits edits).walk exact tokens).Accounts (ofEdits edits) tokens := by
  have h : (ofEdits edits).Proper := (Refines.ofEdits edits).proper
  exact ⟨fun start c hc => (h.find? hc).ascending_utf8, walk_eq_resolve h tokens,
    matched_walk_exact _ tokens, candidates_walk_exact _ tokens, value_walk_exact _ tokens,
    fun exact => h.accounts exact tokens⟩

/-- A key goes before what it abbreviates, and the scan stops before `other`. -/
example : (ofEdits [.insert ["env", "home"] 1, .insert ["env", "host"] 2, .insert ["envy"] 3,
      .insert ["other"] 4]).walk false ["env", "ho", "x"]
    = { matched := ["env"], candidates := ["home", "host"], value := none } := by
  decide +kernel

end Trie

end ParamStore
