import ParamStore.Proofs.Trie.Walk
import ParamStore.Table.Basic

/-!
# Edited tries

A trie made by insertions and removals is the finite map that the same edits
make (`Refines`): it finds what the map holds, gives back what the map held
before, and lists from some tokens on what the map lists from them on. It
keeps nothing else. No trace is left of what was removed, so which edits led
to a map, and in which order, cannot be told from the trie (`edits_refine`).
-/

namespace ParamStore

/-- A change of a finite map from token lists. -/
inductive Edit (α : Type) where
  | insert (tokens : List String) (a : α)
  | remove (tokens : List String)

variable {α : Type}

namespace Table

/-- Make a change. Gives back what stood in its place. -/
def edit (m : Table (List String) α) : Edit α → Option α × Table (List String) α
  | .insert tokens a => (m.find? tokens, m.insert tokens a)
  | .remove tokens => (m.find? tokens, m.erase tokens)

/-- What edits make of the empty map. -/
def ofEdits (edits : List (Edit α)) : Table (List String) α :=
  edits.foldl (fun m e => (m.edit e).2) ∅

end Table

namespace Trie

def edit (t : Trie α) : Edit α → Option α × Trie α
  | .insert tokens a => insert a tokens t
  | .remove tokens => remove tokens t

/-- What edits make of the empty trie. -/
def ofEdits (edits : List (Edit α)) : Trie α := edits.foldl (fun t e => (t.edit e).2) empty

variable {t t' c : Trie α} {m : Table (List String) α}

/-! ## What an edit gives back -/

theorem fst_insert (a : α) (tokens : List String) (t : Trie α) :
    (insert a tokens t).1 = t.get? tokens := by
  induction tokens generalizing t with
  | nil =>
    obtain ⟨v, b⟩ := t
    rfl
  | cons k ks ih =>
    obtain ⟨v, b⟩ := t
    rw [insert, get?_cons]
    refine (ih _).trans ?_
    cases hk : Entries.find? k b <;> simp [children, hk]

theorem fst_remove (tokens : List String) (t : Trie α) :
    (remove tokens t).1 = t.get? tokens := by
  induction tokens generalizing t with
  | nil =>
    obtain ⟨v, b⟩ := t
    rfl
  | cons k ks ih =>
    obtain ⟨v, b⟩ := t
    rw [remove, get?_cons]
    cases hk : Entries.find? k b with
    | none => simp [children, hk]
    | some c => simpa [children, hk] using ih c

/-! ## Canonical form -/

/-- A proper trie is determined by what is found in it. -/
theorem Proper.ext (h : t.Proper) (h' : t'.Proper) (heq : ∀ ks, t.get? ks = t'.get? ks) :
    t = t' := by
  induction h generalizing t' with
  | @level v b hasc hfilled hbelow ih =>
    have h := Proper.level (v := v) hasc hfilled hbelow
    obtain ⟨v', b'⟩ := t'
    obtain rfl : v = v' := heq []
    have hkeys : ∀ k, k ∈ (Trie.level v b).keys ↔ k ∈ (Trie.level v b').keys := fun k => by
      rw [h.mem_keys, h'.mem_keys]
      simp only [heq]
    refine congrArg (Trie.level v) (hasc.ext h'.ascending fun k => ?_)
    cases hk : Entries.find? k b with
    | none =>
      -- a key without a level in one trie has none in the other
      cases hk' : Entries.find? k b' with
      | none => rfl
      | some c' =>
        obtain ⟨c, hc⟩ := Trie.mem_keys.1 ((hkeys k).2 (Trie.mem_keys.2 ⟨c', hk'⟩))
        cases hk.symm.trans hc
    | some c =>
      obtain ⟨c', hk'⟩ := Trie.mem_keys.1 ((hkeys k).1 (Trie.mem_keys.2 ⟨c, hk⟩))
      have hmem := Entries.mem_of_find? hk
      have hc : c = c' := ih (k, c) hmem (h'.child (Entries.mem_of_find? hk')) fun ks => by
        have hbelow := heq (k :: ks)
        simpa only [get?_cons, children, hk, show Entries.find? k b' = some c' from hk',
          Option.bind_some] using hbelow
      rw [hc]
      exact hk'.symm

/-- Every level that tokens lead down to has a value at or below it. -/
theorem Proper.filled (h : t.Proper) {start : List String} (hstart : start ≠ [])
    (hc : t.find? start = some c) : ∃ rest a, c.get? rest = some a := by
  refine (h.find? hc).exists_get? ?_
  induction start generalizing t with
  | nil => exact absurd rfl hstart
  | cons k start ih =>
    rw [Trie.find?] at hc
    obtain ⟨d, hd, hc⟩ := Option.bind_eq_some_iff.1 hc
    have hmem := Entries.mem_of_find? hd
    cases start with
    | nil =>
      obtain rfl := Option.some.inj hc
      obtain ⟨-, hfilled, -⟩ := h
      exact hfilled _ hmem
    | cons k' start => exact ih (h.child hmem) (List.cons_ne_nil _ _) hc

theorem Proper.ascending_listFrom (h : t.Proper) (start : List String) :
    Entries.Ascending (t.listFrom start) := by
  unfold listFrom
  cases hc : t.find? start with
  | none => exact .nil
  | some c =>
    refine List.Pairwise.map _ (fun e e' hlt => ?_) (ascending_toList (h.find? hc))
    exact List.append_left_lt hlt

/-! ## Refinement -/

/-- The trie is proper and finds what the map holds. -/
structure Refines (t : Trie α) (m : Table (List String) α) : Prop where
  proper : t.Proper
  get?_eq : ∀ tokens, t.get? tokens = m.find? tokens

namespace Refines

theorem empty : (empty : Trie α).Refines ∅ := ⟨.empty, get?_empty⟩

/-- One edit gives back the same on both sides and keeps them together. -/
theorem edit (h : t.Refines m) (e : Edit α) :
    (t.edit e).1 = (m.edit e).1 ∧ (t.edit e).2.Refines (m.edit e).2 := by
  cases e with
  | insert tokens a =>
    refine ⟨(fst_insert a tokens t).trans (h.get?_eq tokens), h.proper.insert a tokens,
      fun tokens' => ?_⟩
    change (Trie.insert a tokens t).2.get? tokens' = (m.insert tokens a).find? tokens'
    rw [get?_insert, Table.find?_insert, h.get?_eq]
  | remove tokens =>
    refine ⟨(fst_remove tokens t).trans (h.get?_eq tokens), h.proper.remove tokens,
      fun tokens' => ?_⟩
    change (Trie.remove tokens t).2.get? tokens' = (m.erase tokens).find? tokens'
    rw [get?_remove, Table.find?_erase, h.get?_eq]

theorem edits (h : t.Refines m) (edits : List (Edit α)) :
    (edits.foldl (fun t e => (t.edit e).2) t).Refines
      (edits.foldl (fun m e => (m.edit e).2) m) := by
  induction edits generalizing t m with
  | nil => exact h
  | cons e edits ih => exact ih (h.edit e).2

theorem ofEdits (edits : List (Edit α)) : (Trie.ofEdits edits).Refines (Table.ofEdits edits) :=
  empty.edits edits

/-- A listing holds the entries of the map that start so, in the order of the
map. -/
theorem listFrom_eq (h : t.Refines m) (start : List String) :
    t.listFrom start = m.entries.filter fun e => decide (start <+: e.1) := by
  refine (h.proper.ascending_listFrom start).ext (m.ascending.filter _) fun tokens => ?_
  refine Option.ext fun a => ?_
  rw [(h.proper.ascending_listFrom start).find?_eq_some_iff,
    Entries.Ascending.find?_eq_some_iff (m.ascending.filter _), h.proper.mem_listFrom, h.get?_eq,
    Table.find?_eq_some_iff, List.mem_filter, decide_eq_true_eq, and_comm]

/-- A map has one trie. -/
theorem unique (h : t.Refines m) (h' : t'.Refines m) : t = t' :=
  h.proper.ext h'.proper fun tokens => (h.get?_eq tokens).trans (h'.get?_eq tokens).symm

end Refines

/-- Whatever is inserted and removed, the trie finds what the map of the same
edits holds, gives back what the map gives back at the next edit, and lists
from some tokens on what the map lists from them on, which is in ascending
order. Every level that tokens lead down to has a value at or below it, and
edits that make the same map make the same trie. -/
theorem edits_refine (edits : List (Edit α)) :
    (∀ tokens, (ofEdits edits).get? tokens = (Table.ofEdits edits).find? tokens)
      ∧ (∀ e, ((ofEdits edits).edit e).1 = ((Table.ofEdits edits).edit e).1)
      ∧ (∀ start, (ofEdits edits).listFrom start
          = (Table.ofEdits edits).entries.filter fun e => decide (start <+: e.1))
      ∧ (∀ start, Entries.Ascending ((ofEdits edits).listFrom start))
      ∧ (∀ start c, start ≠ [] → (ofEdits edits).find? start = some c →
          ∃ rest a, c.get? rest = some a)
      ∧ ∀ edits', Table.ofEdits edits' = Table.ofEdits edits → ofEdits edits' = ofEdits edits := by
  have h := Refines.ofEdits edits
  refine ⟨h.get?_eq, fun e => (h.edit e).1, h.listFrom_eq, h.proper.ascending_listFrom,
    fun start c => h.proper.filled, fun edits' heq => ?_⟩
  exact (heq ▸ Refines.ofEdits edits').unique h

/-- What was inserted and removed again has left no level behind. -/
example : ofEdits [.insert ["a", "b"] 1, .insert ["a"] 2, .remove ["a", "b"], .remove ["a"]]
    = empty := rfl

end Trie

end ParamStore
