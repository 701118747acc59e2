import Mathlib.Data.List.Nodup
import ParamStore.Proofs.Trie

/-!
# Walks with abbreviations

At every level a token stands for some of the keys there: for itself, if it
is one of them, and otherwise for each key that it abbreviates (`meant`). A
walk goes on where this is one key and stops where there are several or none
(`walk_cons`). A walk that comes through ends at the value under the keys it
took (`value_walk`).

The levels of a proper trie hold no other keys than those of stored values
(`Proper.mem_keys`), so a walk depends on nothing but which values are
stored.
-/

namespace ParamStore

namespace Trie

variable {α : Type} {t c : Trie α}

/-! ## Abbreviations -/

theorem abbreviates_iff {token key : String} :
    abbreviates token key = true ↔ token.toList <+: key.toList := by
  simp [abbreviates]

/-- A text comes before all that it abbreviates. -/
theorem not_lt_of_abbreviates {token key : String} (h : abbreviates token key = true) :
    ¬ key < token := by
  obtain ⟨rest, hrest⟩ := abbreviates_iff.1 h
  change ¬ key.toList < token.toList
  rw [← hrest]
  generalize token.toList = cs
  induction cs with
  | nil => simp
  | cons c cs ih => simpa [List.cons_lt_cons_iff] using ih

/-- What lies between a text and a key that it abbreviates is abbreviated by
it as well. -/
theorem abbreviates_of_lt {token key key' : String} (hkey : ¬ key < token) (hlt : key < key')
    (h : abbreviates token key' = true) : abbreviates token key = true := by
  rw [abbreviates_iff] at h ⊢
  change ¬ key.toList < token.toList at hkey
  change key.toList < key'.toList at hlt
  revert hkey hlt h
  generalize token.toList = cs
  generalize key.toList = ks
  generalize key'.toList = ks'
  induction cs generalizing ks ks' with
  | nil => simp
  | cons c cs ih =>
    intro h hkey hlt
    cases ks' with
    | nil => simp at h
    | cons c' ks' =>
      obtain ⟨rfl, hrest⟩ := List.cons_prefix_cons.1 h
      cases ks with
      | nil => simp at hkey
      | cons d ks =>
        rw [List.cons_lt_cons_iff] at hkey hlt
        obtain hlt | ⟨rfl, hlt⟩ := hlt
        · exact absurd (.inl hlt) hkey
        · exact List.cons_prefix_cons.2
            ⟨rfl, ih ks ks' hrest (fun hlt => hkey (.inr ⟨rfl, hlt⟩)) hlt⟩

theorem takeWhile_abbreviates {token : String} {b : List (String × Trie α)}
    (hasc : Entries.Ascending b) (hle : ∀ e ∈ b, ¬ e.1 < token) :
    (b.takeWhile fun e => abbreviates token e.1) = b.filter fun e => abbreviates token e.1 := by
  induction b with
  | nil => rfl
  | cons e b ih =>
    rw [List.takeWhile_cons, List.filter_cons]
    by_cases he : abbreviates token e.1 = true
    · rw [if_pos he, if_pos he, ih hasc.tail fun e he => hle e (List.mem_cons_of_mem _ he)]
    · rw [if_neg he, if_neg he, eq_comm, List.filter_eq_nil_iff]
      exact fun e' he' habb =>
        he (abbreviates_of_lt (hle e List.mem_cons_self) (hasc.head_lt e' he') habb)

/-- The keys that a token abbreviates are those that begin with it, among all
keys of the level. -/
theorem abbreviated_eq_filter (token : String) {b : List (String × Trie α)}
    (hasc : Entries.Ascending b) :
    abbreviated token b = b.filter fun e => abbreviates token e.1 := by
  induction b with
  | nil => rfl
  | cons e b ih =>
    by_cases hlt : e.1 < token
    · have habb : ¬ abbreviates token e.1 = true := fun h => not_lt_of_abbreviates h hlt
      rw [List.filter_cons, if_neg habb, ← ih hasc.tail]
      unfold abbreviated
      rw [List.dropWhile_cons, if_pos (decide_eq_true hlt)]
    · have hle : ∀ e' ∈ e :: b, ¬ e'.1 < token := by
        intro e' he' hlt'
        rcases List.mem_cons.1 he' with rfl | he'
        · exact hlt hlt'
        · exact hlt (StrictOrder.trans (hasc.head_lt e' he') hlt')
      rw [← takeWhile_abbreviates hasc hle, abbreviated, List.dropWhile_cons,
        if_neg fun h => hlt (of_decide_eq_true h)]

/-! ## Keys -/

/-- The keys below a level. -/
def keys (t : Trie α) : List String := t.children.map (·.1)

/-- The keys that a token may stand for at a level. -/
def meant (t : Trie α) (token : String) : List String :=
  if token ∈ t.keys then [token] else t.keys.filter (abbreviates token)

theorem mem_keys {k : String} : k ∈ t.keys ↔ ∃ c, Entries.find? k t.children = some c := by
  constructor
  · intro hk
    obtain ⟨e, he, rfl⟩ := List.mem_map.1 hk
    rw [← Option.ne_none_iff_exists']
    exact fun hnone => Entries.find?_eq_none_iff.1 hnone e he rfl
  · rintro ⟨c, hc⟩
    exact List.mem_map.2 ⟨(k, c), Entries.mem_of_find? hc, rfl⟩

theorem mem_meant {token k : String} :
    k ∈ t.meant token ↔ k ∈ t.keys ∧ (k = token ∨ abbreviates token k = true ∧ token ∉ t.keys) := by
  unfold meant
  split
  · next h =>
    rw [List.mem_singleton]
    exact ⟨fun hk => ⟨hk ▸ h, .inl hk⟩, fun ⟨_, hk⟩ => hk.resolve_right fun hk => hk.2 h⟩
  · next h =>
    rw [List.mem_filter]
    refine and_congr_right fun hk => ⟨fun habb => .inr ⟨habb, h⟩, ?_⟩
    rintro (rfl | ⟨habb, -⟩)
    · exact absurd hk h
    · exact habb

theorem Proper.pairwise_meant (h : t.Proper) (token : String) :
    (t.meant token).Pairwise (· < ·) := by
  have hkeys : t.keys.Pairwise (· < ·) := List.pairwise_map.2 h.ascending
  unfold meant
  split
  · exact List.pairwise_singleton _ _
  · exact hkeys.filter _

/-- Ascending lists of the same keys are equal. -/
theorem eq_of_mem_iff {ks ks' : List String} (h : ks.Pairwise (· < ·)) (h' : ks'.Pairwise (· < ·))
    (hmem : ∀ k, k ∈ ks ↔ k ∈ ks') : ks = ks' := by
  have hnodup {ks : List String} (h : ks.Pairwise (· < ·)) : ks.Nodup :=
    h.imp (S := (· ≠ ·)) fun {k k'} hlt heq => StrictOrder.irrefl k' (heq ▸ hlt)
  refine ((List.perm_ext_iff_of_nodup (hnodup h) (hnodup h')).2 hmem).eq_of_pairwise
    (fun k k' _ _ hlt hlt' => ?_) h h'
  exact absurd (StrictOrder.trans hlt hlt') (StrictOrder.irrefl k)

/-! ## Walks -/

/-- The walk over a token that may stand for these keys: it goes on if there
is just one. -/
def Walk.choose (go : String → Walk α) : List String → Walk α
  | [] => { matched := [], candidates := [], value := none }
  | [k] => (go k).through k
  | several => { matched := [], candidates := several, value := none }

/-- A walk goes on through the one key that its first token stands for. -/
theorem walk_cons (h : t.Proper) (token : String) (ts : List String) :
    t.walk false (token :: ts) = Walk.choose
      (fun k => ((Entries.find? k t.children).getD empty).walk false ts) (t.meant token) := by
  rw [walk]
  unfold meant
  cases hfind : Entries.find? token t.children with
  | some c =>
    have hmem : token ∈ t.keys := mem_keys.2 ⟨c, hfind⟩
    simp [if_pos hmem, hfind, Walk.choose]
  | none =>
    have hmem : token ∉ t.keys := fun hmem => by
      obtain ⟨c, hc⟩ := mem_keys.1 hmem
      rw [hfind] at hc
      cases hc
    have hkeys : t.keys.filter (abbreviates token)
        = (abbreviated token t.children).map (·.1) := by
      rw [abbreviated_eq_filter token h.ascending, keys, List.filter_map]
      rfl
    have hsub : ∀ e ∈ abbreviated token t.children, e ∈ t.children := fun e he => by
      rw [abbreviated_eq_filter token h.ascending] at he
      exact (List.mem_filter.1 he).1
    rw [if_neg hmem, hkeys]
    rcases habb : abbreviated token t.children with _ | ⟨⟨k, c⟩, _ | ⟨e, es⟩⟩
    · simp [Walk.choose]
    · have hk : Entries.find? k t.children = some c :=
        h.ascending.find?_of_mem (hsub _ (habb ▸ List.mem_singleton_self _))
      simp [hk, Walk.choose]
    · simp [Walk.choose]

/-! ## Where a walk ends -/

theorem find?_append (t : Trie α) (xs ys : List String) :
    t.find? (xs ++ ys) = (t.find? xs).bind fun c => c.find? ys := by
  induction xs generalizing t with
  | nil => rfl
  | cons x xs ih =>
    rw [List.cons_append, find?, find?]
    cases Entries.find? x t.children with
    | none => rfl
    | some c => exact ih c

theorem get?_append (t : Trie α) (xs ys : List String) :
    t.get? (xs ++ ys) = (t.find? xs).bind fun c => c.get? ys := by
  unfold get?
  rw [find?_append]
  cases t.find? xs <;> rfl

theorem find?_singleton (t : Trie α) (k : String) :
    t.find? [k] = Entries.find? k t.children := by
  rw [find?]
  cases Entries.find? k t.children <;> rfl

/-- A walk that comes through ends at the value under the keys that it took. -/
theorem value_walk (h : t.Proper) (ts : List String) :
    (t.walk false ts).value
      = if (t.walk false ts).count = ts.length then t.get? (t.walk false ts).matched else none := by
  induction ts generalizing t with
  | nil => simp [walk, Walk.count]
  | cons token ts ih =>
    rw [walk_cons h]
    rcases hm : t.meant token with _ | ⟨k, _ | ⟨k', ks⟩⟩
    · simp [Walk.choose, Walk.count]
    · obtain ⟨c, hc⟩ := mem_keys.1 (mem_meant.1 (hm ▸ List.mem_singleton_self k)).1
      have hvalue := ih (h.child (Entries.mem_of_find? hc))
      simp only [Walk.choose, hc, Option.getD_some, Walk.through, Walk.count, List.length_cons,
        get?_cons, Option.bind_some, Nat.add_right_cancel_iff]
      rw [hvalue, Walk.count]
    · simp [Walk.choose, Walk.count]

/-- Keys that are written out lead to their value, exactly or not. -/
theorem walk_of_get? {exact : Bool} {ts : List String} {a : α} (h : t.get? ts = some a) :
    t.walk exact ts = { matched := ts, candidates := [], value := some a } := by
  induction ts generalizing t with
  | nil => rw [walk, ← h]; rfl
  | cons token ts ih =>
    rw [get?_cons] at h
    obtain ⟨c, hc, ha⟩ := Option.bind_eq_some_iff.1 h
    simp [walk, hc, ih ha, Walk.through]

/-! ## Proper tries -/

theorem Proper.find? (h : t.Proper) {start : List String} (hc : t.find? start = some c) :
    c.Proper := by
  induction start generalizing t with
  | nil => exact Option.some.inj hc ▸ h
  | cons k start ih =>
    rw [Trie.find?] at hc
    obtain ⟨d, hd, hc⟩ := Option.bind_eq_some_iff.1 hc
    exact ih (h.child (Entries.mem_of_find? hd)) hc

/-- A level that is not empty has a value at or below it. -/
theorem Proper.exists_get? (h : t.Proper) (hne : t.isEmpty = false) :
    ∃ ks a, t.get? ks = some a := by
  induction h with
  | @level v b hasc hfilled _ ih =>
    cases v with
    | some a => exact ⟨[], a, rfl⟩
    | none =>
      cases b with
      | nil => cases hne
      | cons e b =>
        obtain ⟨ks, a, ha⟩ := ih e List.mem_cons_self (hfilled e List.mem_cons_self)
        exact ⟨e.1 :: ks, a, by simp [get?_cons, children, Entries.find?, ha]⟩

/-- The keys of a level are the first tokens of what is stored below it. -/
theorem Proper.mem_keys (h : t.Proper) {k : String} :
    k ∈ t.keys ↔ ∃ ks a, t.get? (k :: ks) = some a := by
  rw [Trie.mem_keys]
  constructor
  · rintro ⟨c, hc⟩
    have hmem := Entries.mem_of_find? hc
    have hne : c.isEmpty = false := by
      obtain ⟨-, hfilled, -⟩ := h
      exact hfilled _ hmem
    obtain ⟨ks, a, ha⟩ := (h.child hmem).exists_get? hne
    exact ⟨ks, a, by rw [get?_cons, hc, Option.bind_some, ha]⟩
  · rintro ⟨ks, a, ha⟩
    rw [get?_cons] at ha
    obtain ⟨c, hc, -⟩ := Option.bind_eq_some_iff.1 ha
    exact ⟨c, hc⟩

theorem Proper.mem_listFrom (h : t.Proper) {start ks : List String} {a : α} :
    (ks, a) ∈ t.listFrom start ↔ start <+: ks ∧ t.get? ks = some a := by
  unfold listFrom
  cases hc : t.find? start with
  | none =>
    simp only [List.not_mem_nil, false_iff, not_and]
    rintro ⟨rest, rfl⟩
    simp [get?_append, hc]
  | some c =>
    simp only [List.mem_map, Prod.exists, Prod.mk.injEq, mem_toList (h.find? hc)]
    constructor
    · rintro ⟨rest, a', ha, rfl, rfl⟩
      exact ⟨List.prefix_append _ _, by rw [get?_append, hc, Option.bind_some, ha]⟩
    · rintro ⟨⟨rest, rfl⟩, ha⟩
      rw [get?_append, hc, Option.bind_some] at ha
      exact ⟨rest, a, ha, rfl, rfl⟩

end Trie

end ParamStore
