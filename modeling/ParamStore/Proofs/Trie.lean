import ParamStore.Trie

/-!
# Tries as finite maps

What `insert` and `remove` do, told by what `get?` finds afterwards, and
the shape that both keep: `Proper` says that the keys of every level
ascend and that no level below the root is empty.

A proper trie is a finite map in full: `mem_toList` says that its listing
holds exactly what `get?` finds, and `ascending_toList` that it is in token
order. The exact walk is `get?` again (`value_walk_exact`).
-/

namespace ParamStore

namespace Trie

variable {α : Type}

@[simp] theorem get?_nil (t : Trie α) : t.get? [] = t.value := rfl

theorem get?_cons (t : Trie α) (k : String) (ks : List String) :
    t.get? (k :: ks) = (Entries.find? k t.children).bind fun c => c.get? ks := by
  unfold get?
  rw [find?]
  cases Entries.find? k t.children <;> rfl

@[simp] theorem get?_empty (ks : List String) : (empty : Trie α).get? ks = none := by
  cases ks <;> rfl

theorem get?_of_isEmpty {t : Trie α} (h : t.isEmpty = true) (ks : List String) :
    t.get? ks = none := by
  obtain ⟨v, b⟩ := t
  simp only [isEmpty, Bool.and_eq_true, Option.isNone_iff_eq_none, List.isEmpty_iff] at h
  obtain ⟨rfl, rfl⟩ := h
  exact get?_empty ks

/-! ## What is found afterwards -/

theorem get?_insert (a : α) (ks ks' : List String) (t : Trie α) :
    (insert a ks t).2.get? ks' = if ks = ks' then some a else t.get? ks' := by
  induction ks generalizing ks' t with
  | nil =>
    obtain ⟨v, b⟩ := t
    cases ks' with
    | nil => simp [insert, value]
    | cons k' ks' => simp [insert, get?_cons, children]
  | cons k ks ih =>
    obtain ⟨v, b⟩ := t
    cases ks' with
    | nil => simp [insert, value]
    | cons k' ks' =>
      simp only [insert, get?_cons, children, Entries.find?_insert, List.cons.injEq]
      by_cases hk : k = k'
      · subst hk
        rw [if_pos rfl, Option.bind_some, ih]
        cases hfind : Entries.find? k b <;> simp
      · rw [if_neg hk, if_neg (fun h => hk h.1)]

theorem get?_remove (ks ks' : List String) (t : Trie α) :
    (remove ks t).2.get? ks' = if ks = ks' then none else t.get? ks' := by
  induction ks generalizing ks' t with
  | nil =>
    obtain ⟨v, b⟩ := t
    cases ks' with
    | nil => simp [remove, value]
    | cons k' ks' => simp [remove, get?_cons, children]
  | cons k ks ih =>
    obtain ⟨v, b⟩ := t
    unfold remove
    cases hfind : Entries.find? k b with
    | none =>
      cases ks' with
      | nil => simp [value]
      | cons k' ks' =>
        by_cases hk : k = k'
        · subst hk; simp [get?_cons, children, hfind]
        · simp [hk]
    | some c =>
      cases ks' with
      | nil => simp [value]
      | cons k' ks' =>
        simp only [get?_cons, children, List.cons.injEq]
        by_cases hk : k = k'
        · subst hk
          have hsub := ih ks' c
          by_cases hempty : (remove ks c).2.isEmpty = true
          · rw [get?_of_isEmpty hempty] at hsub
            simp only [hempty, if_true, Entries.find?_erase, Option.bind_none, hfind,
              Option.bind_some, true_and]
            exact hsub
          · simpa [hempty, Entries.find?_insert, hfind] using hsub
        · have hne : ¬ (k = k' ∧ ks = ks') := fun h => hk h.1
          rw [if_neg hne]
          by_cases hempty : (remove ks c).2.isEmpty = true
          · simp [hempty, Entries.find?_erase, hk]
          · simp [hempty, Entries.find?_insert, hk]

/-! ## The exact walk -/

theorem value_walk_exact (t : Trie α) (ks : List String) :
    (t.walk true ks).value = t.get? ks := by
  induction ks generalizing t with
  | nil => rfl
  | cons k ks ih =>
    rw [walk, get?_cons]
    cases Entries.find? k t.children with
    | none => rfl
    | some c => exact ih c

theorem candidates_walk_exact (t : Trie α) (ks : List String) :
    (t.walk true ks).candidates = [] := by
  induction ks generalizing t with
  | nil => rfl
  | cons k ks ih =>
    rw [walk]
    cases Entries.find? k t.children with
    | none => rfl
    | some c => exact ih c

/-! ## Proper tries -/

/-- The keys of every level ascend, and no level below the root is empty. -/
inductive Proper : Trie α → Prop where
  | level {v : Option α} {b : List (String × Trie α)} (ascending : Entries.Ascending b)
      (filled : ∀ e ∈ b, e.2.isEmpty = false) (below : ∀ e ∈ b, Proper e.2) :
      Proper (.level v b)

theorem Proper.empty : Proper (empty : Trie α) :=
  .level .nil (by simp) (by simp)

theorem Proper.ascending {t : Trie α} (h : t.Proper) : Entries.Ascending t.children := by
  obtain ⟨hasc, -, -⟩ := h
  exact hasc

theorem Proper.child {t : Trie α} (h : t.Proper) {e : String × Trie α}
    (he : e ∈ t.children) : e.2.Proper := by
  obtain ⟨-, -, hbelow⟩ := h
  exact hbelow e he

theorem isEmpty_insert (a : α) (ks : List String) (t : Trie α) :
    (insert a ks t).2.isEmpty = false := by
  obtain ⟨v, b⟩ := t
  cases ks with
  | nil => simp [insert, isEmpty]
  | cons k ks =>
    have hne : Entries.insert k (insert a ks ((Entries.find? k b).getD Trie.empty)).2 b ≠ [] := by
      intro hnil
      have hfind := Entries.find?_insert k k
        (insert a ks ((Entries.find? k b).getD Trie.empty)).2 b
      simp [hnil, Entries.find?] at hfind
    simp [insert, isEmpty, hne]

theorem Proper.insert {t : Trie α} (h : t.Proper) (a : α) (ks : List String) :
    (insert a ks t).2.Proper := by
  induction ks generalizing t with
  | nil =>
    obtain ⟨hasc, hfilled, hbelow⟩ := h
    exact .level hasc hfilled hbelow
  | cons k ks ih =>
    obtain ⟨hasc, hfilled, hbelow⟩ := h
    rename_i v b
    have hchild : ((Entries.find? k b).getD Trie.empty).Proper := by
      cases hfind : Entries.find? k b with
      | none => exact .empty
      | some c => exact hbelow _ (Entries.mem_of_find? hfind)
    refine .level (hasc.insert k _) (fun e he => ?_) (fun e he => ?_)
    · rcases Entries.mem_insert he with rfl | he
      · exact isEmpty_insert a ks _
      · exact hfilled e he
    · rcases Entries.mem_insert he with rfl | he
      · exact ih hchild
      · exact hbelow e he

theorem Proper.remove {t : Trie α} (h : t.Proper) (ks : List String) :
    (remove ks t).2.Proper := by
  induction ks generalizing t with
  | nil =>
    obtain ⟨hasc, hfilled, hbelow⟩ := h
    exact .level hasc hfilled hbelow
  | cons k ks ih =>
    obtain ⟨hasc, hfilled, hbelow⟩ := h
    rename_i v b
    unfold Trie.remove
    cases hfind : Entries.find? k b with
    | none => exact .level hasc hfilled hbelow
    | some c =>
      have hc : (Trie.remove ks c).2.Proper := ih (hbelow _ (Entries.mem_of_find? hfind))
      by_cases hempty : (Trie.remove ks c).2.isEmpty = true
      · simp only [hempty, if_true]
        refine .level (hasc.erase k) (fun e he => ?_) (fun e he => ?_)
        · exact hfilled e (List.mem_filter.1 he).1
        · exact hbelow e (List.mem_filter.1 he).1
      · simp only [hempty, Bool.false_eq_true, if_false]
        refine .level (hasc.insert k _) (fun e he => ?_) (fun e he => ?_)
        · rcases Entries.mem_insert he with rfl | he
          · simpa using hempty
          · exact hfilled e he
        · rcases Entries.mem_insert he with rfl | he
          · exact hc
          · exact hbelow e he

/-! ## The listing -/

theorem mem_toListChildren {b : List (String × Trie α)} {e : List String × α} :
    e ∈ toListChildren b ↔ ∃ c ∈ b, ∃ e' ∈ c.2.toList, e = (c.1 :: e'.1, e'.2) := by
  induction b with
  | nil => simp [toListChildren]
  | cons c b ih =>
    obtain ⟨k, c⟩ := c
    simp only [toListChildren, List.mem_append, List.mem_map, ih, List.mem_cons,
      exists_eq_or_imp, eq_comm (a := e)]

theorem mem_toList {t : Trie α} (h : t.Proper) {ks : List String} {a : α} :
    (ks, a) ∈ t.toList ↔ t.get? ks = some a := by
  induction ks generalizing t with
  | nil =>
    obtain ⟨v, b⟩ := t
    simp only [toList, List.mem_append, mem_toListChildren, get?_nil, value]
    constructor
    · rintro (hv | ⟨c, -, e', -, heq⟩)
      · simpa using hv
      · cases heq
    · intro hv
      exact Or.inl (by simpa using hv)
  | cons k ks ih =>
    obtain ⟨v, b⟩ := t
    simp only [toList, List.mem_append, mem_toListChildren, get?_cons, children]
    constructor
    · rintro (hv | ⟨⟨k', c⟩, hc, e', he', heq⟩)
      · simp at hv
      · cases heq
        have hfind : Entries.find? k' b = some c := h.ascending.find?_of_mem hc
        rw [hfind, Option.bind_some]
        exact (ih (h.child hc)).1 he'
    · intro hget
      obtain ⟨c, hfind, hc⟩ := Option.bind_eq_some_iff.1 hget
      have hmem : (k, c) ∈ b := Entries.mem_of_find? hfind
      exact Or.inr ⟨(k, c), hmem, (ks, a), (ih (h.child hmem)).2 hc, rfl⟩

/-- Token lists are ordered lexicographically. -/
instance : StrictOrder (List String) where
  irrefl ts := List.not_lt.2 (List.le_refl ts)
  trans h h' := List.lt_trans h h'
  connected h h' := List.le_antisymm (List.not_lt.1 h') (List.not_lt.1 h)

theorem ascending_toListChildren {b : List (String × Trie α)} (hasc : Entries.Ascending b)
    (hbelow : ∀ e ∈ b, Entries.Ascending e.2.toList) : Entries.Ascending (toListChildren b) := by
  induction b with
  | nil => exact .nil
  | cons c b ih =>
    obtain ⟨k, c⟩ := c
    refine List.pairwise_append.2 ⟨?_, ih hasc.tail fun e he =>
      hbelow e (List.mem_cons_of_mem _ he), fun e he e' he' => ?_⟩
    · exact List.Pairwise.map _ (fun e e' hlt => List.cons_lt_cons_iff.2 (.inr ⟨rfl, hlt⟩))
        (hbelow _ List.mem_cons_self)
    · -- what stands under a later key comes after all that stands under `k`
      obtain ⟨d, -, rfl⟩ := List.mem_map.1 he
      obtain ⟨c', hc', d', -, rfl⟩ := mem_toListChildren.1 he'
      exact List.cons_lt_cons_iff.2 (.inl (hasc.head_lt c' hc'))

/-- A listing is in token order. -/
theorem ascending_toList {t : Trie α} (h : t.Proper) : Entries.Ascending t.toList := by
  induction h with
  | @level v b hasc _ _ ih =>
    refine List.pairwise_append.2 ⟨by cases v <;> simp, ascending_toListChildren hasc ih, ?_⟩
    intro e he e' he'
    obtain ⟨c, -, d, -, rfl⟩ := mem_toListChildren.1 he'
    cases v with
    | none => cases he
    | some a =>
      obtain rfl := List.mem_singleton.1 he
      exact List.nil_lt_cons _ _

theorem nodup_toList {t : Trie α} (h : t.Proper) : t.toList.Nodup :=
  (ascending_toList h).imp (S := (· ≠ ·)) fun {_ e'} hlt heq =>
    StrictOrder.irrefl e'.1 (heq ▸ hlt)

end Trie

end ParamStore
