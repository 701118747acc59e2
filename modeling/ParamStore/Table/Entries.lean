/-!
# Entry lists in key order

A finite map as the list of its entries, each key once and in ascending
order. Nothing here asks for the order as a hypothesis where it is not
needed: insertion replaces or places in one pass and erasure filters, so
looking up after either is an equation over every list.

Main statements: `find?_insert` and `find?_erase` say what is found
afterwards, `Ascending.insert` and `Ascending.erase` that the order is
kept, and `Ascending.ext` that an ordered list is determined by what is
found in it.
-/

namespace ParamStore

/-- Keys that can be kept in ascending order. -/
class StrictOrder (κ : Type) [LT κ] : Prop where
  irrefl : ∀ a : κ, ¬ a < a
  trans : ∀ {a b c : κ}, a < b → b < c → a < c
  connected : ∀ {a b : κ}, ¬ a < b → ¬ b < a → a = b

instance : StrictOrder Nat where
  irrefl := Nat.lt_irrefl
  trans := Nat.lt_trans
  connected h₁ h₂ := Nat.le_antisymm (Nat.not_lt.1 h₂) (Nat.not_lt.1 h₁)

/-- Texts are ordered by code point, which is the order of their UTF-8 bytes. -/
instance : StrictOrder String where
  irrefl := String.lt_irrefl
  trans := String.lt_trans
  connected h₁ h₂ := String.le_antisymm (String.not_lt.1 h₂) (String.not_lt.1 h₁)

namespace Entries

variable {κ : Type} {α : Type}

def find? [DecidableEq κ] (k : κ) : List (κ × α) → Option α
  | [] => none
  | (k', a) :: l => if k' = k then some a else find? k l

/-- Put `a` at `k`: in place of the value there, or as a new entry before
the first larger key. -/
def insert [DecidableEq κ] [LT κ] [DecidableLT κ] (k : κ) (a : α) :
    List (κ × α) → List (κ × α)
  | [] => [(k, a)]
  | (k', a') :: l =>
    if k < k' then (k, a) :: (k', a') :: l
    else if k' = k then (k, a) :: l
    else (k', a') :: insert k a l

def erase [DecidableEq κ] (k : κ) (l : List (κ × α)) : List (κ × α) :=
  l.filter fun e => decide (e.1 ≠ k)

/-- Every key is smaller than the keys after it. -/
def Ascending [LT κ] (l : List (κ × α)) : Prop :=
  l.Pairwise fun a b => a.1 < b.1

instance [LT κ] [DecidableLT κ] (l : List (κ × α)) : Decidable (Ascending l) :=
  inferInstanceAs (Decidable (l.Pairwise _))

/-! ## What is found afterwards -/

section Find

variable [DecidableEq κ]

theorem find?_erase (k k' : κ) (l : List (κ × α)) :
    find? k' (erase k l) = if k = k' then none else find? k' l := by
  induction l with
  | nil => simp [erase, find?]
  | cons e l ih =>
    obtain ⟨k₀, a₀⟩ := e
    unfold erase at ih ⊢
    by_cases h : k₀ = k
    · subst h
      by_cases h' : k₀ = k' <;> simp_all [find?]
    · by_cases h' : k = k'
      · subst h'; simp_all [find?]
      · by_cases h₀ : k₀ = k' <;> simp_all [find?]

variable [LT κ] [DecidableLT κ]

theorem find?_insert (k k' : κ) (a : α) (l : List (κ × α)) :
    find? k' (insert k a l) = if k = k' then some a else find? k' l := by
  induction l with
  | nil => simp [insert, find?]
  | cons e l ih =>
    obtain ⟨k₀, a₀⟩ := e
    unfold insert
    split
    · simp [find?]
    · split
      · next h => subst h; by_cases h' : k₀ = k' <;> simp [find?, h']
      · next h =>
        by_cases h' : k₀ = k'
        · subst h'; simp [find?, Ne.symm h]
        · simp [find?, h', ih]

end Find

theorem find?_eq_none_iff [DecidableEq κ] {k : κ} {l : List (κ × α)} :
    find? k l = none ↔ ∀ e ∈ l, e.1 ≠ k := by
  induction l with
  | nil => simp [find?]
  | cons e l ih =>
    obtain ⟨k₀, a₀⟩ := e
    by_cases h : k₀ = k <;> simp [find?, h, ih]

theorem mem_of_find? [DecidableEq κ] {k : κ} {a : α} {l : List (κ × α)}
    (h : find? k l = some a) : (k, a) ∈ l := by
  induction l with
  | nil => simp [find?] at h
  | cons e l ih =>
    obtain ⟨k₀, a₀⟩ := e
    by_cases hk : k₀ = k
    · simp_all [find?]
    · exact List.mem_cons_of_mem _ (ih (by simpa [find?, hk] using h))

theorem mem_insert [DecidableEq κ] [LT κ] [DecidableLT κ] {k : κ} {a : α} {e : κ × α}
    {l : List (κ × α)} (h : e ∈ insert k a l) : e = (k, a) ∨ e ∈ l := by
  induction l with
  | nil => simpa [insert] using h
  | cons e₀ l ih =>
    obtain ⟨k₀, a₀⟩ := e₀
    unfold insert at h
    split at h
    · simpa using h
    · split at h
      · rcases List.mem_cons.1 h with h | h
        · exact .inl h
        · exact .inr (List.mem_cons_of_mem _ h)
      · rcases List.mem_cons.1 h with h | h
        · exact .inr (h ▸ List.mem_cons_self)
        · exact (ih h).imp_right (List.mem_cons_of_mem _)

/-! ## The order -/

namespace Ascending

variable [LT κ] {l : List (κ × α)}

theorem nil : Ascending ([] : List (κ × α)) := List.Pairwise.nil

theorem tail {e : κ × α} (h : Ascending (e :: l)) : Ascending l :=
  (List.pairwise_cons.1 h).2

theorem head_lt {e : κ × α} (h : Ascending (e :: l)) : ∀ e' ∈ l, e.1 < e'.1 :=
  (List.pairwise_cons.1 h).1

theorem erase [DecidableEq κ] (k : κ) (h : Ascending l) : Ascending (Entries.erase k l) :=
  List.Pairwise.filter _ h

theorem insert [DecidableEq κ] [DecidableLT κ] [StrictOrder κ] (k : κ) (a : α)
    (h : Ascending l) : Ascending (Entries.insert k a l) := by
  induction l with
  | nil => simp [Entries.insert, Ascending]
  | cons e l ih =>
    obtain ⟨k₀, a₀⟩ := e
    unfold Entries.insert
    split
    · next hlt =>
      refine List.pairwise_cons.2 ⟨fun e he => ?_, h⟩
      rcases List.mem_cons.1 he with rfl | he
      · exact hlt
      · exact StrictOrder.trans hlt (h.head_lt e he)
    · next hlt =>
      split
      · next heq => subst heq; exact List.pairwise_cons.2 ⟨h.head_lt, h.tail⟩
      · next hne =>
        refine List.pairwise_cons.2 ⟨fun e he => ?_, ih h.tail⟩
        rcases mem_insert he with rfl | he
        · exact Classical.byContradiction fun hc => hne (StrictOrder.connected hc hlt)
        · exact h.head_lt e he

theorem find?_of_mem [DecidableEq κ] [StrictOrder κ] {k : κ} {a : α} (h : Ascending l)
    (hm : (k, a) ∈ l) : find? k l = some a := by
  induction l with
  | nil => cases hm
  | cons e l ih =>
    obtain ⟨k₀, a₀⟩ := e
    rcases List.mem_cons.1 hm with heq | hm
    · cases heq; simp [find?]
    · have hlt := h.head_lt _ hm
      have hne : k₀ ≠ k := fun heq => StrictOrder.irrefl k (by simpa [heq] using hlt)
      simpa [find?, hne] using ih h.tail hm

theorem find?_eq_some_iff [DecidableEq κ] [StrictOrder κ] {k : κ} {a : α}
    (h : Ascending l) : find? k l = some a ↔ (k, a) ∈ l :=
  ⟨mem_of_find?, h.find?_of_mem⟩

/-- An ordered list is determined by what is found in it. -/
theorem ext [DecidableEq κ] [StrictOrder κ] {l₁ l₂ : List (κ × α)} (h₁ : Ascending l₁)
    (h₂ : Ascending l₂) (h : ∀ k, find? k l₁ = find? k l₂) : l₁ = l₂ := by
  induction l₁ generalizing l₂ with
  | nil =>
    cases l₂ with
    | nil => rfl
    | cons e l => simpa [find?] using h e.1
  | cons e₁ l₁ ih =>
    obtain ⟨k₁, a₁⟩ := e₁
    cases l₂ with
    | nil => simpa [find?] using h k₁
    | cons e₂ l₂ =>
      obtain ⟨k₂, a₂⟩ := e₂
      have hm₁ : (k₁, a₁) ∈ (k₂, a₂) :: l₂ :=
        mem_of_find? ((h k₁).symm.trans (by simp [find?]))
      have hm₂ : (k₂, a₂) ∈ (k₁, a₁) :: l₁ :=
        mem_of_find? ((h k₂).trans (by simp [find?]))
      have heq : (k₁, a₁) = (k₂, a₂) := by
        rcases List.mem_cons.1 hm₁ with hm₁ | hm₁
        · exact hm₁
        · rcases List.mem_cons.1 hm₂ with hm₂ | hm₂
          · exact hm₂.symm
          · exact absurd (StrictOrder.trans (h₁.head_lt _ hm₂) (h₂.head_lt _ hm₁))
              (StrictOrder.irrefl k₁)
      cases heq
      refine congrArg _ (ih h₁.tail h₂.tail fun k => ?_)
      by_cases hk : k₁ = k
      · subst hk
        have none_of : ∀ {l : List (κ × α)}, Ascending ((k₁, a₁) :: l) →
            find? k₁ l = none := fun hl =>
          find?_eq_none_iff.2 fun e he hek =>
            StrictOrder.irrefl k₁ (by simpa [hek] using hl.head_lt e he)
        rw [none_of h₁, none_of h₂]
      · simpa [find?, hk] using h k

end Ascending

end Entries

end ParamStore
