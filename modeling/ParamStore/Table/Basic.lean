import ParamStore.Table.Entries

/-!
# Tables

A finite map that keeps its entries in key order. The order is part of
the type, so two tables in which every key finds the same are equal
(`Table.ext`), and a listing of a table is a sorted one.
-/

namespace ParamStore

/-- A finite map from keys to values, listed by ascending key. -/
structure Table (κ : Type) (α : Type) [LT κ] where
  entries : List (κ × α)
  ascending : Entries.Ascending entries

namespace Table

variable {κ α β : Type} [LT κ]

instance [DecidableEq κ] [DecidableEq α] : DecidableEq (Table κ α) := fun s t =>
  decidable_of_iff (s.entries = t.entries) ⟨fun h => by cases s; cases t; cases h; rfl,
    fun h => by rw [h]⟩

def empty : Table κ α := ⟨[], .nil⟩

instance : EmptyCollection (Table κ α) := ⟨empty⟩
instance : Inhabited (Table κ α) := ⟨empty⟩

def isEmpty (t : Table κ α) : Bool := t.entries.isEmpty

def size (t : Table κ α) : Nat := t.entries.length

def keys (t : Table κ α) : List κ := t.entries.map (·.1)

def values (t : Table κ α) : List α := t.entries.map (·.2)

section Key

variable [DecidableEq κ]

def find? (t : Table κ α) (k : κ) : Option α := Entries.find? k t.entries

def contains (t : Table κ α) (k : κ) : Bool := (t.find? k).isSome

def erase (t : Table κ α) (k : κ) : Table κ α :=
  ⟨Entries.erase k t.entries, t.ascending.erase k⟩

variable [DecidableLT κ] [StrictOrder κ]

def insert (t : Table κ α) (k : κ) (a : α) : Table κ α :=
  ⟨Entries.insert k a t.entries, t.ascending.insert k a⟩

/-- The table of a list of pairs; of several pairs with one key the last counts. -/
def ofList (l : List (κ × α)) : Table κ α :=
  l.foldl (fun t e => t.insert e.1 e.2) empty

end Key

/-! ## Laws -/

section Laws

variable [DecidableEq κ]

@[simp] theorem find?_empty (k : κ) : (empty : Table κ α).find? k = none := rfl

theorem find?_erase (t : Table κ α) (k k' : κ) :
    (t.erase k).find? k' = if k = k' then none else t.find? k' :=
  Entries.find?_erase k k' t.entries

theorem find?_insert [DecidableLT κ] [StrictOrder κ] (t : Table κ α) (k k' : κ) (a : α) :
    (t.insert k a).find? k' = if k = k' then some a else t.find? k' :=
  Entries.find?_insert k k' a t.entries

theorem find?_eq_some_iff [StrictOrder κ] {t : Table κ α} {k : κ} {a : α} :
    t.find? k = some a ↔ (k, a) ∈ t.entries :=
  t.ascending.find?_eq_some_iff

/-- Tables in which every key finds the same are equal. -/
theorem ext [StrictOrder κ] {s t : Table κ α} (h : ∀ k, s.find? k = t.find? k) : s = t := by
  obtain ⟨l, hl⟩ := s
  obtain ⟨m, hm⟩ := t
  cases hl.ext hm h
  rfl

/-- Tables that hold nothing but keys are equal if they hold the same keys. -/
theorem ext_contains [StrictOrder κ] {s t : Table κ Unit}
    (h : ∀ k, s.contains k = true ↔ t.contains k = true) : s = t := by
  refine Table.ext fun k => ?_
  have hk := h k
  unfold contains at hk
  cases hs : s.find? k <;> cases ht : t.find? k <;> simp [hs, ht] at hk ⊢

theorem erase_of_none [StrictOrder κ] {t : Table κ α} {k : κ} (h : t.find? k = none) :
    t.erase k = t := by
  refine Table.ext fun k' => ?_
  rw [find?_erase]
  split
  · next hk => rw [← hk, h]
  · rfl

/-- Erasing a key takes back its insertion. -/
theorem erase_insert [DecidableLT κ] [StrictOrder κ] {t : Table κ α} {k : κ} {a : α}
    (h : t.find? k = none) : (t.insert k a).erase k = t := by
  refine Table.ext fun k' => ?_
  rw [find?_erase, find?_insert]
  split
  · next hk => rw [← hk, h]
  · rfl

theorem isEmpty_iff {t : Table κ α} : t.isEmpty = true ↔ ∀ k, t.find? k = none := by
  obtain ⟨l, hl⟩ := t
  cases l with
  | nil => simp [isEmpty, find?, Entries.find?]
  | cons e l =>
    simp only [isEmpty, List.isEmpty_cons, Bool.false_eq_true, find?, false_iff]
    exact fun h => by simpa [Entries.find?] using h e.1

end Laws

end Table

end ParamStore
