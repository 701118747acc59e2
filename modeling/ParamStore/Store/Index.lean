import ParamStore.Table.Basic

/-!
# Reverse indices

For each key the identifiers of the nodes that it touches. A key without
any has no entry.

Main statements: `mem_add` and `mem_drop` say which identifiers stand
under which keys afterwards.
-/

namespace ParamStore

abbrev NodeId := Nat

/-- Sets of identifiers by key. -/
abbrev Index (κ : Type) [LT κ] := Table κ (Table NodeId Unit)

namespace Index

variable {κ : Type} [LT κ] [DecidableEq κ]

/-- The identifiers under `k`, in ascending order. -/
def ids (ix : Index κ) (k : κ) : List NodeId := ((ix.find? k).map Table.keys).getD []

def holds (ix : Index κ) (k : κ) (id : NodeId) : Bool :=
  (ix.find? k).any fun s => s.contains id

variable [DecidableLT κ] [StrictOrder κ]

def add (ix : Index κ) (k : κ) (id : NodeId) : Index κ :=
  ix.insert k (((ix.find? k).getD ∅).insert id ())

/-- Take `id` away from under `k`, and the key with its last one. -/
def drop (ix : Index κ) (k : κ) (id : NodeId) : Index κ :=
  match ix.find? k with
  | none => ix
  | some s => if (s.erase id).isEmpty then ix.erase k else ix.insert k (s.erase id)

theorem mem_add (ix : Index κ) (k k' : κ) (id id' : NodeId) :
    holds (add ix k id) k' id' = true ↔ (k = k' ∧ id = id') ∨ holds ix k' id' = true := by
  unfold holds add
  rw [Table.find?_insert]
  by_cases hk : k = k'
  · subst hk
    rw [if_pos rfl]
    cases h : ix.find? k with
    | none =>
      by_cases hid : id = id' <;>
        simp [Table.contains, Table.find?_insert, hid, EmptyCollection.emptyCollection]
    | some s => by_cases hid : id = id' <;> simp [Table.contains, Table.find?_insert, hid]
  · simp [hk]

theorem mem_drop (ix : Index κ) (k k' : κ) (id id' : NodeId) :
    holds (drop ix k id) k' id' = true ↔ ¬ (k = k' ∧ id = id') ∧ holds ix k' id' = true := by
  unfold holds drop
  cases h : ix.find? k with
  | none =>
    by_cases hk : k = k'
    · subst hk; simp [h]
    · simp [hk]
  | some s =>
    by_cases hk : k = k'
    · subst hk
      by_cases hid : id = id'
      · subst hid
        by_cases hempty : (s.erase id).isEmpty <;>
          simp [hempty, Table.find?_erase, Table.find?_insert, Table.contains]
      · by_cases hempty : (s.erase id).isEmpty
        · have hnone := Table.isEmpty_iff.1 hempty id'
          rw [Table.find?_erase, if_neg hid] at hnone
          simp [hempty, h, hid, Table.find?_erase, Table.contains, hnone]
        · simp [hempty, h, hid, Table.find?_insert, Table.find?_erase, Table.contains]
    · by_cases hempty : (s.erase id).isEmpty <;>
        simp [hempty, hk, Table.find?_insert, Table.find?_erase]

end Index

end ParamStore
