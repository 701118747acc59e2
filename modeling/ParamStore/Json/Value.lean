import ParamStore.Json.Tree
import ParamStore.Table.Entries

/-!
# JSON values

The trees that can be stored: every part is readable, and the fields of
every object stand in key order, each key once. A tree becomes a value by
sorting the fields of its objects; of several fields with one key the last
counts.

Main statements: `isNormal_of_normalise`, a normalised tree is a value, and
`normalise_of_isNormal`, a value stays as it is.
-/

namespace ParamStore.Json

namespace Tree

mutual

/-- Whether every part is readable and every object has its keys in
ascending order. -/
def isNormal : Tree → Bool
  | unreadable => false
  | array items => isNormalItems items
  | object fields => decide (Entries.Ascending fields) && isNormalFields fields
  | _ => true

def isNormalItems : List Tree → Bool
  | [] => true
  | t :: ts => t.isNormal && isNormalItems ts

def isNormalFields : List (String × Tree) → Bool
  | [] => true
  | (_, t) :: fs => t.isNormal && isNormalFields fs

end

mutual

/-- The value that a tree stands for. -/
def normalise : Tree → Option Tree
  | unreadable => none
  | array items => (normaliseItems items).map array
  | object fields => (normaliseFields fields).map object
  | t => some t

def normaliseItems : List Tree → Option (List Tree)
  | [] => some []
  | t :: ts => do
    let u ← t.normalise
    let us ← normaliseItems ts
    return u :: us

def normaliseFields : List (String × Tree) → Option (List (String × Tree))
  | [] => some []
  | (k, t) :: fs => do
    let u ← t.normalise
    let gs ← normaliseFields fs
    return if (Entries.find? k gs).isSome then gs else Entries.insert k u gs

end

theorem isNormalFields_insert {k : String} {t : Tree} {fs : List (String × Tree)}
    (ht : t.isNormal) (hfs : isNormalFields fs) :
    isNormalFields (Entries.insert k t fs) := by
  induction fs with
  | nil => simp [Entries.insert, isNormalFields, ht]
  | cons f fs ih =>
    obtain ⟨l, u⟩ := f
    simp only [isNormalFields, Bool.and_eq_true] at hfs
    unfold Entries.insert
    split
    · simp [isNormalFields, ht, hfs]
    · split
      · simp [isNormalFields, ht, hfs.2]
      · simp [isNormalFields, hfs.1, ih hfs.2]

mutual

theorem isNormal_of_normalise : ∀ {t u : Tree}, t.normalise = some u → u.isNormal
  | unreadable, _, h => by simp [normalise] at h
  | null, _, h | bool _, _, h | number _, _, h | text _, _, h => by
    simp only [normalise, Option.some.injEq] at h
    subst h
    simp [isNormal]
  | array items, u, h => by
    simp only [normalise, Option.map_eq_some_iff] at h
    obtain ⟨us, hus, rfl⟩ := h
    simpa [isNormal] using isNormalItems_of_normaliseItems hus
  | object fields, u, h => by
    simp only [normalise, Option.map_eq_some_iff] at h
    obtain ⟨gs, hgs, rfl⟩ := h
    simpa [isNormal] using isNormalFields_of_normaliseFields hgs

theorem isNormalItems_of_normaliseItems :
    ∀ {ts us : List Tree}, normaliseItems ts = some us → isNormalItems us
  | [], us, h => by
    simp only [normaliseItems, Option.some.injEq] at h
    subst h
    rfl
  | t :: ts, us, h => by
    simp only [normaliseItems, bind, Option.bind_eq_some_iff, pure, Option.some.injEq] at h
    obtain ⟨v, hv, vs, hvs, rfl⟩ := h
    simp [isNormalItems, isNormal_of_normalise hv, isNormalItems_of_normaliseItems hvs]

theorem isNormalFields_of_normaliseFields :
    ∀ {fs gs : List (String × Tree)}, normaliseFields fs = some gs →
      Entries.Ascending gs ∧ isNormalFields gs
  | [], gs, h => by
    simp only [normaliseFields, Option.some.injEq] at h
    subst h
    exact ⟨.nil, rfl⟩
  | (k, t) :: fs, gs, h => by
    simp only [normaliseFields, bind, Option.bind_eq_some_iff, pure, Option.some.injEq] at h
    obtain ⟨u, hu, hs, hhs, rfl⟩ := h
    obtain ⟨hasc, hnorm⟩ := isNormalFields_of_normaliseFields hhs
    split
    · exact ⟨hasc, hnorm⟩
    · exact ⟨hasc.insert k u, isNormalFields_insert (isNormal_of_normalise hu) hnorm⟩

end

/-- A key before all others is inserted in front. -/
theorem insert_of_forall_lt {k : String} {t : Tree} {fs : List (String × Tree)}
    (h : ∀ f ∈ fs, k < f.1) : Entries.insert k t fs = (k, t) :: fs := by
  cases fs with
  | nil => rfl
  | cons f fs => simp [Entries.insert, h f List.mem_cons_self]

mutual

theorem normalise_of_isNormal : ∀ {t : Tree}, t.isNormal → t.normalise = some t
  | unreadable, h => by simp [isNormal] at h
  | null, _ | bool _, _ | number _, _ | text _, _ => by simp [normalise]
  | array items, h => by
    simp only [isNormal] at h
    simp [normalise, normaliseItems_of_isNormalItems h]
  | object fields, h => by
    simp only [isNormal, Bool.and_eq_true, decide_eq_true_eq] at h
    simp [normalise, normaliseFields_of_isNormalFields h.1 h.2]

theorem normaliseItems_of_isNormalItems :
    ∀ {ts : List Tree}, isNormalItems ts → normaliseItems ts = some ts
  | [], _ => by simp [normaliseItems]
  | t :: ts, h => by
    simp only [isNormalItems, Bool.and_eq_true] at h
    simp [normaliseItems, normalise_of_isNormal h.1, normaliseItems_of_isNormalItems h.2]

theorem normaliseFields_of_isNormalFields :
    ∀ {fs : List (String × Tree)}, Entries.Ascending fs → isNormalFields fs →
      normaliseFields fs = some fs
  | [], _, _ => by simp [normaliseFields]
  | (k, t) :: fs, hasc, h => by
    simp only [isNormalFields, Bool.and_eq_true] at h
    have hlt := hasc.head_lt
    have hnone : Entries.find? k fs = none := Entries.find?_eq_none_iff.2 fun e he hek =>
      String.lt_irrefl k (by simpa [hek] using hlt e he)
    simp [normaliseFields, normalise_of_isNormal h.1,
      normaliseFields_of_isNormalFields hasc.tail h.2, hnone, insert_of_forall_lt hlt]

end

end Tree

/-- A tree that is readable and has its objects in key order. -/
structure Value where
  tree : Tree
  normal : tree.isNormal
  deriving DecidableEq

namespace Value

instance : Inhabited Value := ⟨⟨.null, rfl⟩⟩

def ofTree? (t : Tree) : Option Value :=
  match h : t.normalise with
  | some u => some ⟨u, Tree.isNormal_of_normalise h⟩
  | none => none

def null : Value := ⟨.null, rfl⟩

def text (s : String) : Value := ⟨.text s, by simp [Tree.isNormal]⟩

theorem ofTree?_tree (v : Value) : ofTree? v.tree = some v := by
  have h := Tree.normalise_of_isNormal v.normal
  unfold ofTree?
  split
  · next u hu => cases hu.symm.trans h; rfl
  · next hn => cases hn.symm.trans h

end Value

end ParamStore.Json
