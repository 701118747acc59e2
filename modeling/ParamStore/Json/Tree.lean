import ParamStore.Decimal.Binary64

/-!
# JSON trees

What a JSON text says, with the fields of an object as they are written:
in their order, and repeated where the text repeats them. A part that
follows the grammar but names nothing — a number beyond the range, a text
with half a surrogate pair, a nesting too deep — is kept as such, for it
does no harm where nobody asks for it.
-/

namespace ParamStore.Json

/-- The whole numbers that are kept exactly: those of 64 bits, signed or
unsigned. -/
def InRange (n : Int) : Prop := -0x8000000000000000 ≤ n ∧ n < 0x10000000000000000

instance (n : Int) : Decidable (InRange n) := inferInstanceAs (Decidable (_ ∧ _))

/-- A number: a whole one in range, or a floating-point one. -/
inductive Number where
  | whole (n : Int) (inRange : InRange n)
  | binary (x : Binary64)
  deriving DecidableEq

inductive Tree where
  | null
  | bool (b : Bool)
  | number (n : Number)
  | text (s : String)
  | array (items : List Tree)
  | object (fields : List (String × Tree))
  /-- What follows the grammar and names nothing. -/
  | unreadable

namespace Tree

instance : Inhabited Tree := ⟨null⟩

def isNull : Tree → Bool
  | null => true
  | _ => false

def isText : Tree → Bool
  | text _ => true
  | _ => false

def natural (n : UInt64) : Tree :=
  number (.whole n.toNat ⟨by omega, by have := n.toNat_lt; omega⟩)

/-! Equality is decided by walking both trees. -/

mutual

def decEq : (s t : Tree) → Decidable (s = t)
  | null, t => by cases t <;> first | exact isTrue rfl | exact isFalse Tree.noConfusion
  | unreadable, t => by cases t <;> first | exact isTrue rfl | exact isFalse Tree.noConfusion
  | bool a, t => by
    cases t with
    | bool b => exact decidable_of_iff (a = b) (by simp)
    | _ => exact isFalse Tree.noConfusion
  | number a, t => by
    cases t with
    | number b => exact decidable_of_iff (a = b) (by simp)
    | _ => exact isFalse Tree.noConfusion
  | text a, t => by
    cases t with
    | text b => exact decidable_of_iff (a = b) (by simp)
    | _ => exact isFalse Tree.noConfusion
  | array xs, t => by
    cases t with
    | array ys =>
      exact @decidable_of_iff _ _ (by simp) (decEqItems xs ys)
    | _ => exact isFalse Tree.noConfusion
  | object fs, t => by
    cases t with
    | object gs =>
      exact @decidable_of_iff _ _ (by simp) (decEqFields fs gs)
    | _ => exact isFalse Tree.noConfusion

def decEqItems : (xs ys : List Tree) → Decidable (xs = ys)
  | [], [] => isTrue rfl
  | [], _ :: _ => isFalse (by simp)
  | _ :: _, [] => isFalse (by simp)
  | x :: xs, y :: ys =>
    match decEq x y, decEqItems xs ys with
    | isTrue h, isTrue hs => isTrue (by rw [h, hs])
    | isFalse h, _ => isFalse fun he => h (List.cons.inj he).1
    | _, isFalse hs => isFalse fun he => hs (List.cons.inj he).2

def decEqFields : (fs gs : List (String × Tree)) → Decidable (fs = gs)
  | [], [] => isTrue rfl
  | [], _ :: _ => isFalse (by simp)
  | _ :: _, [] => isFalse (by simp)
  | (k, x) :: fs, (l, y) :: gs =>
    if hk : k = l then
      match decEq x y, decEqFields fs gs with
      | isTrue h, isTrue hs => isTrue (by rw [hk, h, hs])
      | isFalse h, _ => isFalse fun he => h (Prod.mk.inj (List.cons.inj he).1).2
      | _, isFalse hs => isFalse fun he => hs (List.cons.inj he).2
    else isFalse fun he => hk (Prod.mk.inj (List.cons.inj he).1).1

end

instance : DecidableEq Tree := decEq

end Tree

end ParamStore.Json
