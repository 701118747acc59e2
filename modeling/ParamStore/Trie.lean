import ParamStore.Table.Entries

/-!
# Tries over token lists

A finite map from token lists to values, one level per token. A look-up
may abbreviate a token to the start of the only key that begins so; a key
that equals the token goes before every abbreviation, so `a` names `a`
even where `ab` exists.

Insertion makes the levels it needs and removal takes away the levels it
leaves empty, so a trie holds no level without a value at or below it.
-/

namespace ParamStore

/-- A level: the value stored here, and the levels below by their token in
ascending order. -/
inductive Trie (α : Type) where
  | level (value : Option α) (children : List (String × Trie α))

namespace Trie

variable {α : Type}

def empty : Trie α := .level none []

instance : Inhabited (Trie α) := ⟨empty⟩

def value : Trie α → Option α
  | .level v _ => v

def children : Trie α → List (String × Trie α)
  | .level _ b => b

/-- Whether nothing is stored at this level and there is none below. -/
def isEmpty : Trie α → Bool
  | .level v b => v.isNone && b.isEmpty

/-! ## Exact access -/

/-- The level that `tokens` lead to. -/
def find? (t : Trie α) : List String → Option (Trie α)
  | [] => some t
  | k :: ks => (Entries.find? k t.children).bind fun c => c.find? ks

def get? (t : Trie α) (tokens : List String) : Option α :=
  (t.find? tokens).bind value

/-- Store `a` at `tokens`. Gives back the value it replaces. -/
def insert (a : α) : List String → Trie α → Option α × Trie α
  | [], .level v b => (v, .level (some a) b)
  | k :: ks, .level v b =>
    let (previous, c) := insert a ks ((Entries.find? k b).getD empty)
    (previous, .level v (Entries.insert k c b))

/-- Take away the value at exactly `tokens`, and every level that is left
empty by it. Gives back the value. -/
def remove : List String → Trie α → Option α × Trie α
  | [], .level v b => (v, .level none b)
  | k :: ks, .level v b =>
    match Entries.find? k b with
    | none => (none, .level v b)
    | some c =>
      let (removed, c') := remove ks c
      (removed, .level v (if c'.isEmpty then Entries.erase k b else Entries.insert k c' b))

/-! ## Listing -/

mutual

/-- Every stored value with its tokens, in lexicographic token order. -/
def toList : Trie α → List (List String × α)
  | .level v b => (v.map fun a => ([], a)).toList ++ toListChildren b

/-- The listing of several levels, each under its token. -/
def toListChildren : List (String × Trie α) → List (List String × α)
  | [] => []
  | (k, c) :: b => (c.toList.map fun e => (k :: e.1, e.2)) ++ toListChildren b

end

/-- Every stored value whose tokens start with `start`, in lexicographic
token order. -/
def listFrom (t : Trie α) (start : List String) : List (List String × α) :=
  match t.find? start with
  | none => []
  | some c => c.toList.map fun e => (start ++ e.1, e.2)

/-! ## Abbreviated access -/

def abbreviates (token key : String) : Bool := token.toList.isPrefixOf key.toList

/-- The entries whose key starts with `token`. In an ascending list they
stand together, the first of them being the first key that is not smaller
than `token`. -/
def abbreviated (token : String) (b : List (String × Trie α)) : List (String × Trie α) :=
  (b.dropWhile fun e => decide (e.1 < token)).takeWhile fun e => abbreviates token e.1

/-- How far a walk came: the keys its tokens stand for, the keys among
which it could not choose, and the value stored where it ended. -/
structure Walk (α : Type) where
  matched : List String
  candidates : List String
  value : Option α
  deriving Repr, DecidableEq

namespace Walk

/-- Every token was resolved and a value is stored at the end. -/
def found (w : Walk α) : Bool := w.value.isSome

/-- The walk stopped at a token that abbreviates several keys. -/
def ambiguous (w : Walk α) : Bool := !w.candidates.isEmpty

def count (w : Walk α) : Nat := w.matched.length

/-- The walk that passes through `key` first. -/
def through (key : String) (w : Walk α) : Walk α := { w with matched := key :: w.matched }

end Walk

/-- Walk down along the tokens. An `exact` walk takes only keys that equal
the tokens; any other may also take the one key that a token abbreviates. -/
def walk (exact : Bool) (t : Trie α) : List String → Walk α
  | [] => { matched := [], candidates := [], value := t.value }
  | k :: ks =>
    match Entries.find? k t.children with
    | some c => (c.walk exact ks).through k
    | none =>
      if exact then { matched := [], candidates := [], value := none }
      else match abbreviated k t.children with
        | [] => { matched := [], candidates := [], value := none }
        | [(only, c)] => (c.walk exact ks).through only
        | several => { matched := [], candidates := several.map (·.1), value := none }

end Trie

end ParamStore
