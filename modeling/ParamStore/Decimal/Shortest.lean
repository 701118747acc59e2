import ParamStore.Decimal.Binary64

/-!
# Shortest decimals

The decimal with the fewest digits that rounds to a given number. For
1, 2, … 17 digits the two neighbours of the number on that decimal grid
are tested against the interval of reals that round to it; the first grid
with a hit wins, and of two hits the nearer.
-/

namespace ParamStore

/-- The positive decimal `d₁.d₂…dₙ * 10 ^ exponent`. -/
structure Decimal where
  digits : List Char
  exponent : Int
  deriving Repr, DecidableEq

namespace Binary64

/-- A quarter of the last place as a fraction, and the number and the ends
of its rounding interval counted in it. -/
structure Span where
  num : Nat
  den : Nat
  low : Nat
  mid : Nat
  high : Nat

/-- The reals that round to a positive number: half a place on either
side, or a quarter below a power of two, where the places get smaller. -/
def span (x : Binary64) : Span :=
  let e := x.exponent - 2
  { num := if e < 0 then 1 else 1 <<< e.toNat
    den := if e < 0 then 1 <<< (-e).toNat else 1
    low := 4 * x.significand - (if x.significand = 1 <<< 52 ∧ -1074 < x.exponent then 1 else 2)
    mid := 4 * x.significand
    high := 4 * x.significand + 2 }

/-- The exponent of ten of the first digit. -/
def decimalExponent (s : Span) : Int :=
  (digitCount (s.mid * s.num * powerOfTen 400 / s.den) : Int) - 401

/-- The better neighbour on the grid of `n` digits, if one rounds back: its
digits as a number, to be multiplied by `10 ^ (exponent - n + 1)`. The
interval belongs to the number with its ends iff the significand is even. -/
def onGrid? (s : Span) (closed : Bool) (exponent : Int) (n : Nat) : Option Nat :=
  let step := exponent - n + 1
  let up := if step < 0 then powerOfTen (-step).toNat else 1
  let grid := (if step < 0 then 1 else powerOfTen step.toNat) * s.den
  let at_ (quarters : Nat) := quarters * s.num * up
  let inside (c : Nat) : Bool :=
    if closed then at_ s.low ≤ c * grid && c * grid ≤ at_ s.high
    else at_ s.low < c * grid && c * grid < at_ s.high
  let c := at_ s.mid / grid
  let below := at_ s.mid - c * grid
  let above := (c + 1) * grid - at_ s.mid
  match inside c, inside (c + 1) with
  | true, true =>
    some (if below < above then c else if above < below then c + 1 else c + c % 2)
  | true, false => some c
  | false, true => some (c + 1)
  | false, false => none

/-- The first of the digit counts whose grid has a point that rounds back. -/
def firstGrid (s : Span) (closed : Bool) (exponent : Int) : List Nat → Option (Nat × Nat)
  | [] => none
  | n :: ns =>
    match onGrid? s closed exponent n with
    | some c => some (n, c)
    | none => firstGrid s closed exponent ns

/-- The shortest decimal that rounds to the positive number `x`. -/
def shortest (x : Binary64) : Decimal :=
  let s := x.span
  let exponent := decimalExponent s
  match firstGrid s (x.significand % 2 == 0) exponent ((List.range 17).map (· + 1)) with
  | none => ⟨['0'], 0⟩
  | some (n, c) =>
    let digits := Nat.toDigits 10 c
    { digits := (digits.reverse.dropWhile (· == '0')).reverse
      exponent := exponent + (digits.length : Int) - n }

end Binary64

end ParamStore
