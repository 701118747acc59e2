/-!
# Binary floating-point numbers of 64 bits

A finite number as an integer significand times a power of two. An exact
value is rounded to the nearest such number, a tie to the even significand;
all of it is integer arithmetic, so nothing is lost on the way.
-/

namespace ParamStore

/-- The number `± significand * 2 ^ exponent`. The significand has 53 bits,
or fewer when the exponent is the least one, -1074. -/
structure Binary64 where
  negative : Bool
  significand : Nat
  exponent : Int
  deriving Repr, DecidableEq

namespace Binary64

def zero (negative : Bool) : Binary64 := ⟨negative, 0, -1074⟩

/-- `num / den * 2 ^ -e` as a quotient of integers. -/
def scaled (num den : Nat) (e : Int) : Nat × Nat :=
  if e < 0 then (num <<< (-e).toNat, den) else (num, den <<< e.toNat)

/-- The integer nearest to `num / den`, a tie going to the even one. -/
def roundEven (num den : Nat) : Nat :=
  let q := num / den
  let r := num % den
  if 2 * r < den then q
  else if den < 2 * r then q + 1
  else q + q % 2

/-- The power of two for a significand of 53 bits of the positive number
`num / den`, or the least one. -/
def exponentOf (num den : Nat) : Int :=
  let e := max (-1074) ((num.log2 : Int) - den.log2 - 53)
  let (n, d) := scaled num den e
  if n / d < 1 <<< 53 then e else e + 1

/-- The number nearest to the positive `num / den`, unless it lies beyond
the largest one. -/
def ofRatio? (negative : Bool) (num den : Nat) : Option Binary64 :=
  let e := exponentOf num den
  let (n, d) := scaled num den e
  let m := roundEven n d
  let (m, e) := if m = 1 <<< 53 then (1 <<< 52, e + 1) else (m, e)
  if e ≤ 971 then some ⟨negative, m, e⟩ else none

def powerOfTen (n : Nat) : Nat := Nat.pow 10 n

def digitCount (n : Nat) : Nat := (Nat.toDigits 10 n).length

/-- The number nearest to `± mantissa * 10 ^ exponent`, unless it lies
beyond the largest one. Far outside the range the answer does not need
the power of ten. -/
def ofDecimal? (negative : Bool) (mantissa : Nat) (exponent : Int) : Option Binary64 :=
  let magnitude := (digitCount mantissa : Int) + exponent
  if mantissa = 0 ∨ magnitude < -340 then some (zero negative)
  else if 320 < magnitude then none
  else if exponent < 0 then ofRatio? negative mantissa (powerOfTen (-exponent).toNat)
  else ofRatio? negative (mantissa * powerOfTen exponent.toNat) 1

end Binary64

end ParamStore
