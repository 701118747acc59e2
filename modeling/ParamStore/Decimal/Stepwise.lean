import ParamStore.Decimal.Binary64

/-!
# Reading decimals in steps

The quick way to read a decimal: its digits make a significand of 64 bits,
as far as they fit, which is rounded to a floating-point number and then
multiplied or divided by a rounded power of ten. Every step rounds to the
nearest number, so the outcome can be some places off the number nearest to
the decimal itself, and next to the largest number it can be out of range.
-/

namespace ParamStore.Binary64

/-! ## Arithmetic, signs apart -/

/-- A number as a quotient of integers. -/
def ratio (x : Binary64) : Nat × Nat := scaled x.significand 1 (-x.exponent)

/-- The number nearest to `num / den`, unless it lies beyond the largest
one. -/
def nearest? (num den : Nat) : Option Binary64 :=
  if num = 0 then some (zero false) else ofRatio? false num den

/-- The rounded product. -/
def mul? (x y : Binary64) : Option Binary64 :=
  nearest? (x.ratio.1 * y.ratio.1) (x.ratio.2 * y.ratio.2)

/-- The rounded quotient. -/
def div? (x y : Binary64) : Option Binary64 :=
  nearest? (x.ratio.1 * y.ratio.2) (x.ratio.2 * y.ratio.1)

/-! ## Powers of ten -/

/-- The greatest exponent of ten of a number in range. -/
def greatestPower : Nat := 308

/-- The number nearest to `10 ^ n`. -/
def tenTo? (n : Nat) : Option Binary64 := nearest? (powerOfTen n) 1

/-- `x / 10 ^ n` for an integer `x` of 64 bits. Beyond the greatest power it
takes two divisions; of two by the greatest one nothing is left. -/
def overTenTo? (x : Binary64) (n : Nat) : Option Binary64 := do
  if n ≤ greatestPower then x.div? (← tenTo? n)
  else if n ≤ 2 * greatestPower then
    (← x.div? (← tenTo? greatestPower)).div? (← tenTo? (n - greatestPower))
  else some (zero false)

/-- `x * 10 ^ exponent` for an integer `x` of 64 bits. -/
def timesTenTo? (x : Binary64) (exponent : Int) : Option Binary64 := do
  if exponent < 0 then x.overTenTo? (-exponent).toNat
  else if exponent ≤ greatestPower then x.mul? (← tenTo? exponent.toNat)
  else if x.significand = 0 then some x
  else none

/-! ## Decimals -/

/-- The significand that goes on from `n` with digits, as long as it fits
into 64 bits, and the digits that are left. -/
def takeDigits (n : Nat) : List Nat → Nat × List Nat
  | [] => (n, [])
  | d :: ds => if n * 10 + d < 1 <<< 64 then takeDigits (n * 10 + d) ds else (n, d :: ds)

/-- The number that the digits before and after the point, times a power of
ten, are read as. Of the digits that do not fit, those before the point count
as zeros, and those after it are ignored. -/
def ofDigits? (negative : Bool) (whole fraction : List Nat) (exponent : Int) :
    Option Binary64 := do
  let (n, zeros) := takeDigits 0 whole
  let (n, ignored) := takeDigits n fraction
  let x ← nearest? n 1
  let x ← x.timesTenTo? (exponent + zeros.length - (fraction.length - ignored.length : Nat))
  return { x with negative }

/-- Neither `3` nor the rounding of `10 ^ 23` is far off, but the product is
one place below the number nearest to `3 * 10 ^ 23`. -/
example : (ofDigits? false [3] [] 23).map (fun x => { x with significand := x.significand + 1 })
    = ofDecimal? false 3 23 := by decide +kernel

end ParamStore.Binary64
