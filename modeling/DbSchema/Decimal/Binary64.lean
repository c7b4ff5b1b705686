/-!
# Binary64 magnitudes

The finite nonnegative numbers of the IEEE 754 binary64 format are the values `m · 2^q` with a
significand `m < 2^53` and an exponent `-1074 ≤ q ≤ 971`; a significand below `2^52` is a
subnormal number and only occurs with the least exponent.

`Binary64.ofRatio n d` rounds the ratio `n / d` to the nearest such number, a tie going to the
even significand, and gives `none` when the ratio rounds beyond the largest finite number (it
then reads as infinity). All arithmetic is exact, on natural numbers.
-/

namespace DbSchema

/-- A finite nonnegative binary64 number `mant · 2^exp`. -/
structure Binary64 where
  mant : Nat
  exp : Int
deriving DecidableEq, Repr, Inhabited

namespace Binary64

/-- The least exponent: that of the subnormal numbers. -/
def minExp : Int := -1074

/-- The largest exponent of a finite number. -/
def maxExp : Int := 971

/-- `n / d` rounded to the nearest natural number; a tie goes to the even one. -/
def roundHalfEven (n d : Nat) : Nat :=
  let q := n / d
  let r := n % d
  if 2 * r < d then q
  else if d < 2 * r then q + 1
  else if q % 2 = 0 then q else q + 1

/-- `2^e` as a ratio of natural numbers, numerator first, for an integer exponent `e`. -/
def pow2 (e : Int) : Nat × Nat :=
  if 0 ≤ e then (Nat.pow 2 e.toNat, 1) else (1, Nat.pow 2 (-e).toNat)

/-- The exponent `e` with `2^e ≤ n / d < 2^(e+1)`, for positive `n` and `d`. The bit lengths
of `n` and `d` give it up to one. -/
def log2Ratio (n d : Nat) : Int :=
  let e : Int := (n.log2 : Int) - d.log2
  let (a, b) := pow2 e
  if d * a ≤ n * b then e else e - 1

/-- The binary64 number nearest to `n / d`, a tie to the even significand; `none` when the
ratio rounds beyond the largest finite number. A zero numerator or denominator gives zero. -/
def ofRatio (n d : Nat) : Option Binary64 :=
  if n = 0 ∨ d = 0 then some ⟨0, minExp⟩
  else
    -- the exponent of the last significand bit: 52 below the leading bit, but not below minExp
    let q := max (log2Ratio n d - 52) minExp
    let (a, b) := pow2 q
    let m := roundHalfEven (n * b) (d * a)
    -- rounding up may carry into a 54th bit
    let (m, q) := if m = Nat.pow 2 53 then (Nat.pow 2 52, q + 1) else (m, q)
    if maxExp < q then none else some ⟨m, q⟩

example : ofRatio 1 2 = some ⟨2 ^ 52, -53⟩ := by decide +kernel
example : ofRatio 1 1 = some ⟨2 ^ 52, -52⟩ := by decide +kernel
example : ofRatio (2 ^ 1024) 1 = none := by decide +kernel

/-- The quotient `x / y` rounded to the nearest binary64 number, as the division of the format
gives it; `none` when it rounds beyond the largest finite number. -/
def div (x y : Binary64) : Option Binary64 :=
  let (a, b) := pow2 (x.exp - y.exp)
  ofRatio (x.mant * a) (y.mant * b)

example : (ofRatio 1 1).bind (fun x => (ofRatio 3 1).bind x.div) = ofRatio 1 3 := by
  decide +kernel

end Binary64

end DbSchema
