import DbSchema.Decimal.Binary64

/-!
# The shortest decimal that reads back

Every real number in the interval around a binary64 number `x`, between the midpoints to its
two neighbours, rounds to `x`; the ends belong to the interval when the significand of `x` is
even, since a tie then goes to `x`. `Binary64.shortest x` is the decimal with the fewest
significant digits in that interval, and among those the one nearest to `x`; of two equally
near ones it takes the larger.

For `n = 1, 2, …, 17` digits the search looks at the decimal grid whose unit is `10^(E - n + 1)`,
where `10^E ≤ x < 10^(E+1)`. If the interval holds a point of that grid, it holds one of the two
grid points next to `x`, so only those two are tested. Seventeen digits always suffice.
-/

namespace DbSchema

/-- A decimal number `digits · 10^exp`. -/
structure Decimal where
  digits : Nat
  exp : Int
deriving DecidableEq, Repr, Inhabited

namespace Decimal

/-- The number of decimal digits of `n`; zero has one. -/
def digitCount (n : Nat) : Nat :=
  (Nat.toDigits 10 n).length

/-- `10^e` as a ratio of natural numbers, numerator first, for an integer exponent `e`. -/
def pow10 (e : Int) : Nat × Nat :=
  if 0 ≤ e then (Nat.pow 10 e.toNat, 1) else (1, Nat.pow 10 (-e).toNat)

/-- The exponent `E` with `10^E ≤ n / d < 10^(E+1)`, for positive `n` and `d`. -/
def log10Ratio (n d : Nat) : Int :=
  if d ≤ n then (digitCount (n / d) : Int) - 1
  else
    -- n · 10^k lies between d / 10 and 10 · d for k the difference of the digit counts
    let k := digitCount d - digitCount n
    if d ≤ n * Nat.pow 10 k then -(k : Int) else -(k : Int) - 1

/-- Drops up to `fuel` zeros at the end of the digits, raising the exponent to match. -/
def dropZeros : Nat → Decimal → Decimal
  | 0, d => d
  | fuel + 1, d =>
    if d.digits ≠ 0 ∧ d.digits % 10 = 0 then dropZeros fuel ⟨d.digits / 10, d.exp + 1⟩ else d

/-- Drops the zeros at the end of the digits, raising the exponent to match; there are fewer
of them than digits. -/
def normalize (d : Decimal) : Decimal :=
  dropZeros (digitCount d.digits) d

end Decimal

namespace Binary64

/-- The rounding interval of `x = m · 2^q`, in units of `2^(q-2)`: its low end, `x` itself and
its high end. The gap below is half as wide when `m` is the least normal significand, since the
neighbour below then has the next smaller exponent. -/
def interval (x : Binary64) : Nat × Nat × Nat :=
  let v := 4 * x.mant
  let low := if x.mant = Nat.pow 2 52 ∧ minExp < x.exp then v - 1 else v - 2
  (low, v, v + 2)

/-- Whether the grid point at `k` units lies in the interval from `low` to `high` (scaled to
`k * p` against `low * r` and `high * r`); ends count when `closed`. -/
def within (closed : Bool) (low high r k p : Nat) : Bool :=
  if closed then low * r ≤ k * p && k * p ≤ high * r
  else low * r < k * p && k * p < high * r

/-- The point of the decimal grid with unit `10^e` that lies in the rounding interval of a
positive `x` and is nearest to it, if the interval holds one. -/
def onGrid (x : Binary64) (e : Int) : Option Nat :=
  let (low, v, high) := x.interval
  let (a, b) := pow2 (x.exp - 2)
  let (c, f) := Decimal.pow10 e
  -- a real `y · 2^(x.exp - 2)` is `y * r / p` grid units
  let p := b * c
  let r := a * f
  let k := v * r / p
  let closed := x.mant % 2 == 0
  let lowIn := within closed low high r k p
  let highIn := within closed low high r (k + 1) p
  if lowIn && highIn then
    if v * r - k * p < (k + 1) * p - v * r then some k else some (k + 1)
  else if lowIn then some k
  else if highIn then some (k + 1)
  else none

/-- The shortest decimal in the rounding interval of `x`, nearest to `x` among the shortest;
zero for zero. -/
def shortest (x : Binary64) : Decimal :=
  if x.mant = 0 then ⟨0, 0⟩
  else
    let (a, b) := pow2 x.exp
    let top := Decimal.log10Ratio (x.mant * a) b
    let found := (List.range 17).findSome? fun (i : Nat) =>
      let e := top - (i : Int)
      (x.onGrid e).map fun k => (⟨k, e⟩ : Decimal)
    match found with
    | some d => d.normalize
    | none => ⟨x.mant * a / b, 0⟩

example : (shortest ⟨2 ^ 52, -52⟩) = ⟨1, 0⟩ := by decide +kernel
-- 0.1 is the binary64 number 3602879701896397 · 2^-55
example : (shortest ⟨3602879701896397, -55⟩) = ⟨1, -1⟩ := by decide +kernel
-- the least subnormal number reads back from a single digit
example : (shortest ⟨1, -1074⟩) = ⟨5, -324⟩ := by decide +kernel

end Binary64

end DbSchema
