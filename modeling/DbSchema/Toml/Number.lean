import DbSchema.Decimal.Shortest
import DbSchema.Toml.Text

/-!
# TOML numbers

Integers and floats as TOML writes them.

* An integer is decimal with an optional sign, and has no leading zero unless it is `0`; or it
  is hexadecimal `0x…`, octal `0o…` or binary `0b…`, without a sign. Its value must fit in 64
  bits, as a two's complement number.
* A float is a decimal integer followed by an exponent `e…`/`E…`, by a fraction `.…`, or by
  both; or `inf` or `nan` with an optional sign. A float that rounds beyond the largest
  binary64 number is refused unless it is negative, as the reader this follows refuses only
  positive infinity.
* In every run of digits an underscore may stand between two digits.
-/

namespace DbSchema

namespace Toml

/-- The digits that follow a first digit: digits of the class `isD`, each possibly after one
underscore. Gives the digits without the underscores, and the rest; `none` when an underscore
is not followed by a digit. -/
def digitRun (isD : Char → Bool) : List Char → Option (List Char × List Char)
  | '_' :: d :: r =>
    if isD d then (digitRun isD r).map fun (ds, rest) => (d :: ds, rest) else none
  | '_' :: [] => none
  | d :: r =>
    if isD d then (digitRun isD r).map fun (ds, rest) => (d :: ds, rest) else some ([], d :: r)
  | [] => some ([], [])

/-- A non-empty run of digits of the class `isD`, underscores allowed between them. -/
def digitsOf (isD : Char → Bool) : List Char → Option (List Char × List Char)
  | d :: r => if isD d then (digitRun isD r).map fun (ds, rest) => (d :: ds, rest) else none
  | [] => none

def digitsValue (radix : Nat) (ds : List Char) : Nat :=
  ds.foldl (fun v c => radix * v + ((hexDigit? c).getD 0)) 0

def readSign : List Char → Bool × List Char
  | '-' :: r => (true, r)
  | '+' :: r => (false, r)
  | r => (false, r)

/-- Reads the digits of a decimal integer: `0` alone, or digits starting with a non-zero one. -/
def unsignedDecimal : List Char → Option (List Char × List Char)
  | '0' :: r => some (['0'], r)
  | cs => digitsOf Char.isDigit cs

/-- Reads a decimal integer: whether it is negative, its digits and the rest. -/
def decimalInteger (cs : List Char) : Option (Bool × List Char × List Char) :=
  let (neg, r) := readSign cs
  (unsignedDecimal r).map fun (ds, rest) => (neg, ds, rest)

/-- The range of 64-bit two's complement integers. -/
def minInteger : Int := -(Int.pow 2 63)
def maxInteger : Int := Int.pow 2 63 - 1

/-- Reads the digits of a prefixed integer in base `radix`, within the 64-bit range. -/
def radixInteger (radix : Nat) (isD : Char → Bool) (cs : List Char) : Option (Int × List Char) :=
  match digitsOf isD cs with
  | some (ds, rest) =>
    let v : Int := digitsValue radix ds
    if v ≤ maxInteger then some (v, rest) else none
  | none => none

def integer? : List Char → Option (Int × List Char)
  | '0' :: 'x' :: r => radixInteger 16 (fun c => (hexDigit? c).isSome) r
  | '0' :: 'o' :: r => radixInteger 8 (fun c => '0' ≤ c && c ≤ '7') r
  | '0' :: 'b' :: r => radixInteger 2 (fun c => c == '0' || c == '1') r
  | cs =>
    match decimalInteger cs with
    | some (neg, ds, rest) =>
      let n : Int := digitsValue 10 ds
      let v := if neg then -n else n
      if minInteger ≤ v ∧ v ≤ maxInteger then some (v, rest) else none
    | none => none

/-- The size of a float without its sign. -/
inductive Magnitude where
  /-- The number `digits · 10^exp`. -/
  | finite (digits : Nat) (exp : Int)
  | infinity
  | nan
deriving DecidableEq, Repr

/-- Whether `m · 10^e` rounds beyond the largest binary64 number. Only numbers from `10^308`
on can; below `10^309` the rounding decides. -/
def overflows (m : Nat) (e : Int) : Bool :=
  if m = 0 then false
  else
    let top : Int := (Decimal.digitCount m : Int) - 1 + e
    if top < 308 then false
    else if 308 < top then true
    else
      let (a, b) := Decimal.pow10 e
      (Binary64.ofRatio (m * a) b).isNone

/-- Reads an exponent `e…` or `E…` with an optional sign. -/
def exponentPart : List Char → Option (Int × List Char)
  | c :: r =>
    if c = 'e' ∨ c = 'E' then
      let (neg, r) := readSign r
      (digitsOf Char.isDigit r).map fun (ds, rest) =>
        let n : Int := digitsValue 10 ds
        (if neg then -n else n, rest)
    else none
  | [] => none

/-- Reads a fraction `.…` and gives its digits. -/
def fractionPart : List Char → Option (List Char × List Char)
  | '.' :: r => digitsOf Char.isDigit r
  | _ => none

/-- Reads what follows the integer part of a float: an exponent, or a fraction and an optional
exponent. Gives the digits of the fraction, the exponent and the rest. -/
def floatTail (cs : List Char) : Option (List Char × Int × List Char) :=
  match exponentPart cs with
  | some (e, rest) => some ([], e, rest)
  | none =>
    match fractionPart cs with
    | some (frac, r) =>
      match exponentPart r with
      | some (e, rest) => some (frac, e, rest)
      | none => some (frac, 0, r)
    | none => none

/-- Reads `inf` or `nan` with an optional sign. -/
def specialFloat? (cs : List Char) : Option ((Bool × Magnitude) × List Char) :=
  let (neg, r) := readSign cs
  match r with
  | 'i' :: 'n' :: 'f' :: rest => some ((neg, .infinity), rest)
  | 'n' :: 'a' :: 'n' :: rest => some ((neg, .nan), rest)
  | _ => none

/-- Reads a float: its sign, its magnitude and the rest. -/
def float? (cs : List Char) : Option ((Bool × Magnitude) × List Char) :=
  match decimalInteger cs with
  | some (neg, whole, r) =>
    match floatTail r with
    | some (frac, e, rest) =>
      let m := digitsValue 10 (whole ++ frac)
      let exp := e - frac.length
      if !neg && overflows m exp then none else some ((neg, .finite m exp), rest)
    | none => specialFloat? cs
  | none => specialFloat? cs

example : (integer? "0x7FFF_FFFF_FFFF_FFFF".toList).map (·.1) = some maxInteger := by
  decide +kernel
example : integer? "9223372036854775808".toList = none := by decide +kernel
example : (integer? "-9223372036854775808".toList).map (·.1) = some minInteger := by
  decide +kernel
example : (float? "224_617.445_991".toList).map (·.1) = some (false, .finite 224617445991 (-6)) := by
  decide +kernel
example : float? "1e309".toList = none ∧ (float? "-1e309".toList).isSome := by decide +kernel
example : (float? "0.1e-400".toList).isSome ∧ float? "1._5".toList = none := by decide +kernel

end Toml

end DbSchema
