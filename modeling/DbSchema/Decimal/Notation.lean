import DbSchema.Decimal.Shortest

/-!
# Writing a decimal

A `Notation` fixes how a binary64 number, already reduced to its shortest decimal, is written:
which magnitudes are written positionally and which in scientific form, how many digits at
least follow the point, the exponent mark and the text of infinity. `Notation.write` writes a
signed number in it.
-/

namespace DbSchema

/-- The choices of a number notation. A number whose leading digit has the decimal exponent
`E` is written positionally when `minFixed ≤ E < maxFixed` or when it is zero, and otherwise
as one digit, the other digits after a point, the mark and `E`. -/
structure Notation where
  minFixed : Int
  maxFixed : Int
  /-- The least number of digits after the point in positional form. -/
  minFraction : Nat
  expMark : String
  infinity : String

namespace Notation

def zeros (n : Nat) : String :=
  String.ofList (List.replicate n '0')

/-- The decimal `d` in positional form, with at least `minFraction` digits after the point
(and no point when that is zero and the number is whole). -/
def positional (nt : Notation) (d : Decimal) : String :=
  let s := toString d.digits
  let n := s.length
  let pad (frac : String) : String :=
    let frac := frac ++ zeros (nt.minFraction - frac.length)
    if frac.isEmpty then "" else "." ++ frac
  if 0 ≤ d.exp then s ++ zeros d.exp.toNat ++ pad ""
  else
    let fracLen := (-d.exp).toNat
    if fracLen < n then
      String.ofList (s.toList.take (n - fracLen)) ++ pad (String.ofList (s.toList.drop (n - fracLen)))
    else "0" ++ pad (zeros (fracLen - n) ++ s)

/-- The decimal `d` in scientific form: its first digit, the others after a point, the mark and
the exponent of the first digit. -/
def scientific (nt : Notation) (d : Decimal) : String :=
  let s := toString d.digits
  let lead := (d.exp + s.length) - 1
  let rest := String.ofList (s.toList.drop 1)
  String.ofList (s.toList.take 1) ++ (if rest.isEmpty then "" else "." ++ rest) ++
    nt.expMark ++ toString lead

/-- Writes a number with the sign `neg`: `none` is infinity, `some d` the decimal `d`. -/
def write (nt : Notation) (neg : Bool) : Option Decimal → String
  | none => (if neg then "-" else "") ++ nt.infinity
  | some d =>
    let lead := (d.exp + (toString d.digits).length) - 1
    let body :=
      if d.digits = 0 ∨ (nt.minFixed ≤ lead ∧ lead < nt.maxFixed) then nt.positional d
      else nt.scientific d
    (if neg then "-" else "") ++ body

end Notation

end DbSchema
