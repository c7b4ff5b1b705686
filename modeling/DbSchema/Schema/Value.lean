import DbSchema.Decimal.Notation

/-!
# Values

A value is what stands after `=` in a datasource or generator block and inside the parentheses
of an attribute: a string, an integer, a float, a boolean, a bare name, a list `[a, b]` or a
call `f(a, b)`. Numbers keep the text they were written with; `Value.asInt?` and
`Value.asFloat?` read it.

`Value.display` writes a value back as schema text: a string in double quotes with its escapes
as written, numbers and names as written, items separated by `, `.
-/

namespace DbSchema

/-- A value of an attribute argument or a block entry. -/
inductive Value where
  /-- A string literal, without its quotes and with escapes as written. -/
  | str (raw : String)
  /-- An integer literal as written. -/
  | int (lit : String)
  /-- A float literal as written. -/
  | float (lit : String)
  | bool (b : Bool)
  /-- A bare name, such as an enum value or a field. -/
  | ident (name : String)
  | list (items : List Value)
  | call (name : String) (args : List Value)
deriving Repr, Inhabited

namespace Value

mutual

def display : Value → String
  | .str s => "\"" ++ s ++ "\""
  | .int l => l
  | .float l => l
  | .bool b => if b then "true" else "false"
  | .ident n => n
  | .list vs => "[" ++ displayItems vs ++ "]"
  | .call f vs => f ++ "(" ++ displayItems vs ++ ")"

/-- The schema text of the items of a list or call, separated by `, `. -/
def displayItems : List Value → String
  | [] => ""
  | [v] => v.display
  | v :: vs => v.display ++ ", " ++ displayItems vs

end

/-- How many items a value contributes to a list of references: the length of a list, and one
for any other value. -/
def arity : Value → Nat
  | .list vs => vs.length
  | _ => 1

def asName? : Value → Option String
  | .str s => some s
  | .ident n => some n
  | _ => none

/-- The digits of a text when it consists of ASCII digits only and is not empty. -/
def digitsValue? (cs : List Char) : Option Nat :=
  if cs ≠ [] ∧ cs.all Char.isDigit then
    some (cs.foldl (fun n c => 10 * n + (c.toNat - '0'.toNat)) 0)
  else none

/-- A sign and the rest of a number text: a leading `-` makes it negative, a leading `+` is
dropped. -/
def splitSign : List Char → Bool × List Char
  | '-' :: r => (true, r)
  | '+' :: r => (false, r)
  | r => (false, r)

/-- The least and the largest integer of 64-bit two's complement. -/
def minInt64 : Int := -(Int.pow 2 63)
def maxInt64 : Int := Int.pow 2 63 - 1

/-- An integer literal read as a 64-bit integer: an optional sign and decimal digits, leading
zeros allowed; `none` for any other text and for a number beyond the 64-bit range. -/
def readInt64? (lit : String) : Option Int :=
  let (neg, body) := splitSign lit.toList
  match digitsValue? body with
  | some n =>
    let v : Int := if neg then -(n : Int) else n
    if minInt64 ≤ v ∧ v ≤ maxInt64 then some v else none
  | none => none

/-- An integer literal as a 64-bit integer; `none` for every other value. -/
def asInt? : Value → Option Int
  | .int l => readInt64? l
  | _ => none

/-- A number literal read as a ratio: its sign, and the numerator and denominator of its
magnitude. The text is an optional sign, digits, and optionally a point and more digits. -/
def readRatio? (lit : String) : Option (Bool × Nat × Nat) :=
  let (neg, body) := splitSign lit.toList
  let (whole, rest) := body.span Char.isDigit
  match rest with
  | [] => (digitsValue? whole).map fun n => (neg, n, 1)
  | '.' :: frac =>
    match digitsValue? whole, digitsValue? frac with
    | some w, some f => some (neg, w * Nat.pow 10 frac.length + f, Nat.pow 10 frac.length)
    | _, _ => none
  | _ => none

/-- Floats are written in the shortest form that reads back, positionally for magnitudes from
`1e-4` up to below `1e16` with at least one digit after the point, and otherwise in scientific
form such as `1e-5` or `1.5e16`; a number too large for binary64 is infinite. -/
def floatNotation : Notation :=
  ⟨-4, 16, 1, "e", "inf"⟩

/-- A number literal read as the nearest binary64 number and written in `floatNotation`;
`none` for every other value. -/
def asFloat? : Value → Option String
  | .int l | .float l =>
    (readRatio? l).map fun (neg, n, d) =>
      floatNotation.write neg ((Binary64.ofRatio n d).map Binary64.shortest)
  | _ => none

example : (Value.float "1.5").asFloat? = some "1.5" := by decide +kernel
example : (Value.int "-0").asFloat? = some "-0.0" := by decide +kernel
example : (Value.int "007").asInt? = some 7 := by decide +kernel

end Value

end DbSchema
