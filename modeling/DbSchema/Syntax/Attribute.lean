import DbSchema.Syntax.Value
import DbSchema.Schema.Attribute
import DbSchema.Schema.FieldType

/-!
# Reading attributes and field types

An attribute is read from its marker on: the marker token itself (`@` or `@@`, whatever it is),
a name, further names after dots, and optionally arguments in parentheses. An argument is named
when a name is followed by `:` or `=`; otherwise it is a value. Arguments may be separated by
commas, and a token that starts no value is skipped.

A field type is an identifier, or `Unsupported` with a string in parentheses, then `[` `]` for
a list (only when the `]` follows at once) and `?` for an optional type.
-/

namespace DbSchema

namespace Parser

/-- Reads the parts `.name` that continue a dotted attribute name; `acc` is the name so far. -/
def dottedName (acc : String) (c : Cursor) : Outcome String :=
  if c.kind = .dot then
    match expectName c.advance with
    | .ok part c1 =>
      if c1.remaining < c.remaining then dottedName (acc ++ "." ++ part) c1
      else .ok acc c1
    | .error e c1 => .error e c1
  else .ok acc c
termination_by c.remaining

/-- Reads one argument: `name: value`, `name = value`, or a value. Gives `none` when a token
that starts no value was skipped instead. -/
def argument : Parser (Option Argument) := do
  let c ← get
  if c.kind.isName && (c.peek.kind == .colon || c.peek.kind == .equals) then
    let name ← next
    let _ ← next
    return (← value).map fun v => ⟨some name.text, v⟩
  else
    return (← value).map fun v => ⟨none, v⟩

/-- Reads arguments up to the closing parenthesis or the end of the text, each followed by an
optional comma; `acc` holds those read so far, last first. -/
def arguments (acc : List Argument) (c : Cursor) : Outcome (List Argument) :=
  if c.kind = .rParen ∨ c.kind = .eof then .ok acc.reverse c
  else
    match argument c with
    | .ok a c1 =>
      let acc := match a with
        | some a => a :: acc
        | none => acc
      let c2 := if c1.kind = .comma then c1.advance else c1
      if c2.remaining < c.remaining then arguments acc c2
      else .ok acc.reverse c2
    | .error e c1 => .error e c1
termination_by c.remaining

def attr : Parser Attribute := do
  let _ ← next
  let first ← expectName
  let name ← dottedName first
  if (← current).kind = .lParen then
    let _ ← next
    let args ← arguments []
    let _ ← expect .rParen
    return ⟨name, args⟩
  else
    return ⟨name, []⟩

/-- Reads the attributes marked by `@` that follow a field or an enum value; `acc` holds those
read so far, last first. -/
def fieldAttributes (acc : List Attribute) (c : Cursor) : Outcome (List Attribute) :=
  if c.kind = .atSign then
    match attr c with
    | .ok a c1 =>
      if c1.remaining < c.remaining then fieldAttributes (a :: acc) c1
      else .ok (a :: acc).reverse c1
    | .error e c1 => .error e c1
  else .ok acc.reverse c
termination_by c.remaining

def fieldType : Parser FieldType := do
  let name ← expectIdent
  let base ←
    if name = "Unsupported" then do
      let _ ← expect .lParen
      let raw ← expect .string
      let _ ← expect .rParen
      pure (TypeName.unsupported raw.text)
    else pure (TypeName.named name)
  let c ← get
  let isArray ←
    if c.kind = .lBracket ∧ c.peek.kind = .rBracket then do
      let _ ← next
      let _ ← next
      pure true
    else pure false
  let isOptional ←
    if (← current).kind = .question then do
      let _ ← next
      pure true
    else pure false
  return ⟨base, isArray, isOptional⟩

end Parser

end DbSchema
