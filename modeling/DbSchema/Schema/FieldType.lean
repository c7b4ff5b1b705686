/-!
# Field types

The type of a field names a scalar, a model, an enum or a composite type (`Int`, `Post`), or is
a type the schema cannot express, given as raw text (`Unsupported("circle")`). Either may be a
list (`[]`) and optional (`?`), in that order.
-/

namespace DbSchema

/-- What a field type names. -/
inductive TypeName where
  /-- A type given by its name. -/
  | named (name : String)
  /-- A type the schema cannot express, with its raw description. -/
  | unsupported (raw : String)
deriving DecidableEq, Repr, Inhabited

/-- A field type: what it names, and whether it is a list and whether it is optional. -/
structure FieldType where
  base : TypeName
  isArray : Bool := false
  isOptional : Bool := false
deriving DecidableEq, Repr, Inhabited

def scalarNames : List String :=
  ["String", "Int", "BigInt", "Float", "Decimal", "Boolean", "DateTime", "Json", "Bytes"]

namespace FieldType

/-- The name of the type; an unsupported type is called `Unsupported`. -/
def name (t : FieldType) : String :=
  match t.base with
  | .named n => n
  | .unsupported _ => "Unsupported"

def isUnsupported (t : FieldType) : Bool :=
  match t.base with
  | .named _ => false
  | .unsupported _ => true

def unsupportedValue? (t : FieldType) : Option String :=
  match t.base with
  | .named _ => none
  | .unsupported raw => some raw

/-- The built-in scalar the type names, matched case-sensitively. -/
def scalar? (t : FieldType) : Option String :=
  match t.base with
  | .named n => if scalarNames.contains n then some n else none
  | .unsupported _ => none

/-- The schema text of a field type: `Unsupported("raw")` or the name, then `[]` for a list
and `?` for an optional type. -/
def display (t : FieldType) : String :=
  (match t.base with
    | .named n => n
    | .unsupported raw => "Unsupported(\"" ++ raw ++ "\")") ++
  (if t.isArray then "[]" else "") ++ (if t.isOptional then "?" else "")

end FieldType

end DbSchema
