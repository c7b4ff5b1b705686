import DbSchema.Schema.Attribute
import DbSchema.Schema.FieldType

/-!
# Models and composite types

A model is a named list of fields with attributes of its own (`@@id([a, b])`,
`@@map("users")`); a composite type has the same shape and describes embedded data. A field has
a name, a type and attributes (`@id`, `@relation(...)`).
-/

namespace DbSchema

structure Field where
  name : String
  type : FieldType
  attributes : List Attribute
deriving Repr, Inhabited

namespace Field

def hasAttribute (f : Field) (n : String) : Bool :=
  f.attributes.any (·.name == n)

def isId (f : Field) : Bool := f.hasAttribute "id"

def isUnique (f : Field) : Bool := f.hasAttribute "unique"

def isRelation (f : Field) : Bool := f.hasAttribute "relation"

/-- The database column: the string of the first `@map`, or else the field's name. -/
def columnName (f : Field) : String :=
  (mappedName? f.attributes "map").getD f.name

end Field

/-- A model: its name, fields and block attributes. -/
structure Model where
  name : String
  fields : List Field
  attributes : List Attribute
deriving Repr, Inhabited

namespace Model

/-- The database table: the string of the first `@@map`, or else the model's name. -/
def tableName (m : Model) : String :=
  (mappedName? m.attributes "map").getD m.name

def idFields (m : Model) : List Field :=
  m.fields.filter Field.isId

def relationFields (m : Model) : List Field :=
  m.fields.filter Field.isRelation

end Model

/-- A composite type: its name, fields and block attributes. -/
structure CompositeType where
  name : String
  fields : List Field
  attributes : List Attribute
deriving Repr, Inhabited

end DbSchema
