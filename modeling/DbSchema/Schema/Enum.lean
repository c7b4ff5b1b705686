import DbSchema.Schema.Attribute

/-!
# Enums

An enum is a named list of values, each with attributes of its own, and block attributes for
the whole enum. `@map` and `@@map` give the names used in the database.
-/

namespace DbSchema

structure EnumValue where
  name : String
  attributes : List Attribute
deriving Repr, Inhabited

/-- An enum: its name, values and block attributes. -/
structure Enum where
  name : String
  values : List EnumValue
  attributes : List Attribute
deriving Repr, Inhabited

/-- The database name of an enum value: the string of its first `@map`, or else its name. -/
def EnumValue.dbValue (v : EnumValue) : String :=
  (mappedName? v.attributes "map").getD v.name

/-- The database name of an enum: the string of its first `@@map`, or else its name. -/
def Enum.dbName (e : Enum) : String :=
  (mappedName? e.attributes "map").getD e.name

end DbSchema
