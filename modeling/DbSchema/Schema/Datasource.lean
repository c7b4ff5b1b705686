import DbSchema.Schema.Value

/-!
# Datasources and generators

A datasource block says which database a schema describes (`provider = "postgresql"`,
`url = env("DATABASE_URL")`); a generator block configures a code generator. Both are named
lists of entries `name = value`; when a name is given twice, the first entry counts.
-/

namespace DbSchema

/-- An entry `name = value` of a datasource or generator. -/
structure ConfigEntry where
  name : String
  value : Value
deriving Repr, Inhabited

def entry? (entries : List ConfigEntry) (n : String) : Option Value :=
  (entries.find? (·.name == n)).map ConfigEntry.value

/-- The databases a datasource may name as its provider by a plain string. -/
inductive DatabaseProvider where
  | postgresql
  | mysql
  | sqlite
deriving DecidableEq, Repr, Inhabited

namespace DatabaseProvider

def all : List DatabaseProvider := [.postgresql, .mysql, .sqlite]

def name : DatabaseProvider → String
  | .postgresql => "postgresql"
  | .mysql => "mysql"
  | .sqlite => "sqlite"

def ofName? (s : String) : Option DatabaseProvider :=
  all.find? (·.name == s)

end DatabaseProvider

structure Datasource where
  name : String
  entries : List ConfigEntry
deriving Repr, Inhabited

namespace Datasource

def provider? (d : Datasource) : Option Value := entry? d.entries "provider"

def url? (d : Datasource) : Option Value := entry? d.entries "url"

/-- The database named by the first `provider` entry, when that is a plain string. -/
def databaseProvider? (d : Datasource) : Option DatabaseProvider :=
  match d.provider? with
  | some (.str s) => DatabaseProvider.ofName? s
  | _ => none

end Datasource

structure Generator where
  name : String
  entries : List ConfigEntry
deriving Repr, Inhabited

namespace Generator

def provider? (g : Generator) : Option Value := entry? g.entries "provider"

def output? (g : Generator) : Option String :=
  match entry? g.entries "output" with
  | some (.str s) => some s
  | _ => none

end Generator

end DbSchema
