import DbSchema.Schema.Model
import DbSchema.Schema.Enum
import DbSchema.Schema.Datasource

/-!
# Schemas

A schema holds its blocks by kind, each kind in the order of the text: datasources, generators,
models, enums and composite types. `Schema.stats` counts them; fields and relations are
counted over the models only.
-/

namespace DbSchema

/-- A schema: its blocks by kind, in the order of the text. -/
structure Schema where
  datasources : List Datasource := []
  generators : List Generator := []
  models : List Model := []
  enums : List Enum := []
  types : List CompositeType := []
deriving Repr, Inhabited

inductive Block where
  | datasource (d : Datasource)
  | generator (g : Generator)
  | model (m : Model)
  | enum (e : Enum)
  | type (t : CompositeType)
deriving Repr, Inhabited

/-- The counts that summarise a schema. -/
structure SchemaStats where
  datasources : Nat
  generators : Nat
  models : Nat
  enums : Nat
  types : Nat
  fields : Nat
  relations : Nat
deriving DecidableEq, Repr

namespace Schema

/-- The schema of the given blocks, one kind after the other. -/
def append (s t : Schema) : Schema :=
  ⟨s.datasources ++ t.datasources, s.generators ++ t.generators, s.models ++ t.models,
    s.enums ++ t.enums, s.types ++ t.types⟩

/-- The schema with one more block, after the others of its kind. -/
def push (s : Schema) : Block → Schema
  | .datasource d => { s with datasources := s.datasources ++ [d] }
  | .generator g => { s with generators := s.generators ++ [g] }
  | .model m => { s with models := s.models ++ [m] }
  | .enum e => { s with enums := s.enums ++ [e] }
  | .type t => { s with types := s.types ++ [t] }

def isEmpty (s : Schema) : Bool :=
  s.datasources.isEmpty && s.generators.isEmpty && s.models.isEmpty && s.enums.isEmpty &&
    s.types.isEmpty

def model? (s : Schema) (n : String) : Option Model :=
  s.models.find? (·.name == n)

/-- The number of blocks of each kind, and of the fields and relation fields of the models. -/
def stats (s : Schema) : SchemaStats :=
  ⟨s.datasources.length, s.generators.length, s.models.length, s.enums.length,
    s.types.length, (s.models.map (·.fields.length)).foldr (· + ·) 0,
    (s.models.map (·.relationFields.length)).foldr (· + ·) 0⟩

def summary (s : Schema) : String :=
  let c := s.stats
  s!"Schema({c.datasources} datasources, {c.generators} generators, {c.models} models, " ++
    s!"{c.enums} enums, {c.types} types, {c.fields} fields, {c.relations} relations)"

end Schema

end DbSchema
