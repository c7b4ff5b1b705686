import DbSchema.Schema.Basic
import DbSchema.Validation.Issue

/-!
# Validating a schema

`Schema.diagnose providers s` lists every problem of the schema `s`, never stopping at the
first; `providers` are the databases a datasource may name by a plain string. The problems
come in this order: datasources, generators, repeated model names, each model (its fields,
then its block attributes), composite types (repeated names, then their fields), enums, and
last the relations of the models.

A repeated name is reported once for each time it repeats, at the place of the repeat.
-/

namespace DbSchema

/-- The names of `names` that repeat a name before them or one of `seen`, one entry per
repeat, in order. -/
def repeatsAfter (seen : List String) : List String → List String
  | [] => []
  | n :: ns => if seen.contains n then n :: repeatsAfter seen ns else repeatsAfter (n :: seen) ns

/-- The names that repeat an earlier one, one entry per repeat, in order. -/
def repeats (names : List String) : List String :=
  repeatsAfter [] names

example : repeats ["a", "b", "a", "a", "b"] = ["a", "a", "b"] := by decide

/-- The providers a datasource may name when no other list is given. -/
def defaultProviders : List String :=
  DatabaseProvider.all.map DatabaseProvider.name

namespace Validation

/-- A datasource needs a `provider` entry, and a provider given as a plain string must be one
of `providers`. -/
def datasourceIssues (providers : List String) (d : Datasource) : List Issue :=
  match d.provider? with
  | none => [.missingProvider "datasource" d.name]
  | some (.str p) => if providers.contains p then [] else [.unsupportedProvider d.name p providers]
  | some _ => []

/-- A generator needs a `provider` entry. -/
def generatorIssues (g : Generator) : List Issue :=
  if g.provider?.isNone then [.missingProvider "generator" g.name] else []

/-- The problems of one attribute of a field: `@default` needs an argument, and `@relation`
gives `fields` and `references` both or neither. -/
def fieldAttributeIssues (target : String) (a : Attribute) : List Issue :=
  if a.name = "default" ∧ a.args.isEmpty then
    [.invalidAttribute "default" target "expected at least one argument"]
  else if a.name = "relation" ∧ a.hasArg "fields" ≠ a.hasArg "references" then
    [.invalidAttribute "relation" target "`fields` and `references` must be given together"]
  else []

/-- The problems of the fields of the block `owner`: repeated field names, then for each field
an empty type name and the problems of its attributes. -/
def fieldIssues (owner : String) (fields : List Field) : List Issue :=
  (repeats (fields.map (·.name))).map (Issue.duplicateMember "field" owner) ++
    fields.flatMap fun f =>
      (if f.type.name.isEmpty then [Issue.emptyTypeName owner f.name] else []) ++
        f.attributes.flatMap (fieldAttributeIssues (owner ++ "." ++ f.name))

/-- The block attributes `@@id`, `@@unique` and `@@index` need a list of fields. -/
def blockAttributeIssues (owner : String) (a : Attribute) : List Issue :=
  if (a.name = "id" ∨ a.name = "unique" ∨ a.name = "index") ∧ a.args.isEmpty then
    [.invalidAttribute ("@" ++ a.name) owner "expected a list of fields"]
  else []

/-- The problems of a model: those of its fields, then those of its block attributes. -/
def modelIssues (m : Model) : List Issue :=
  fieldIssues m.name m.fields ++ m.attributes.flatMap (blockAttributeIssues m.name)

/-- The problems of an enum: an empty name, no values, repeated value names. -/
def enumIssues (e : Enum) : List Issue :=
  (if e.name.isEmpty then [.missingName "enum"] else []) ++
    (if e.values.isEmpty then [.emptyEnum e.name] else []) ++
    (repeats (e.values.map (·.name))).map (Issue.duplicateMember "enum value" e.name)

/-- The model a relation field points to: the `model` argument of its `@relation` when that is
a string or a name, and otherwise the field's type. -/
def relationTarget (f : Field) (r : Attribute) : String :=
  ((r.arg? "model").bind Value.asName?).getD f.type.name

/-- The problems of the relation of a field, given by its first `@relation`: a target that is no
model of `s`, and lists of fields and references of different lengths. -/
def relationIssues (s : Schema) (m : Model) (f : Field) : List Issue :=
  match findAttribute? f.attributes "relation" with
  | none => []
  | some r =>
    let target := relationTarget f r
    (if (s.model? target).isNone then [.unknownRelationTarget m.name f.name target] else []) ++
      match r.arg? "fields", r.arg? "references" with
      | some fs, some rs =>
        if fs.arity ≠ rs.arity then [.relationArity m.name f.name fs.arity rs.arity] else []
      | _, _ => []

end Validation

namespace Schema

open Validation in
/-- Every problem of a schema, in the order described above. -/
def diagnose (providers : List String) (s : Schema) : List Issue :=
  s.datasources.flatMap (datasourceIssues providers) ++
    s.generators.flatMap generatorIssues ++
    (repeats (s.models.map (·.name))).map (Issue.duplicate "model") ++
    s.models.flatMap modelIssues ++
    (repeats (s.types.map (·.name))).map (Issue.duplicate "type") ++
    s.types.flatMap (fun t => fieldIssues t.name t.fields) ++
    s.enums.flatMap enumIssues ++
    s.models.flatMap (fun m => m.fields.flatMap (relationIssues s m))

end Schema

end DbSchema
