/-!
# Problems of a schema

An `Issue` is a problem that validation finds in a schema that reads well: a block without a
provider, a name given twice, an attribute without the arguments it needs, a relation to a
model that does not exist. `Issue.message` gives its text.
-/

namespace DbSchema

/-- A problem found by validation. Kinds (`datasource`, `field`, `enum value`, …) are the words
the messages use. -/
inductive Issue where
  /-- A datasource or generator (`kind`) without a `provider` entry. -/
  | missingProvider (kind name : String)
  /-- A datasource whose provider is a string outside the allowed ones. -/
  | unsupportedProvider (datasource provider : String) (allowed : List String)
  /-- A second block of kind `kind` with the name `name`. -/
  | duplicate (kind name : String)
  /-- A second member of kind `kind` with the name `name` in the block `owner`. -/
  | duplicateMember (kind owner name : String)
  /-- A field whose type has an empty name. -/
  | emptyTypeName (owner field : String)
  /-- An attribute `@attr` on `target` that lacks what it needs. -/
  | invalidAttribute (attr target reason : String)
  /-- A block of kind `kind` with an empty name. -/
  | missingName (kind : String)
  /-- An enum without values. -/
  | emptyEnum (name : String)
  /-- A relation field whose target is no model of the schema. -/
  | unknownRelationTarget (model field target : String)
  /-- A relation with lists of fields and of references of different lengths. -/
  | relationArity (model field : String) (fields references : Nat)
deriving DecidableEq, Repr, Inhabited

namespace Issue

def message : Issue → String
  | .missingProvider kind name => s!"{kind} `{name}` is missing required field `provider`"
  | .unsupportedProvider ds p allowed =>
    s!"datasource `{ds}` has unsupported provider `{p}` (expected one of: " ++
      ", ".intercalate allowed ++ ")"
  | .duplicate kind name => s!"duplicate {kind} `{name}`"
  | .duplicateMember kind owner name => s!"duplicate {kind} `{name}` in `{owner}`"
  | .emptyTypeName owner field => s!"field `{owner}.{field}` has an empty type name"
  | .invalidAttribute attr target reason =>
    s!"invalid attribute `@{attr}` on `{target}`: {reason}"
  | .missingName kind => s!"{kind} is missing a name"
  | .emptyEnum name => s!"enum `{name}` must declare at least one value"
  | .unknownRelationTarget model field target =>
    s!"relation `{model}.{field}` references unknown model `{target}`"
  | .relationArity model field fields references =>
    s!"relation `{model}.{field}` has {fields} field(s) but {references} reference(s)"

end Issue

end DbSchema
