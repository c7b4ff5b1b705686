import DbSchema.Toml.Document
import DbSchema.Parsed

/-!
# Configuration

A configuration file, in TOML, names the schema file and the providers a datasource may name:

```
[schema]
path = "schema.prisma"

[validation]
providers = ["postgresql", "mysql", "sqlite"]
```

Each table and each key may be left out, and then takes the value shown. Any other key, a
value of another kind, or a text that is no TOML document makes the file malformed; an empty
list of providers makes it invalid.

A table may also be given as an array that lists its fields by position: `schema = ["db.prisma"]`
sets the path and `validation = [["mysql"]]` the providers. An empty array leaves the defaults,
and the items after the first are not looked at.

Before the file is read, each placeholder `${NAME}` in its text is replaced by the value of the
variable `NAME`; a placeholder whose variable is not set stays as written.
-/

namespace DbSchema

/-- What a configuration file sets. -/
structure Config where
  schemaPath : String := "schema.prisma"
  providers : List String := defaultProviders
deriving DecidableEq, Repr

/-- Why a configuration file is refused. -/
inductive ConfigError where
  /-- The text is no TOML document of the expected shape. -/
  | malformed
  /-- The document reads but breaks a rule of the configuration. -/
  | invalid (reason : String)
deriving DecidableEq, Repr

def ConfigError.message : ConfigError → String
  | .malformed => "failed to parse TOML"
  | .invalid reason => "configuration error: " ++ reason

/-- Replaces each placeholder `${NAME}` (a name of at least one character other than `}`) by
the value of `NAME` in `env`, keeping it as written when `env` has none. After a replacement the
text goes on after the placeholder. -/
def expandPlaceholders (env : String → Option String) : List Char → List Char
  | '$' :: '{' :: r =>
    let (name, rest) := r.span (· != '}')
    match rest with
    | '}' :: after =>
      if name.isEmpty then '$' :: expandPlaceholders env ('{' :: r)
      else
        let written := '$' :: '{' :: name ++ ['}']
        let replaced := ((env (String.ofList name)).map String.toList).getD written
        if after.length < r.length then replaced ++ expandPlaceholders env after else replaced
    | _ => '$' :: expandPlaceholders env ('{' :: r)
  | c :: r => c :: expandPlaceholders env r
  | [] => []
termination_by cs => cs.length

namespace Config

def default : Config := {}

def isDefault (c : Config) : Bool :=
  c == default

/-- Applies the entries of the `[schema]` table: only `path`, a string. -/
def withSchemaTable (c : Config) : List (String × Toml.Value) → Option Config
  | [] => some c
  | ("path", .str p) :: es => withSchemaTable { c with schemaPath := p } es
  | _ :: _ => none

def strings : List Toml.Value → Option (List String)
  | [] => some []
  | .str s :: vs => (strings vs).map (s :: ·)
  | _ :: _ => none

/-- Applies the entries of the `[validation]` table: only `providers`, an array of strings. -/
def withValidationTable (c : Config) : List (String × Toml.Value) → Option Config
  | [] => some c
  | ("providers", .arr items) :: es =>
    match strings items with
    | some ps => withValidationTable { c with providers := ps } es
    | none => none
  | _ :: _ => none

/-- Applies the value of `schema`: a table, or an array whose first item is the path. -/
def withSchema (c : Config) : Toml.Value → Option Config
  | .table es => c.withSchemaTable es
  | .arr [] => some c
  | .arr (.str p :: _) => some { c with schemaPath := p }
  | _ => none

/-- Applies the value of `validation`: a table, or an array whose first item is the array of
providers. -/
def withValidation (c : Config) : Toml.Value → Option Config
  | .table es => c.withValidationTable es
  | .arr [] => some c
  | .arr (.arr items :: _) => (strings items).map fun ps => { c with providers := ps }
  | _ => none

/-- Applies the entries of the root table: only `schema` and `validation`. -/
def withRoot (c : Config) : List (String × Toml.Value) → Option Config
  | [] => some c
  | ("schema", v) :: rest => (c.withSchema v).bind (withRoot · rest)
  | ("validation", v) :: rest => (c.withValidation v).bind (withRoot · rest)
  | _ :: _ => none

/-- Reads a configuration file, first replacing its placeholders from `env`. -/
def read (env : String → Option String) (text : String) : Except ConfigError Config :=
  let expanded := String.ofList (expandPlaceholders env text.toList)
  match (Toml.read expanded).bind (withRoot default) with
  | none => .error .malformed
  | some c =>
    if c.providers.isEmpty then
      .error (.invalid "`validation.providers` must list at least one provider")
    else .ok c

/-- Reads a schema text and validates it with the providers of the configuration. -/
def parseSchema (c : Config) (src : String) : Parsed :=
  Schema.parseWith c.providers src

end Config

end DbSchema
