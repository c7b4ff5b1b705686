import DbSchema.Syntax.Schema
import DbSchema.Validation.Diagnose

/-!
# Reading and validating a schema

`Schema.parseWith providers src` reads the text `src` and validates the schema it holds; the
result keeps the schema, the syntax errors and the problems found by validation. Its messages
are the syntax errors in the order of the text, then the problems in the order of validation.

A result with any message is refused as a whole by `Parsed.check` and `Parsed.toSchema`.
-/

namespace DbSchema

/-- Why a schema is refused as a whole. -/
inductive Refusal where
  /-- The schema has this many errors. -/
  | invalidSchema (count : Nat)
  /-- The schema failed validation with these messages. -/
  | validationFailed (messages : List String)
deriving DecidableEq, Repr

/-- The text of a refusal; a failed validation lists its messages one per line. -/
def Refusal.message : Refusal → String
  | .invalidSchema n => s!"schema has {n} error(s)"
  | .validationFailed ms =>
    s!"schema validation failed with {ms.length} error(s):\n" ++
      "\n".intercalate (ms.map ("  - " ++ ·))

/-- A schema read from a text, with its syntax errors and the problems validation found. -/
structure Parsed where
  schema : Schema
  syntaxErrors : List SyntaxError
  issues : List Issue
deriving Repr, Inhabited

namespace Parsed

/-- The messages of the syntax errors, then those of the problems. -/
def errors (p : Parsed) : List String :=
  p.syntaxErrors.map SyntaxError.message ++ p.issues.map Issue.message

def isOk (p : Parsed) : Bool :=
  p.errors.isEmpty

/-- Refuses a result with messages, giving their number. -/
def check (p : Parsed) : Except Refusal Unit :=
  if p.errors.isEmpty then .ok () else .error (.invalidSchema p.errors.length)

/-- The schema of a result without messages; otherwise a refusal listing them. -/
def toSchema (p : Parsed) : Except Refusal Schema :=
  if p.errors.isEmpty then .ok p.schema else .error (.validationFailed p.errors)

end Parsed

namespace Schema

/-- Reads a text and validates its schema against the given providers. -/
def parseWith (providers : List String) (src : String) : Parsed :=
  let (s, errs) := parseSyntax src
  ⟨s, errs, s.diagnose providers⟩

/-- Reads a text and validates its schema against the default providers. -/
def parse (src : String) : Parsed :=
  parseWith defaultProviders src

/-- The schema of a text that reads and validates without a message. -/
def parseAndValidate (src : String) : Except Refusal Schema :=
  (parse src).toSchema

end Schema

end DbSchema
