import DbSchema.Syntax.Attribute
import DbSchema.Schema.Basic

/-!
# Reading blocks

A block is a keyword, an identifier naming it, and a body in braces:

* `datasource` and `generator` bodies hold entries `name = value`;
* `model` and `type` bodies hold fields (a name, a type and `@` attributes) and block
  attributes marked by `@@`;
* `enum` bodies hold values (a name and `@` attributes) and block attributes.

Keywords serve as member names inside a body. Any other token in a body stops the block with
"unexpected token", and the end of the text inside a body with "expected '}'".
-/

namespace DbSchema

namespace Parser

/-- Reads a block's keyword of kind `k`, its name and the `{` that opens its body. -/
def header (k : TokenKind) : Parser String := do
  let _ ← expect k
  let name ← expectIdent
  let _ ← expect .lBrace
  return name

/-- Reads an entry `name = value`; `none` when a token that starts no value stands after the
`=`, which is skipped. -/
def entry : Parser (Option ConfigEntry) := do
  let name ← next
  let _ ← expect .equals
  return (← value).map fun v => ⟨name.text, v⟩

/-- Reads the entries of a datasource or generator body up to and including its `}`; `acc`
holds those read so far, last first. -/
def entries (acc : List ConfigEntry) (c : Cursor) : Outcome (List ConfigEntry) :=
  match c.kind with
  | .rBrace => .ok acc.reverse c.advance
  | .eof => .error (c.expected TokenKind.rBrace.describe) c
  | k =>
    if k.isName then
      match entry c with
      | .ok e c1 =>
        let acc := match e with
          | some e => e :: acc
          | none => acc
        if c1.remaining < c.remaining then entries acc c1 else .ok acc.reverse c1
      | .error e c1 => .error e c1
    else .error c.unexpected c
termination_by c.remaining

def field : Parser Field := do
  let name ← expectName
  let type ← fieldType
  let attrs ← fieldAttributes []
  return ⟨name, type, attrs⟩

/-- Reads the fields and block attributes of a model or composite type body up to and
including its `}`; `fields` and `attrs` hold those read so far, last first. -/
def members (fields : List Field) (attrs : List Attribute) (c : Cursor) :
    Outcome (List Field × List Attribute) :=
  match c.kind with
  | .rBrace => .ok (fields.reverse, attrs.reverse) c.advance
  | .eof => .error (c.expected TokenKind.rBrace.describe) c
  | .doubleAtSign =>
    match attr c with
    | .ok a c1 =>
      if c1.remaining < c.remaining then members fields (a :: attrs) c1
      else .ok (fields.reverse, (a :: attrs).reverse) c1
    | .error e c1 => .error e c1
  | k =>
    if k.isName then
      match field c with
      | .ok f c1 =>
        if c1.remaining < c.remaining then members (f :: fields) attrs c1
        else .ok ((f :: fields).reverse, attrs.reverse) c1
      | .error e c1 => .error e c1
    else .error c.unexpected c
termination_by c.remaining

/-- Reads the values and block attributes of an enum body up to and including its `}`;
`values` and `attrs` hold those read so far, last first. -/
def enumMembers (values : List EnumValue) (attrs : List Attribute) (c : Cursor) :
    Outcome (List EnumValue × List Attribute) :=
  match c.kind with
  | .rBrace => .ok (values.reverse, attrs.reverse) c.advance
  | .eof => .error (c.expected TokenKind.rBrace.describe) c
  | .doubleAtSign =>
    match attr c with
    | .ok a c1 =>
      if c1.remaining < c.remaining then enumMembers values (a :: attrs) c1
      else .ok (values.reverse, (a :: attrs).reverse) c1
    | .error e c1 => .error e c1
  | k =>
    if k.isName then
      let name := c.current.text
      match fieldAttributes [] c.advance with
      | .ok as c1 =>
        if c1.remaining < c.remaining then enumMembers (⟨name, as⟩ :: values) attrs c1
        else .ok ((⟨name, as⟩ :: values).reverse, attrs.reverse) c1
      | .error e c1 => .error e c1
    else .error c.unexpected c
termination_by c.remaining

def datasource : Parser Datasource := do
  let name ← header .datasource
  return ⟨name, ← entries []⟩

def generator : Parser Generator := do
  let name ← header .generator
  return ⟨name, ← entries []⟩

def model : Parser Model := do
  let name ← header .model
  let (fields, attrs) ← members [] []
  return ⟨name, fields, attrs⟩

def compositeType : Parser CompositeType := do
  let name ← header .type
  let (fields, attrs) ← members [] []
  return ⟨name, fields, attrs⟩

def enumBlock : Parser Enum := do
  let name ← header .enum
  let (values, attrs) ← enumMembers [] []
  return ⟨name, values, attrs⟩

/-- Reads the block that the current token opens: a datasource, generator, model or enum by
its keyword, and a composite type otherwise. -/
def block : Parser Block := do
  match (← current).kind with
  | .datasource => return .datasource (← datasource)
  | .generator => return .generator (← generator)
  | .model => return .model (← model)
  | .enum => return .enum (← enumBlock)
  | _ => return .type (← compositeType)

end Parser

end DbSchema
