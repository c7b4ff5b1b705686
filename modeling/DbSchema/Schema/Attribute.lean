import DbSchema.Schema.Value

/-!
# Attributes

An attribute annotates a field (`@id`, `@default(now())`), an enum value, or a whole model or
enum (`@@map("users")`). Its name may be dotted (`@db.VarChar(255)`); its arguments are
positional or named (`fields: [a]`, also written `fields = [a]`).

`Attribute.display` writes an attribute back as schema text with a single `@`, named arguments
as `name: value`.
-/

namespace DbSchema

/-- An argument of an attribute: named or positional. -/
structure Argument where
  name : Option String
  value : Value
deriving Repr, Inhabited

/-- An attribute: its name without the `@`, dotted parts joined by `.`, and its arguments. -/
structure Attribute where
  name : String
  args : List Argument
deriving Repr, Inhabited

namespace Argument

/-- The schema text of an argument: `name: value`, or the value alone. -/
def display (a : Argument) : String :=
  match a.name with
  | some n => n ++ ": " ++ a.value.display
  | none => a.value.display

end Argument

namespace Attribute

/-- The schema text of an attribute: `@name`, then the arguments in parentheses when there are
any, separated by `, `. -/
def display (a : Attribute) : String :=
  "@" ++ a.name ++
    (if a.args.isEmpty then "" else "(" ++ ", ".intercalate (a.args.map Argument.display) ++ ")")

/-- A dotted name split at its first `.` into namespace and member (`db.Uuid` gives `db` and
`Uuid`); `none` for a name without a dot. -/
def namespace? (a : Attribute) : Option (String × String) :=
  let cs := a.name.toList
  if cs.contains '.' then
    some (String.ofList (cs.takeWhile (· != '.')), String.ofList ((cs.dropWhile (· != '.')).drop 1))
  else none

def firstArg? (a : Attribute) : Option Value :=
  a.args.head?.map Argument.value

def firstPositional? (a : Attribute) : Option Value :=
  (a.args.find? (·.name.isNone)).map Argument.value

def arg? (a : Attribute) (n : String) : Option Value :=
  (a.args.find? (·.name == some n)).map Argument.value

def hasArg (a : Attribute) (n : String) : Bool :=
  (a.arg? n).isSome

end Attribute

def findAttribute? (attrs : List Attribute) (n : String) : Option Attribute :=
  attrs.find? (·.name == n)

/-- The string given as first argument of the first attribute of the given name, as in
`@map("users")`; `none` when there is no such attribute or its first argument is no string. -/
def mappedName? (attrs : List Attribute) (n : String) : Option String :=
  match (findAttribute? attrs n).bind Attribute.firstArg? with
  | some (.str s) => some s
  | _ => none

end DbSchema
