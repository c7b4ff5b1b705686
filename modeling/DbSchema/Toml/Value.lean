import DbSchema.Toml.Datetime
import DbSchema.Toml.Number

/-!
# TOML values and tables

`Toml.Value` is a value of a TOML document: a string, an integer, a float, a boolean, a date or
time, an array or a table. A document is the list of entries of its root table, in the order
they were defined.

While a document is read its tables are `Toml.Node`s, which remember how each table came to be,
because TOML lets a table be defined once only:

* a header `[a.b]` defines the table `a.b`, and creates `a` if needed; a table so created may
  still get a header of its own later, once;
* a dotted key `a.b = v` defines the tables before its last part; further dotted keys of the
  same table may add to them, but no header may define them again;
* an inline table `{ … }` is a value and cannot be added to at all.

A key defined twice is an error as well.
-/

namespace DbSchema

namespace Toml

inductive Value where
  | str (s : String)
  | int (n : Int)
  /-- A float: whether it is negative, and its magnitude. -/
  | float (neg : Bool) (m : Magnitude)
  | bool (b : Bool)
  | datetime (d : Datetime)
  | arr (items : List Value)
  | table (entries : List (String × Value))
deriving Repr, Inhabited

/-- How a table of a document came to be. -/
inductive Origin where
  /-- Created as the parent of a header's table. -/
  | implicit
  /-- Defined by its own header. -/
  | header
  /-- Created by a dotted key. -/
  | dotted
deriving DecidableEq, Repr, Inhabited

/-- An entry of a table being read: a value, or a table that may still grow. -/
inductive Node where
  | value (v : Value)
  | table (origin : Origin) (entries : List (String × Node))
deriving Repr, Inhabited

/-- The entries of a table being read, in the order they were defined. -/
abbrev Entries := List (String × Node)

def lookup (k : String) (es : Entries) : Option Node :=
  (es.find? (·.1 == k)).map (·.2)

def replace (k : String) (n : Node) (es : Entries) : Entries :=
  es.map fun e => if e.1 == k then (k, n) else e

/-- The table entries after a header naming the path `ks`: tables on the way are created or
entered (a value on the way is an error), and the last one is defined, unless a header or a
dotted key has defined it already or it is a value. -/
def openTable : List String → Entries → Option Entries
  | [], _ => none
  | [k], es =>
    match lookup k es with
    | none => some (es ++ [(k, .table .header [])])
    | some (.table .implicit sub) => some (replace k (.table .header sub) es)
    | some _ => none
  | k :: ks, es =>
    match lookup k es with
    | none => (openTable ks []).map fun sub => es ++ [(k, .table .implicit sub)]
    | some (.table o sub) => (openTable ks sub).map fun sub => replace k (.table o sub) es
    | some (.value _) => none

/-- The table entries after the key-value pair `ks = v`: the tables before the last part of
the key are created, or entered when a dotted key created them, and the last part must be
new. -/
def assign : List String → Value → Entries → Option Entries
  | [], _, _ => none
  | [k], v, es =>
    if (lookup k es).isSome then none else some (es ++ [(k, .value v)])
  | k :: ks, v, es =>
    match lookup k es with
    | none => (assign ks v []).map fun sub => es ++ [(k, .table .dotted sub)]
    | some (.table .dotted sub) => (assign ks v sub).map fun sub => replace k (.table .dotted sub) es
    | some _ => none

/-- The root entries after the key-value pair `ks = v` inside the table at path `at`. -/
def assignAt : List String → List String → Value → Entries → Option Entries
  | [], ks, v, es => assign ks v es
  | t :: ts, ks, v, es =>
    match lookup t es with
    | some (.table o sub) => (assignAt ts ks v sub).map fun sub => replace t (.table o sub) es
    | _ => none

mutual

def Node.toValue : Node → Value
  | .value v => v
  | .table _ es => .table (entriesToValues es)

def entriesToValues : Entries → List (String × Value)
  | [] => []
  | (k, n) :: es => (k, n.toValue) :: entriesToValues es

end

end Toml

end DbSchema
