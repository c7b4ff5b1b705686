import DbSchema.Toml.Value
import DbSchema.Toml.Text

/-!
# Reading a TOML document

`Toml.read s` reads a TOML document (version 1.0) and gives the entries of its root table; it
gives `none` for a text that is no document. An array of tables `[[…]]` is refused as well.

A document is a sequence of lines, each blank, a comment, a table header `[key]` or a
key-value pair `key = value`, the last two optionally followed by a comment. Arrays may span
lines and hold comments, and may end with a comma; inline tables stay on one line and may not.
A byte order mark at the start is dropped.

Arrays and inline tables nest fewer than `depthLimit` levels deep, and a key has fewer than
`depthLimit` parts.
-/

namespace DbSchema

namespace Toml

/-- Reads a bare value: one that is neither a string, nor an array, nor an inline table. One that
starts with a sign or a digit is a date or time if it reads as one, else a float if it reads as
one, else an integer. -/
def bareValue? (cs : List Char) : Option (Value × List Char) :=
  match cs with
  | 't' :: 'r' :: 'u' :: 'e' :: rest => some (.bool true, rest)
  | 'f' :: 'a' :: 'l' :: 's' :: 'e' :: rest => some (.bool false, rest)
  | c :: _ =>
    if c = '+' ∨ c = '-' ∨ c.isDigit then
      match Datetime.read? cs with
      | some (d, rest) => some (.datetime d, rest)
      | none =>
        match float? cs with
        | some ((neg, m), rest) => some (.float neg m, rest)
        | none => (integer? cs).map fun (n, rest) => (.int n, rest)
    else if c = 'i' ∨ c = 'n' then
      (specialFloat? cs).map fun ((neg, m), rest) => (.float neg m, rest)
    else none
  | [] => none

mutual

/-- Reads a value inside `depth` enclosing arrays and inline tables. -/
def value (depth : Nat) (cs : List Char) : Option (Value × List Char) :=
  match cs with
  | '"' :: '"' :: '"' :: r =>
    (multilineBasicBody .body [] (dropLineBreak r)).map fun (s, rest) => (.str s, rest)
  | '"' :: r => (basicBody [] r).map fun (s, rest) => (.str s, rest)
  | '\'' :: '\'' :: '\'' :: r =>
    (multilineLiteralBody [] (dropLineBreak r)).map fun (s, rest) => (.str s, rest)
  | '\'' :: r => (literalBody [] r).map fun (s, rest) => (.str s, rest)
  | '[' :: r => if depth + 1 < depthLimit then arrayItems (depth + 1) [] r else none
  | '{' :: r =>
    if depth + 1 < depthLimit then
      match skipBlanks r with
      | '}' :: rest => some (.table [], rest)
      | r' => if r'.length ≤ r.length then inlineEntries (depth + 1) [] r' else none
    else none
  | _ => bareValue? cs
termination_by 2 * cs.length

/-- Reads the items of an array after its `[` or after a comma, up to and including its `]`;
`acc` holds the items read so far, last first, and `depth` counts the array itself. -/
def arrayItems (depth : Nat) (acc : List Value) (cs : List Char) : Option (Value × List Char) :=
  match skipBlankLines false cs with
  | some (']' :: rest) => some (.arr acc.reverse, rest)
  | some start =>
    if start.length ≤ cs.length then
      match value depth start with
      | some (v, r) =>
        match skipBlankLines false r with
        | some (',' :: rest) =>
          if rest.length < cs.length then arrayItems depth (v :: acc) rest else none
        | some (']' :: rest) => some (.arr (v :: acc).reverse, rest)
        | _ => none
      | none => none
    else none
  | none => none
termination_by 2 * cs.length + 1

/-- Reads the key-value pairs of an inline table, up to and including its `}`; `es` holds the
entries read so far, and `depth` counts the table itself. -/
def inlineEntries (depth : Nat) (es : Entries) (cs : List Char) : Option (Value × List Char) :=
  match dottedKey [] cs with
  | some (ks, '=' :: r) =>
    if (skipBlanks r).length < cs.length then
      match value depth (skipBlanks r) with
      | some (v, r') =>
        match assign ks v es with
        | some es =>
          match skipBlanks r' with
          | ',' :: rest =>
            if (skipBlanks rest).length < cs.length then inlineEntries depth es (skipBlanks rest)
            else none
          | '}' :: rest => some (.table (entriesToValues es), rest)
          | _ => none
        | none => none
      | none => none
    else none
  | _ => none
termination_by 2 * cs.length + 1

end

/-- Reads the lines of a document from the start of a line; `table` is the path of the table
that the latest header opened, and `root` the entries read so far. -/
def lines (table : List String) (root : Entries) (cs : List Char) : Option Entries :=
  let start := skipBlanks cs
  match start with
  | [] => some root
  | '[' :: '[' :: _ => none
  | '[' :: r =>
    match dottedKey [] (skipBlanks r) with
    | some (ks, ']' :: r') =>
      match lineEnd r', openTable ks root with
      | some rest, some root =>
        if rest.length < cs.length then lines ks root rest else none
      | _, _ => none
    | _ => none
  | c :: _ =>
    if c == '#' || c == '\n' || c == '\r' then
      match lineEnd start with
      | some rest => if rest.length < cs.length then lines table root rest else none
      | none => none
    else
      match dottedKey [] start with
      | some (ks, '=' :: r) =>
        match value 0 (skipBlanks r) with
        | some (v, r') =>
          match lineEnd r', assignAt table ks v root with
          | some rest, some root =>
            if rest.length < cs.length then lines table root rest else none
          | _, _ => none
        | none => none
      | _ => none
termination_by cs.length

/-- The entries of the root table of a document; `none` when the text is no document of the
kind described above. -/
def read (s : String) : Option (List (String × Value)) :=
  let cs := match s.toList with
    | '\uFEFF' :: r => r
    | cs => cs
  (lines [] [] cs).map entriesToValues

end Toml

end DbSchema
