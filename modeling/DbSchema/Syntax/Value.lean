import DbSchema.Syntax.Cursor
import DbSchema.Schema.Value

/-!
# Reading values

`Parser.value` reads one value: a string, integer, float or boolean literal, a name, a name
followed by `(` (a call), or `[` (a list). Items of a list or call are values separated by
optional commas. A token that cannot start a value is read and skipped, giving no value; at the
end of the text nothing is read.

Lists and calls nest at most `maxNesting` deep: a `[` or a call's name that would open one more
level stops reading with an error at that token.
-/

namespace DbSchema

namespace Parser

/-- How deep lists and calls may nest. -/
def maxNesting : Nat := 128

mutual

/-- Reads a value at nesting `depth` from the cursor `c`: `none` when the current token cannot
start a value, which is then skipped. -/
def valueAt (depth : Nat) (c : Cursor) : Outcome (Option Value) :=
  let t := c.current
  let opens := t.kind == .lBracket || (t.kind.isName && c.peek.kind == .lParen)
  if opens && maxNesting ≤ depth then
    .error (c.expected s!"value nesting of at most {maxNesting} levels") c
  else
    match t.kind with
    | .string => .ok (some (.str t.text)) c.advance
    | .int => .ok (some (.int t.text)) c.advance
    | .float => .ok (some (.float t.text)) c.advance
    | .boolean => .ok (some (.bool (t.text == "true"))) c.advance
    | .lBracket =>
      let c1 := c.advance
      if c1.remaining < c.remaining then
        match itemsAt .rBracket (depth + 1) [] c1 with
        | .ok vs c2 => .ok (some (.list vs)) c2
        | .error e c2 => .error e c2
      else .ok none c1
    | k =>
      if k.isName then
        let c1 := c.advance
        if c1.kind = .lParen then
          let c2 := c1.advance
          if c2.remaining < c.remaining then
            match itemsAt .rParen (depth + 1) [] c2 with
            | .ok vs c3 => .ok (some (.call t.text vs)) c3
            | .error e c3 => .error e c3
          else .ok none c2
        else .ok (some (.ident t.text)) c1
      else .ok none c.advance
termination_by (c.remaining, 0)

/-- Reads the items of a list or call at nesting `depth` up to and including the token `close`;
`acc` holds the items read so far, last first. -/
def itemsAt (close : TokenKind) (depth : Nat) (acc : List Value) (c : Cursor) :
    Outcome (List Value) :=
  if c.kind = close ∨ c.kind = .eof then
    match expect close c with
    | .ok _ c1 => .ok acc.reverse c1
    | .error e c1 => .error e c1
  else
    match valueAt depth c with
    | .ok v c1 =>
      let acc := match v with
        | some v => v :: acc
        | none => acc
      let c2 := if c1.kind = .comma then c1.advance else c1
      -- a value read at least one token, as the current one is not the end
      if c2.remaining < c.remaining then itemsAt close depth acc c2
      else .ok acc.reverse c2
    | .error e c1 => .error e c1
termination_by (c.remaining, 1)

end

def value : Parser (Option Value) := valueAt 0

end Parser

end DbSchema
