import DbSchema.Token.Scan
import DbSchema.Syntax.Error

/-!
# The cursor over the tokens of a text

The grammar reads the tokens of a text through a cursor. Line breaks mean nothing to the
grammar, so the cursor holds the other tokens only; the current token is the first of them and
the end-of-input token once they are used up, so advancing past the end stays at the end. The
cursor also counts the braces opened and not yet closed (`depth`), which error recovery uses to
find the end of a broken block; a `}` with none open leaves the count at zero.

A `Parser` is a production: it reads from the cursor and gives a result, or the syntax error
that stopped it, together with the cursor where it stopped. A production that fails does not
give the tokens it read back.
-/

namespace DbSchema

/-- A position in the tokens of a text. -/
structure Cursor where
  /-- The tokens not yet read, line breaks left out, the current one first. -/
  ahead : List Token
  /-- The number of tokens not yet read, kept beside them so that a loop of the grammar can
  tell in constant time that it has read something. -/
  remaining : Nat
  remaining_eq : remaining = ahead.length
  /-- Where the text ends. -/
  endPos : Pos
  /-- The number of braces opened and not yet closed. -/
  depth : Nat := 0
deriving Repr

namespace Cursor

/-- A cursor at the first token of a text. -/
def ofText (s : String) : Cursor :=
  let (ts, e) := Scan.tokensFrom Pos.start s.toList
  let ts := ts.filter (·.kind != .newline)
  ⟨ts, ts.length, rfl, e, 0⟩

/-- The token at the cursor: the first token not yet read, or the end of the text. -/
def current (c : Cursor) : Token :=
  c.ahead.headD (Token.eofAt c.endPos)

/-- The token after the current one. -/
def peek (c : Cursor) : Token :=
  c.ahead.tail.headD (Token.eofAt c.endPos)

def kind (c : Cursor) : TokenKind :=
  c.current.kind

/-- The cursor after the current token, with the brace count updated by it. -/
def advance (c : Cursor) : Cursor :=
  { c with
    ahead := c.ahead.tail
    remaining := c.remaining - 1
    remaining_eq := by rw [List.length_tail, c.remaining_eq]
    depth :=
      match c.kind with
      | .lBrace => c.depth + 1
      | .rBrace => c.depth - 1
      | _ => c.depth }

/-- The error "expected `what`" at the current token. -/
def expected (c : Cursor) (what : String) : SyntaxError :=
  .expected what c.current.describe c.current.pos

/-- The error "unexpected token" at the current token. -/
def unexpected (c : Cursor) : SyntaxError :=
  .unexpected c.current.describe c.current.pos

theorem advance_ahead (c : Cursor) : c.advance.ahead = c.ahead.tail := rfl

theorem remaining_advance_lt {c : Cursor} (h : c.kind ≠ .eof) :
    c.advance.remaining < c.remaining := by
  rw [c.advance.remaining_eq, c.remaining_eq, advance_ahead]
  cases hc : c.ahead with
  | nil => simp [kind, current, hc, Token.eofAt] at h
  | cons t r => simp

end Cursor

/-- A production over a cursor. -/
abbrev Parser := EStateM SyntaxError Cursor

/-- What a production gives when run from a cursor. -/
abbrev Outcome (α : Type) := EStateM.Result SyntaxError Cursor α

namespace Parser

/-- The current token, without reading it. -/
def current : Parser Token := fun c => .ok c.current c

/-- Reads the current token and gives it. -/
def next : Parser Token := fun c => .ok c.current c.advance

/-- Stops with the error "expected `what`" at the current token. -/
def expected {α : Type} (what : String) : Parser α := fun c => .error (c.expected what) c

/-- Stops with the error "unexpected token" at the current token. -/
def unexpected {α : Type} : Parser α := fun c => .error c.unexpected c

/-- Reads a token of kind `k`, or stops where it is. -/
def expect (k : TokenKind) : Parser Token := fun c =>
  if c.kind = k then .ok c.current c.advance else .error (c.expected k.describe) c

/-- Reads an identifier and gives its text. -/
def expectIdent : Parser String := do
  return (← expect .ident).text

/-- Reads a member name, an identifier or a keyword, and gives its text. -/
def expectName : Parser String := fun c =>
  if c.kind.isName then .ok c.current.text c.advance
  else .error (c.expected TokenKind.ident.describe) c

end Parser

end DbSchema
