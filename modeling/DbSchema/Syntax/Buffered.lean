import DbSchema.Token.Lexer

/-!
# The cursor with two tokens read ahead

The reader keeps a lexer and two slots: the current token and the one after it, both read
ahead of the grammar, line breaks skipped (`Lexer.nextSignificant`). Advancing (`bump`) steps
the brace count over the current token, pulls one more token into the second slot and moves the
old second token into the first; it gives the token that was current.
-/

namespace DbSchema

namespace Lexer

/-- The next token that is not a line break. -/
def nextSignificant (l : Lexer) : Token × Lexer :=
  match _h : l.nextToken with
  | (t, l') => if _hk : t.kind = .newline then l'.nextSignificant else (t, l')
termination_by l.rest.length
decreasing_by
  have hlt := nextToken_shorter l
  rw [_h] at hlt
  exact hlt (by rw [_hk]; decide)

end Lexer

/-- A lexer, the current token and the one after it, and the number of braces opened and not
yet closed. -/
structure BufferedCursor where
  lexer : Lexer
  current : Token
  peek : Token
  depth : Nat
deriving Repr

namespace BufferedCursor

/-- A cursor that has read its two tokens ahead from the lexer. -/
def new (lexer : Lexer) : BufferedCursor :=
  let (current, lexer) := lexer.nextSignificant
  let (peek, lexer) := lexer.nextSignificant
  ⟨lexer, current, peek, 0⟩

/-- Gives the current token and moves on by one token. -/
def bump (b : BufferedCursor) : Token × BufferedCursor :=
  let depth :=
    match b.current.kind with
    | .lBrace => b.depth + 1
    | .rBrace => b.depth - 1
    | _ => b.depth
  let (next, lexer) := b.lexer.nextSignificant
  (b.current, ⟨lexer, b.peek, next, depth⟩)

/-- The tokens that `k` bumps give, in order, and the cursor after them. -/
def bumps : Nat → BufferedCursor → List Token × BufferedCursor
  | 0, b => ([], b)
  | k + 1, b =>
    let (t, b) := b.bump
    let (ts, b) := bumps k b
    (t :: ts, b)

end BufferedCursor

end DbSchema
