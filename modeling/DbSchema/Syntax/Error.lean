import DbSchema.Token.Basic

/-!
# Syntax errors

A production that cannot go on stops with a syntax error at the current token: either it
wanted a particular kind of token (`expected '}', found EOF at line 3, column 1`), or the token
starts nothing that may stand there (`unexpected token '=' at line 1, column 7`). The found
token is named by `Token.describe`.
-/

namespace DbSchema

/-- Why reading stopped, and where. -/
inductive SyntaxError where
  /-- A production wanted `what` and found the token described by `found`. -/
  | expected (what found : String) (pos : Pos)
  /-- The token described by `found` starts nothing that may stand where it is. -/
  | unexpected (found : String) (pos : Pos)
deriving DecidableEq, Repr, Inhabited

namespace SyntaxError

def pos : SyntaxError → Pos
  | .expected _ _ p => p
  | .unexpected _ p => p

def message : SyntaxError → String
  | .expected what found p =>
    s!"expected {what}, found {found} at line {p.line}, column {p.column}"
  | .unexpected found p =>
    s!"unexpected token {found} at line {p.line}, column {p.column}"

end SyntaxError

end DbSchema
