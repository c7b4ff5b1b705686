/-!
# Tokens of the schema language

A schema text is read as a sequence of tokens. A token has a kind, a text and the position
where it starts. The kinds are the literals (identifiers, strings, integers, floats and the two
booleans), the punctuation marks, the five block keywords, a line break, a single character
that starts no token (`illegal`), and the end of the input.

Diagnostics name tokens in two ways: `TokenKind.describe` names the kind a production wanted
(`'}'`, `identifier`), and `Token.describe` names the token that was found (`'User'`, `"db"`,
`EOF`).
-/

namespace DbSchema

/-- A position in a text: the line and the column, both counted from 1. The column counts
characters since the last line break. -/
structure Pos where
  line : Nat
  column : Nat
deriving DecidableEq, Repr, Inhabited

namespace Pos

def start : Pos := ⟨1, 1⟩

/-- The position after reading one character: a line break starts a new line, every other
character moves one column to the right. -/
def advance (p : Pos) (c : Char) : Pos :=
  if c = '\n' then ⟨p.line + 1, 1⟩ else ⟨p.line, p.column + 1⟩

def advanceAll (p : Pos) (cs : List Char) : Pos :=
  cs.foldl advance p

@[simp]
theorem advanceAll_nil (p : Pos) : p.advanceAll [] = p := rfl

@[simp]
theorem advanceAll_cons (p : Pos) (c : Char) (cs : List Char) :
    p.advanceAll (c :: cs) = (p.advance c).advanceAll cs := rfl

theorem advanceAll_append (p : Pos) (cs ds : List Char) :
    p.advanceAll (cs ++ ds) = (p.advanceAll cs).advanceAll ds := by
  simp [advanceAll, List.foldl_append]

end Pos

inductive TokenKind where
  | eof
  | illegal
  | newline
  | ident
  | string
  | int
  | float
  | boolean
  | atSign
  | doubleAtSign
  | lParen
  | rParen
  | lBrace
  | rBrace
  | lBracket
  | rBracket
  | equals
  | colon
  | question
  | comma
  | semicolon
  | dot
  | model
  | enum
  | datasource
  | generator
  | type
deriving DecidableEq, Repr, Inhabited

namespace TokenKind

/-- The kind of a word: one of the five block keywords, a boolean for `true` and `false`,
otherwise an identifier. -/
def ofWord (w : String) : TokenKind :=
  if w = "model" then .model
  else if w = "enum" then .enum
  else if w = "datasource" then .datasource
  else if w = "generator" then .generator
  else if w = "type" then .type
  else if w = "true" ∨ w = "false" then .boolean
  else .ident

/-- The five words that open a block. -/
def isKeyword : TokenKind → Bool
  | .model | .enum | .datasource | .generator | .type => true
  | _ => false

/-- A member name is an identifier or a keyword: inside a block the keywords are plain names,
so a field may be called `type`. -/
def isName (k : TokenKind) : Bool :=
  k == .ident || k.isKeyword

/-- The kind of a one-character punctuation mark. -/
def ofPunct? : Char → Option TokenKind
  | '(' => some .lParen
  | ')' => some .rParen
  | '{' => some .lBrace
  | '}' => some .rBrace
  | '[' => some .lBracket
  | ']' => some .rBracket
  | '=' => some .equals
  | ':' => some .colon
  | '?' => some .question
  | ',' => some .comma
  | ';' => some .semicolon
  | '.' => some .dot
  | _ => none

/-- How a diagnostic names a kind that was expected. -/
def describe : TokenKind → String
  | .eof => "EOF"
  | .illegal => "illegal character"
  | .newline => "newline"
  | .ident => "identifier"
  | .string => "string"
  | .int => "integer"
  | .float => "float"
  | .boolean => "boolean"
  | .atSign => "'@'"
  | .doubleAtSign => "'@@'"
  | .lParen => "'('"
  | .rParen => "')'"
  | .lBrace => "'\x7b'"
  | .rBrace => "'\x7d'"
  | .lBracket => "'['"
  | .rBracket => "']'"
  | .equals => "'='"
  | .colon => "':'"
  | .question => "'?'"
  | .comma => "','"
  | .semicolon => "';'"
  | .dot => "'.'"
  | .model => "'model'"
  | .enum => "'enum'"
  | .datasource => "'datasource'"
  | .generator => "'generator'"
  | .type => "'type'"

example : ofWord "model" = .model ∧ ofWord "false" = .boolean ∧ ofWord "Model" = .ident ∧
    ofWord "models" = .ident := by decide

end TokenKind

/-- A token: its kind, its text and the position of its first character. The text of a string
literal leaves out the quotes and keeps escapes as written; `closed` records whether a closing
quote ended the literal, and is `true` for every other kind. -/
structure Token where
  kind : TokenKind
  text : String
  pos : Pos
  closed : Bool := true
deriving DecidableEq, Repr, Inhabited

namespace Token

def eofAt (p : Pos) : Token := ⟨.eof, "", p, true⟩

/-- The characters of the input that the token covers: its text, and for a string literal
the opening quote before it and the closing quote after it when there was one. -/
def source (t : Token) : String :=
  if t.kind = .string then
    "\"" ++ t.text ++ (if t.closed then "\"" else "")
  else t.text

/-- How a diagnostic names a token that was found: `EOF` and `newline` by their kind, a string
literal in double quotes, every other token in single quotes. -/
def describe (t : Token) : String :=
  match t.kind with
  | .eof | .newline => t.kind.describe
  | .string => "\"" ++ t.text ++ "\""
  | _ => "'" ++ t.text ++ "'"

example : (Token.mk .lBrace "\x7b" ⟨1, 1⟩ true).describe = "'\x7b'" ∧
    (eofAt ⟨4, 1⟩).describe = "EOF" ∧ (Token.mk .string "x" ⟨1, 1⟩ true).describe = "\"x\"" := by
  decide

end Token

end DbSchema
