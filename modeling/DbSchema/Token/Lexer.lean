import DbSchema.Token.Scan

/-!
# The lexer, one token at a time

The reader pulls tokens from a lexer one at a time: `Lexer.nextToken` skips the trivia before
the next token and reads it, and once the text is used up it gives the end token, again and
again. `Lexer.tokenize` collects the tokens up to and including the first end token.
-/

namespace DbSchema

open Scan

/-- A lexer: the text it has not read, and the position where that text starts. -/
structure Lexer where
  rest : List Char
  pos : Pos
deriving Repr

namespace Lexer

def new (s : String) : Lexer :=
  ⟨s.toList, Pos.start⟩

/-- Skips the trivia, then reads the next token, or gives the end token at the end. -/
def nextToken (l : Lexer) : Token × Lexer :=
  match trivia l.rest with
  | (gap, []) =>
    let p := l.pos.advanceAll gap
    (Token.eofAt p, ⟨[], p⟩)
  | (gap, c :: r) =>
    let p := l.pos.advanceAll gap
    let (t, rest) := lexeme p (c :: r)
    (t, ⟨rest, p.advanceAll t.source.toList⟩)

theorem nextToken_shorter (l : Lexer) (h : l.nextToken.1.kind ≠ .eof) :
    l.nextToken.2.rest.length < l.rest.length := by
  have htriv := length_trivia_le l.rest
  rcases hs : trivia l.rest with ⟨gap, _ | ⟨c, r⟩⟩
  · simp only [nextToken, hs] at h
    exact absurd rfl h
  · rw [hs] at htriv
    have hlex := length_lexeme_lt (l.pos.advanceAll gap) (c :: r) (List.cons_ne_nil c r)
    simp only [nextToken, hs]
    exact Nat.lt_of_lt_of_le hlex htriv

/-- The tokens up to and including the first end token. -/
def tokenize (l : Lexer) : List Token :=
  match _h : l.nextToken with
  | (t, l') => if _hk : t.kind = .eof then [t] else t :: l'.tokenize
termination_by l.rest.length
decreasing_by
  have hlt := nextToken_shorter l
  rw [_h] at hlt
  exact hlt _hk

end Lexer

end DbSchema
