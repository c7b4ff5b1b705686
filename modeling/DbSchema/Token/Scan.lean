import DbSchema.Text.Numeric
import DbSchema.Token.Basic

/-!
# Reading a text as tokens

`Token.scan s` reads the whole text `s` as tokens and ends with the end-of-input token. Reading
never fails: a character that starts no token becomes an `illegal` token of that one character,
and a string literal that meets a line break or the end of the input stops there.

Between two tokens stands *trivia*: blanks (space, tab, carriage return), a line comment from
`//` up to the line break, and a block comment from `/*` to the next `*/`. Block comments do not
nest, and one that is never closed runs to the end of the input. A line break is not trivia: it
is a token of its own, which the grammar later skips.

Each token is the longest one of its class at its position: a word takes every letter, digit
and `_` that follows it, a number every ASCII digit, and its fraction only when a digit follows
the point.
-/

namespace DbSchema

namespace Scan

/-- Blanks separate tokens: space, tab and carriage return. -/
def isBlank (c : Char) : Bool :=
  c == ' ' || c == '\t' || c == '\r'

/-- A word starts with an alphabetic character or `_`. -/
def isWordStart (c : Char) : Bool :=
  Text.isAlphabetic c || c == '_'

/-- A word goes on with alphanumeric characters and `_`. -/
def isWordChar (c : Char) : Bool :=
  Text.isAlphanumeric c || c == '_'

/-- Splits a text into the trivia at its front and the rest; `inBlock` tells whether a block
comment is open. -/
def triviaFrom : Bool → List Char → List Char × List Char
  | false, '/' :: '/' :: r =>
    -- the comment stops before the line break, which is not trivia
    ('/' :: '/' :: r.takeWhile (· != '\n'), r.dropWhile (· != '\n'))
  | false, '/' :: '*' :: r =>
    let (body, rest) := triviaFrom true r
    ('/' :: '*' :: body, rest)
  | false, c :: r =>
    if isBlank c then
      let (more, rest) := triviaFrom false r
      (c :: more, rest)
    else ([], c :: r)
  | false, [] => ([], [])
  | true, '*' :: '/' :: r =>
    let (more, rest) := triviaFrom false r
    ('*' :: '/' :: more, rest)
  | true, c :: r =>
    let (body, rest) := triviaFrom true r
    (c :: body, rest)
  | true, [] => ([], [])

/-- Splits a text into the trivia at its front and the rest. An unclosed block comment takes
the whole text. -/
def trivia (cs : List Char) : List Char × List Char :=
  triviaFrom false cs

theorem triviaFrom_append (b : Bool) (cs : List Char) :
    (triviaFrom b cs).1 ++ (triviaFrom b cs).2 = cs := by
  fun_induction triviaFrom b cs <;> simp_all

theorem length_trivia_le (cs : List Char) : (trivia cs).2.length ≤ cs.length := by
  have h := congrArg List.length (triviaFrom_append false cs)
  simp only [List.length_append] at h
  simp only [trivia]
  omega

theorem length_dropWhile_le (p : Char → Bool) (l : List Char) :
    (l.dropWhile p).length ≤ l.length :=
  (List.dropWhile_suffix p).length_le

/-- Reads the body of a string literal after its opening quote. Gives the body, whether a
closing quote ended it, and the rest after that quote. A backslash takes the next character
into the body unless that is a line break; a line break or the end of the input ends the
literal unclosed, and the line break stays in the rest. -/
def stringBody : List Char → List Char × Bool × List Char
  | [] => ([], false, [])
  | '"' :: r => ([], true, r)
  | '\n' :: r => ([], false, '\n' :: r)
  | '\\' :: c :: r =>
    if c = '\n' then (['\\'], false, '\n' :: r)
    else
      let (body, closed, rest) := stringBody r
      ('\\' :: c :: body, closed, rest)
  | c :: r =>
    let (body, closed, rest) := stringBody r
    (c :: body, closed, rest)

theorem length_stringBody_le (cs : List Char) : (stringBody cs).2.2.length ≤ cs.length := by
  fun_induction stringBody cs <;> simp_all <;> omega

/-- Reads the digits of a number after its first character: more ASCII digits, then a point
and digits only when a digit follows the point. Gives the kind, the characters read and the
rest. -/
def numberTail (cs : List Char) : TokenKind × List Char × List Char :=
  let whole := cs.takeWhile Char.isDigit
  match cs.dropWhile Char.isDigit with
  | '.' :: d :: r =>
    if d.isDigit then
      (.float, whole ++ '.' :: d :: r.takeWhile Char.isDigit, r.dropWhile Char.isDigit)
    else (.int, whole, '.' :: d :: r)
  | r => (.int, whole, r)

theorem length_numberTail_le (cs : List Char) : (numberTail cs).2.2.length ≤ cs.length := by
  have h := length_dropWhile_le Char.isDigit cs
  unfold numberTail
  split
  · rename_i d r hr
    split
    · have := length_dropWhile_le Char.isDigit r
      simp_all
      omega
    · simp_all
  · simp_all

def mkToken (k : TokenKind) (cs : List Char) (p : Pos) : Token :=
  ⟨k, String.ofList cs, p, true⟩

/-- Reads the token at the front of a text that starts with no trivia; `p` is its position.
Gives the token and the rest of the text. -/
def lexeme (p : Pos) : List Char → Token × List Char
  | [] => (Token.eofAt p, [])
  | '\n' :: r => (mkToken .newline ['\n'] p, r)
  | '@' :: '@' :: r => (mkToken .doubleAtSign ['@', '@'] p, r)
  | '@' :: r => (mkToken .atSign ['@'] p, r)
  | '"' :: r =>
    let (body, closed, rest) := stringBody r
    (⟨.string, String.ofList body, p, closed⟩, rest)
  | '-' :: d :: r =>
    if d.isDigit then
      let (k, tail, rest) := numberTail r
      (mkToken k ('-' :: d :: tail) p, rest)
    else (mkToken .illegal ['-'] p, d :: r)
  | c :: r =>
    match TokenKind.ofPunct? c with
    | some k => (mkToken k [c] p, r)
    | none =>
      if c.isDigit then
        let (k, tail, rest) := numberTail r
        (mkToken k (c :: tail) p, rest)
      else if isWordStart c then
        let w := c :: r.takeWhile isWordChar
        (mkToken (TokenKind.ofWord (String.ofList w)) w p, r.dropWhile isWordChar)
      else (mkToken .illegal [c] p, r)

theorem length_lexeme_lt (p : Pos) (cs : List Char) (h : cs ≠ []) :
    (lexeme p cs).2.length < cs.length := by
  unfold lexeme
  split
  · exact absurd rfl h
  all_goals simp only [List.length_cons]
  · omega
  · omega
  · omega
  · exact Nat.lt_of_le_of_lt (length_stringBody_le _) (by omega)
  · split
    · exact Nat.lt_of_le_of_lt (length_numberTail_le _) (by omega)
    · simp only [List.length_cons]
      omega
  · split
    · exact Nat.lt_succ_self _
    · split
      · exact Nat.lt_of_le_of_lt (length_numberTail_le _) (by omega)
      · split
        · exact Nat.lt_of_le_of_lt (length_dropWhile_le _ _) (by omega)
        · exact Nat.lt_succ_self _

/-- Reads all tokens of `cs`, the first one at or after position `p`. Gives the tokens before
the end of the input and the position of the end, which is after the last trivia. -/
def tokensFrom (p : Pos) (cs : List Char) : List Token × Pos :=
  match _hs : trivia cs with
  | (gap, []) => ([], p.advanceAll gap)
  | (gap, c :: r) =>
    let q := p.advanceAll gap
    match _hl : lexeme q (c :: r) with
    | (t, rest) =>
      let (ts, e) := tokensFrom (q.advanceAll t.source.toList) rest
      (t :: ts, e)
termination_by cs.length
decreasing_by
  have h1 := length_trivia_le cs
  have h2 := length_lexeme_lt q (c :: r) (List.cons_ne_nil c r)
  rw [_hs] at h1
  rw [_hl] at h2
  simp only [List.length_cons] at h1 h2 ⊢
  omega

end Scan

namespace Token

def scan (s : String) : List Token :=
  let (ts, e) := Scan.tokensFrom Pos.start s.toList
  ts ++ [Token.eofAt e]

end Token

end DbSchema
