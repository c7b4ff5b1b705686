/-!
# TOML strings, keys and blanks

The lexical parts of TOML (version 1.0) that this library reads, each as a function from the
characters at the front of a text to what it reads and the rest, or `none` when the text is no
such part.

* Basic strings `"…"` with the escapes `\b \t \n \f \r \" \\ \uXXXX \UXXXXXXXX`; literal
  strings `'…'` without escapes. Neither may hold a line break or a control character other
  than tab.
* Multi-line strings `"""…"""` and `'''…'''`: a line break right after the opening quotes is
  dropped, a line break inside reads as `\n`, up to two quotes may stand before the closing
  ones, and in a basic one a backslash at the end of a line drops the blanks and line breaks
  that follow it.
* Keys: bare keys of ASCII letters, digits, `_` and `-`, or quoted keys, joined by dots.
* Blanks are spaces and tabs; a comment runs from `#` to the end of the line and may hold no
  control character other than tab.
-/

namespace DbSchema

namespace Toml

def isBlank (c : Char) : Bool :=
  c == ' ' || c == '\t'

def skipBlanks (cs : List Char) : List Char :=
  cs.dropWhile isBlank

/-- A character allowed in a comment: tab, printable ASCII, or beyond ASCII. -/
def isCommentChar (c : Char) : Bool :=
  c == '\t' || (0x20 ≤ c.toNat && c.toNat ≠ 0x7F)

/-- A character allowed as itself in a basic string: a comment character other than `"` and
the backslash. -/
def isBasicChar (c : Char) : Bool :=
  isCommentChar c && c != '"' && c != '\\'

/-- A character allowed in a literal string: a comment character other than `'`. -/
def isLiteralChar (c : Char) : Bool :=
  isCommentChar c && c != '\''

def isBareKeyChar (c : Char) : Bool :=
  ('A' ≤ c && c ≤ 'Z') || ('a' ≤ c && c ≤ 'z') || ('0' ≤ c && c ≤ '9') || c == '_' || c == '-'

def hexDigit? (c : Char) : Option Nat :=
  if '0' ≤ c ∧ c ≤ '9' then some (c.toNat - '0'.toNat)
  else if 'a' ≤ c ∧ c ≤ 'f' then some (c.toNat - 'a'.toNat + 10)
  else if 'A' ≤ c ∧ c ≤ 'F' then some (c.toNat - 'A'.toNat + 10)
  else none

def hexValue? (cs : List Char) : Option Nat :=
  cs.foldlM (fun n c => (hexDigit? c).map (16 * n + ·)) 0

/-- The character of a Unicode escape: a scalar value, so no surrogate and nothing beyond
`U+10FFFF`. -/
def scalar? (cs : List Char) : Option Char :=
  match hexValue? cs with
  | some n => if n < 0xD800 ∨ (0xDFFF < n ∧ n ≤ 0x10FFFF) then some (Char.ofNat n) else none
  | none => none

/-- The character that a simple escape `\c` stands for. -/
def simpleEscape? : Char → Option Char
  | 'b' => some '\x08'
  | 't' => some '\t'
  | 'n' => some '\n'
  | 'f' => some '\x0c'
  | 'r' => some '\r'
  | '"' => some '"'
  | '\\' => some '\\'
  | _ => none

/-- Reads the body of a basic string after its opening quote; `acc` holds the characters read
so far, last first. Gives the string and the rest after the closing quote. -/
def basicBody (acc : List Char) : List Char → Option (String × List Char)
  | [] => none
  | '"' :: r => some (String.ofList acc.reverse, r)
  | '\\' :: 'u' :: a :: b :: c :: d :: r =>
    match scalar? [a, b, c, d] with
    | some ch => basicBody (ch :: acc) r
    | none => none
  | '\\' :: 'U' :: a :: b :: c :: d :: e :: f :: g :: h :: r =>
    match scalar? [a, b, c, d, e, f, g, h] with
    | some ch => basicBody (ch :: acc) r
    | none => none
  | '\\' :: e :: r =>
    match simpleEscape? e with
    | some ch => basicBody (ch :: acc) r
    | none => none
  | c :: r => if isBasicChar c then basicBody (c :: acc) r else none

def literalBody (acc : List Char) : List Char → Option (String × List Char)
  | [] => none
  | '\'' :: r => some (String.ofList acc.reverse, r)
  | c :: r => if isLiteralChar c then literalBody (c :: acc) r else none

def dropLineBreak : List Char → List Char
  | '\n' :: r => r
  | '\r' :: '\n' :: r => r
  | cs => cs

/-- Where a multi-line basic string is being read: in its body, after a backslash followed by
blanks only, or in the blanks and line breaks after such a backslash and its line break. -/
inductive MultilineState where
  | body
  | afterBackslash
  | trimming
deriving DecidableEq, Repr

/-- The rank of a state, so that leaving the trimming state without reading counts as
progress. -/
def MultilineState.rank : MultilineState → Nat
  | .body => 0
  | .afterBackslash => 1
  | .trimming => 1

/-- Reads the body of a multi-line basic string after its opening quotes (and the line break
that may follow them). -/
def multilineBasicBody (st : MultilineState) (acc : List Char) (cs : List Char) :
    Option (String × List Char) :=
  match st, cs with
  | .body, '"' :: '"' :: '"' :: '"' :: '"' :: r =>
    some (String.ofList (acc.reverse ++ ['"', '"']), r)
  | .body, '"' :: '"' :: '"' :: '"' :: r => some (String.ofList (acc.reverse ++ ['"']), r)
  | .body, '"' :: '"' :: '"' :: r => some (String.ofList acc.reverse, r)
  | .body, '\\' :: ' ' :: r => multilineBasicBody .afterBackslash acc r
  | .body, '\\' :: '\t' :: r => multilineBasicBody .afterBackslash acc r
  | .body, '\\' :: '\n' :: r => multilineBasicBody .trimming acc r
  | .body, '\\' :: '\r' :: '\n' :: r => multilineBasicBody .trimming acc r
  | .body, '\\' :: 'u' :: a :: b :: c :: d :: r =>
    match scalar? [a, b, c, d] with
    | some ch => multilineBasicBody .body (ch :: acc) r
    | none => none
  | .body, '\\' :: 'U' :: a :: b :: c :: d :: e :: f :: g :: h :: r =>
    match scalar? [a, b, c, d, e, f, g, h] with
    | some ch => multilineBasicBody .body (ch :: acc) r
    | none => none
  | .body, '\\' :: e :: r =>
    match simpleEscape? e with
    | some ch => multilineBasicBody .body (ch :: acc) r
    | none => none
  | .body, '\n' :: r => multilineBasicBody .body ('\n' :: acc) r
  | .body, '\r' :: '\n' :: r => multilineBasicBody .body ('\n' :: acc) r
  | .body, c :: r =>
    if c == '"' || isBasicChar c then multilineBasicBody .body (c :: acc) r else none
  | .body, [] => none
  | .afterBackslash, ' ' :: r => multilineBasicBody .afterBackslash acc r
  | .afterBackslash, '\t' :: r => multilineBasicBody .afterBackslash acc r
  | .afterBackslash, '\n' :: r => multilineBasicBody .trimming acc r
  | .afterBackslash, '\r' :: '\n' :: r => multilineBasicBody .trimming acc r
  | .afterBackslash, _ => none
  | .trimming, ' ' :: r => multilineBasicBody .trimming acc r
  | .trimming, '\t' :: r => multilineBasicBody .trimming acc r
  | .trimming, '\n' :: r => multilineBasicBody .trimming acc r
  | .trimming, '\r' :: '\n' :: r => multilineBasicBody .trimming acc r
  | .trimming, r => multilineBasicBody .body acc r
termination_by 2 * cs.length + st.rank
decreasing_by all_goals (simp only [MultilineState.rank, List.length_cons]; omega)

/-- Reads the body of a multi-line literal string after its opening quotes (and the line break
that may follow them). -/
def multilineLiteralBody (acc : List Char) : List Char → Option (String × List Char)
  | '\'' :: '\'' :: '\'' :: '\'' :: '\'' :: r =>
    some (String.ofList (acc.reverse ++ ['\'', '\'']), r)
  | '\'' :: '\'' :: '\'' :: '\'' :: r => some (String.ofList (acc.reverse ++ ['\'']), r)
  | '\'' :: '\'' :: '\'' :: r => some (String.ofList acc.reverse, r)
  | '\n' :: r => multilineLiteralBody ('\n' :: acc) r
  | '\r' :: '\n' :: r => multilineLiteralBody ('\n' :: acc) r
  | c :: r => if c == '\'' || isLiteralChar c then multilineLiteralBody (c :: acc) r else none
  | [] => none

/-- Reads one part of a key: a basic or literal string, or a non-empty bare key. -/
def keyPart : List Char → Option (String × List Char)
  | '"' :: r => basicBody [] r
  | '\'' :: r => literalBody [] r
  | cs =>
    let (k, rest) := cs.span isBareKeyChar
    if k.isEmpty then none else some (String.ofList k, rest)

/-- How deep arrays and inline tables may nest, and how many parts a key may have: both stay
below this number. -/
def depthLimit : Nat := 80

/-- Reads a key of parts joined by dots, blanks allowed around the dots; `acc` holds the parts
read so far, last first. Gives the parts and the rest after the blanks that follow the key. A
key of `depthLimit` parts or more is refused. -/
def dottedKey (acc : List String) (cs : List Char) : Option (List String × List Char) :=
  match keyPart cs with
  | some (k, r) =>
    match skipBlanks r with
    | '.' :: r' =>
      let next := skipBlanks r'
      if next.length < cs.length then dottedKey (k :: acc) next else none
    | r' => if acc.length + 1 < depthLimit then some ((k :: acc).reverse, r') else none
  | none => none
termination_by cs.length

/-- Drops blanks, comments and line breaks at the front; `inComment` tells whether a comment
is open. A comment holding a character it may not hold is an error. -/
def skipBlankLines : Bool → List Char → Option (List Char)
  | false, ' ' :: r => skipBlankLines false r
  | false, '\t' :: r => skipBlankLines false r
  | false, '\n' :: r => skipBlankLines false r
  | false, '\r' :: '\n' :: r => skipBlankLines false r
  | false, '#' :: r => skipBlankLines true r
  | false, cs => some cs
  | true, '\n' :: r => skipBlankLines false r
  | true, '\r' :: '\n' :: r => skipBlankLines false r
  | true, c :: r => if isCommentChar c then skipBlankLines true r else none
  | true, [] => some []

def commentTail : List Char → Option (List Char)
  | [] => some []
  | '\n' :: r => some ('\n' :: r)
  | '\r' :: r => some ('\r' :: r)
  | c :: r => if isCommentChar c then commentTail r else none

/-- Reads the end of a line: blanks, an optional comment, and a line break or the end of the
text. Gives the rest after the line break. -/
def lineEnd (cs : List Char) : Option (List Char) :=
  let rest :=
    match skipBlanks cs with
    | '#' :: r => commentTail r
    | r => some r
  match rest with
  | some [] => some []
  | some ('\n' :: r) => some r
  | some ('\r' :: '\n' :: r) => some r
  | _ => none

end Toml

end DbSchema
