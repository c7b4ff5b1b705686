import DbSchema.Syntax.Schema

/-! # The grammar of schema texts

The language the parser reads, as a grammar over the tokens of a text with the line breaks left
out, each token seen as its kind and its text. Each relation says which lists of tokens a phrase
can be and what the phrase reads as:

    schema ::= (ILLEGAL | block)* EOF
    block  ::= ('datasource' | 'generator') IDENT '{' (NAME '=' slot)* '}'
             | ('model' | 'type') IDENT '{' (NAME ftype ('@' attr)* | '@@' attr)* '}'
             | 'enum' IDENT '{' (NAME ('@' attr)* | '@@' attr)* '}'
    ftype  ::= (IDENT other than 'Unsupported' | 'Unsupported' '(' STRING ')') ('[' ']')? '?'?
    attr   ::= NAME ('.' NAME)* ('(' (arg ','?)* ')')?
    arg    ::= NAME (':' | '=') slot | value | skip
    value  ::= STRING | INT | FLOAT | BOOLEAN | NAME | NAME '(' (item ','?)* ')'
             | '[' (item ','?)* ']'
    item   ::= value | skip

A NAME is an identifier or a block keyword. A slot is a value or one token other than the end
that cannot start a value; a skip is such a token other than the one that closes the list it
stands in. A skipped token reads as nothing.

So written, the grammar is ambiguous: `[a (]` is a list of a name and a skipped `(`, and
`@x(a = 1)` has a named argument or two values around a skipped `=`. The parser decides with
one token of lookahead and bounds the nesting of values: a name before `(` is a call, a name
before `:` or `=` at the start of an argument names it, and lists and calls nest at most
`Parser.maxNesting` deep. The relations take a flag `strict`: with `strict = false` they are the
grammar above, and with `strict = true` the parser's three rules hold as well.

Where a phrase may end with a name, its relation also takes the kind of the token that follows
it (`next`, the end of the text being `eof`), which the lookahead rules read.
-/

namespace DbSchema

set_option autoImplicit false

namespace Grammar

/-- The kind of the first of the tokens `ts`, or the end of the text when there is none. -/
def nextKind : List (TokenKind × String) → TokenKind
  | [] => .eof
  | (k, _) :: _ => k

/-- A comma, when there is one. -/
def comma? : Option String → List (TokenKind × String)
  | none => []
  | some x => [(.comma, x)]

/-- The kinds of token that start a value: the literals, the names and `[`. -/
def startsValue (k : TokenKind) : Bool :=
  k == .string || k == .int || k == .float || k == .boolean || k == .lBracket || k.isName

mutual

/-- `IsValue strict d next ts v`: the tokens `ts` are a value at nesting `d`, read as `v`, before
a token of kind `next`. -/
inductive IsValue (strict : Bool) : Nat → TokenKind → List (TokenKind × String) → Value → Prop
  | str {d : Nat} {next : TokenKind} (x : String) : IsValue strict d next [(.string, x)] (.str x)
  | int {d : Nat} {next : TokenKind} (x : String) : IsValue strict d next [(.int, x)] (.int x)
  | float {d : Nat} {next : TokenKind} (x : String) : IsValue strict d next [(.float, x)] (.float x)
  | bool {d : Nat} {next : TokenKind} (x : String) :
      IsValue strict d next [(.boolean, x)] (.bool (x == "true"))
  | ident {d : Nat} {next k : TokenKind} {x : String} : k.isName = true →
      (strict = true → next ≠ .lParen) → IsValue strict d next [(k, x)] (.ident x)
  | list {d : Nat} {next : TokenKind} {o : String} {ts : List (TokenKind × String)}
      {vs : List Value} : (strict = true → d < Parser.maxNesting) →
      IsItems strict .rBracket (d + 1) ts vs → IsValue strict d next ((.lBracket, o) :: ts) (.list vs)
  | call {d : Nat} {next k : TokenKind} {x o : String} {ts : List (TokenKind × String)}
      {vs : List Value} : k.isName = true → (strict = true → d < Parser.maxNesting) →
      IsItems strict .rParen (d + 1) ts vs →
      IsValue strict d next ((k, x) :: (.lParen, o) :: ts) (.call x vs)

/-- `IsItems strict close d ts vs`: the tokens `ts` are the items of a list or call at nesting
`d`, each followed by an optional comma, and then the token `close`; `vs` are their values. -/
inductive IsItems (strict : Bool) : TokenKind → Nat → List (TokenKind × String) → List Value → Prop
  | close {close : TokenKind} {d : Nat} {x : String} : IsItems strict close d [(close, x)] []
  | value {close : TokenKind} {d : Nat} {ts rest : List (TokenKind × String)} {o : Option String}
      {v : Value} {vs : List Value} : IsValue strict d (nextKind (comma? o ++ rest)) ts v →
      IsItems strict close d rest vs → IsItems strict close d (ts ++ comma? o ++ rest) (v :: vs)
  | skip {close : TokenKind} {d : Nat} {k : TokenKind} {x : String} {o : Option String}
      {rest : List (TokenKind × String)} {vs : List Value} : startsValue k = false → k ≠ close →
      k ≠ .eof → IsItems strict close d rest vs →
      IsItems strict close d ((k, x) :: comma? o ++ rest) vs

end

/-- `IsSlot strict next ts o`: what stands after `=` or `:` before a token of kind `next`: a
value, or one token other than the end that cannot start a value, read as nothing. -/
inductive IsSlot (strict : Bool) : TokenKind → List (TokenKind × String) → Option Value → Prop
  | value {next : TokenKind} {ts : List (TokenKind × String)} {v : Value} :
      IsValue strict 0 next ts v → IsSlot strict next ts (some v)
  | skip {next k : TokenKind} {x : String} : startsValue k = false → k ≠ .eof →
      IsSlot strict next [(k, x)] none

/-- `IsArgument strict next ts oa`: one argument of an attribute before a token of kind `next`:
a name, `:` or `=` and a slot; a value; or a token other than the end and `)` that cannot start
a value, read as nothing. -/
inductive IsArgument (strict : Bool) :
    TokenKind → List (TokenKind × String) → Option Argument → Prop
  | named {next k s : TokenKind} {x y : String} {ts : List (TokenKind × String)}
      {o : Option Value} : k.isName = true → (s = .colon ∨ s = .equals) → IsSlot strict next ts o →
      IsArgument strict next ((k, x) :: (s, y) :: ts) (o.map fun v => ⟨some x, v⟩)
  | positional {next : TokenKind} {ts : List (TokenKind × String)} {v : Value} :
      IsValue strict 0 next ts v →
      (strict = true → ∀ x, v = .ident x → next ≠ .colon ∧ next ≠ .equals) →
      IsArgument strict next ts (some ⟨none, v⟩)
  | skip {next k : TokenKind} {x : String} : startsValue k = false → k ≠ .rParen → k ≠ .eof →
      IsArgument strict next [(k, x)] none

/-- `IsArguments strict ts as`: the tokens `ts` are arguments, each followed by an optional
comma, and then `)`. -/
inductive IsArguments (strict : Bool) : List (TokenKind × String) → List Argument → Prop
  | close {x : String} : IsArguments strict [(.rParen, x)] []
  | cons {ts rest : List (TokenKind × String)} {o : Option String} {oa : Option Argument}
      {as : List Argument} : IsArgument strict (nextKind (comma? o ++ rest)) ts oa →
      IsArguments strict rest as → IsArguments strict (ts ++ comma? o ++ rest) (oa.toList ++ as)

/-- `IsDotted ts ps`: the tokens `ts` are names joined by dots, the names `ps`. -/
inductive IsDotted : List (TokenKind × String) → List String → Prop
  | one {k : TokenKind} {x : String} : k.isName = true → IsDotted [(k, x)] [x]
  | dot {k : TokenKind} {x o : String} {ts : List (TokenKind × String)} {ps : List String} :
      k.isName = true → IsDotted ts ps → IsDotted ((k, x) :: (.dot, o) :: ts) (x :: ps)

/-- `IsAttribute strict ts a`: the tokens after an attribute's marker: its dotted name, then its
arguments in parentheses if it has any. -/
inductive IsAttribute (strict : Bool) : List (TokenKind × String) → Attribute → Prop
  | plain {ts : List (TokenKind × String)} {ps : List String} :
      IsDotted ts ps → IsAttribute strict ts ⟨".".intercalate ps, []⟩
  | args {ts us : List (TokenKind × String)} {ps : List String} {o : String} {as : List Argument} :
      IsDotted ts ps → IsArguments strict us as →
      IsAttribute strict (ts ++ (.lParen, o) :: us) ⟨".".intercalate ps, as⟩

/-- `IsMarked strict ts as`: attributes, each after `@`. -/
inductive IsMarked (strict : Bool) : List (TokenKind × String) → List Attribute → Prop
  | nil : IsMarked strict [] []
  | cons {o : String} {ts rest : List (TokenKind × String)} {a : Attribute} {as : List Attribute} :
      IsAttribute strict ts a → IsMarked strict rest as →
      IsMarked strict ((.atSign, o) :: ts ++ rest) (a :: as)

/-- What a field type names: an identifier other than `Unsupported`, or `Unsupported` with a
string in parentheses. -/
inductive IsTypeName : List (TokenKind × String) → TypeName → Prop
  | named {x : String} : x ≠ "Unsupported" → IsTypeName [(.ident, x)] (.named x)
  | unsupported {o r c : String} :
      IsTypeName [(.ident, "Unsupported"), (.lParen, o), (.string, r), (.rParen, c)]
        (.unsupported r)

/-- The brackets that make a field type a list, or nothing. -/
inductive IsArrayMark : List (TokenKind × String) → Bool → Prop
  | no : IsArrayMark [] false
  | yes {o c : String} : IsArrayMark [(.lBracket, o), (.rBracket, c)] true

/-- The question mark that makes a field type optional, or nothing. -/
inductive IsOptionalMark : List (TokenKind × String) → Bool → Prop
  | no : IsOptionalMark [] false
  | yes {q : String} : IsOptionalMark [(.question, q)] true

/-- A field type: what it names, then its list and optional marks. -/
inductive IsFieldType : List (TokenKind × String) → FieldType → Prop
  | mk {ts us ws : List (TokenKind × String)} {base : TypeName} {arr opt : Bool} :
      IsTypeName ts base → IsArrayMark us arr → IsOptionalMark ws opt →
      IsFieldType (ts ++ us ++ ws) ⟨base, arr, opt⟩

/-- A field: its name, its type and its attributes. -/
inductive IsField (strict : Bool) : List (TokenKind × String) → Field → Prop
  | mk {k : TokenKind} {x : String} {ts us : List (TokenKind × String)} {t : FieldType}
      {as : List Attribute} : k.isName = true → IsFieldType ts t → IsMarked strict us as →
      IsField strict ((k, x) :: ts ++ us) ⟨x, t, as⟩

/-- The body of a model or composite type after its `{`: fields and attributes after `@@`, then
`}`; the fields and the attributes each in order. -/
inductive IsMembers (strict : Bool) :
    List (TokenKind × String) → List Field → List Attribute → Prop
  | close {x : String} : IsMembers strict [(.rBrace, x)] [] []
  | field {ts rest : List (TokenKind × String)} {f : Field} {fs : List Field}
      {as : List Attribute} : IsField strict ts f → IsMembers strict rest fs as →
      IsMembers strict (ts ++ rest) (f :: fs) as
  | attr {o : String} {ts rest : List (TokenKind × String)} {a : Attribute} {fs : List Field}
      {as : List Attribute} : IsAttribute strict ts a → IsMembers strict rest fs as →
      IsMembers strict ((.doubleAtSign, o) :: ts ++ rest) fs (a :: as)

/-- The body of an enum after its `{`: values with their attributes and attributes after `@@`,
then `}`. -/
inductive IsEnumMembers (strict : Bool) :
    List (TokenKind × String) → List EnumValue → List Attribute → Prop
  | close {x : String} : IsEnumMembers strict [(.rBrace, x)] [] []
  | value {k : TokenKind} {x : String} {ts rest : List (TokenKind × String)}
      {as : List Attribute} {vs : List EnumValue} {bs : List Attribute} : k.isName = true →
      IsMarked strict ts as → IsEnumMembers strict rest vs bs →
      IsEnumMembers strict ((k, x) :: ts ++ rest) (⟨x, as⟩ :: vs) bs
  | attr {o : String} {ts rest : List (TokenKind × String)} {a : Attribute}
      {vs : List EnumValue} {bs : List Attribute} : IsAttribute strict ts a →
      IsEnumMembers strict rest vs bs →
      IsEnumMembers strict ((.doubleAtSign, o) :: ts ++ rest) vs (a :: bs)

/-- The body of a datasource or generator after its `{`: entries `name = slot`, then `}`. A slot
that reads as nothing gives no entry. -/
inductive IsEntries (strict : Bool) : List (TokenKind × String) → List ConfigEntry → Prop
  | close {x : String} : IsEntries strict [(.rBrace, x)] []
  | entry {k : TokenKind} {x y : String} {ts rest : List (TokenKind × String)}
      {o : Option Value} {es : List ConfigEntry} : k.isName = true →
      IsSlot strict (nextKind rest) ts o → IsEntries strict rest es →
      IsEntries strict ((k, x) :: (.equals, y) :: ts ++ rest) ((o.map fun v => ⟨x, v⟩).toList ++ es)

/-- A block: its keyword, its name, `{` and its body. -/
inductive IsBlock (strict : Bool) : List (TokenKind × String) → Block → Prop
  | datasource {kw n o : String} {ts : List (TokenKind × String)} {es : List ConfigEntry} :
      IsEntries strict ts es →
      IsBlock strict ((.datasource, kw) :: (.ident, n) :: (.lBrace, o) :: ts) (.datasource ⟨n, es⟩)
  | generator {kw n o : String} {ts : List (TokenKind × String)} {es : List ConfigEntry} :
      IsEntries strict ts es →
      IsBlock strict ((.generator, kw) :: (.ident, n) :: (.lBrace, o) :: ts) (.generator ⟨n, es⟩)
  | model {kw n o : String} {ts : List (TokenKind × String)} {fs : List Field}
      {as : List Attribute} : IsMembers strict ts fs as →
      IsBlock strict ((.model, kw) :: (.ident, n) :: (.lBrace, o) :: ts) (.model ⟨n, fs, as⟩)
  | type {kw n o : String} {ts : List (TokenKind × String)} {fs : List Field}
      {as : List Attribute} : IsMembers strict ts fs as →
      IsBlock strict ((.type, kw) :: (.ident, n) :: (.lBrace, o) :: ts) (.type ⟨n, fs, as⟩)
  | enum {kw n o : String} {ts : List (TokenKind × String)} {vs : List EnumValue}
      {as : List Attribute} : IsEnumMembers strict ts vs as →
      IsBlock strict ((.enum, kw) :: (.ident, n) :: (.lBrace, o) :: ts) (.enum ⟨n, vs, as⟩)

/-- A whole text: illegal characters and blocks up to the end, the blocks in order. -/
inductive IsSchema (strict : Bool) : List (TokenKind × String) → List Block → Prop
  | nil : IsSchema strict [] []
  | illegal {x : String} {rest : List (TokenKind × String)} {bs : List Block} :
      IsSchema strict rest bs → IsSchema strict ((.illegal, x) :: rest) bs
  | block {ts rest : List (TokenKind × String)} {b : Block} {bs : List Block} :
      IsBlock strict ts b → IsSchema strict rest bs → IsSchema strict (ts ++ rest) (b :: bs)

end Grammar

/-- The schema of the given blocks, in order. -/
def Schema.ofBlocks (bs : List Block) : Schema :=
  bs.foldl Schema.push {}

end DbSchema
