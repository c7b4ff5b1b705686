import DbSchema.Proofs.GrammarSound
import DbSchema.Proofs.WordBoundary

/-! # Keywords are names inside blocks

The block keywords `model`, `enum`, `datasource`, `generator` and `type` start blocks, and inside a
block they are plain names: every production that reads a member name takes any name token, an
identifier or a keyword. These are the keys of datasource and generator entries, field names,
enum value names, the names of named arguments, the parts of attribute names, and the names and
call names inside values. Block names and field types take identifiers only.

A member name in a sentence of the grammar is a token with a place in the derivation. The
relations `Grammar.NameInValue` to `Grammar.NameInSchema` are the grammar's relations with that
token marked: the tokens `pre ++ hole :: post` are a phrase in which `hole` is a member name, and
the phrase reads as `F y` when the name is `y`. Each relation has one constructor for the marked
name itself and one for each phrase the name can stand in.

Any name token may stand in the marked place (`Grammar.NameInSchema.isSchema`). A phrase before
the name reads the name's kind only to tell a name from `(`, `:` or `=`, which no name is, so a
keyword there changes nothing before it. With the lexer's side (`Scan.views_around_word`), a
keyword in place of an identifier that names a member reads to the same schema with that one name
changed (`Schema.parseSyntax_keyword_for_member_name`).
-/

namespace DbSchema

set_option autoImplicit false

namespace Grammar

/-! ## Phrases that do not read the next kind -/

section NextName

variable {strict : Bool} {next next' : TokenKind} {ts : List (TokenKind × String)}

theorem IsValue.of_next_isName {d : Nat} {v : Value} (hv : IsValue strict d next ts v)
    (hn : next'.isName = true) : IsValue strict d next' ts v := by
  cases hv with
  | str x => exact .str x
  | int x => exact .int x
  | float x => exact .float x
  | bool x => exact .bool x
  | ident hk _ => exact .ident hk fun _ h => by rw [h] at hn; exact absurd hn (by decide)
  | list hd hi => exact .list hd hi
  | call hk hd hi => exact .call hk hd hi

theorem IsSlot.of_next_isName {o : Option Value} (hs : IsSlot strict next ts o)
    (hn : next'.isName = true) : IsSlot strict next' ts o := by
  cases hs with
  | value hv => exact .value (hv.of_next_isName hn)
  | skip hk he => exact .skip hk he

theorem IsArgument.of_next_isName {oa : Option Argument} (ha : IsArgument strict next ts oa)
    (hn : next'.isName = true) : IsArgument strict next' ts oa := by
  cases ha with
  | named hk hs hslot => exact .named hk hs (hslot.of_next_isName hn)
  | positional hv _ =>
    refine .positional (hv.of_next_isName hn) fun _ _ _ => ⟨?_, ?_⟩
    all_goals rintro rfl; exact absurd hn (by decide)
  | skip hk hr he => exact .skip hk hr he

theorem of_nextKind_hole (P : TokenKind → Prop) (hP : ∀ n n', P n → n'.isName = true → P n')
    {l m : List (TokenKind × String)} {t : TokenKind × String} {k : TokenKind} (y : String)
    (h : P (nextKind (l ++ t :: m))) (hk : k.isName = true) : P (nextKind (l ++ (k, y) :: m)) := by
  cases l with
  | nil => exact hP _ _ h hk
  | cons u l => exact h

end NextName

/-! ## Phrases with a marked name -/

mutual

/-- `NameInValue strict hole d next pre post F`: the tokens `pre ++ hole :: post` are a value at
nesting `d` before a token of kind `next`, in which `hole` is a bare name or a call name or
stands in an item; the value reads as `F y` when that name is `y`. -/
inductive NameInValue (strict : Bool) (hole : TokenKind × String) :
    Nat → TokenKind → List (TokenKind × String) → List (TokenKind × String) →
      (String → Value) → Prop
  | ident {d : Nat} {next : TokenKind} : (strict = true → next ≠ .lParen) →
      NameInValue strict hole d next [] [] Value.ident
  | callName {d : Nat} {next : TokenKind} {o : String} {ts : List (TokenKind × String)}
      {vs : List Value} : (strict = true → d < Parser.maxNesting) →
      IsItems strict .rParen (d + 1) ts vs →
      NameInValue strict hole d next [] ((.lParen, o) :: ts) fun y => .call y vs
  | list {d : Nat} {next : TokenKind} {o : String} {pre post : List (TokenKind × String)}
      {F : String → List Value} : (strict = true → d < Parser.maxNesting) →
      NameInItems strict hole .rBracket (d + 1) pre post F →
      NameInValue strict hole d next ((.lBracket, o) :: pre) post fun y => .list (F y)
  | call {d : Nat} {next k : TokenKind} {x o : String} {pre post : List (TokenKind × String)}
      {F : String → List Value} : k.isName = true → (strict = true → d < Parser.maxNesting) →
      NameInItems strict hole .rParen (d + 1) pre post F →
      NameInValue strict hole d next ((k, x) :: (.lParen, o) :: pre) post fun y => .call x (F y)

/-- `NameInItems strict hole close d pre post F`: the tokens `pre ++ hole :: post` are the items
of a list or call up to `close`, with the name `hole` in one of them; they read as `F y`. -/
inductive NameInItems (strict : Bool) (hole : TokenKind × String) :
    TokenKind → Nat → List (TokenKind × String) → List (TokenKind × String) →
      (String → List Value) → Prop
  | here {close : TokenKind} {d : Nat} {pre post rest : List (TokenKind × String)}
      {o : Option String} {F : String → Value} {vs : List Value} :
      NameInValue strict hole d (nextKind (comma? o ++ rest)) pre post F →
      IsItems strict close d rest vs →
      NameInItems strict hole close d pre (post ++ comma? o ++ rest) fun y => F y :: vs
  | value {close : TokenKind} {d : Nat} {ts pre post : List (TokenKind × String)}
      {o : Option String} {v : Value} {F : String → List Value} :
      IsValue strict d (nextKind (comma? o ++ pre ++ hole :: post)) ts v →
      NameInItems strict hole close d pre post F →
      NameInItems strict hole close d (ts ++ comma? o ++ pre) post fun y => v :: F y
  | skip {close : TokenKind} {d : Nat} {k : TokenKind} {x : String} {o : Option String}
      {pre post : List (TokenKind × String)} {F : String → List Value} :
      startsValue k = false → k ≠ close → k ≠ .eof →
      NameInItems strict hole close d pre post F →
      NameInItems strict hole close d ((k, x) :: comma? o ++ pre) post F

end

/-- An argument with the marked name as its name or in its value. -/
inductive NameInArgument (strict : Bool) (hole : TokenKind × String) :
    TokenKind → List (TokenKind × String) → List (TokenKind × String) →
      (String → Option Argument) → Prop
  | name {next s : TokenKind} {y : String} {ts : List (TokenKind × String)} {o : Option Value} :
      (s = .colon ∨ s = .equals) → IsSlot strict next ts o →
      NameInArgument strict hole next [] ((s, y) :: ts) fun z => o.map fun v => ⟨some z, v⟩
  | slot {next k s : TokenKind} {x y : String} {pre post : List (TokenKind × String)}
      {F : String → Value} : k.isName = true → (s = .colon ∨ s = .equals) →
      NameInValue strict hole 0 next pre post F →
      NameInArgument strict hole next ((k, x) :: (s, y) :: pre) post fun z => some ⟨some x, F z⟩
  | positional {next : TokenKind} {pre post : List (TokenKind × String)} {F : String → Value} :
      NameInValue strict hole 0 next pre post F →
      (strict = true → ∀ z x, F z = .ident x → next ≠ .colon ∧ next ≠ .equals) →
      NameInArgument strict hole next pre post fun z => some ⟨none, F z⟩

/-- Arguments up to `)`, with the marked name in one of them. -/
inductive NameInArguments (strict : Bool) (hole : TokenKind × String) :
    List (TokenKind × String) → List (TokenKind × String) → (String → List Argument) → Prop
  | here {pre post rest : List (TokenKind × String)} {o : Option String}
      {F : String → Option Argument} {as : List Argument} :
      NameInArgument strict hole (nextKind (comma? o ++ rest)) pre post F →
      IsArguments strict rest as →
      NameInArguments strict hole pre (post ++ comma? o ++ rest) fun y => (F y).toList ++ as
  | later {ts pre post : List (TokenKind × String)} {o : Option String} {oa : Option Argument}
      {F : String → List Argument} :
      IsArgument strict (nextKind (comma? o ++ pre ++ hole :: post)) ts oa →
      NameInArguments strict hole pre post F →
      NameInArguments strict hole (ts ++ comma? o ++ pre) post fun y => oa.toList ++ F y

/-- A dotted name with the marked name as one of its parts. -/
inductive NameInDotted (hole : TokenKind × String) :
    List (TokenKind × String) → List (TokenKind × String) → (String → List String) → Prop
  | last : NameInDotted hole [] [] fun y => [y]
  | here {o : String} {ts : List (TokenKind × String)} {ps : List String} : IsDotted ts ps →
      NameInDotted hole [] ((.dot, o) :: ts) fun y => y :: ps
  | later {k : TokenKind} {x o : String} {pre post : List (TokenKind × String)}
      {F : String → List String} : k.isName = true → NameInDotted hole pre post F →
      NameInDotted hole ((k, x) :: (.dot, o) :: pre) post fun y => x :: F y

/-- An attribute with the marked name in its dotted name or in its arguments. -/
inductive NameInAttribute (strict : Bool) (hole : TokenKind × String) :
    List (TokenKind × String) → List (TokenKind × String) → (String → Attribute) → Prop
  | plain {pre post : List (TokenKind × String)} {F : String → List String} :
      NameInDotted hole pre post F →
      NameInAttribute strict hole pre post fun y => ⟨".".intercalate (F y), []⟩
  | name {pre post us : List (TokenKind × String)} {o : String} {F : String → List String}
      {as : List Argument} : NameInDotted hole pre post F → IsArguments strict us as →
      NameInAttribute strict hole pre (post ++ (.lParen, o) :: us) fun y =>
        ⟨".".intercalate (F y), as⟩
  | args {ts pre post : List (TokenKind × String)} {ps : List String} {o : String}
      {F : String → List Argument} : IsDotted ts ps → NameInArguments strict hole pre post F →
      NameInAttribute strict hole (ts ++ (.lParen, o) :: pre) post fun y =>
        ⟨".".intercalate ps, F y⟩

/-- Attributes after `@`, with the marked name in one of them. -/
inductive NameInMarked (strict : Bool) (hole : TokenKind × String) :
    List (TokenKind × String) → List (TokenKind × String) → (String → List Attribute) → Prop
  | here {o : String} {pre post rest : List (TokenKind × String)} {F : String → Attribute}
      {as : List Attribute} : NameInAttribute strict hole pre post F → IsMarked strict rest as →
      NameInMarked strict hole ((.atSign, o) :: pre) (post ++ rest) fun y => F y :: as
  | later {o : String} {ts pre post : List (TokenKind × String)} {a : Attribute}
      {F : String → List Attribute} : IsAttribute strict ts a →
      NameInMarked strict hole pre post F →
      NameInMarked strict hole ((.atSign, o) :: ts ++ pre) post fun y => a :: F y

/-- A field with the marked name as its name or in its attributes. -/
inductive NameInField (strict : Bool) (hole : TokenKind × String) :
    List (TokenKind × String) → List (TokenKind × String) → (String → Field) → Prop
  | name {ts us : List (TokenKind × String)} {t : FieldType} {as : List Attribute} :
      IsFieldType ts t → IsMarked strict us as →
      NameInField strict hole [] (ts ++ us) fun y => ⟨y, t, as⟩
  | attr {k : TokenKind} {x : String} {ts pre post : List (TokenKind × String)}
      {t : FieldType} {F : String → List Attribute} : k.isName = true → IsFieldType ts t →
      NameInMarked strict hole pre post F →
      NameInField strict hole ((k, x) :: ts ++ pre) post fun y => ⟨x, t, F y⟩

/-- The body of a model or composite type, with the marked name in a field or in a block
attribute; it reads as the fields and the attributes. -/
inductive NameInMembers (strict : Bool) (hole : TokenKind × String) :
    List (TokenKind × String) → List (TokenKind × String) →
      (String → List Field × List Attribute) → Prop
  | field {pre post rest : List (TokenKind × String)} {F : String → Field} {fs : List Field}
      {as : List Attribute} : NameInField strict hole pre post F → IsMembers strict rest fs as →
      NameInMembers strict hole pre (post ++ rest) fun y => (F y :: fs, as)
  | attr {o : String} {pre post rest : List (TokenKind × String)} {F : String → Attribute}
      {fs : List Field} {as : List Attribute} : NameInAttribute strict hole pre post F →
      IsMembers strict rest fs as →
      NameInMembers strict hole ((.doubleAtSign, o) :: pre) (post ++ rest) fun y => (fs, F y :: as)
  | laterField {ts pre post : List (TokenKind × String)} {f : Field}
      {F : String → List Field × List Attribute} : IsField strict ts f →
      NameInMembers strict hole pre post F →
      NameInMembers strict hole (ts ++ pre) post fun y => (f :: (F y).1, (F y).2)
  | laterAttr {o : String} {ts pre post : List (TokenKind × String)} {a : Attribute}
      {F : String → List Field × List Attribute} : IsAttribute strict ts a →
      NameInMembers strict hole pre post F →
      NameInMembers strict hole ((.doubleAtSign, o) :: ts ++ pre) post fun y =>
        ((F y).1, a :: (F y).2)

/-- The body of an enum, with the marked name as a value's name, in a value's attributes or in a
block attribute; it reads as the values and the attributes. -/
inductive NameInEnumMembers (strict : Bool) (hole : TokenKind × String) :
    List (TokenKind × String) → List (TokenKind × String) →
      (String → List EnumValue × List Attribute) → Prop
  | name {ts rest : List (TokenKind × String)} {as : List Attribute} {vs : List EnumValue}
      {bs : List Attribute} : IsMarked strict ts as → IsEnumMembers strict rest vs bs →
      NameInEnumMembers strict hole [] (ts ++ rest) fun y => (⟨y, as⟩ :: vs, bs)
  | valueAttr {k : TokenKind} {x : String} {pre post rest : List (TokenKind × String)}
      {F : String → List Attribute} {vs : List EnumValue} {bs : List Attribute} :
      k.isName = true → NameInMarked strict hole pre post F → IsEnumMembers strict rest vs bs →
      NameInEnumMembers strict hole ((k, x) :: pre) (post ++ rest) fun y => (⟨x, F y⟩ :: vs, bs)
  | attr {o : String} {pre post rest : List (TokenKind × String)} {F : String → Attribute}
      {vs : List EnumValue} {bs : List Attribute} : NameInAttribute strict hole pre post F →
      IsEnumMembers strict rest vs bs →
      NameInEnumMembers strict hole ((.doubleAtSign, o) :: pre) (post ++ rest) fun y =>
        (vs, F y :: bs)
  | laterValue {k : TokenKind} {x : String} {ts pre post : List (TokenKind × String)}
      {as : List Attribute} {F : String → List EnumValue × List Attribute} : k.isName = true →
      IsMarked strict ts as → NameInEnumMembers strict hole pre post F →
      NameInEnumMembers strict hole ((k, x) :: ts ++ pre) post fun y =>
        (⟨x, as⟩ :: (F y).1, (F y).2)
  | laterAttr {o : String} {ts pre post : List (TokenKind × String)} {a : Attribute}
      {F : String → List EnumValue × List Attribute} : IsAttribute strict ts a →
      NameInEnumMembers strict hole pre post F →
      NameInEnumMembers strict hole ((.doubleAtSign, o) :: ts ++ pre) post fun y =>
        ((F y).1, a :: (F y).2)

/-- The body of a datasource or generator, with the marked name as the key of an entry or in its
value. -/
inductive NameInEntries (strict : Bool) (hole : TokenKind × String) :
    List (TokenKind × String) → List (TokenKind × String) → (String → List ConfigEntry) → Prop
  | key {y : String} {ts rest : List (TokenKind × String)} {o : Option Value}
      {es : List ConfigEntry} : IsSlot strict (nextKind rest) ts o → IsEntries strict rest es →
      NameInEntries strict hole [] ((.equals, y) :: ts ++ rest) fun z =>
        (o.map fun v => ⟨z, v⟩).toList ++ es
  | slot {k : TokenKind} {x y : String} {pre post rest : List (TokenKind × String)}
      {F : String → Value} {es : List ConfigEntry} : k.isName = true →
      NameInValue strict hole 0 (nextKind rest) pre post F → IsEntries strict rest es →
      NameInEntries strict hole ((k, x) :: (.equals, y) :: pre) (post ++ rest) fun z =>
        ⟨x, F z⟩ :: es
  | later {k : TokenKind} {x y : String} {ts pre post : List (TokenKind × String)}
      {o : Option Value} {F : String → List ConfigEntry} : k.isName = true →
      IsSlot strict (nextKind (pre ++ hole :: post)) ts o → NameInEntries strict hole pre post F →
      NameInEntries strict hole ((k, x) :: (.equals, y) :: ts ++ pre) post fun z =>
        (o.map fun v => ⟨x, v⟩).toList ++ F z

/-- A block with the marked name among its members. -/
inductive NameInBlock (strict : Bool) (hole : TokenKind × String) :
    List (TokenKind × String) → List (TokenKind × String) → (String → Block) → Prop
  | datasource {kw n o : String} {pre post : List (TokenKind × String)}
      {F : String → List ConfigEntry} : NameInEntries strict hole pre post F →
      NameInBlock strict hole ((.datasource, kw) :: (.ident, n) :: (.lBrace, o) :: pre) post
        fun y => .datasource ⟨n, F y⟩
  | generator {kw n o : String} {pre post : List (TokenKind × String)}
      {F : String → List ConfigEntry} : NameInEntries strict hole pre post F →
      NameInBlock strict hole ((.generator, kw) :: (.ident, n) :: (.lBrace, o) :: pre) post
        fun y => .generator ⟨n, F y⟩
  | model {kw n o : String} {pre post : List (TokenKind × String)}
      {F : String → List Field × List Attribute} : NameInMembers strict hole pre post F →
      NameInBlock strict hole ((.model, kw) :: (.ident, n) :: (.lBrace, o) :: pre) post
        fun y => .model ⟨n, (F y).1, (F y).2⟩
  | type {kw n o : String} {pre post : List (TokenKind × String)}
      {F : String → List Field × List Attribute} : NameInMembers strict hole pre post F →
      NameInBlock strict hole ((.type, kw) :: (.ident, n) :: (.lBrace, o) :: pre) post
        fun y => .type ⟨n, (F y).1, (F y).2⟩
  | enum {kw n o : String} {pre post : List (TokenKind × String)}
      {F : String → List EnumValue × List Attribute} : NameInEnumMembers strict hole pre post F →
      NameInBlock strict hole ((.enum, kw) :: (.ident, n) :: (.lBrace, o) :: pre) post
        fun y => .enum ⟨n, (F y).1, (F y).2⟩

/-- A whole text with the marked name in one of its blocks. -/
inductive NameInSchema (strict : Bool) (hole : TokenKind × String) :
    List (TokenKind × String) → List (TokenKind × String) → (String → List Block) → Prop
  | here {pre post rest : List (TokenKind × String)} {F : String → Block} {bs : List Block} :
      NameInBlock strict hole pre post F → IsSchema strict rest bs →
      NameInSchema strict hole pre (post ++ rest) fun y => F y :: bs
  | illegal {x : String} {pre post : List (TokenKind × String)} {F : String → List Block} :
      NameInSchema strict hole pre post F → NameInSchema strict hole ((.illegal, x) :: pre) post F
  | later {ts pre post : List (TokenKind × String)} {b : Block} {F : String → List Block} :
      IsBlock strict ts b → NameInSchema strict hole pre post F →
      NameInSchema strict hole (ts ++ pre) post fun y => b :: F y

/-! ## Any name in the marked place -/

section Sound

variable {strict : Bool} {hole : TokenKind × String} {k : TokenKind}

theorem append_hole {α : Type} (pre post rest : List α) (t : α) :
    pre ++ t :: (post ++ rest) = (pre ++ t :: post) ++ rest := by
  simp

mutual

theorem NameInValue.isValue {d : Nat} {next : TokenKind} {pre post : List (TokenKind × String)}
    {F : String → Value} (hk : k.isName = true) (y : String) :
    NameInValue strict hole d next pre post F →
      IsValue strict d next (pre ++ (k, y) :: post) (F y)
  | .ident hn => .ident hk hn
  | .callName hd hi => .call hk hd hi
  | .list hd hi => .list hd (NameInItems.isItems hk y hi)
  | .call hk' hd hi => .call hk' hd (NameInItems.isItems hk y hi)

theorem NameInItems.isItems {close : TokenKind} {d : Nat} {pre post : List (TokenKind × String)}
    {F : String → List Value} (hk : k.isName = true) (y : String) :
    NameInItems strict hole close d pre post F →
      IsItems strict close d (pre ++ (k, y) :: post) (F y)
  | .here hv hi => by
    rw [append_hole, append_hole]
    exact .value (NameInValue.isValue hk y hv) hi
  | .value hv hi => by
    rw [List.append_assoc]
    refine .value ?_ (NameInItems.isItems hk y hi)
    rw [← List.append_assoc]
    exact of_nextKind_hole (IsValue strict d · _ _) (fun _ _ h hn => h.of_next_isName hn) y hv hk
  | .skip hs hc he hi => by
    rw [List.append_assoc]
    exact .skip hs hc he (NameInItems.isItems hk y hi)

end

theorem NameInArgument.isArgument {next : TokenKind} {pre post : List (TokenKind × String)}
    {F : String → Option Argument} (h : NameInArgument strict hole next pre post F)
    (hk : k.isName = true) (y : String) : IsArgument strict next (pre ++ (k, y) :: post) (F y) := by
  cases h with
  | name hs hslot => exact .named hk hs hslot
  | slot hk' hs hv => exact .named hk' hs (.value (hv.isValue hk y))
  | positional hv hpos => exact .positional (hv.isValue hk y) fun hst x => hpos hst y x

theorem NameInArguments.isArguments {pre post : List (TokenKind × String)}
    {F : String → List Argument} (h : NameInArguments strict hole pre post F)
    (hk : k.isName = true) (y : String) : IsArguments strict (pre ++ (k, y) :: post) (F y) := by
  induction h with
  | here ha has =>
    rw [append_hole, append_hole]
    exact .cons (ha.isArgument hk y) has
  | later ha _ ih =>
    rw [List.append_assoc]
    refine .cons ?_ ih
    rw [← List.append_assoc]
    exact of_nextKind_hole (IsArgument strict · _ _) (fun _ _ h hn => h.of_next_isName hn) y ha hk

theorem NameInDotted.isDotted {pre post : List (TokenKind × String)} {F : String → List String}
    (h : NameInDotted hole pre post F) (hk : k.isName = true) (y : String) :
    IsDotted (pre ++ (k, y) :: post) (F y) := by
  induction h with
  | last => exact .one hk
  | here hd => exact .dot hk hd
  | later hk' _ ih => exact .dot hk' ih

theorem NameInAttribute.isAttribute {pre post : List (TokenKind × String)}
    {F : String → Attribute} (h : NameInAttribute strict hole pre post F) (hk : k.isName = true)
    (y : String) : IsAttribute strict (pre ++ (k, y) :: post) (F y) := by
  cases h with
  | plain hd => exact .plain (hd.isDotted hk y)
  | name hd ha =>
    rw [append_hole]
    exact .args (hd.isDotted hk y) ha
  | args hd ha =>
    rw [List.append_assoc, List.cons_append]
    exact .args hd (ha.isArguments hk y)

theorem NameInMarked.isMarked {pre post : List (TokenKind × String)}
    {F : String → List Attribute} (h : NameInMarked strict hole pre post F) (hk : k.isName = true)
    (y : String) : IsMarked strict (pre ++ (k, y) :: post) (F y) := by
  induction h with
  | here ha hm =>
    rw [append_hole]
    exact .cons (ha.isAttribute hk y) hm
  | later ha _ ih =>
    rw [List.append_assoc]
    exact .cons ha ih

theorem NameInField.isField {pre post : List (TokenKind × String)} {F : String → Field}
    (h : NameInField strict hole pre post F) (hk : k.isName = true) (y : String) :
    IsField strict (pre ++ (k, y) :: post) (F y) := by
  cases h with
  | name ht hm => exact .mk hk ht hm
  | attr hk' ht hm =>
    rw [List.append_assoc]
    exact .mk hk' ht (hm.isMarked hk y)

theorem NameInMembers.isMembers {pre post : List (TokenKind × String)}
    {F : String → List Field × List Attribute} (h : NameInMembers strict hole pre post F)
    (hk : k.isName = true) (y : String) :
    IsMembers strict (pre ++ (k, y) :: post) (F y).1 (F y).2 := by
  induction h with
  | field hf hm =>
    rw [append_hole]
    exact .field (hf.isField hk y) hm
  | attr ha hm =>
    rw [append_hole]
    exact .attr (ha.isAttribute hk y) hm
  | laterField hf _ ih =>
    rw [List.append_assoc]
    exact .field hf ih
  | laterAttr ha _ ih =>
    rw [List.append_assoc]
    exact .attr ha ih

theorem NameInEnumMembers.isEnumMembers {pre post : List (TokenKind × String)}
    {F : String → List EnumValue × List Attribute} (h : NameInEnumMembers strict hole pre post F)
    (hk : k.isName = true) (y : String) :
    IsEnumMembers strict (pre ++ (k, y) :: post) (F y).1 (F y).2 := by
  induction h with
  | name hm he => exact .value hk hm he
  | valueAttr hk' hm he =>
    rw [append_hole]
    exact .value hk' (hm.isMarked hk y) he
  | attr ha he =>
    rw [append_hole]
    exact .attr (ha.isAttribute hk y) he
  | laterValue hk' hm _ ih =>
    rw [List.append_assoc]
    exact .value hk' hm ih
  | laterAttr ha _ ih =>
    rw [List.append_assoc]
    exact .attr ha ih

theorem NameInEntries.isEntries {pre post : List (TokenKind × String)}
    {F : String → List ConfigEntry} (h : NameInEntries strict hole pre post F)
    (hk : k.isName = true) (y : String) : IsEntries strict (pre ++ (k, y) :: post) (F y) := by
  induction h with
  | key hs he => exact .entry hk hs he
  | slot hk' hv he =>
    rw [append_hole]
    exact .entry hk' (.value (hv.isValue hk y)) he
  | later hk' hs _ ih =>
    rw [List.append_assoc]
    exact .entry hk'
      (of_nextKind_hole (IsSlot strict · _ _) (fun _ _ h hn => h.of_next_isName hn) y hs hk) ih

theorem NameInBlock.isBlock {pre post : List (TokenKind × String)} {F : String → Block}
    (h : NameInBlock strict hole pre post F) (hk : k.isName = true) (y : String) :
    IsBlock strict (pre ++ (k, y) :: post) (F y) := by
  cases h with
  | datasource he => exact .datasource (he.isEntries hk y)
  | generator he => exact .generator (he.isEntries hk y)
  | model hm => exact .model (hm.isMembers hk y)
  | type hm => exact .type (hm.isMembers hk y)
  | enum he => exact .enum (he.isEnumMembers hk y)

theorem NameInSchema.isSchema {pre post : List (TokenKind × String)} {F : String → List Block}
    (h : NameInSchema strict hole pre post F) (hk : k.isName = true) (y : String) :
    IsSchema strict (pre ++ (k, y) :: post) (F y) := by
  induction h with
  | here hb hs =>
    rw [append_hole]
    exact .block (hb.isBlock hk y) hs
  | illegal _ ih => exact .illegal ih
  | later hb _ ih =>
    rw [List.append_assoc]
    exact .block hb ih

end Sound

end Grammar

/-! ## Keywords in place of names -/

namespace Schema

open Grammar

theorem parseSyntax_name_in_place {a b : String} {hole : TokenKind × String}
    {F : String → List Block} (ha : Scan.EndsBeforeWord a.toList)
    (hb : ∀ c ∈ b.toList.head?, Scan.isWordChar c = false)
    (hname : NameInSchema true hole (Scan.views a.toList) (Scan.views b.toList) F) {w : String}
    (hw : Scan.isWord w.toList = true) (hk : (TokenKind.ofWord w).isName = true) :
    parseSyntax (a ++ w ++ b) = (ofBlocks (F w), []) := by
  rw [parseSyntax_eq_iff]
  refine ⟨F w, ?_, rfl⟩
  rw [String.toList_append, String.toList_append, Scan.views_around_word ha hw hb]
  exact hname.isSchema hk w

theorem keywords_isName :
    ∀ w ∈ ["model", "enum", "datasource", "generator", "type"],
      Scan.isWord w.toList = true ∧ (TokenKind.ofWord w).isName = true := by
  decide

/-- Keywords are names inside blocks. An identifier `x` that stands on its own in a text, which the
parse reads as a member name, gives a text with no syntax error; any block keyword in its place
gives one too, and the schema is the same but for that one name. -/
theorem parseSyntax_keyword_for_member_name {a b x : String} {F : String → List Block}
    (ha : Scan.EndsBeforeWord a.toList) (hx : Scan.isWord x.toList = true)
    (hid : TokenKind.ofWord x = .ident) (hb : ∀ c ∈ b.toList.head?, Scan.isWordChar c = false)
    (hname : NameInSchema true (.ident, x) (Scan.views a.toList) (Scan.views b.toList) F) :
    parseSyntax (a ++ x ++ b) = (ofBlocks (F x), []) ∧
      ∀ w ∈ ["model", "enum", "datasource", "generator", "type"],
        parseSyntax (a ++ w ++ b) = (ofBlocks (F w), []) := by
  refine ⟨parseSyntax_name_in_place ha hb hname hx (by rw [hid]; rfl), fun w hw => ?_⟩
  obtain ⟨hword, hk⟩ := keywords_isName w hw
  exact parseSyntax_name_in_place ha hb hname hword hk

/-- A field named `kind`, and so one named by any keyword. -/
theorem parseSyntax_keyword_field_name :
    Scan.EndsBeforeWord "model A \x7b\n  ".toList ∧ Scan.isWord "kind".toList = true ∧
      TokenKind.ofWord "kind" = .ident ∧
      (∀ c ∈ " String\n\x7d".toList.head?, Scan.isWordChar c = false) ∧
      NameInSchema true (.ident, "kind") (Scan.views "model A \x7b\n  ".toList)
        (Scan.views " String\n\x7d".toList)
        (fun y => [.model ⟨"A", [⟨y, ⟨.named "String", false, false⟩, []⟩], []⟩]) ∧
      (parseSyntax ("model A \x7b\n  " ++ "kind" ++ " String\n\x7d") =
          (ofBlocks [.model ⟨"A", [⟨"kind", ⟨.named "String", false, false⟩, []⟩], []⟩], []) ∧
        ∀ w ∈ ["model", "enum", "datasource", "generator", "type"],
          parseSyntax ("model A \x7b\n  " ++ w ++ " String\n\x7d") =
            (ofBlocks [.model ⟨"A", [⟨w, ⟨.named "String", false, false⟩, []⟩], []⟩], [])) := by
  have ha : Scan.EndsBeforeWord "model A \x7b\n  ".toList := by
    have htrail : Scan.trailing "model A \x7b\n  ".toList = [' ', ' '] := by decide +kernel
    refine ⟨⟨?_, by decide +kernel⟩, fun h => absurd h (by rw [htrail]; decide)⟩
    rw [htrail]
    exact .blank rfl (.blank rfl .nil)
  have hx : Scan.isWord "kind".toList = true := by decide
  have hid : TokenKind.ofWord "kind" = .ident := by decide
  have hb : ∀ c ∈ " String\n\x7d".toList.head?, Scan.isWordChar c = false := by
    intro c hc
    have hhead : " String\n\x7d".toList.head? = some ' ' := by decide +kernel
    rw [hhead, Option.mem_some_iff] at hc
    rw [← hc]
    decide
  have hva : Scan.views "model A \x7b\n  ".toList =
      [(.model, "model"), (.ident, "A"), (.lBrace, "\x7b")] := by decide +kernel
  have hvb : Scan.views " String\n\x7d".toList = [(.ident, "String"), (.rBrace, "\x7d")] := by
    decide +kernel
  have hname : NameInSchema true (.ident, "kind") (Scan.views "model A \x7b\n  ".toList)
      (Scan.views " String\n\x7d".toList)
      (fun y => [.model ⟨"A", [⟨y, ⟨.named "String", false, false⟩, []⟩], []⟩]) := by
    rw [hva, hvb]
    exact .here (.model (.field (.name (.mk (.named (by decide)) .no .no) .nil) .close)) .nil
  exact ⟨ha, hx, hid, hb, hname, parseSyntax_keyword_for_member_name ha hx hid hb hname⟩

end Schema

end DbSchema
