import DbSchema.Proofs.Relex
import DbSchema.Syntax.Schema

/-! # How printed values, attributes and field types are spelled

The printers write a value, an attribute or a field type as schema text. Read back by the lexer,
that text is a list of tokens whose kinds and texts `Value.tokens`, `Attribute.tokens` and
`FieldType.tokens` give directly, once the pieces are in the forms the lexer itself writes
(`Value.Readable` and the like): words that read as names, literals as lexed, string bodies as
lexed and ending in no lone backslash.

* `Value.Readable.views_display`: a printed value reads as its tokens, whatever may follow it.
* `Attribute.Readable.views_display`, `FieldType.views_display`: the same for attributes and
  field types, whose texts end the input.
-/

namespace DbSchema

set_option autoImplicit false

open Scan

/-- A word that reads as a member name: an identifier or a keyword. -/
def Scan.isNameWord (w : String) : Bool :=
  isWord w.toList && (TokenKind.ofWord w).isName

/-- Token lists joined by comma tokens, as the items of a list, a call or an attribute are. -/
def Scan.commaJoin : List (List (TokenKind × String)) → List (TokenKind × String)
  | [] => []
  | [x] => x
  | x :: y :: ys => x ++ (.comma, ",") :: commaJoin (y :: ys)

/-- The tokens of a dotted name given by its parts. -/
def Scan.dottedTokens : List String → List (TokenKind × String)
  | [] => []
  | [p] => [(TokenKind.ofWord p, p)]
  | p :: q :: ps => (TokenKind.ofWord p, p) :: (.dot, ".") :: dottedTokens (q :: ps)

namespace Value

/-! ## Values -/

mutual

/-- The kinds and texts of the tokens a value is printed as. -/
def tokens : Value → List (TokenKind × String)
  | .str s => [(.string, s)]
  | .int l => [(.int, l)]
  | .float l => [(.float, l)]
  | .bool b => [(.boolean, if b then "true" else "false")]
  | .ident n => [(TokenKind.ofWord n, n)]
  | .list vs => (.lBracket, "[") :: itemTokens vs ++ [(.rBracket, "]")]
  | .call f vs => (TokenKind.ofWord f, f) :: (.lParen, "(") :: itemTokens vs ++ [(.rParen, ")")]

def itemTokens : List Value → List (TokenKind × String)
  | [] => []
  | [v] => v.tokens
  | v :: w :: vs => v.tokens ++ (.comma, ",") :: itemTokens (w :: vs)

end

theorem itemTokens_eq_commaJoin : ∀ vs : List Value, itemTokens vs = commaJoin (vs.map tokens)
  | [] => rfl
  | [_] => rfl
  | v :: w :: vs => by
    rw [itemTokens, itemTokens_eq_commaJoin (w :: vs)]
    simp only [List.map_cons, commaJoin]

theorem displayItems_eq_intercalate :
    ∀ vs : List Value, displayItems vs = ", ".intercalate (vs.map display)
  | [] => rfl
  | [v] => by rw [displayItems, List.map_singleton, String.intercalate_singleton]
  | v :: w :: vs => by
    rw [displayItems.eq_3 v (w :: vs) (by simp), displayItems_eq_intercalate (w :: vs)]
    simp only [List.map_cons, String.intercalate_cons_cons]

/-- `Readable depth v`: `v` is a value the grammar can read at nesting `depth` from tokens the
lexer wrote: string bodies are as the lexer reads them, literals as it writes them, names are
words that read as names, and lists and calls open no level beyond `maxNesting`. -/
inductive Readable : Nat → Value → Prop
  | str {d : Nat} {s : String} : (∃ r, (stringBody r).1 = s.toList) → Readable d (.str s)
  | int {d : Nat} {l : String} : isIntLit l.toList = true → Readable d (.int l)
  | float {d : Nat} {l : String} : isFloatLit l.toList = true → Readable d (.float l)
  | bool {d : Nat} {b : Bool} : Readable d (.bool b)
  | ident {d : Nat} {n : String} : isNameWord n = true → Readable d (.ident n)
  | list {d : Nat} {vs : List Value} : d < Parser.maxNesting →
      (∀ v ∈ vs, Readable (d + 1) v) → Readable d (.list vs)
  | call {d : Nat} {f : String} {vs : List Value} : isNameWord f = true →
      d < Parser.maxNesting → (∀ v ∈ vs, Readable (d + 1) v) → Readable d (.call f vs)

/-- `v.HasString s`: the string literal `s` stands in `v`, inside lists and calls or not. -/
inductive HasString (s : String) : Value → Prop
  | str : HasString s (.str s)
  | list {v : Value} {vs : List Value} : v ∈ vs → HasString s v → HasString s (.list vs)
  | call {f : String} {v : Value} {vs : List Value} : v ∈ vs → HasString s v →
      HasString s (.call f vs)

/-- Every string literal in `v` ends in no backslash that no escape pairs. -/
def StringsClose (v : Value) : Prop :=
  ∀ s, v.HasString s → endsInLoneBackslash s.toList = false

end Value

/-! ## Attributes -/

def Argument.tokens (a : Argument) : List (TokenKind × String) :=
  match a.name with
  | some n => (TokenKind.ofWord n, n) :: (.colon, ":") :: a.value.tokens
  | none => a.value.tokens

/-- An argument the grammar reads back: its name, if it has one, reads as a name, and its value
is readable outside any list or call. -/
structure Argument.Readable (a : Argument) : Prop where
  name : ∀ n, a.name = some n → isNameWord n = true
  value : a.value.Readable 0

/-- The kinds and texts of the tokens an attribute is printed as, its name given by the parts
between its dots. -/
def Attribute.tokens (parts : List String) (a : Attribute) : List (TokenKind × String) :=
  (.atSign, "@") :: dottedTokens parts ++
    if a.args.isEmpty then [] else
      (.lParen, "(") :: commaJoin (a.args.map Argument.tokens) ++ [(.rParen, ")")]

/-- `a.Readable parts`: the attribute's name is the words `parts`, each read as a name, joined by
dots, and its arguments are readable. -/
structure Attribute.Readable (parts : List String) (a : Attribute) : Prop where
  name_eq : a.name = ".".intercalate parts
  parts_ne : parts ≠ []
  parts_name : ∀ p ∈ parts, isNameWord p = true
  args : ∀ arg ∈ a.args, arg.Readable

/-- Every string literal in the arguments of `a` ends in no lone backslash. -/
def Attribute.StringsClose (a : Attribute) : Prop :=
  ∀ arg ∈ a.args, arg.value.StringsClose

/-! ## Field types -/

def TypeName.tokens : TypeName → List (TokenKind × String)
  | .named n => [(.ident, n)]
  | .unsupported raw => [(.ident, "Unsupported"), (.lParen, "("), (.string, raw), (.rParen, ")")]

def FieldType.tokens (t : FieldType) : List (TokenKind × String) :=
  t.base.tokens ++ (if t.isArray then [(.lBracket, "["), (.rBracket, "]")] else []) ++
    if t.isOptional then [(.question, "?")] else []

/-- A base type the grammar reads back: a name is an identifier word other than `Unsupported`,
and a raw description is a string body as the lexer reads it. -/
inductive TypeName.Readable : TypeName → Prop
  | named {n : String} : isWord n.toList = true → TokenKind.ofWord n = .ident →
      n ≠ "Unsupported" → Readable (.named n)
  | unsupported {raw : String} : (∃ r, (stringBody r).1 = raw.toList) →
      Readable (.unsupported raw)

/-- The raw description of an unsupported type ends in no lone backslash. -/
def FieldType.StringsClose (t : FieldType) : Prop :=
  ∀ raw, t.base = .unsupported raw → endsInLoneBackslash raw.toList = false

/-! ## Printed pieces read back, one token at a time -/

theorem TokenKind.ofWord_ne_newline (w : String) : TokenKind.ofWord w ≠ .newline := by
  rcases TokenKind.ofWord_cases w with h | h | h | h | h | h | h <;> rw [h] <;> decide

namespace Scan

/-- What may follow a printed value: nothing, a comma, or the bracket or parenthesis that
closes a list or a call. -/
def ValueStop (ds : List Char) : Prop :=
  ∀ c ∈ ds.head?, c = ',' ∨ c = ']' ∨ c = ')'

theorem ValueStop.num {ds : List Char} (h : ValueStop ds) : NumStop ds := by
  intro c hc
  rcases h c hc with rfl | rfl | rfl <;> decide

theorem ValueStop.word {ds : List Char} (h : ValueStop ds) : ∀ c ∈ ds.head?, isWordChar c = false := by
  intro c hc
  rcases h c hc with rfl | rfl | rfl <;> decide

theorem ValueStop.cons {c : Char} (hc : c = ',' ∨ c = ']' ∨ c = ')') (ds : List Char) :
    ValueStop (c :: ds) := by
  intro x hx
  cases hx
  exact hc

theorem not_trivia_of {p : Char → Bool}
    (hp : p ' ' = false ∧ p '\t' = false ∧ p '\r' = false ∧ p '/' = false) {c : Char}
    (h : p c = true) : isBlank c = false ∧ c ≠ '/' := by
  constructor
  · cases hb : isBlank c
    · rfl
    · simp only [isBlank, Bool.or_eq_true, beq_iff_eq] at hb
      rcases hb with (rfl | rfl) | rfl
      · exact absurd h (by rw [hp.1]; decide)
      · exact absurd h (by rw [hp.2.1]; decide)
      · exact absurd h (by rw [hp.2.2.1]; decide)
  · rintro rfl
    exact absurd h (by rw [hp.2.2.2]; decide)

theorem views_word {w : String} (hw : isWord w.toList = true) {ds : List Char}
    (hds : ∀ c ∈ ds.head?, isWordChar c = false) :
    views (w.toList ++ ds) = (TokenKind.ofWord w, w) :: views ds := by
  have hlex := lexeme_word hw hds Pos.start
  rcases hl : w.toList with _ | ⟨c, r⟩
  · rw [hl] at hw
    exact absurd hw (by decide)
  rw [hl] at hw hlex
  have hc : isWordStart c = true := by
    simp only [isWord, Bool.and_eq_true] at hw
    exact hw.1
  have ht := not_trivia_of (p := isWordStart) (by decide) hc
  rw [views_token ht.1 ht.2 hlex (TokenKind.ofWord_ne_newline _)]
  simp only [Token.view, mkToken, ← hl, String.ofList_toList]

theorem views_punct {c : Char} {k : TokenKind} (h : TokenKind.ofPunct? c = some k)
    (ds : List Char) : views (c :: ds) = (k, String.ofList [c]) :: views ds := by
  have hc : isBlank c = false ∧ c ≠ '/' := by
    unfold TokenKind.ofPunct? at h
    split at h <;> cases h <;> decide
  have hk : k ≠ .newline := by
    unfold TokenKind.ofPunct? at h
    split at h <;> cases h <;> decide
  rw [← List.nil_append ds, ← List.cons_append,
    views_token hc.1 hc.2 (lexeme_punct h Pos.start ([] ++ ds)) hk]
  rfl

theorem views_atSign {ds : List Char} (hds : ∀ c ∈ ds.head?, c ≠ '@') :
    views ('@' :: ds) = (.atSign, "@") :: views ds := by
  rw [← List.nil_append ds, ← List.cons_append,
    views_token (by decide) (by decide) (lexeme_atSign hds Pos.start) (by simp [mkToken])]
  rfl

theorem number_not_trivia {c : Char} (h : c = '-' ∨ c.isDigit = true) :
    isBlank c = false ∧ c ≠ '/' := by
  rcases h with rfl | h
  · decide
  · exact not_trivia_of (p := Char.isDigit) (by decide) h

theorem views_int {l : String} (hl : isIntLit l.toList = true) {ds : List Char} (hds : NumStop ds) :
    views (l.toList ++ ds) = (.int, l) :: views ds := by
  have hlex := lexeme_int hl hds Pos.start
  rcases hcl : l.toList with _ | ⟨c, r⟩
  · rw [hcl] at hl
    exact absurd hl (by decide)
  rw [hcl] at hl hlex
  have hc : c = '-' ∨ c.isDigit = true := by
    by_cases hm : c = '-'
    · exact .inl hm
    · rw [isIntLit.eq_2 _ (fun _ h => hm (List.cons.inj h).1)] at hl
      exact .inr (isDigits_cons hl).1
  have ht := number_not_trivia hc
  rw [views_token ht.1 ht.2 hlex (by simp [mkToken])]
  simp [Token.view, mkToken, ← hcl]

theorem views_float {l : String} (hl : isFloatLit l.toList = true) {ds : List Char}
    (hds : NumStop ds) : views (l.toList ++ ds) = (.float, l) :: views ds := by
  have hlex := lexeme_float hl hds Pos.start
  rcases hcl : l.toList with _ | ⟨c, r⟩
  · rw [hcl] at hl
    exact absurd hl (by decide)
  rw [hcl] at hl hlex
  have hc : c = '-' ∨ c.isDigit = true := by
    by_cases hm : c = '-'
    · exact .inl hm
    · rw [isFloatLit.eq_2 _ (fun _ h => hm (List.cons.inj h).1)] at hl
      obtain ⟨d, a, b, he, hd, -, -⟩ := isUnsignedFloat_split hl
      rw [List.cons_append, List.cons.injEq] at he
      exact .inr (he.1 ▸ hd)
  have ht := number_not_trivia hc
  rw [views_token ht.1 ht.2 hlex (by simp [mkToken])]
  simp [Token.view, mkToken, ← hcl]

theorem views_string {s : String} (hs : ∃ r, (stringBody r).1 = s.toList)
    (hc : endsInLoneBackslash s.toList = false) (ds : List Char) :
    views ('"' :: (s.toList ++ '"' :: ds)) = (.string, s) :: views ds := by
  obtain ⟨r, hr⟩ := hs
  have hre := stringBody_reread r (by rw [hr]; exact hc) ds
  rw [hr] at hre
  have hlex := lexeme_string hre Pos.start
  rw [show '"' :: (s.toList ++ '"' :: ds) = '"' :: (s.toList ++ ['"']) ++ ds by simp,
    views_token (by decide) (by decide) (by simpa using hlex) (by simp)]
  simp [Token.view]

theorem views_intercalate {α : Type} (f : α → String) (g : α → List (TokenKind × String))
    {xs : List α} (h : ∀ x ∈ xs, ∀ ds, ValueStop ds → views ((f x).toList ++ ds) = g x ++ views ds)
    {ds : List Char} (hds : ValueStop ds) :
    views ((", ".intercalate (xs.map f)).toList ++ ds) = commaJoin (xs.map g) ++ views ds := by
  induction xs with
  | nil => rfl
  | cons x xs ih =>
    cases xs with
    | nil => simpa [commaJoin] using h x (by simp) ds hds
    | cons y ys =>
      have ih' := ih (fun u hu => h u (List.mem_cons_of_mem x hu))
      simp only [List.map_cons] at ih' ⊢
      simp only [String.intercalate_cons_cons, commaJoin, String.toList_append, List.append_assoc]
      rw [show (", " : String).toList = [',', ' '] from rfl, List.cons_append, List.cons_append,
        List.nil_append, h x (by simp) _ (ValueStop.cons (.inl rfl) _),
        views_punct (k := .comma) rfl, views_blank (c := ' ') rfl, ih']
      simp

theorem views_dotted {parts : List String} (hw : ∀ p ∈ parts, isWord p.toList = true)
    {ds : List Char} (hds : ∀ c ∈ ds.head?, isWordChar c = false) :
    views ((".".intercalate parts).toList ++ ds) = dottedTokens parts ++ views ds := by
  induction parts with
  | nil => rfl
  | cons p ps ih =>
    cases ps with
    | nil => simpa [dottedTokens] using views_word (hw p (by simp)) hds
    | cons q qs =>
      rw [String.intercalate_cons_cons, dottedTokens]
      simp only [String.toList_append, List.append_assoc]
      rw [show (".": String).toList = ['.'] from rfl, List.cons_append, List.nil_append,
        views_word (hw p (by simp)) (fun c hc => by cases hc; decide), views_punct (k := .dot) rfl,
        ih (fun u hu => hw u (List.mem_cons_of_mem p hu))]
      rfl

end Scan

namespace Value

/-! ## A printed value reads as its tokens -/

theorem Readable.views_display {d : Nat} {v : Value} (h : Readable d v) (hs : v.StringsClose)
    {ds : List Char} (hds : ValueStop ds) :
    views (v.display.toList ++ ds) = v.tokens ++ views ds := by
  induction h generalizing ds with
  | str hr =>
    rename_i s
    simpa [display, tokens] using views_string hr (hs s .str) ds
  | int hl => exact views_int hl hds.num
  | float hl => exact views_float hl hds.num
  | bool =>
    rename_i b
    cases b
    · exact views_word (w := "false") (by decide) hds.word
    · exact views_word (w := "true") (by decide) hds.word
  | ident hn =>
    simp only [isNameWord, Bool.and_eq_true] at hn
    exact views_word hn.1 hds.word
  | list hd hvs ih =>
    rename_i vs
    have hitems := views_intercalate display tokens
      (fun v hv => fun ds hds => ih v hv (fun s hsv => hs s (.list hv hsv)) hds)
      (ValueStop.cons (.inr (.inl rfl)) ds)
    simp only [display, tokens, displayItems_eq_intercalate, itemTokens_eq_commaJoin,
      String.toList_append, List.append_assoc]
    rw [show ("[" : String).toList = ['['] from rfl, show ("]" : String).toList = [']'] from rfl,
      List.cons_append, List.nil_append, views_punct (k := .lBracket) rfl, List.singleton_append,
      hitems, views_punct (k := .rBracket) rfl]
    simp
  | call hf hd hvs ih =>
    rename_i f vs
    simp only [isNameWord, Bool.and_eq_true] at hf
    have hitems := views_intercalate display tokens
      (fun v hv => fun ds hds => ih v hv (fun s hsv => hs s (.call hv hsv)) hds)
      (ValueStop.cons (.inr (.inr rfl)) ds)
    simp only [display, tokens, displayItems_eq_intercalate, itemTokens_eq_commaJoin,
      String.toList_append, List.append_assoc]
    rw [show ("(" : String).toList = ['('] from rfl, show (")" : String).toList = [')'] from rfl,
      views_word hf.1 (fun c hc => by cases hc; decide), List.cons_append, List.nil_append,
      views_punct (k := .lParen) rfl, List.singleton_append, hitems,
      views_punct (k := .rParen) rfl]
    simp

end Value

/-! ## A printed attribute reads as its tokens -/

theorem Argument.Readable.views_display {a : Argument} (h : a.Readable)
    (hs : a.value.StringsClose) {ds : List Char} (hds : ValueStop ds) :
    views (a.display.toList ++ ds) = a.tokens ++ views ds := by
  have hv := h.value.views_display hs hds
  unfold Argument.display Argument.tokens
  cases hn : a.name with
  | none => exact hv
  | some n =>
    have hw := h.name n hn
    simp only [isNameWord, Bool.and_eq_true] at hw
    simp only [String.toList_append, List.append_assoc]
    rw [show (": " : String).toList = [':', ' '] from rfl, List.cons_append, List.cons_append,
      List.nil_append, views_word hw.1 (fun c hc => by cases hc; decide),
      views_punct (k := .colon) rfl, views_blank (c := ' ') rfl, hv]
    rfl

theorem Scan.intercalate_dot_head {parts : List String} (hne : parts ≠ [])
    (hw : ∀ p ∈ parts, isWord p.toList = true) :
    ∃ x r, (".".intercalate parts).toList = x :: r ∧ isWordStart x = true := by
  obtain _ | ⟨p, ps⟩ := parts
  · exact absurd rfl hne
  have hp := hw p (by simp)
  obtain ⟨x, r, hx⟩ : ∃ x r, p.toList = x :: r := by
    cases h : p.toList with
    | nil => rw [h] at hp; exact absurd hp (by decide)
    | cons x r => exact ⟨x, r, rfl⟩
  have hstart : isWordStart x = true := by
    rw [hx] at hp
    simp only [isWord, Bool.and_eq_true] at hp
    exact hp.1
  cases ps with
  | nil => exact ⟨x, r, by simp [hx], hstart⟩
  | cons q qs =>
    exact ⟨x, r ++ '.' :: (".".intercalate (q :: qs)).toList,
      by simp [String.intercalate_cons_cons, hx], hstart⟩

theorem Attribute.Readable.views_display {parts : List String} {a : Attribute}
    (h : a.Readable parts) (hs : a.StringsClose) : views a.display.toList = a.tokens parts := by
  have hw : ∀ p ∈ parts, isWord p.toList = true := fun p hp => by
    have := h.parts_name p hp
    simp only [isNameWord, Bool.and_eq_true] at this
    exact this.1
  obtain ⟨x, r, hxr, hx⟩ := intercalate_dot_head h.parts_ne hw
  have hat : ∀ ds, ∀ c ∈ ((".".intercalate parts).toList ++ ds).head?, c ≠ '@' := by
    intro ds c hc
    rw [hxr, List.cons_append, List.head?_cons, Option.mem_some_iff] at hc
    rintro rfl
    exact absurd (hc ▸ hx) (by decide)
  unfold Attribute.display Attribute.tokens
  rw [h.name_eq]
  cases he : a.args.isEmpty
  · have hargs := views_intercalate Argument.display Argument.tokens
      (fun arg harg => fun ds hds => (h.args arg harg).views_display (hs arg harg) hds)
      (ValueStop.cons (.inr (.inr rfl)) [])
    simp only [if_false, Bool.false_eq_true, String.toList_append, List.append_assoc]
    rw [show ("@" : String).toList = ['@'] from rfl, show ("(" : String).toList = ['('] from rfl,
      show (")" : String).toList = [')'] from rfl]
    simp only [List.cons_append, List.nil_append]
    rw [views_atSign (hat _), views_dotted hw (fun c hc => by cases hc; decide),
      views_punct (k := .lParen) rfl, hargs, views_punct (k := .rParen) rfl, views_nil]
  · simp only [if_true, String.toList_append, List.append_assoc]
    rw [show ("@" : String).toList = ['@'] from rfl, show ("" : String).toList = [] from rfl]
    simp only [List.cons_append, List.nil_append, List.append_nil]
    have hname : views ((".".intercalate parts).toList ++ []) = _ :=
      views_dotted hw (fun c hc => by cases hc)
    rw [List.append_nil] at hname
    rw [← List.append_nil (String.toList _), views_atSign (hat []), List.append_nil, hname,
      views_nil, List.append_nil]

/-! ## A printed field type reads as its tokens -/

theorem Scan.views_typeSuffix (a o : Bool) :
    views ((if a then "[]" else "") ++ (if o then "?" else "")).toList =
      (if a then [(.lBracket, "["), (.rBracket, "]")] else []) ++
        if o then [(.question, "?")] else [] := by
  have hq : views ['?'] = [(.question, "?")] := by
    rw [views_punct (k := .question) rfl, views_nil]
  have hb : ∀ ds, views ('[' :: ']' :: ds) = (.lBracket, "[") :: (.rBracket, "]") :: views ds := by
    intro ds
    rw [views_punct (k := .lBracket) rfl, views_punct (k := .rBracket) rfl]
  cases a <;> cases o <;>
    simp only [if_true, if_false, Bool.false_eq_true, String.toList_append,
      show ("" : String).toList = [] from rfl, show ("?" : String).toList = ['?'] from rfl,
      show ("[]" : String).toList = ['[', ']'] from rfl, List.nil_append, List.append_nil,
      List.cons_append]
  · exact views_nil
  · exact hq
  · rw [hb, views_nil]
  · rw [hb, hq]

theorem FieldType.views_display {t : FieldType} (h : t.base.Readable) (hs : t.StringsClose) :
    views t.display.toList = t.tokens := by
  obtain ⟨base, isArray, isOptional⟩ := t
  have hsfx := views_typeSuffix isArray isOptional
  have hstop : ∀ c ∈ ((if isArray then "[]" else "") ++ (if isOptional then "?" else "")).toList.head?,
      isWordChar c = false := by
    cases isArray <;> cases isOptional <;> intro c hc <;> simp at hc <;> (subst hc; decide)
  unfold display tokens
  simp only [String.toList_append, List.append_assoc] at hstop hsfx ⊢
  cases h with
  | named hw hk _ =>
    rename_i n
    rw [views_word hw hstop, hsfx, hk]
    rfl
  | unsupported hr =>
    rename_i raw
    simp only [String.toList_append, List.append_assoc]
    rw [show ("Unsupported(\"" : String).toList = "Unsupported".toList ++ ['(', '"'] from rfl,
      show ("\")" : String).toList = ['"', ')'] from rfl]
    simp only [List.append_assoc, List.cons_append, List.nil_append]
    rw [views_word (w := "Unsupported") (by decide) (fun c hc => by cases hc; decide),
      views_punct (k := .lParen) rfl, views_string hr (hs raw rfl), views_punct (k := .rParen) rfl,
      hsfx, show TokenKind.ofWord "Unsupported" = .ident by decide]
    rfl

end DbSchema
