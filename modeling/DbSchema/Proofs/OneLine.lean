import DbSchema.Proofs.GrammarSound
import DbSchema.Proofs.LongestMatch

/-! # Every text read from a schema lies on one line

Only a line break token holds a line break: a word, a number, a punctuation mark or an illegal
character never does, and a string literal stops before a line break, a backslash included. The
parser builds every name, type, attribute and value it keeps from the texts of the tokens it
reads, so no text of a schema read from any text holds a line break, written back as schema text
or not.

* `OneLine x`: the text `x` holds no line break, with `oneLine_append` and its companions.
* `Scan.Longest.newline_not_mem`, `Token.scan_oneLine`: the lexer's side.
* `Schema.Blockwise P`: every block of a schema has the property `P`, with
  `Parser.blocks_blockwise`: the loop over blocks keeps any property that every block of the
  grammar has over the tokens read.
* `Block.TextsOneLine`; `Grammar.IsBlock.textsOneLine`: one lemma per production.
* `Schema.parseSyntax_textsOneLine`: every block of a schema read from a text has its texts on one
  line.
-/

namespace DbSchema

set_option autoImplicit false

/-! ## Texts without a line break -/

/-- The text holds no line break. -/
def OneLine (x : String) : Prop :=
  '\n' ∉ x.toList

instance : DecidablePred OneLine :=
  fun x => inferInstanceAs (Decidable ('\n' ∉ x.toList))

@[simp] theorem oneLine_append {a b : String} : OneLine (a ++ b) ↔ OneLine a ∧ OneLine b := by
  simp [OneLine, String.toList_append, not_or]

@[simp] theorem oneLine_toString (x : String) : OneLine (toString x) ↔ OneLine x :=
  Iff.rfl

@[simp] theorem oneLine_repr (n : Nat) : OneLine n.repr := by
  intro h
  rw [show n.repr.toList = Nat.toDigits 10 n by simp [Nat.repr]] at h
  exact absurd (Nat.isDigit_of_mem_toDigits (by decide) (by decide) h) (by decide)

theorem oneLine_intercalate {sep : String} {xs : List String} (hsep : OneLine sep)
    (h : ∀ x ∈ xs, OneLine x) : OneLine (sep.intercalate xs) := by
  induction xs with
  | nil =>
    rw [String.intercalate_nil]
    decide
  | cons x xs ih =>
    cases xs with
    | nil => simpa [String.intercalate_singleton] using h x List.mem_cons_self
    | cons y ys =>
      rw [String.intercalate_cons_cons, oneLine_append, oneLine_append]
      exact ⟨⟨h x List.mem_cons_self, hsep⟩, ih fun z hz => h z (List.mem_cons_of_mem _ hz)⟩

/-! ## Tokens -/

namespace Scan

theorem StringBody.newline_not_mem {b : List Char} (h : StringBody b) : '\n' ∉ b := by
  induction h with
  | nil => simp
  | escape hc _ ih =>
    simp only [List.mem_cons, not_or]
    exact ⟨by decide, Ne.symm hc, ih⟩
  | plain _ _ hc _ ih =>
    simp only [List.mem_cons, not_or]
    exact ⟨Ne.symm hc, ih⟩

theorem Longest.newline_not_mem {k : TokenKind} {w rest : List Char} (h : Longest k w rest)
    (hk : k ≠ .newline) : '\n' ∉ w := by
  have hdigits : ∀ ds : List Char, (∀ x ∈ ds, x.isDigit = true) → '\n' ∉ ds :=
    fun ds hds hmem => absurd (hds _ hmem) (by decide)
  have hsign : ∀ s : List Char, s = [] ∨ s = ['-'] → '\n' ∉ s := by
    rintro s (rfl | rfl) <;> decide
  cases h with
  | word hs hw _ =>
    rintro (_ | ⟨_, hmem⟩)
    · exact absurd hs (by decide)
    · exact absurd (hw _ hmem) (by decide)
  | int hs _ hds _ _ =>
    simp only [List.mem_append, not_or]
    exact ⟨hsign _ hs, hdigits _ hds⟩
  | float hs _ hds _ hes _ =>
    simp only [List.mem_append, List.mem_cons, not_or]
    exact ⟨⟨hsign _ hs, hdigits _ hds⟩, by decide, hdigits _ hes⟩
  | doubleAtSign => decide
  | atSign _ => decide
  | newline => exact absurd rfl hk
  | punct hp =>
    rintro (_ | ⟨_, hmem⟩)
    · rw [show TokenKind.ofPunct? '\n' = none by decide] at hp
      cases hp
    · cases hmem
  | closedString hb =>
    intro hmem
    simp only [List.mem_append, List.mem_cons] at hmem
    rcases hmem with (h | h) | h
    · exact absurd h (by decide)
    · exact hb.newline_not_mem h
    · exact absurd h (by decide)
  | openString hb he _ =>
    intro hmem
    simp only [List.mem_append, List.mem_cons] at hmem
    rcases hmem with (h | h) | h
    · exact absurd h (by decide)
    · exact hb.newline_not_mem h
    · rcases he with rfl | rfl
      · cases h
      · exact absurd (List.mem_singleton.mp h) (by decide)
  | illegal hs =>
    rintro (_ | ⟨_, hmem⟩)
    · exact hs.newline rfl
    · cases hmem

theorem Tokenized.oneLine {cs : List Char} {ts : List Token} (h : Tokenized cs ts) :
    ∀ t ∈ ts, t.kind ≠ .newline → OneLine t.source := by
  induction h with
  | eof =>
    intro t ht _
    rw [List.mem_singleton.mp ht]
    show OneLine ""
    decide
  | token _ hl _ ih =>
    intro u hu hk
    rcases List.mem_cons.mp hu with rfl | hu
    · exact hl.newline_not_mem hk
    · exact ih u hu hk

end Scan

theorem Token.oneLine_text {t : Token} (h : OneLine t.source) : OneLine t.text := by
  unfold Token.source at h
  split at h
  · exact ((oneLine_append.mp h).1 |> oneLine_append.mp).2
  · exact h

theorem Token.scan_oneLine (s : String) : ∀ t ∈ Token.scan s, t.kind ≠ .newline → OneLine t.text :=
  fun t ht hk => Token.oneLine_text ((Token.scan_tokenized s).oneLine t ht hk)

theorem TokenKind.oneLine_describe (k : TokenKind) : OneLine k.describe := by
  cases k <;> decide

theorem Token.oneLine_describe {t : Token} (h : OneLine t.text) : OneLine t.describe := by
  unfold Token.describe
  split
  · exact TokenKind.oneLine_describe _
  · exact TokenKind.oneLine_describe _
  · simp +decide [h]
  · simp +decide [h]

namespace Cursor

theorem ofText_oneLine (s : String) : ∀ t ∈ (ofText s).ahead, OneLine t.text := by
  intro t ht
  rw [ofText_ahead, List.mem_filter] at ht
  refine Token.scan_oneLine s t ?_ (by simpa using ht.2)
  exact List.mem_append_left _ ht.1

theorem Reach.forall_ahead {c c' : Cursor} {Q : Token → Prop} (h : c.Reach c')
    (hq : ∀ t ∈ c.ahead, Q t) : ∀ t ∈ c'.ahead, Q t := by
  obtain ⟨n, hn⟩ := h.ahead_drop
  rw [hn]
  exact fun t ht => hq t (List.mem_of_mem_drop ht)

theorem oneLine_current {c : Cursor} (h : ∀ t ∈ c.ahead, OneLine t.text) :
    OneLine c.current.text := by
  cases ha : c.ahead with
  | nil =>
    show OneLine (c.ahead.headD (Token.eofAt c.endPos)).text
    rw [ha]
    show OneLine ""
    decide
  | cons t r =>
    rw [Parser.current_of_ahead ha]
    exact h t (by rw [ha]; exact List.mem_cons_self)

theorem Sees.oneLine {c : Cursor} {ts : List (TokenKind × String)} (hs : c.Sees ts)
    (h : ∀ t ∈ c.ahead, OneLine t.text) : ∀ p ∈ ts, OneLine p.2 := by
  induction ts generalizing c with
  | nil => simp
  | cons p ts ih =>
    obtain ⟨hv, hs⟩ := hs
    cases ha : c.ahead with
    | nil => rw [ha] at hv; cases hv
    | cons t r =>
      rw [ha] at hv h
      simp only [List.head?_cons, Option.map_some, Option.some.injEq] at hv
      refine List.forall_mem_cons.mpr ⟨?_, ih hs ?_⟩
      · rw [← hv]
        exact h t List.mem_cons_self
      · rw [advance_ahead, ha]
        exact fun u hu => h u (List.mem_cons_of_mem _ hu)

end Cursor

/-! ## Schemas whose texts lie on one line -/

/-- The name, the type and the attributes of the field, as written, lie on one line. -/
structure Field.TextsOneLine (f : Field) : Prop where
  name : OneLine f.name
  type : OneLine f.type.display
  attributes : ∀ a ∈ f.attributes, OneLine a.display

/-- The name of the block and everything in its body, as written, lie on one line. -/
def Block.TextsOneLine : Block → Prop
  | .datasource d => OneLine d.name ∧ ∀ e ∈ d.entries, OneLine e.name ∧ OneLine e.value.display
  | .generator g => OneLine g.name ∧ ∀ e ∈ g.entries, OneLine e.name ∧ OneLine e.value.display
  | .model m => OneLine m.name ∧ (∀ f ∈ m.fields, f.TextsOneLine) ∧
      ∀ a ∈ m.attributes, OneLine a.display
  | .enum e => OneLine e.name ∧
      (∀ v ∈ e.values, OneLine v.name ∧ ∀ a ∈ v.attributes, OneLine a.display) ∧
      ∀ a ∈ e.attributes, OneLine a.display
  | .type t => OneLine t.name ∧ (∀ f ∈ t.fields, f.TextsOneLine) ∧
      ∀ a ∈ t.attributes, OneLine a.display

/-- Every block of the schema has the property `P`. -/
structure Schema.Blockwise (P : Block → Prop) (s : Schema) : Prop where
  datasources : ∀ d ∈ s.datasources, P (.datasource d)
  generators : ∀ g ∈ s.generators, P (.generator g)
  models : ∀ m ∈ s.models, P (.model m)
  enums : ∀ e ∈ s.enums, P (.enum e)
  types : ∀ t ∈ s.types, P (.type t)

namespace Schema.Blockwise

variable {P : Block → Prop}

theorem empty : Schema.Blockwise P {} :=
  ⟨by simp, by simp, by simp, by simp, by simp⟩

theorem push {s : Schema} {b : Block} (hs : s.Blockwise P) (hb : P b) : (s.push b).Blockwise P := by
  obtain ⟨hd, hg, hm, he, ht⟩ := hs
  cases b with
  | datasource d => exact ⟨List.forall_mem_append.mpr ⟨hd, by simpa using hb⟩, hg, hm, he, ht⟩
  | generator g => exact ⟨hd, List.forall_mem_append.mpr ⟨hg, by simpa using hb⟩, hm, he, ht⟩
  | model m => exact ⟨hd, hg, List.forall_mem_append.mpr ⟨hm, by simpa using hb⟩, he, ht⟩
  | enum e => exact ⟨hd, hg, hm, List.forall_mem_append.mpr ⟨he, by simpa using hb⟩, ht⟩
  | type t => exact ⟨hd, hg, hm, he, List.forall_mem_append.mpr ⟨ht, by simpa using hb⟩⟩

end Schema.Blockwise

/-! ## Each production builds its texts from the texts of its tokens -/

namespace Grammar

variable {strict : Bool}

theorem oneLine_items {vs : List Value} (h : ∀ v ∈ vs, OneLine v.display) :
    OneLine (Value.displayItems vs) := by
  rw [Value.displayItems_eq_intercalate]
  exact oneLine_intercalate (by decide) fun x hx => by
    obtain ⟨v, hv, rfl⟩ := List.mem_map.mp hx
    exact h v hv

mutual

theorem IsValue.oneLine {d : Nat} {next : TokenKind} {ts : List (TokenKind × String)}
    {v : Value} : IsValue strict d next ts v → (∀ p ∈ ts, OneLine p.2) → OneLine v.display
  | .str x, hw => by
    have hx : OneLine x := hw (.string, x) List.mem_cons_self
    simp +decide [Value.display, hx]
  | .int x, hw => hw (.int, x) List.mem_cons_self
  | .float x, hw => hw (.float, x) List.mem_cons_self
  | .bool x, _ => by cases x == "true" <;> decide
  | .ident _ _, hw => hw _ List.mem_cons_self
  | .list _ hi, hw => by
    have hitems := oneLine_items (IsItems.oneLine hi fun p hp => hw p (List.mem_cons_of_mem _ hp))
    simp +decide [Value.display, hitems]
  | .call _ _ hi, hw => by
    have hname := hw _ List.mem_cons_self
    have hitems := oneLine_items (IsItems.oneLine hi fun p hp =>
      hw p (List.mem_cons_of_mem _ (List.mem_cons_of_mem _ hp)))
    simp +decide [Value.display, hname, hitems]

theorem IsItems.oneLine {close : TokenKind} {d : Nat} {ts : List (TokenKind × String)}
    {vs : List Value} : IsItems strict close d ts vs → (∀ p ∈ ts, OneLine p.2) →
      ∀ v ∈ vs, OneLine v.display
  | .close, _ => by simp
  | .value hv hi, hw => by
    simp only [List.forall_mem_append] at hw
    exact List.forall_mem_cons.mpr ⟨IsValue.oneLine hv hw.1.1, IsItems.oneLine hi hw.2⟩
  | .skip _ _ _ hi, hw => by
    simp only [List.cons_append, List.forall_mem_cons, List.forall_mem_append] at hw
    exact IsItems.oneLine hi hw.2.2

end

theorem IsSlot.oneLine {next : TokenKind} {ts : List (TokenKind × String)} {o : Option Value}
    (h : IsSlot strict next ts o) (hw : ∀ p ∈ ts, OneLine p.2) : ∀ v ∈ o, OneLine v.display := by
  cases h with
  | value hv =>
    intro v hmem
    cases hmem
    exact hv.oneLine hw
  | skip => simp

theorem IsArgument.oneLine {next : TokenKind} {ts : List (TokenKind × String)}
    {oa : Option Argument} (h : IsArgument strict next ts oa) (hw : ∀ p ∈ ts, OneLine p.2) :
    ∀ a ∈ oa, OneLine a.display := by
  cases h with
  | named _ _ hs =>
    intro a ha
    obtain ⟨v, hv, rfl⟩ := Option.map_eq_some_iff.mp ha
    simp only [List.forall_mem_cons] at hw
    have hvalue := hs.oneLine hw.2.2 v hv
    simp +decide [Argument.display, hw.1, hvalue]
  | positional hv _ =>
    intro a ha
    cases ha
    exact hv.oneLine hw
  | skip => simp

theorem IsArguments.oneLine {ts : List (TokenKind × String)} {as : List Argument}
    (h : IsArguments strict ts as) (hw : ∀ p ∈ ts, OneLine p.2) :
    ∀ a ∈ as, OneLine a.display := by
  induction h with
  | close => simp
  | cons ha _ ih =>
    simp only [List.forall_mem_append] at hw
    intro a hmem
    rcases List.mem_append.mp hmem with hmem | hmem
    · exact ha.oneLine hw.1.1 a (Option.mem_toList.mp hmem)
    · exact ih hw.2 a hmem

theorem IsDotted.oneLine {ts : List (TokenKind × String)} {ps : List String} (h : IsDotted ts ps)
    (hw : ∀ p ∈ ts, OneLine p.2) : ∀ p ∈ ps, OneLine p := by
  induction h with
  | one _ => simpa using hw
  | dot _ _ ih =>
    simp only [List.forall_mem_cons] at hw ⊢
    exact ⟨hw.1, ih hw.2.2⟩

theorem IsAttribute.oneLine {ts : List (TokenKind × String)} {a : Attribute}
    (h : IsAttribute strict ts a) (hw : ∀ p ∈ ts, OneLine p.2) : OneLine a.display := by
  cases h with
  | plain hd =>
    have hname := oneLine_intercalate (show OneLine "." by decide) (hd.oneLine hw)
    simp +decide [Attribute.display, hname]
  | args hd ha =>
    simp only [List.forall_mem_append, List.forall_mem_cons] at hw
    have hname := oneLine_intercalate (show OneLine "." by decide) (hd.oneLine hw.1)
    have hargs := oneLine_intercalate (show OneLine ", " by decide) fun x hx => by
      obtain ⟨arg, harg, rfl⟩ := List.mem_map.mp hx
      exact ha.oneLine hw.2.2 arg harg
    unfold Attribute.display
    simp only [oneLine_append]
    refine ⟨⟨by decide, hname⟩, ?_⟩
    split
    · decide
    · simp +decide [hargs]

theorem IsMarked.oneLine {ts : List (TokenKind × String)} {as : List Attribute}
    (h : IsMarked strict ts as) (hw : ∀ p ∈ ts, OneLine p.2) : ∀ a ∈ as, OneLine a.display := by
  induction h with
  | nil => simp
  | cons ha _ ih =>
    simp only [List.cons_append, List.forall_mem_cons, List.forall_mem_append] at hw
    exact List.forall_mem_cons.mpr ⟨ha.oneLine hw.2.1, ih hw.2.2⟩

theorem IsFieldType.oneLine {ts : List (TokenKind × String)} {t : FieldType} (h : IsFieldType ts t)
    (hw : ∀ p ∈ ts, OneLine p.2) : OneLine t.display := by
  obtain ⟨hn, -, -⟩ := h
  simp only [List.forall_mem_append] at hw
  unfold FieldType.display
  simp only [oneLine_append]
  refine ⟨⟨?_, ?_⟩, ?_⟩
  · cases hn with
    | named _ => exact hw.1.1 _ List.mem_cons_self
    | unsupported =>
      simp only [List.forall_mem_cons] at hw
      simp +decide [hw.1.1.2.2.1]
  all_goals split <;> decide

theorem IsField.textsOneLine {ts : List (TokenKind × String)} {f : Field} (h : IsField strict ts f)
    (hw : ∀ p ∈ ts, OneLine p.2) : f.TextsOneLine := by
  obtain ⟨_, ht, hm⟩ := h
  simp only [List.cons_append, List.forall_mem_cons, List.forall_mem_append] at hw
  exact ⟨hw.1, ht.oneLine hw.2.1, hm.oneLine hw.2.2⟩

theorem IsMembers.textsOneLine {ts : List (TokenKind × String)} {fs : List Field}
    {as : List Attribute} (h : IsMembers strict ts fs as) (hw : ∀ p ∈ ts, OneLine p.2) :
    (∀ f ∈ fs, f.TextsOneLine) ∧ ∀ a ∈ as, OneLine a.display := by
  induction h with
  | close => simp
  | field hf _ ih =>
    simp only [List.forall_mem_append] at hw
    obtain ⟨hfs, has⟩ := ih hw.2
    exact ⟨List.forall_mem_cons.mpr ⟨hf.textsOneLine hw.1, hfs⟩, has⟩
  | attr ha _ ih =>
    simp only [List.cons_append, List.forall_mem_cons, List.forall_mem_append] at hw
    obtain ⟨hfs, has⟩ := ih hw.2.2
    exact ⟨hfs, List.forall_mem_cons.mpr ⟨ha.oneLine hw.2.1, has⟩⟩

theorem IsEnumMembers.textsOneLine {ts : List (TokenKind × String)} {vs : List EnumValue}
    {as : List Attribute} (h : IsEnumMembers strict ts vs as) (hw : ∀ p ∈ ts, OneLine p.2) :
    (∀ v ∈ vs, OneLine v.name ∧ ∀ a ∈ v.attributes, OneLine a.display) ∧
      ∀ a ∈ as, OneLine a.display := by
  induction h with
  | close => simp
  | value _ hm _ ih =>
    simp only [List.cons_append, List.forall_mem_cons, List.forall_mem_append] at hw
    obtain ⟨hvs, has⟩ := ih hw.2.2
    exact ⟨List.forall_mem_cons.mpr ⟨⟨hw.1, hm.oneLine hw.2.1⟩, hvs⟩, has⟩
  | attr ha _ ih =>
    simp only [List.cons_append, List.forall_mem_cons, List.forall_mem_append] at hw
    obtain ⟨hvs, has⟩ := ih hw.2.2
    exact ⟨hvs, List.forall_mem_cons.mpr ⟨ha.oneLine hw.2.1, has⟩⟩

theorem IsEntries.textsOneLine {ts : List (TokenKind × String)} {es : List ConfigEntry}
    (h : IsEntries strict ts es) (hw : ∀ p ∈ ts, OneLine p.2) :
    ∀ e ∈ es, OneLine e.name ∧ OneLine e.value.display := by
  induction h with
  | close => simp
  | entry _ hs _ ih =>
    simp only [List.cons_append, List.forall_mem_cons, List.forall_mem_append] at hw
    intro e hmem
    rcases List.mem_append.mp hmem with hmem | hmem
    · obtain ⟨v, hv, rfl⟩ := Option.map_eq_some_iff.mp (Option.mem_toList.mp hmem)
      exact ⟨hw.1, hs.oneLine hw.2.2.1 v hv⟩
    · exact ih hw.2.2.2 e hmem

theorem IsBlock.textsOneLine {ts : List (TokenKind × String)} {b : Block} (h : IsBlock strict ts b)
    (hw : ∀ p ∈ ts, OneLine p.2) : b.TextsOneLine := by
  cases h with
  | datasource he =>
    simp only [List.forall_mem_cons] at hw
    exact ⟨hw.2.1, he.textsOneLine hw.2.2.2⟩
  | generator he =>
    simp only [List.forall_mem_cons] at hw
    exact ⟨hw.2.1, he.textsOneLine hw.2.2.2⟩
  | model hm =>
    simp only [List.forall_mem_cons] at hw
    exact ⟨hw.2.1, hm.textsOneLine hw.2.2.2⟩
  | type hm =>
    simp only [List.forall_mem_cons] at hw
    exact ⟨hw.2.1, hm.textsOneLine hw.2.2.2⟩
  | enum hm =>
    simp only [List.forall_mem_cons] at hw
    exact ⟨hw.2.1, hm.textsOneLine hw.2.2.2⟩

end Grammar

/-! ## Every block the parser keeps -/

namespace Parser

open Cursor Grammar

theorem blocks_blockwise {P : Block → Prop} {Q : Token → Prop}
    (hP : ∀ {c : Cursor} {ts : List (TokenKind × String)} {b : Block}, c.Sees ts →
      (∀ t ∈ c.ahead, Q t) → IsBlock true ts b → P b)
    {s : Schema} {errs : List SyntaxError} {c : Cursor} (hs : s.Blockwise P) (hne : c.NoEof)
    (hq : ∀ t ∈ c.ahead, Q t) : (blocks s errs c).1.Blockwise P := by
  fun_induction blocks s errs c with
  | case1 => exact hs
  | case2 s errs c heof hill c₁ hlt ih =>
    exact ih hs (hne.reach (Reach.advance c)) ((Reach.advance c).forall_ahead hq)
  | case3 => exact hs
  | case4 s errs c heof hill hkw b c₁ hblk hlt ih =>
    obtain ⟨tb, hsb, hib⟩ := spans_block hne hkw hblk
    exact ih (hs.push (hP hsb.1 hq hib)) (hne.reach hsb.reach) (hsb.reach.forall_ahead hq)
  | case5 s errs c heof hill hkw b c₁ hblk hlt =>
    obtain ⟨tb, hsb, hib⟩ := spans_block hne hkw hblk
    exact hs.push (hP hsb.1 hq hib)
  | case6 s errs c base heof hill hkw e c₁ hblk c₂ hlt ih =>
    have hr : c.Reach c₂ := (forward_of_error forward_block hblk).trans (reach_recover _ _)
    exact ih hs (hne.reach hr) (hr.forall_ahead hq)
  | case7 => exact hs
  | case8 s errs c heof hill hkw c₁ hlt ih =>
    exact ih hs (hne.reach (Reach.advance c)) ((Reach.advance c).forall_ahead hq)
  | case9 => exact hs

end Parser

theorem Schema.parseSyntax_textsOneLine (src : String) :
    (parseSyntax src).1.Blockwise Block.TextsOneLine :=
  Parser.blocks_blockwise (fun hs hq hb => hb.textsOneLine (hs.oneLine hq)) .empty
    (Cursor.ofText_noEof src) (Cursor.ofText_oneLine src)

end DbSchema
