import DbSchema.Proofs.GrammarSound
import DbSchema.Parsed

/-! # The parser only reads names that the validator takes for granted

The validator reports a field with an empty type name (`Issue.emptyTypeName`) and an enum without
a name (`Issue.missingName`). Neither comes out of a text: every name the parser reads is the text
of a name token, which the lexer only makes of a word, so it is not empty and holds no dot. A
schema read from any text, whatever its syntax errors, has names in every block, entry, field,
enum value and dotted part of an attribute name, and its field types are `Unsupported` exactly
when they carry a raw description (`Schema.SafeNames`).

The argument follows the parse. A block the parser keeps is a block of the grammar over tokens
the lexer made (`Parser.spans_block`); each production gives names only from name tokens, so one
lemma per production carries `Grammar.NamesAreWords` from its tokens to what it reads
(`Grammar.IsBlock.safeNames`), and the loop over blocks keeps the schema safe
(`Parser.blocks_safeNames`).

The two problems are then absent from the messages too: the messages of both end in the word
`name`, and no syntax error or other problem validation reports does (`Issue.endsInName_iff`).
-/

namespace DbSchema

set_option autoImplicit false

/-! ## Names the validator takes for granted -/

/-- Every part of the attribute's name between dots is a name. -/
def Attribute.SegmentsNamed (a : Attribute) : Prop :=
  ∀ seg ∈ a.name.toList.splitOn '.', seg ≠ []

/-- A field type says in three ways that it is unsupported, and they agree. -/
def FieldType.Coherent (t : FieldType) : Prop :=
  (t.isUnsupported = true ↔ t.name = "Unsupported") ∧
    (t.name = "Unsupported" ↔ t.unsupportedValue?.isSome = true)

/-- A field with a name, a named coherent type, and attributes whose parts are named. -/
structure Field.SafeNames (f : Field) : Prop where
  name_ne : f.name ≠ ""
  type_name_ne : f.type.name ≠ ""
  type_coherent : f.type.Coherent
  attributes : ∀ a ∈ f.attributes, a.SegmentsNamed

/-- A block whose name and member names are not empty, whose fields are safe and whose attribute
names have named parts. -/
def Block.SafeNames : Block → Prop
  | .datasource d => d.name ≠ "" ∧ ∀ e ∈ d.entries, e.name ≠ ""
  | .generator g => g.name ≠ "" ∧ ∀ e ∈ g.entries, e.name ≠ ""
  | .model m => m.name ≠ "" ∧ (∀ f ∈ m.fields, f.SafeNames) ∧ ∀ a ∈ m.attributes, a.SegmentsNamed
  | .enum e => e.name ≠ "" ∧ (∀ v ∈ e.values, v.name ≠ "" ∧ ∀ a ∈ v.attributes, a.SegmentsNamed) ∧
      ∀ a ∈ e.attributes, a.SegmentsNamed
  | .type t => t.name ≠ "" ∧ (∀ f ∈ t.fields, f.SafeNames) ∧ ∀ a ∈ t.attributes, a.SegmentsNamed

/-- Every block of the schema has safe names. -/
structure Schema.SafeNames (s : Schema) : Prop where
  datasources : ∀ d ∈ s.datasources, (Block.datasource d).SafeNames
  generators : ∀ g ∈ s.generators, (Block.generator g).SafeNames
  models : ∀ m ∈ s.models, (Block.model m).SafeNames
  enums : ∀ e ∈ s.enums, (Block.enum e).SafeNames
  types : ∀ t ∈ s.types, (Block.type t).SafeNames

theorem Schema.SafeNames.empty : Schema.SafeNames {} :=
  ⟨by simp, by simp, by simp, by simp, by simp⟩

theorem Schema.SafeNames.push {s : Schema} {b : Block} (hs : s.SafeNames) (hb : b.SafeNames) :
    (s.push b).SafeNames := by
  obtain ⟨hd, hg, hm, he, ht⟩ := hs
  have hlast : ∀ {α : Type} {P : α → Prop} {l : List α} {a : α}, (∀ x ∈ l, P x) → P a →
      ∀ x ∈ l ++ [a], P x :=
    fun hl ha => List.forall_mem_append.mpr ⟨hl, List.forall_mem_singleton.mpr ha⟩
  cases b with
  | datasource d => exact ⟨hlast hd hb, hg, hm, he, ht⟩
  | generator g => exact ⟨hd, hlast hg hb, hm, he, ht⟩
  | model m => exact ⟨hd, hg, hlast hm hb, he, ht⟩
  | enum e => exact ⟨hd, hg, hm, hlast he hb, ht⟩
  | type t => exact ⟨hd, hg, hm, he, hlast ht hb⟩

/-! ## Words -/

namespace Scan

theorem ne_nil_of_isWord {w : List Char} (h : isWord w = true) : w ≠ [] := by
  rintro rfl
  cases h

theorem ne_empty_of_isWord {x : String} (h : isWord x.toList = true) : x ≠ "" :=
  fun he => ne_nil_of_isWord h (by simp [he])

theorem dot_not_mem_of_isWord {w : List Char} (h : isWord w = true) : '.' ∉ w := by
  obtain _ | ⟨c, r⟩ := w
  · cases h
  · simp only [isWord, Bool.and_eq_true, List.all_eq_true] at h
    rintro (_ | ⟨_, hr⟩)
    · exact absurd h.1 (by decide)
    · exact absurd (h.2 _ hr) (by decide)

end Scan

theorem String.splitOn_toList_intercalate {sep : String} {c : Char} (hsep : sep.toList = [c])
    {ps : List String} (hne : ps ≠ []) (h : ∀ p ∈ ps, c ∉ p.toList) :
    (sep.intercalate ps).toList.splitOn c = ps.map String.toList := by
  rw [String.toList_intercalate, hsep]
  refine List.splitOn_intercalate c ?_ (by simpa using hne)
  intro l hl
  obtain ⟨p, hp, rfl⟩ := List.mem_map.mp hl
  exact h p hp

theorem Attribute.segmentsNamed_of_words {ps : List String} (hne : ps ≠ [])
    (hw : ∀ p ∈ ps, Scan.isWord p.toList = true) (args : List Argument) :
    Attribute.SegmentsNamed ⟨".".intercalate ps, args⟩ := by
  intro seg hseg
  have hsplit : (".".intercalate ps).toList.splitOn '.' = ps.map String.toList :=
    String.splitOn_toList_intercalate rfl hne fun p hp => Scan.dot_not_mem_of_isWord (hw p hp)
  rw [hsplit] at hseg
  obtain ⟨p, hp, rfl⟩ := List.mem_map.mp hseg
  exact Scan.ne_nil_of_isWord (hw p hp)

/-! ## Each production reads names from name tokens -/

namespace Grammar

variable {strict : Bool}

/-- Every name token among the tokens is a word, as the lexer makes it. -/
def NamesAreWords (ts : List (TokenKind × String)) : Prop :=
  ∀ p ∈ ts, p.1.isName = true → Scan.isWord p.2.toList = true

namespace NamesAreWords

variable {ts us : List (TokenKind × String)}

theorem append_left (h : NamesAreWords (ts ++ us)) : NamesAreWords ts :=
  fun p hp => h p (List.mem_append_left _ hp)

theorem append_right (h : NamesAreWords (ts ++ us)) : NamesAreWords us :=
  fun p hp => h p (List.mem_append_right _ hp)

theorem tail {p : TokenKind × String} (h : NamesAreWords (p :: ts)) : NamesAreWords ts :=
  fun q hq => h q (List.mem_cons_of_mem _ hq)

theorem head {k : TokenKind} {x : String} (h : NamesAreWords ((k, x) :: ts)) (hk : k.isName = true) :
    Scan.isWord x.toList = true :=
  h (k, x) List.mem_cons_self hk

end NamesAreWords

theorem IsDotted.words {ts : List (TokenKind × String)} {ps : List String} (h : IsDotted ts ps)
    (hw : NamesAreWords ts) : ps ≠ [] ∧ ∀ p ∈ ps, Scan.isWord p.toList = true := by
  induction h with
  | one hk => exact ⟨List.cons_ne_nil _ _, by simpa using hw.head hk⟩
  | dot hk _ ih =>
    exact ⟨List.cons_ne_nil _ _, List.forall_mem_cons.mpr ⟨hw.head hk, (ih hw.tail.tail).2⟩⟩

theorem IsAttribute.segmentsNamed {ts : List (TokenKind × String)} {a : Attribute}
    (h : IsAttribute strict ts a) (hw : NamesAreWords ts) : a.SegmentsNamed := by
  cases h with
  | plain hd =>
    obtain ⟨hne, hps⟩ := hd.words hw
    exact Attribute.segmentsNamed_of_words hne hps []
  | args hd _ =>
    obtain ⟨hne, hps⟩ := hd.words hw.append_left
    exact Attribute.segmentsNamed_of_words hne hps _

theorem IsMarked.segmentsNamed {ts : List (TokenKind × String)} {as : List Attribute}
    (h : IsMarked strict ts as) (hw : NamesAreWords ts) : ∀ a ∈ as, a.SegmentsNamed := by
  induction h with
  | nil => simp
  | cons ha _ ih =>
    rw [List.cons_append] at hw
    exact List.forall_mem_cons.mpr ⟨ha.segmentsNamed hw.tail.append_left, ih hw.tail.append_right⟩

theorem IsFieldType.safe {ts : List (TokenKind × String)} {t : FieldType} (h : IsFieldType ts t)
    (hw : NamesAreWords ts) : t.name ≠ "" ∧ t.Coherent := by
  obtain ⟨hn, -, -⟩ := h
  cases hn with
  | named hx =>
    have hword := hw.append_left.append_left.head rfl
    refine ⟨Scan.ne_empty_of_isWord hword, ?_⟩
    simp [FieldType.Coherent, FieldType.isUnsupported, FieldType.name,
      FieldType.unsupportedValue?, hx]
  | unsupported =>
    simp [FieldType.Coherent, FieldType.isUnsupported, FieldType.name, FieldType.unsupportedValue?]

theorem IsField.safeNames {ts : List (TokenKind × String)} {f : Field} (h : IsField strict ts f)
    (hw : NamesAreWords ts) : f.SafeNames := by
  obtain ⟨hk, ht, hm⟩ := h
  rw [List.cons_append] at hw
  obtain ⟨hne, hcoh⟩ := ht.safe hw.tail.append_left
  exact ⟨Scan.ne_empty_of_isWord (hw.head hk), hne, hcoh,
    hm.segmentsNamed hw.tail.append_right⟩

theorem IsMembers.safeNames {ts : List (TokenKind × String)} {fs : List Field} {as : List Attribute}
    (h : IsMembers strict ts fs as) (hw : NamesAreWords ts) :
    (∀ f ∈ fs, f.SafeNames) ∧ ∀ a ∈ as, a.SegmentsNamed := by
  induction h with
  | close => simp
  | field hf _ ih =>
    obtain ⟨hfs, has⟩ := ih hw.append_right
    exact ⟨List.forall_mem_cons.mpr ⟨hf.safeNames hw.append_left, hfs⟩, has⟩
  | attr ha _ ih =>
    rw [List.cons_append] at hw
    obtain ⟨hfs, has⟩ := ih hw.tail.append_right
    exact ⟨hfs, List.forall_mem_cons.mpr ⟨ha.segmentsNamed hw.tail.append_left, has⟩⟩

theorem IsEnumMembers.safeNames {ts : List (TokenKind × String)} {vs : List EnumValue}
    {as : List Attribute} (h : IsEnumMembers strict ts vs as) (hw : NamesAreWords ts) :
    (∀ v ∈ vs, v.name ≠ "" ∧ ∀ a ∈ v.attributes, a.SegmentsNamed) ∧ ∀ a ∈ as, a.SegmentsNamed := by
  induction h with
  | close => simp
  | value hk hm _ ih =>
    rw [List.cons_append] at hw
    obtain ⟨hvs, has⟩ := ih hw.tail.append_right
    exact ⟨List.forall_mem_cons.mpr
      ⟨⟨Scan.ne_empty_of_isWord (hw.head hk), hm.segmentsNamed hw.tail.append_left⟩, hvs⟩, has⟩
  | attr ha _ ih =>
    rw [List.cons_append] at hw
    obtain ⟨hvs, has⟩ := ih hw.tail.append_right
    exact ⟨hvs, List.forall_mem_cons.mpr ⟨ha.segmentsNamed hw.tail.append_left, has⟩⟩

theorem IsEntries.names_ne {ts : List (TokenKind × String)} {es : List ConfigEntry}
    (h : IsEntries strict ts es) (hw : NamesAreWords ts) : ∀ e ∈ es, e.name ≠ "" := by
  induction h with
  | close => simp
  | @entry k x y us rest o es hk _ _ ih =>
    intro e hmem
    rw [List.cons_append, List.cons_append] at hw
    rcases List.mem_append.mp hmem with hmem | hmem
    · cases o with
      | none => simp at hmem
      | some v =>
        simp only [Option.map_some, Option.toList_some, List.mem_singleton] at hmem
        subst hmem
        exact Scan.ne_empty_of_isWord (hw.head hk)
    · exact ih hw.tail.tail.append_right e hmem

theorem IsBlock.safeNames {ts : List (TokenKind × String)} {b : Block} (h : IsBlock strict ts b)
    (hw : NamesAreWords ts) : b.SafeNames := by
  have hname : ∀ {k : TokenKind} {kw n o : String} {us : List (TokenKind × String)},
      ts = (k, kw) :: (.ident, n) :: (.lBrace, o) :: us → n ≠ "" := by
    intro k kw n o us hts he
    subst hts
    exact Scan.ne_empty_of_isWord (hw.tail.head rfl) he
  cases h with
  | datasource he => exact ⟨hname rfl, he.names_ne hw.tail.tail.tail⟩
  | generator he => exact ⟨hname rfl, he.names_ne hw.tail.tail.tail⟩
  | model hm => exact ⟨hname rfl, hm.safeNames hw.tail.tail.tail⟩
  | type hm => exact ⟨hname rfl, hm.safeNames hw.tail.tail.tail⟩
  | enum hm => exact ⟨hname rfl, hm.safeNames hw.tail.tail.tail⟩

end Grammar

/-! ## Every block the parser keeps -/

theorem Token.Lexed.isWord {t : Token} (h : t.Lexed) (hk : t.kind.isName = true) :
    Scan.isWord t.text.toList = true := by
  unfold Token.Lexed at h
  cases hkind : t.kind <;> rw [hkind] at h hk <;> first | exact h.1 | cases hk

namespace Cursor

theorem Sees.namesAreWords {c : Cursor} {ts : List (TokenKind × String)} (hs : c.Sees ts)
    (hl : ∀ t ∈ c.ahead, t.Lexed) : Grammar.NamesAreWords ts := by
  induction ts generalizing c with
  | nil => simp [Grammar.NamesAreWords]
  | cons p ts ih =>
    obtain ⟨hv, hs⟩ := hs
    cases ha : c.ahead with
    | nil => rw [ha] at hv; cases hv
    | cons t r =>
      rw [ha] at hv hl
      simp only [List.head?_cons, Option.map_some, Option.some.injEq] at hv
      have hrest := ih hs (by rw [advance_ahead, ha]; exact fun u hu => hl u (List.mem_cons_of_mem _ hu))
      intro q hq hk
      rcases List.mem_cons.mp hq with rfl | hq
      · rw [← hv] at hk ⊢
        exact (hl t List.mem_cons_self).isWord hk
      · exact hrest q hq hk

theorem Reach.lexed {c c' : Cursor} (h : c.Reach c') (hl : ∀ t ∈ c.ahead, t.Lexed) :
    ∀ t ∈ c'.ahead, t.Lexed := by
  obtain ⟨n, hn⟩ := h.ahead_drop
  rw [hn]
  exact fun t ht => hl t (List.mem_of_mem_drop ht)

end Cursor

namespace Parser

open Cursor

theorem blocks_safeNames {s : Schema} {errs : List SyntaxError} {c : Cursor} (hs : s.SafeNames)
    (hne : c.NoEof) (hl : ∀ t ∈ c.ahead, t.Lexed) : (blocks s errs c).1.SafeNames := by
  fun_induction blocks s errs c with
  | case1 => exact hs
  | case2 s errs c heof hill c₁ hlt ih =>
    exact ih hs (hne.reach (Reach.advance c)) ((Reach.advance c).lexed hl)
  | case3 => exact hs
  | case4 s errs c heof hill hkw b c₁ hblk hlt ih =>
    obtain ⟨tb, hsb, hib⟩ := spans_block hne hkw hblk
    exact ih (hs.push (hib.safeNames (hsb.1.namesAreWords hl))) (hne.reach hsb.reach)
      (hsb.reach.lexed hl)
  | case5 s errs c heof hill hkw b c₁ hblk hlt =>
    obtain ⟨tb, hsb, hib⟩ := spans_block hne hkw hblk
    exact hs.push (hib.safeNames (hsb.1.namesAreWords hl))
  | case6 s errs c base heof hill hkw e c₁ hblk c₂ hlt ih =>
    have hr : c.Reach c₂ := (forward_of_error forward_block hblk).trans (reach_recover _ _)
    exact ih hs (hne.reach hr) (hr.lexed hl)
  | case7 => exact hs
  | case8 s errs c heof hill hkw c₁ hlt ih =>
    exact ih hs (hne.reach (Reach.advance c)) ((Reach.advance c).lexed hl)
  | case9 => exact hs

end Parser

theorem Schema.parseSyntax_safeNames_schema (src : String) : (parseSyntax src).1.SafeNames :=
  Parser.blocks_safeNames .empty (Cursor.ofText_noEof src) (Cursor.ofText_lexed src)

/-! ## Messages that end in the word `name` -/

/-- The message ends in the word `name`. -/
def EndsInName (m : String) : Prop :=
  " name".toList <:+ m.toList

theorem endsInName_append {m lit : String} (h : " name".toList <:+ lit.toList) :
    EndsInName (m ++ lit) :=
  h.trans (by rw [String.toList_append]; exact List.suffix_append _ _)

theorem not_endsInName_append {m lit : String} (h₁ : ¬ lit.toList <:+ " name".toList)
    (h₂ : ¬ " name".toList <:+ lit.toList) : ¬ EndsInName (m ++ lit) := by
  intro he
  have hs : lit.toList <:+ (m ++ lit).toList := by
    rw [String.toList_append]
    exact List.suffix_append _ _
  rcases List.suffix_or_suffix_of_suffix hs he with h | h
  · exact h₁ h
  · exact h₂ h

theorem not_endsInName_append_toString (m : String) (n : Nat) : ¬ EndsInName (m ++ toString n) := by
  rintro ⟨t, ht⟩
  have hd : (toString n).toList = Nat.toDigits 10 n := by simp [toString, Nat.repr]
  have hlast := congrArg List.getLast? ht
  rw [String.toList_append, hd, List.getLast?_append_of_ne_nil _ Nat.toDigits_ne_nil,
    List.getLast?_append_of_ne_nil _ (by decide)] at hlast
  have hmem : 'e' ∈ Nat.toDigits 10 n := List.mem_of_getLast? (by rw [← hlast]; rfl)
  exact absurd (Nat.isDigit_of_mem_toDigits (by decide) (by decide) hmem) (by decide)

theorem Issue.endsInName_emptyTypeName (o f : String) :
    EndsInName (Issue.emptyTypeName o f).message :=
  endsInName_append (by decide)

theorem Issue.endsInName_missingName (k : String) : EndsInName (Issue.missingName k).message :=
  endsInName_append (by decide)

theorem SyntaxError.not_endsInName (e : SyntaxError) : ¬ EndsInName e.message := by
  cases e with
  | expected what found p => exact not_endsInName_append_toString _ p.column
  | unexpected found p => exact not_endsInName_append_toString _ p.column

/-! ## No other problem ends in `name` -/

namespace Validation

open Issue

theorem datasourceIssues_not_endsInName (providers : List String) (d : Datasource) :
    ∀ i ∈ datasourceIssues providers d, ¬ EndsInName i.message := by
  unfold datasourceIssues
  split
  · exact List.forall_mem_singleton.mpr (not_endsInName_append (by decide) (by decide))
  · split
    · simp
    · exact List.forall_mem_singleton.mpr (not_endsInName_append (by decide) (by decide))
  · simp

theorem generatorIssues_not_endsInName (g : Generator) :
    ∀ i ∈ generatorIssues g, ¬ EndsInName i.message := by
  unfold generatorIssues
  split
  · exact List.forall_mem_singleton.mpr (not_endsInName_append (by decide) (by decide))
  · simp

theorem fieldAttributeIssues_not_endsInName (target : String) (a : Attribute) :
    ∀ i ∈ fieldAttributeIssues target a, ¬ EndsInName i.message := by
  unfold fieldAttributeIssues
  split
  · exact List.forall_mem_singleton.mpr (not_endsInName_append (by decide) (by decide))
  · split
    · exact List.forall_mem_singleton.mpr (not_endsInName_append (by decide) (by decide))
    · simp

theorem duplicateMember_not_endsInName (kind owner name : String) :
    ¬ EndsInName (duplicateMember kind owner name).message :=
  not_endsInName_append (by decide) (by decide)

theorem fieldIssues_not_endsInName (owner : String) {fields : List Field}
    (hf : ∀ f ∈ fields, f.type.name ≠ "") :
    ∀ i ∈ fieldIssues owner fields, ¬ EndsInName i.message := by
  intro i hi
  rcases List.mem_append.mp hi with hi | hi
  · obtain ⟨n, -, rfl⟩ := List.mem_map.mp hi
    exact duplicateMember_not_endsInName _ _ _
  · obtain ⟨f, hmem, hi⟩ := List.mem_flatMap.mp hi
    rcases List.mem_append.mp hi with hi | hi
    · have hne : f.type.name.isEmpty = false := by simpa using hf f hmem
      simp [hne] at hi
    · obtain ⟨a, -, ha⟩ := List.mem_flatMap.mp hi
      exact fieldAttributeIssues_not_endsInName _ a i ha

theorem blockAttributeIssues_not_endsInName (owner : String) (a : Attribute) :
    ∀ i ∈ blockAttributeIssues owner a, ¬ EndsInName i.message := by
  unfold blockAttributeIssues
  split
  · exact List.forall_mem_singleton.mpr (not_endsInName_append (by decide) (by decide))
  · simp

theorem enumIssues_not_endsInName {e : Enum} (hn : e.name ≠ "") :
    ∀ i ∈ enumIssues e, ¬ EndsInName i.message := by
  have hne : e.name.isEmpty = false := by simpa using hn
  intro i hi
  simp only [enumIssues, hne, List.mem_append, List.mem_map] at hi
  rcases hi with (hi | hi) | ⟨n, -, rfl⟩
  · simp at hi
  · split at hi
    · rw [List.mem_singleton.mp hi]
      exact not_endsInName_append (by decide) (by decide)
    · simp at hi
  · exact duplicateMember_not_endsInName _ _ _

theorem relationIssues_not_endsInName (s : Schema) (m : Model) (f : Field) :
    ∀ i ∈ relationIssues s m f, ¬ EndsInName i.message := by
  unfold relationIssues
  split
  · simp
  · refine List.forall_mem_append.mpr ⟨?_, ?_⟩
    · split
      · exact List.forall_mem_singleton.mpr (not_endsInName_append (by decide) (by decide))
      · simp
    · split
      · split
        · exact List.forall_mem_singleton.mpr (not_endsInName_append (by decide) (by decide))
        · simp
      · simp

end Validation

open Validation in
theorem Schema.diagnose_not_endsInName (providers : List String) {s : Schema}
    (hs : s.SafeNames) : ∀ i ∈ s.diagnose providers, ¬ EndsInName i.message := by
  intro i hi
  simp only [diagnose, List.mem_append, List.mem_flatMap, List.mem_map] at hi
  rcases hi with ((((((⟨d, -, hi⟩ | ⟨g, -, hi⟩) | ⟨n, -, rfl⟩) | ⟨m, hm, hi⟩) | ⟨n, -, rfl⟩) |
    ⟨t, ht, hi⟩) | ⟨e, he, hi⟩) | ⟨m, -, f, -, hi⟩
  · exact datasourceIssues_not_endsInName providers d i hi
  · exact generatorIssues_not_endsInName g i hi
  · exact not_endsInName_append (by decide) (by decide)
  · obtain ⟨-, hfs, -⟩ := hs.models m hm
    rcases List.mem_append.mp hi with hi | hi
    · exact fieldIssues_not_endsInName m.name (fun f hf => (hfs f hf).type_name_ne) i hi
    · obtain ⟨a, -, ha⟩ := List.mem_flatMap.mp hi
      exact blockAttributeIssues_not_endsInName m.name a i ha
  · exact not_endsInName_append (by decide) (by decide)
  · obtain ⟨-, hfs, -⟩ := hs.types t ht
    exact fieldIssues_not_endsInName t.name (fun f hf => (hfs f hf).type_name_ne) i hi
  · exact enumIssues_not_endsInName (hs.enums e he).1 i hi
  · exact relationIssues_not_endsInName s m f i hi

theorem Schema.parseWith_errors (providers : List String) (src : String) :
    (parseWith providers src).errors = (parseSyntax src).2.map SyntaxError.message ++
      ((parseSyntax src).1.diagnose providers).map Issue.message := by
  unfold parseWith
  rcases parseSyntax src with ⟨s, errs⟩
  rfl

/-- A schema read from any text has names in every block, entry, field, enum value and dotted
part of an attribute name, and coherent field types; so with any providers, no message of
reading and validating the text is the message of an empty type name or of a missing name. -/
theorem Schema.parseSyntax_names_safe (src : String) :
    (parseSyntax src).1.SafeNames ∧
      ∀ providers, (∀ o f, (Issue.emptyTypeName o f).message ∉ (parseWith providers src).errors) ∧
        ∀ k, (Issue.missingName k).message ∉ (parseWith providers src).errors := by
  have hsafe := parseSyntax_safeNames_schema src
  refine ⟨hsafe, fun providers => ?_⟩
  have hno : ∀ m ∈ (parseWith providers src).errors, ¬ EndsInName m := by
    intro m hm
    rw [parseWith_errors, List.mem_append, List.mem_map, List.mem_map] at hm
    rcases hm with ⟨e, -, rfl⟩ | ⟨i, hi, rfl⟩
    · exact e.not_endsInName
    · exact diagnose_not_endsInName providers hsafe i hi
  exact ⟨fun o f hm => hno _ hm (Issue.endsInName_emptyTypeName o f),
    fun k hm => hno _ hm (Issue.endsInName_missingName k)⟩

end DbSchema
