import DbSchema.Proofs.ReadBack

/-! # What the grammar reads, printed, reads back

Every token of a text is as the lexer writes tokens of its kind (`Cursor.ofText_lexed`), so
every value, attribute and field type the grammar reads from a text is in the forms the printers'
read-back needs (`Value.Readable` and the like). Printed and read again it comes back whole,
the printed text read to its end, provided no string literal in it ends in a backslash that no
escape pairs: the printers write string bodies as they are, and such a backslash would escape
the closing quote.

* `Parser.readable_valueAt`, `Parser.readable_attr`, `Parser.readable_fieldType`: what the
  grammar reads from lexed tokens is readable.
* `Value.display_reads_back` and the like: a readable piece, printed, reads back.
* `Syntax.display_read_roundtrip`: the three together, for pieces read anywhere in any text.
-/

namespace DbSchema

set_option autoImplicit false

open Scan

/-! ## Tokens as the lexer writes them -/

namespace Token

variable {t : Token}

theorem Lexed.string (h : t.Lexed) (hk : t.kind = .string) :
    ∃ r, (stringBody r).1 = t.text.toList := by
  unfold Token.Lexed at h
  rw [hk] at h
  exact h

theorem Lexed.int (h : t.Lexed) (hk : t.kind = .int) : isIntLit t.text.toList = true := by
  unfold Token.Lexed at h
  rw [hk] at h
  exact h

theorem Lexed.float (h : t.Lexed) (hk : t.kind = .float) : isFloatLit t.text.toList = true := by
  unfold Token.Lexed at h
  rw [hk] at h
  exact h

theorem Lexed.ident (h : t.Lexed) (hk : t.kind = .ident) :
    isWord t.text.toList = true ∧ TokenKind.ofWord t.text = .ident := by
  unfold Token.Lexed at h
  rw [hk] at h
  exact ⟨h.1, h.2⟩

theorem Lexed.name (h : t.Lexed) (hk : t.kind.isName = true) : isNameWord t.text = true := by
  unfold Token.Lexed at h
  unfold isNameWord
  revert h hk
  cases t.kind <;> simp_all [TokenKind.isName, TokenKind.isKeyword]

end Token

namespace Cursor

/-- Every token ahead of `c` is as the lexer writes tokens of its kind. -/
def Lexed (c : Cursor) : Prop :=
  ∀ t ∈ c.ahead, t.Lexed

theorem Lexed.reach {c c' : Cursor} (h : c.Lexed) (hr : c.Reach c') : c'.Lexed := by
  obtain ⟨n, hn⟩ := hr.ahead_drop
  intro t ht
  rw [hn] at ht
  exact h t (List.mem_of_mem_drop ht)

theorem Lexed.current {c : Cursor} (h : c.Lexed) (hk : c.kind ≠ .eof) : c.current.Lexed := by
  cases ha : c.ahead with
  | nil =>
    exact absurd (by rw [Cursor.kind, Cursor.current, ha]; rfl) hk
  | cons t r =>
    rw [Parser.current_of_ahead ha]
    exact h t (by rw [ha]; exact List.mem_cons_self)

end Cursor

namespace Parser

open Cursor

/-! ## What one run of a reader can give -/

theorem ok_of_bind_ok {α β : Type} {x : Parser α} {f : α → Parser β} {c c'' : Cursor} {b : β}
    (h : (x >>= f) c = .ok b c'') : ∃ a c', x c = .ok a c' ∧ f a c' = .ok b c'' := by
  change EStateM.bind x f c = _ at h
  unfold EStateM.bind at h
  cases hx : x c with
  | ok a c' =>
    rw [hx] at h
    exact ⟨a, c', rfl, h⟩
  | error e c' =>
    rw [hx] at h
    cases h

theorem pure_ok {α : Type} {a b : α} {c c' : Cursor} (h : (pure a : Parser α) c = .ok b c') :
    b = a ∧ c' = c := by
  cases h
  exact ⟨rfl, rfl⟩

theorem expect_ok {k : TokenKind} {c c' : Cursor} {t : Token} (h : expect k c = .ok t c') :
    c.kind = k ∧ t = c.current ∧ c' = c.advance := by
  unfold expect at h
  split at h
  · cases h
    exact ⟨‹_›, rfl, rfl⟩
  · cases h

theorem expectName_ok {c c' : Cursor} {x : String} (h : expectName c = .ok x c') :
    c.kind.isName = true ∧ x = c.current.text ∧ c' = c.advance := by
  unfold expectName at h
  split at h
  · cases h
    exact ⟨‹_›, rfl, rfl⟩
  · cases h

theorem valueAt_ok_some {d : Nat} {c c' : Cursor} {v : Value}
    (h : valueAt d c = .ok (some v) c') :
    (c.kind = .string ∧ v = .str c.current.text) ∨
    (c.kind = .int ∧ v = .int c.current.text) ∨
    (c.kind = .float ∧ v = .float c.current.text) ∨
    (c.kind = .boolean ∧ v = .bool (c.current.text == "true")) ∨
    (c.kind.isName = true ∧ v = .ident c.current.text) ∨
    (c.kind = .lBracket ∧ d < maxNesting ∧ c.advance.remaining < c.remaining ∧
      ∃ vs, itemsAt .rBracket (d + 1) [] c.advance = .ok vs c' ∧ v = .list vs) ∨
    (c.kind.isName = true ∧ d < maxNesting ∧ c.advance.advance.remaining < c.remaining ∧
      ∃ vs, itemsAt .rParen (d + 1) [] c.advance.advance = .ok vs c' ∧
        v = .call c.current.text vs) := by
  rw [valueAt] at h
  split at h
  · cases h
  rename_i hopen
  split at h
  · cases h
    exact .inl ⟨‹_›, rfl⟩
  · cases h
    exact .inr (.inl ⟨‹_›, rfl⟩)
  · cases h
    exact .inr (.inr (.inl ⟨‹_›, rfl⟩))
  · cases h
    exact .inr (.inr (.inr (.inl ⟨‹_›, rfl⟩)))
  · rename_i hk
    have hd : d < maxNesting := by
      simp [hk] at hopen
      exact hopen
    dsimp only at h
    split at h
    · split at h
      · cases h
        exact .inr (.inr (.inr (.inr (.inr (.inl ⟨hk, hd, ‹_›, _, ‹_›, rfl⟩)))))
      · cases h
    · cases h
  · dsimp only at h
    split at h
    · rename_i hname
      split at h
      · rename_i hparen
        have hd : d < maxNesting := by
          have hpeek : c.peek.kind = .lParen := hparen
          simp [hname, hpeek] at hopen
          exact hopen
        split at h
        · split at h
          · cases h
            exact .inr (.inr (.inr (.inr (.inr (.inr ⟨hname, hd, ‹_›, _, ‹_›, rfl⟩)))))
          · cases h
        · cases h
      · cases h
        exact .inr (.inr (.inr (.inr (.inl ⟨hname, rfl⟩))))
    · cases h

theorem kind_ne_eof_of_name {c : Cursor} (h : c.kind.isName = true) : c.kind ≠ .eof := by
  intro he
  rw [he] at h
  exact absurd h (by decide)

/-! ## What the grammar reads is readable -/

theorem readable_valueAt_itemsAt (n : Nat) : ∀ c : Cursor, c.remaining = n → c.Lexed →
    (∀ d v c', valueAt d c = .ok (some v) c' → v.Readable d) ∧
    (∀ close d acc vs c', itemsAt close d acc c = .ok vs c' → (∀ v ∈ acc, v.Readable d) →
      ∀ v ∈ vs, v.Readable d) := by
  induction n using Nat.strong_induction_on with
  | _ n ih =>
    intro c hn hlex
    have items : ∀ close d c1 vs c', c.Reach c1 → c1.remaining < c.remaining →
        itemsAt close d [] c1 = .ok vs c' → ∀ v ∈ vs, v.Readable d := by
      intro close d c1 vs c' hr hlt h
      exact (ih _ (hn ▸ hlt) c1 rfl (hlex.reach hr)).2 close d [] vs c' h (by simp)
    have hvalue : ∀ d v c', valueAt d c = .ok (some v) c' → v.Readable d := by
      intro d v c' h
      have hcur : ∀ {k}, c.kind = k → k ≠ .eof → c.current.Lexed := fun hk he =>
        hlex.current (hk ▸ he)
      rcases valueAt_ok_some h with ⟨hk, rfl⟩ | ⟨hk, rfl⟩ | ⟨hk, rfl⟩ | ⟨hk, rfl⟩ | ⟨hk, rfl⟩ |
        ⟨hk, hd, hlt, vs, hvs, rfl⟩ | ⟨hk, hd, hlt, vs, hvs, rfl⟩
      · exact .str ((hcur hk (by decide)).string hk)
      · exact .int ((hcur hk (by decide)).int hk)
      · exact .float ((hcur hk (by decide)).float hk)
      · exact .bool
      · exact .ident ((hlex.current (kind_ne_eof_of_name hk)).name hk)
      · exact .list hd (items _ _ _ _ _ (Reach.advance c) hlt hvs)
      · exact .call ((hlex.current (kind_ne_eof_of_name hk)).name hk) hd
          (items _ _ _ _ _ ((Reach.advance c).trans (Reach.advance _)) hlt hvs)
    refine ⟨hvalue, ?_⟩
    intro close d acc vs c' h hacc
    rw [itemsAt] at h
    split at h
    · split at h
      · cases h
        intro v hv
        exact hacc v (List.mem_reverse.1 hv)
      · cases h
    · split at h
      · rename_i ov c1 hv
        dsimp only at h
        have hr : c.Reach (if c1.kind = .comma then c1.advance else c1) :=
          (forward_of_ok (forward_valueAt d) hv).trans (reach_skip_comma c1)
        generalize (if c1.kind = .comma then c1.advance else c1) = c2 at h hr
        have hrest : ∀ acc₁, (∀ v ∈ acc₁, v.Readable d) →
            (if c2.remaining < c.remaining then itemsAt close d acc₁ c2
              else .ok acc₁.reverse c2) = .ok vs c' → ∀ v ∈ vs, v.Readable d := by
          intro acc₁ hacc₁ h
          split at h
          · rename_i hlt
            exact (ih _ (hn ▸ hlt) _ rfl (hlex.reach hr)).2 close d _ vs c' h hacc₁
          · cases h
            intro v hv
            exact hacc₁ v (List.mem_reverse.1 hv)
        cases ov with
        | none => exact hrest acc hacc h
        | some v =>
          refine hrest (v :: acc) ?_ h
          intro u hu
          rcases List.mem_cons.1 hu with rfl | hu
          · exact hvalue d u c1 hv
          · exact hacc u hu
      · cases h

theorem readable_valueAt {d : Nat} {c c' : Cursor} {v : Value} (hlex : c.Lexed)
    (h : valueAt d c = .ok (some v) c') : v.Readable d :=
  (readable_valueAt_itemsAt c.remaining c rfl hlex).1 d v c' h

theorem readable_dottedName {acc name : String} {c c' : Cursor} :
    c.Lexed → dottedName acc c = .ok name c' →
      ∃ ps : List String, (∀ p ∈ ps, isNameWord p = true) ∧ name = ".".intercalate (acc :: ps) := by
  fun_induction dottedName acc c with
  | case1 acc c hdot part c1 hname hlt ih =>
    intro hlex h
    obtain ⟨hk, rfl, rfl⟩ := expectName_ok hname
    obtain ⟨ps, hps, rfl⟩ := ih (hlex.reach ((Reach.advance c).trans (Reach.advance _))) h
    refine ⟨c.advance.current.text :: ps, ?_, String.intercalate_append_cons _ _ _ _⟩
    intro p hp
    rcases List.mem_cons.1 hp with rfl | hp
    · exact ((hlex.reach (Reach.advance c)).current (kind_ne_eof_of_name hk)).name hk
    · exact hps p hp
  | case2 acc c hdot part c1 hname hlt =>
    intro _ h
    cases h
    exact ⟨[], by simp, by simp⟩
  | case3 acc c hdot e c1 hname =>
    intro _ h
    cases h
  | case4 acc c hdot =>
    intro _ h
    cases h
    exact ⟨[], by simp, by simp⟩

theorem readable_argument {c c' : Cursor} {a : Argument} (hlex : c.Lexed)
    (h : argument c = .ok (some a) c') : a.Readable := by
  unfold argument at h
  rw [run_bind_of_ok (rfl : (get : Parser Cursor) c = .ok c c)] at h
  split at h
  · rename_i hnamed
    have hk : c.kind.isName = true := by
      simp only [Bool.and_eq_true] at hnamed
      exact hnamed.1
    obtain ⟨_, c2, h2, h⟩ := ok_of_bind_ok h
    cases h2
    obtain ⟨_, c3, h3, h⟩ := ok_of_bind_ok h
    cases h3
    obtain ⟨ov, c4, h4, h⟩ := ok_of_bind_ok h
    obtain ⟨ha, -⟩ := pure_ok h
    cases ov with
    | none => cases ha
    | some v =>
      cases ha
      refine ⟨fun n hn => ?_, readable_valueAt
        (hlex.reach ((Reach.advance c).trans (Reach.advance _))) h4⟩
      cases hn
      exact (hlex.current (kind_ne_eof_of_name hk)).name hk
  · obtain ⟨ov, c4, h4, h⟩ := ok_of_bind_ok h
    obtain ⟨ha, -⟩ := pure_ok h
    cases ov with
    | none => cases ha
    | some v =>
      cases ha
      exact ⟨fun _ hn => (nomatch hn), readable_valueAt hlex h4⟩

theorem readable_cons_acc {oa : Option Argument} {acc : List Argument}
    (hoa : ∀ a, oa = some a → a.Readable) (hacc : ∀ a ∈ acc, a.Readable) :
    ∀ a ∈ (match oa with | some a => a :: acc | none => acc), a.Readable := by
  cases oa with
  | none => exact hacc
  | some a =>
    intro u hu
    rcases List.mem_cons.1 hu with rfl | hu
    · exact hoa u rfl
    · exact hacc u hu

theorem readable_arguments {acc args : List Argument} {c c' : Cursor} :
    c.Lexed → arguments acc c = .ok args c' → (∀ a ∈ acc, a.Readable) → ∀ a ∈ args, a.Readable := by
  fun_induction arguments acc c with
  | case1 acc c hend =>
    intro _ h hacc a ha
    cases h
    exact hacc a (List.mem_reverse.1 ha)
  | case2 acc₀ c hend oa c1 ha acc c2 hlt ih =>
    intro hlex h hacc
    exact ih (hlex.reach ((forward_of_ok forward_argument ha).trans (reach_skip_comma c1))) h
      (readable_cons_acc (fun a hoa => readable_argument hlex (hoa ▸ ha)) hacc)
  | case3 acc₀ c hend oa c1 ha acc c2 hlt =>
    intro hlex h hacc a hmem
    have hargs : acc.reverse = args := by injection h
    rw [← hargs] at hmem
    exact readable_cons_acc (fun a hoa => readable_argument hlex (hoa ▸ ha)) hacc a
      (List.mem_reverse.1 hmem)
  | case4 acc c hend e c1 ha =>
    intro _ h
    cases h

theorem readable_attr {c c' : Cursor} {a : Attribute} (hlex : c.Lexed) (h : attr c = .ok a c') :
    ∃ parts, a.Readable parts := by
  unfold attr at h
  obtain ⟨_, c1, h1, h⟩ := ok_of_bind_ok h
  cases h1
  obtain ⟨first, c2, h2, h⟩ := ok_of_bind_ok h
  obtain ⟨hk, rfl, rfl⟩ := expectName_ok h2
  obtain ⟨name, c3, h3, h⟩ := ok_of_bind_ok h
  have hr : c.Reach c3 := (Reach.advance c).trans ((Reach.advance _).trans
    (forward_of_ok (forward_dottedName _) h3))
  obtain ⟨ps, hps, rfl⟩ := readable_dottedName
    (hlex.reach ((Reach.advance c).trans (Reach.advance _))) h3
  obtain ⟨_, c4, h4, h⟩ := ok_of_bind_ok h
  cases h4
  have hparts : ∀ p ∈ c.advance.current.text :: ps, isNameWord p = true := by
    intro p hp
    rcases List.mem_cons.1 hp with rfl | hp
    · exact ((hlex.reach (Reach.advance c)).current (kind_ne_eof_of_name hk)).name hk
    · exact hps p hp
  split at h
  · obtain ⟨_, c5, h5, h⟩ := ok_of_bind_ok h
    cases h5
    obtain ⟨args, c6, h6, h⟩ := ok_of_bind_ok h
    obtain ⟨_, c7, h7, h⟩ := ok_of_bind_ok h
    obtain ⟨rfl, -⟩ := pure_ok h
    exact ⟨_, rfl, by simp, hparts,
      readable_arguments (hlex.reach (hr.trans (Reach.advance _))) h6 (by simp)⟩
  · obtain ⟨rfl, -⟩ := pure_ok h
    exact ⟨_, rfl, by simp, hparts, by simp⟩

theorem readable_typeName {c c' : Cursor} {base : TypeName} (hlex : c.Lexed)
    (h : typeName c = .ok base c') : base.Readable := by
  unfold typeName at h
  obtain ⟨name, c1, h1, h⟩ := ok_of_bind_ok h
  unfold expectIdent at h1
  obtain ⟨t, c1', h1', h1⟩ := ok_of_bind_ok h1
  obtain ⟨hk, rfl, rfl⟩ := expect_ok h1'
  obtain ⟨rfl, rfl⟩ := pure_ok h1
  have hid := (hlex.current (by rw [hk]; decide)).ident hk
  split at h
  · obtain ⟨_, c2, h2, h⟩ := ok_of_bind_ok h
    obtain ⟨-, -, rfl⟩ := expect_ok h2
    obtain ⟨raw, c3, h3, h⟩ := ok_of_bind_ok h
    obtain ⟨hk3, rfl, rfl⟩ := expect_ok h3
    obtain ⟨_, c4, h4, h⟩ := ok_of_bind_ok h
    obtain ⟨rfl, -⟩ := pure_ok h
    have hlex3 := hlex.reach ((Reach.advance c).trans (Reach.advance _))
    exact .unsupported ((hlex3.current (by rw [hk3]; decide)).string hk3)
  · obtain ⟨rfl, -⟩ := pure_ok h
    exact .named hid.1 hid.2 ‹_›

theorem readable_fieldType {c c' : Cursor} {t : FieldType} (hlex : c.Lexed)
    (h : fieldType c = .ok t c') : t.base.Readable := by
  rw [fieldType_eq] at h
  obtain ⟨base, c1, h1, h⟩ := ok_of_bind_ok h
  obtain ⟨_, c2, -, h⟩ := ok_of_bind_ok h
  obtain ⟨_, c3, -, h⟩ := ok_of_bind_ok h
  obtain ⟨rfl, -⟩ := pure_ok h
  exact readable_typeName hlex h1

end Parser

/-! ## A readable piece, printed, reads back -/

namespace Cursor

theorem ofText_views (s : String) : (ofText s).ahead.map Token.view = views s.toList := by
  rw [ofText_ahead, views, List.filter_map]
  rfl

theorem kind_of_nil {c : Cursor} (h : c.ahead = []) : c.kind = .eof := by
  rw [kind, current, h]
  rfl

end Cursor

open DbSchema.Parser DbSchema.Cursor

theorem Value.Readable.mono {d : Nat} {v : Value} (h : v.Readable d) {d' : Nat} (hle : d' ≤ d) :
    v.Readable d' := by
  induction h generalizing d' with
  | str hr => exact .str hr
  | int hl => exact .int hl
  | float hl => exact .float hl
  | bool => exact .bool
  | ident hn => exact .ident hn
  | list hd _ ih => exact .list (by omega) fun v hv => ih v hv (by omega)
  | call hf hd _ ih => exact .call hf (by omega) fun v hv => ih v hv (by omega)

theorem Value.Readable.display_reads_back {v : Value} (h : v.Readable 0) (hs : v.StringsClose) :
    ∃ e, value (ofText v.display) = .ok (some v) e ∧ e.ahead = [] := by
  have hv : views (v.display.toList ++ []) = _ := h.views_display hs (by simp [ValueStop])
  rw [List.append_nil, views_nil, List.append_nil, ← ofText_views] at hv
  obtain ⟨hsees, hend⟩ := sees_of_map hv
  exact ⟨_, h.valueAt_sees hsees (by rw [kind_of_nil hend]; decide), hend⟩

theorem Attribute.Readable.display_reads_back {parts : List String} {a : Attribute}
    (h : a.Readable parts) (hs : a.StringsClose) :
    ∃ e, attr (ofText a.display) = .ok a e ∧ e.ahead = [] := by
  have hv := h.views_display hs
  rw [← ofText_views] at hv
  obtain ⟨hsees, hend⟩ := sees_of_map hv
  exact ⟨_, h.attr_sees hsees (fun _ => by rw [kind_of_nil hend]; decide), hend⟩

theorem FieldType.display_reads_back {t : FieldType} (h : t.base.Readable)
    (hs : t.StringsClose) : ∃ e, fieldType (ofText t.display) = .ok t e ∧ e.ahead = [] := by
  have hv := views_display h hs
  rw [← ofText_views] at hv
  obtain ⟨hsees, hend⟩ := sees_of_map hv
  exact ⟨_, fieldType_sees h hsees (by rw [kind_of_nil hend]; decide), hend⟩

namespace Parser

/-- Printing is a right inverse of reading, on what reading gives: a value (at any nesting), an
attribute or a field type read anywhere in any text, printed and read from a fresh cursor, is
read back whole and the printed text read to its end, so long as no string literal in it ends in
a backslash that no escape pairs. -/
theorem display_right_inverse :
    (∀ (s : String) (d : Nat) (c c' : Cursor) (v : Value), (ofText s).Reach c →
      valueAt d c = .ok (some v) c' → v.StringsClose →
        ∃ e, value (ofText v.display) = .ok (some v) e ∧ e.ahead = []) ∧
    (∀ (s : String) (c c' : Cursor) (a : Attribute), (ofText s).Reach c →
      attr c = .ok a c' → a.StringsClose →
        ∃ e, attr (ofText a.display) = .ok a e ∧ e.ahead = []) ∧
    (∀ (s : String) (c c' : Cursor) (t : FieldType), (ofText s).Reach c →
      fieldType c = .ok t c' → t.StringsClose →
        ∃ e, fieldType (ofText t.display) = .ok t e ∧ e.ahead = []) := by
  refine ⟨?_, ?_, ?_⟩
  · intro s d c c' v hr h hs
    have hv := readable_valueAt (Lexed.reach (ofText_lexed s) hr) h
    exact (hv.mono (Nat.zero_le d)).display_reads_back hs
  · intro s c c' a hr h hs
    obtain ⟨parts, hp⟩ := readable_attr (Lexed.reach (ofText_lexed s) hr) h
    exact hp.display_reads_back hs
  · intro s c c' t hr h hs
    exact FieldType.display_reads_back (readable_fieldType (Lexed.reach (ofText_lexed s) hr) h) hs

/-- The string `"a"`, the attribute `@map("users")` and the field type `Unsupported("circle")[]?`,
each read from its own text, print and read back. -/
theorem display_right_inverse_samples :
    (∃ e, value (ofText (Value.str "a").display) = .ok (some (.str "a")) e ∧ e.ahead = []) ∧
    (∃ e, attr (ofText ({ name := "map", args := [⟨none, .str "users"⟩] } : Attribute).display) =
      .ok { name := "map", args := [⟨none, .str "users"⟩] } e ∧ e.ahead = []) ∧
    (∃ e, fieldType (ofText (⟨.unsupported "circle", true, true⟩ : FieldType).display) =
      .ok ⟨.unsupported "circle", true, true⟩ e ∧ e.ahead = []) := by
  have hv : (ofText "\"a\"").ahead.map Token.view = (Value.str "a").tokens := by decide +kernel
  have ha : (ofText "@map(\"users\")").ahead.map Token.view =
      ({ name := "map", args := [⟨none, .str "users"⟩] } : Attribute).tokens ["map"] := by
    decide +kernel
  have ht : (ofText "Unsupported(\"circle\")[]?").ahead.map Token.view =
      (⟨.unsupported "circle", true, true⟩ : FieldType).tokens := by
    decide +kernel
  obtain ⟨hsv, hev⟩ := sees_of_map hv
  obtain ⟨hsa, hea⟩ := sees_of_map ha
  obtain ⟨hst, het⟩ := sees_of_map ht
  have hstr : ∀ x : String, (∃ r, (stringBody r).1 = x.toList) → Value.Readable 0 (.str x) :=
    fun _ hr => .str hr
  refine ⟨display_right_inverse.1 _ 0 _ _ _ (Reach.refl _)
      ((hstr "a" ⟨"a\"".toList, by decide +kernel⟩).valueAt_sees hsv
        (by rw [kind_of_nil hev]; decide))
      (fun x hx => by cases hx; decide),
    display_right_inverse.2.1 _ _ _ _ (Reach.refl _)
      (Attribute.Readable.attr_sees ⟨rfl, by simp, by decide, fun arg harg => ?_⟩ hsa
        (fun h => by cases h))
      (fun arg harg x hx => ?_),
    display_right_inverse.2.2 _ _ _ _ (Reach.refl _)
      (FieldType.fieldType_sees (.unsupported ⟨"circle\"".toList, by decide +kernel⟩) hst
        (by rw [kind_of_nil het]; decide))
      (fun raw h => by cases h; decide)⟩
  · rw [List.mem_singleton] at harg
    subst harg
    exact ⟨fun _ hn => (nomatch hn), hstr "users" ⟨"users\"".toList, by decide +kernel⟩⟩
  · rw [List.mem_singleton] at harg
    subst harg
    cases hx
    decide

/-- A string literal cut off after a backslash is read with that backslash last; printed, the
backslash escapes the closing quote, and the printed text reads as another string. -/
theorem display_lone_backslash_rereads :
    (∃ c, value (ofText "\"abc\\") = .ok (some (.str "abc\\")) c) ∧
      ∃ c, value (ofText (Value.str "abc\\").display) = .ok (some (.str "abc\\\"")) c := by
  have h₁ : (ofText "\"abc\\").ahead.map Token.view = (Value.str "abc\\").tokens := by
    decide +kernel
  have h₂ : (ofText (Value.str "abc\\").display).ahead.map Token.view =
      (Value.str "abc\\\"").tokens := by
    decide +kernel
  obtain ⟨hs₁, he₁⟩ := sees_of_map h₁
  obtain ⟨hs₂, he₂⟩ := sees_of_map h₂
  have hr₁ : Value.Readable 0 (.str "abc\\") := .str ⟨"abc\\".toList, by decide +kernel⟩
  have hr₂ : Value.Readable 0 (.str "abc\\\"") := .str ⟨"abc\\\"".toList, by decide +kernel⟩
  exact ⟨⟨_, hr₁.valueAt_sees hs₁ (by rw [kind_of_nil he₁]; decide)⟩,
    ⟨_, hr₂.valueAt_sees hs₂ (by rw [kind_of_nil he₂]; decide)⟩⟩

end Parser

end DbSchema
