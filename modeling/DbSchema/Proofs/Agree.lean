import DbSchema.Proofs.Shifted

/-! # Every production agrees with itself

For every production `p` of the grammar, `Parser.Agree n rest Eq p p`: run from related cursors,
`p` reads the same value or stops with the same error moved down `n` lines, and stops at related
cursors. The productions written with `do` are assembled from the lemmas of their parts; the
others are unfolded on both sides, their conditions read the same on related cursors, and the
loops go by induction on the tokens left.
-/

namespace DbSchema

set_option autoImplicit false

open Cursor

namespace Parser

variable {n : Nat} {rest : Option (List Token)}

/-! ## Values -/

theorem agree_valueAt_itemsAt (m : Nat) : ∀ c₁ c₂ : Cursor, c₁.remaining = m →
    c₁.Shifted n rest c₂ →
    (∀ d, Before rest (Outcome.cursor (valueAt d c₁)) →
      Outcome.Shifted n rest Eq (valueAt d c₁) (valueAt d c₂)) ∧
    (∀ close d acc, Before rest (Outcome.cursor (itemsAt close d acc c₁)) →
      Outcome.Shifted n rest Eq (itemsAt close d acc c₁) (itemsAt close d acc c₂)) := by
  induction m using Nat.strong_induction_on with
  | _ m ih =>
    intro c₁ c₂ hm hc
    have items : ∀ close d acc d₁ d₂, d₁.Shifted n rest d₂ → d₁.remaining < c₁.remaining →
        Before rest (Outcome.cursor (itemsAt close d acc d₁)) →
        Outcome.Shifted n rest Eq (itemsAt close d acc d₁) (itemsAt close d acc d₂) :=
      fun close d acc d₁ d₂ hd hlt => (ih _ (hm ▸ hlt) d₁ d₂ rfl hd).2 close d acc
    have hvalue : ∀ d, Before rest (Outcome.cursor (valueAt d c₁)) →
        Outcome.Shifted n rest Eq (valueAt d c₁) (valueAt d c₂) := by
      intro d hg
      have hb : Before rest c₁ := Before.of_reach (forward_valueAt d c₁) hg
      revert hg
      have hcur := hc.current hb
      have hopens : (c₁.current.kind.isName && c₂.peek.kind == .lParen) =
          (c₁.current.kind.isName && c₁.peek.kind == .lParen) := by
        by_cases hr : c₁.kind = .rBrace
        · have h₁ : c₁.current.kind = .rBrace := hr
          rw [h₁]
          rfl
        · rw [hc.peek_kind hb hr]
      rw [valueAt.eq_def, valueAt.eq_def]
      simp only [hcur, Token.kind_shiftLines, Token.text_shiftLines, hopens, hc.expected hb]
      split
      · exact fun _ => ⟨rfl, hc⟩
      have ha := hc.advance hb
      split
      case h_1 | h_2 | h_3 | h_4 => exact fun _ => ⟨rfl, ha⟩
      case h_5 hk =>
        simp only [hc.remaining_lt_iff ha]
        split
        · rename_i hlt
          have hi := items .rBracket (d + 1) [] _ _ ha hlt
          cases h₁ : itemsAt .rBracket (d + 1) [] c₁.advance with
          | ok vs e₁ =>
            intro hg
            rw [h₁] at hi
            obtain ⟨_, e₂, h₂, rfl, he⟩ := (hi hg).of_ok
            rw [h₂]
            exact ⟨rfl, he⟩
          | error e e₁ =>
            intro hg
            rw [h₁] at hi
            obtain ⟨e₂, h₂, he⟩ := (hi hg).of_error
            rw [h₂]
            exact ⟨rfl, he⟩
        · exact fun _ => ⟨rfl, ha⟩
      case h_6 k hk =>
        split
        · rename_i hname
          have hr : c₁.kind ≠ .rBrace := by
            intro h
            have h' : c₁.current.kind = .rBrace := h
            rw [h'] at hname
            exact absurd hname (by decide)
          have hb' := hc.before_advance hb hr
          simp only [ha.kind hb']
          split
          · have ha' := ha.advance hb'
            simp only [hc.remaining_lt_iff ha']
            split
            · rename_i hlt
              have hi := items .rParen (d + 1) [] _ _ ha' hlt
              cases h₁ : itemsAt .rParen (d + 1) [] c₁.advance.advance with
              | ok vs e₁ =>
                intro hg
                rw [h₁] at hi
                obtain ⟨_, e₂, h₂, rfl, he⟩ := (hi hg).of_ok
                rw [h₂]
                exact ⟨rfl, he⟩
              | error e e₁ =>
                intro hg
                rw [h₁] at hi
                obtain ⟨e₂, h₂, he⟩ := (hi hg).of_error
                rw [h₂]
                exact ⟨rfl, he⟩
            · exact fun _ => ⟨rfl, ha'⟩
          · exact fun _ => ⟨rfl, ha⟩
        · exact fun _ => ⟨rfl, ha⟩
    refine ⟨hvalue, fun close d acc hg => ?_⟩
    have hb : Before rest c₁ := Before.of_reach (forward_itemsAt close d acc c₁) hg
    revert hg
    rw [itemsAt.eq_def, itemsAt.eq_def]
    simp only [hc.kind hb]
    split
    · have he := (agree_expect close).2 c₁ c₂ hc
      cases h₁ : expect close c₁ with
      | ok t e₁ =>
        intro hg
        rw [h₁] at he
        obtain ⟨_, e₂, h₂, _, hs⟩ := (he hg).of_ok
        rw [h₂]
        exact ⟨rfl, hs⟩
      | error e e₁ =>
        intro hg
        rw [h₁] at he
        obtain ⟨e₂, h₂, hs⟩ := (he hg).of_error
        rw [h₂]
        exact ⟨rfl, hs⟩
    · have hv := hvalue d
      cases h₁ : valueAt d c₁ with
      | ok v e₁ =>
        dsimp only
        generalize hf₁ : (if e₁.kind = .comma then e₁.advance else e₁) = f₁
        intro hg
        have he₁ : Before rest e₁ := by
          refine Before.of_reach ((hf₁ ▸ reach_skip_comma e₁).trans ?_) hg
          split
          · exact forward_itemsAt _ _ _ _
          · exact Reach.refl _
        rw [h₁] at hv
        obtain ⟨_, e₂, h₂, rfl, hs⟩ := (hv he₁).of_ok
        rw [h₂]
        dsimp only
        have hfs := hf₁ ▸ hs.skipComma he₁
        generalize (if e₂.kind = .comma then e₂.advance else e₂) = f₂ at hfs ⊢
        simp only [hc.remaining_lt_iff hfs]
        revert hg
        split
        · rename_i hlt
          exact items close d _ f₁ f₂ hfs hlt
        · exact fun _ => ⟨rfl, hfs⟩
      | error e e₁ =>
        intro hg
        rw [h₁] at hv
        obtain ⟨e₂, h₂, hs⟩ := (hv hg).of_error
        rw [h₂]
        exact ⟨rfl, hs⟩

theorem agree_valueAt (d : Nat) : Agree n rest Eq (valueAt d) (valueAt d) :=
  ⟨forward_valueAt d, fun c₁ c₂ hc => (agree_valueAt_itemsAt _ c₁ c₂ rfl hc).1 d⟩

theorem agree_value : Agree n rest Eq value value :=
  agree_valueAt 0

/-! ## Attributes -/

theorem agree_dottedName (acc : String) : Agree n rest Eq (dottedName acc) (dottedName acc) := by
  refine ⟨forward_dottedName acc, fun c₁ c₂ hc hg => ?_⟩
  have hb : Before rest c₁ := Before.of_reach (forward_dottedName acc c₁) hg
  fun_induction dottedName acc c₁ generalizing c₂ with
  | case1 acc c hdot part c1 hname hlt ih =>
    have hb' := hc.before_advance hb (by rw [hdot]; decide)
    have hb1 : Before rest c1 := Before.of_reach (forward_dottedName _ c1) hg
    obtain ⟨_, d₂, h₂, rfl, hd⟩ := agree_expectName.ok_of_ok (hc.advance hb) hname hb1
    rw [dottedName.eq_def _ c₂, if_pos (by rw [hc.kind hb, hdot]), h₂]
    dsimp only
    rw [if_pos ((hc.remaining_lt_iff hd).mpr hlt)]
    exact ih d₂ hd hg hb1
  | case2 acc c hdot part c1 hname hlt =>
    obtain ⟨_, d₂, h₂, rfl, hd⟩ := agree_expectName.ok_of_ok (hc.advance hb) hname hg
    rw [dottedName.eq_def _ c₂, if_pos (by rw [hc.kind hb, hdot]), h₂]
    dsimp only
    rw [if_neg (mt (hc.remaining_lt_iff hd).mp hlt)]
    exact ⟨rfl, hd⟩
  | case3 acc c hdot e c1 hname =>
    obtain ⟨d₂, h₂, hd⟩ := agree_expectName.error_of_error (hc.advance hb) hname hg
    rw [dottedName.eq_def _ c₂, if_pos (by rw [hc.kind hb, hdot]), h₂]
    exact ⟨rfl, hd⟩
  | case4 acc c hdot =>
    rw [dottedName.eq_def _ c₂, if_neg (by rw [hc.kind hb]; exact hdot)]
    exact ⟨rfl, hc⟩

theorem argument_named_iff {c₁ c₂ : Cursor} (hc : c₁.Shifted n rest c₂) (hb : Before rest c₁) :
    (c₁.kind.isName && (c₁.peek.kind == .colon || c₁.peek.kind == .equals)) = true ↔
      (c₂.kind.isName && (c₂.peek.kind == .colon || c₂.peek.kind == .equals)) = true := by
  rw [hc.kind hb]
  by_cases hr : c₁.kind = .rBrace
  · rw [hr]
    simp only [show TokenKind.rBrace.isName = false from rfl, Bool.false_and]
  · rw [hc.peek_kind hb hr]

theorem agree_argument : Agree n rest Eq argument argument := by
  unfold argument
  refine agree_get_ite (fun c₁ c₂ hc hb => argument_named_iff hc hb) ?_ ?_
  · refine agree_next.bind_token fun name => agree_next.bind_token fun _ => ?_
    simp only [Token.text_shiftLines]
    exact agree_value.bind_eq fun _ => agree_pure rfl
  · exact agree_value.bind_eq fun _ => agree_pure rfl

theorem agree_arguments (acc : List Argument) :
    Agree n rest Eq (arguments acc) (arguments acc) := by
  refine ⟨forward_arguments acc, fun c₁ c₂ hc hg => ?_⟩
  have hb : Before rest c₁ := Before.of_reach (forward_arguments acc c₁) hg
  fun_induction arguments acc c₁ generalizing c₂ with
  | case1 acc c hend =>
    rw [arguments.eq_def _ c₂, if_pos (by rw [hc.kind hb]; exact hend)]
    exact ⟨rfl, hc⟩
  | case2 acc₀ c hend a c1 ha acc c2 hlt ih =>
    have hb2 : Before rest c2 := Before.of_reach (forward_arguments _ c2) hg
    have hb1 : Before rest c1 := Before.of_reach (reach_skip_comma c1) hb2
    obtain ⟨_, d₂, h₂, rfl, hd⟩ := agree_argument.ok_of_ok hc ha hb1
    have hs2 : c2.Shifted n rest (if d₂.kind = .comma then d₂.advance else d₂) :=
      hd.skipComma hb1
    rw [arguments.eq_def _ c₂, if_neg (by rw [hc.kind hb]; exact hend), h₂]
    dsimp only
    rw [if_pos ((hc.remaining_lt_iff hs2).mpr hlt)]
    exact ih _ hs2 hg hb2
  | case3 acc₀ c hend a c1 ha acc c2 hlt =>
    have hb1 : Before rest c1 := Before.of_reach (reach_skip_comma c1) hg
    obtain ⟨_, d₂, h₂, rfl, hd⟩ := agree_argument.ok_of_ok hc ha hb1
    have hs2 : c2.Shifted n rest (if d₂.kind = .comma then d₂.advance else d₂) :=
      hd.skipComma hb1
    rw [arguments.eq_def _ c₂, if_neg (by rw [hc.kind hb]; exact hend), h₂]
    dsimp only
    rw [if_neg (mt (hc.remaining_lt_iff hs2).mp hlt)]
    exact ⟨rfl, hs2⟩
  | case4 acc c hend e c1 ha =>
    obtain ⟨d₂, h₂, hd⟩ := agree_argument.error_of_error hc ha hg
    rw [arguments.eq_def _ c₂, if_neg (by rw [hc.kind hb]; exact hend), h₂]
    exact ⟨rfl, hd⟩

theorem agree_attr : Agree n rest Eq attr attr := by
  unfold attr
  refine agree_next.bind_token fun _ => agree_expectName.bind_eq fun first =>
    (agree_dottedName first).bind_eq fun name => agree_current.bind_token fun t =>
      agree_ite Iff.rfl ?_ (agree_pure rfl)
  exact agree_next.bind_token fun _ => (agree_arguments []).bind_eq fun args =>
    (agree_expect _).bind_token fun _ => agree_pure rfl

theorem agree_fieldAttributes (acc : List Attribute) :
    Agree n rest Eq (fieldAttributes acc) (fieldAttributes acc) := by
  refine ⟨forward_fieldAttributes acc, fun c₁ c₂ hc hg => ?_⟩
  have hb : Before rest c₁ := Before.of_reach (forward_fieldAttributes acc c₁) hg
  fun_induction fieldAttributes acc c₁ generalizing c₂ with
  | case1 acc c hat a c1 ha hlt ih =>
    have hb1 : Before rest c1 := Before.of_reach (forward_fieldAttributes _ c1) hg
    obtain ⟨_, d₂, h₂, rfl, hd⟩ := agree_attr.ok_of_ok hc ha hb1
    rw [fieldAttributes.eq_def _ c₂, if_pos (by rw [hc.kind hb, hat]), h₂]
    dsimp only
    rw [if_pos ((hc.remaining_lt_iff hd).mpr hlt)]
    exact ih d₂ hd hg hb1
  | case2 acc c hat a c1 ha hlt =>
    obtain ⟨_, d₂, h₂, rfl, hd⟩ := agree_attr.ok_of_ok hc ha hg
    rw [fieldAttributes.eq_def _ c₂, if_pos (by rw [hc.kind hb, hat]), h₂]
    dsimp only
    rw [if_neg (mt (hc.remaining_lt_iff hd).mp hlt)]
    exact ⟨rfl, hd⟩
  | case3 acc c hat e c1 ha =>
    obtain ⟨d₂, h₂, hd⟩ := agree_attr.error_of_error hc ha hg
    rw [fieldAttributes.eq_def _ c₂, if_pos (by rw [hc.kind hb, hat]), h₂]
    exact ⟨rfl, hd⟩
  | case4 acc c hat =>
    rw [fieldAttributes.eq_def _ c₂, if_neg (by rw [hc.kind hb]; exact hat)]
    exact ⟨rfl, hc⟩

/-! ## Field types -/

theorem agree_typeName : Agree n rest Eq typeName typeName := by
  unfold typeName
  refine agree_expectIdent.bind_eq fun name => agree_ite Iff.rfl ?_ (agree_pure rfl)
  exact (agree_expect _).bind_token fun _ => (agree_expect _).bind_token fun _ =>
    (agree_expect _).bind_token fun _ => agree_pure rfl

theorem agree_arraySuffix : Agree n rest Eq arraySuffix arraySuffix := by
  unfold arraySuffix
  refine agree_get_ite (fun c₁ c₂ hc hb => ?_)
    (agree_next.bind_token fun _ => agree_next.bind_token fun _ => agree_pure rfl)
    (agree_pure rfl)
  rw [hc.kind hb]
  by_cases hr : c₁.kind = .rBrace
  · rw [hr]
    simp
  · rw [hc.peek_kind hb hr]

theorem agree_optionalMark : Agree n rest Eq optionalMark optionalMark := by
  unfold optionalMark
  exact agree_current.bind_token fun _ => agree_ite Iff.rfl
    (agree_next.bind_token fun _ => agree_pure rfl) (agree_pure rfl)

theorem agree_fieldType : Agree n rest Eq fieldType fieldType := by
  rw [fieldType_eq]
  exact agree_typeName.bind_eq fun _ => agree_arraySuffix.bind_eq fun _ =>
    agree_optionalMark.bind_eq fun _ => agree_pure rfl

/-! ## Blocks -/

theorem agree_header (k : TokenKind) : Agree n rest Eq (header k) (header k) :=
  (agree_expect k).bind_token fun _ => agree_expectIdent.bind_eq fun _ =>
    (agree_expect _).bind_token fun _ => agree_pure rfl

theorem agree_entry : Agree n rest Eq entry entry :=
  agree_next.bind_token fun _ => (agree_expect _).bind_token fun _ =>
    agree_value.bind_eq fun _ => agree_pure rfl

theorem agree_entries (acc : List ConfigEntry) :
    Agree n rest Eq (entries acc) (entries acc) := by
  refine ⟨forward_entries acc, fun c₁ c₂ hc hg => ?_⟩
  have hb : Before rest c₁ := Before.of_reach (forward_entries acc c₁) hg
  fun_induction entries acc c₁ generalizing c₂ with
  | case1 acc c hk =>
    rw [entries.eq_def _ c₂]
    simp only [hc.kind hb, hk]
    exact ⟨rfl, hc.advance hb⟩
  | case2 acc c hk =>
    rw [entries.eq_def _ c₂]
    simp only [hc.kind hb, hk, hc.expected hb]
    exact ⟨rfl, hc⟩
  | case3 acc₀ c e c1 he acc hlt hr heof hname ih =>
    have hb1 : Before rest c1 := Before.of_reach (forward_entries _ c1) hg
    obtain ⟨_, d₂, h₂, rfl, hd⟩ := agree_entry.ok_of_ok hc he hb1
    rw [entries.eq_def _ c₂]
    simp only [hc.kind hb]
    rw [if_pos hname, h₂]
    dsimp only
    rw [if_pos ((hc.remaining_lt_iff hd).mpr hlt)]
    exact ih d₂ hd hg hb1
  | case4 acc₀ c e c1 he acc hlt hr heof hname =>
    obtain ⟨_, d₂, h₂, rfl, hd⟩ := agree_entry.ok_of_ok hc he hg
    rw [entries.eq_def _ c₂]
    simp only [hc.kind hb]
    rw [if_pos hname, h₂]
    dsimp only
    rw [if_neg (mt (hc.remaining_lt_iff hd).mp hlt)]
    exact ⟨rfl, hd⟩
  | case5 acc c e c1 he hr heof hname =>
    obtain ⟨d₂, h₂, hd⟩ := agree_entry.error_of_error hc he hg
    rw [entries.eq_def _ c₂]
    simp only [hc.kind hb]
    rw [if_pos hname, h₂]
    exact ⟨rfl, hd⟩
  | case6 acc c hr heof hname =>
    rw [entries.eq_def _ c₂]
    simp only [hc.kind hb]
    rw [if_neg hname]
    exact ⟨hc.unexpected hb, hc⟩

theorem agree_field : Agree n rest Eq field field :=
  agree_expectName.bind_eq fun _ => agree_fieldType.bind_eq fun _ =>
    (agree_fieldAttributes []).bind_eq fun _ => agree_pure rfl

theorem agree_members (fs : List Field) (as : List Attribute) :
    Agree n rest Eq (members fs as) (members fs as) := by
  refine ⟨forward_members fs as, fun c₁ c₂ hc hg => ?_⟩
  have hb : Before rest c₁ := Before.of_reach (forward_members fs as c₁) hg
  fun_induction members fs as c₁ generalizing c₂ with
  | case1 fs as c hk =>
    rw [members.eq_def _ _ c₂]
    simp only [hc.kind hb, hk]
    exact ⟨rfl, hc.advance hb⟩
  | case2 fs as c hk =>
    rw [members.eq_def _ _ c₂]
    simp only [hc.kind hb, hk, hc.expected hb]
    exact ⟨rfl, hc⟩
  | case3 fs as c hk a c1 ha hlt ih =>
    have hb1 : Before rest c1 := Before.of_reach (forward_members _ _ c1) hg
    obtain ⟨_, d₂, h₂, rfl, hd⟩ := agree_attr.ok_of_ok hc ha hb1
    rw [members.eq_def _ _ c₂]
    simp only [hc.kind hb, hk, h₂]
    rw [if_pos ((hc.remaining_lt_iff hd).mpr hlt)]
    exact ih d₂ hd hg hb1
  | case4 fs as c hk a c1 ha hlt =>
    obtain ⟨_, d₂, h₂, rfl, hd⟩ := agree_attr.ok_of_ok hc ha hg
    rw [members.eq_def _ _ c₂]
    simp only [hc.kind hb, hk, h₂]
    rw [if_neg (mt (hc.remaining_lt_iff hd).mp hlt)]
    exact ⟨rfl, hd⟩
  | case5 fs as c hk e c1 ha =>
    obtain ⟨d₂, h₂, hd⟩ := agree_attr.error_of_error hc ha hg
    rw [members.eq_def _ _ c₂]
    simp only [hc.kind hb, hk, h₂]
    exact ⟨rfl, hd⟩
  | case6 fs as c f c1 hf hlt hr heof hat hname ih =>
    have hb1 : Before rest c1 := Before.of_reach (forward_members _ _ c1) hg
    obtain ⟨_, d₂, h₂, rfl, hd⟩ := agree_field.ok_of_ok hc hf hb1
    rw [members.eq_def _ _ c₂]
    simp only [hc.kind hb]
    rw [if_pos hname, h₂]
    dsimp only
    rw [if_pos ((hc.remaining_lt_iff hd).mpr hlt)]
    exact ih d₂ hd hg hb1
  | case7 fs as c f c1 hf hlt hr heof hat hname =>
    obtain ⟨_, d₂, h₂, rfl, hd⟩ := agree_field.ok_of_ok hc hf hg
    rw [members.eq_def _ _ c₂]
    simp only [hc.kind hb]
    rw [if_pos hname, h₂]
    dsimp only
    rw [if_neg (mt (hc.remaining_lt_iff hd).mp hlt)]
    exact ⟨rfl, hd⟩
  | case8 fs as c e c1 hf hr heof hat hname =>
    obtain ⟨d₂, h₂, hd⟩ := agree_field.error_of_error hc hf hg
    rw [members.eq_def _ _ c₂]
    simp only [hc.kind hb]
    rw [if_pos hname, h₂]
    exact ⟨rfl, hd⟩
  | case9 fs as c hr heof hat hname =>
    rw [members.eq_def _ _ c₂]
    simp only [hc.kind hb]
    rw [if_neg hname]
    exact ⟨hc.unexpected hb, hc⟩

theorem agree_enumMembers (vs : List EnumValue) (as : List Attribute) :
    Agree n rest Eq (enumMembers vs as) (enumMembers vs as) := by
  refine ⟨forward_enumMembers vs as, fun c₁ c₂ hc hg => ?_⟩
  have hb : Before rest c₁ := Before.of_reach (forward_enumMembers vs as c₁) hg
  fun_induction enumMembers vs as c₁ generalizing c₂ with
  | case1 vs as c hk =>
    rw [enumMembers.eq_def _ _ c₂]
    simp only [hc.kind hb, hk]
    exact ⟨rfl, hc.advance hb⟩
  | case2 vs as c hk =>
    rw [enumMembers.eq_def _ _ c₂]
    simp only [hc.kind hb, hk, hc.expected hb]
    exact ⟨rfl, hc⟩
  | case3 vs as c hk a c1 ha hlt ih =>
    have hb1 : Before rest c1 := Before.of_reach (forward_enumMembers _ _ c1) hg
    obtain ⟨_, d₂, h₂, rfl, hd⟩ := agree_attr.ok_of_ok hc ha hb1
    rw [enumMembers.eq_def _ _ c₂]
    simp only [hc.kind hb, hk, h₂]
    rw [if_pos ((hc.remaining_lt_iff hd).mpr hlt)]
    exact ih d₂ hd hg hb1
  | case4 vs as c hk a c1 ha hlt =>
    obtain ⟨_, d₂, h₂, rfl, hd⟩ := agree_attr.ok_of_ok hc ha hg
    rw [enumMembers.eq_def _ _ c₂]
    simp only [hc.kind hb, hk, h₂]
    rw [if_neg (mt (hc.remaining_lt_iff hd).mp hlt)]
    exact ⟨rfl, hd⟩
  | case5 vs as c hk e c1 ha =>
    obtain ⟨d₂, h₂, hd⟩ := agree_attr.error_of_error hc ha hg
    rw [enumMembers.eq_def _ _ c₂]
    simp only [hc.kind hb, hk, h₂]
    exact ⟨rfl, hd⟩
  | case6 vs as c name bs c1 hbs hlt hr heof hat hname ih =>
    have hb1 : Before rest c1 := Before.of_reach (forward_enumMembers _ _ c1) hg
    obtain ⟨_, d₂, h₂, rfl, hd⟩ :=
      (agree_fieldAttributes []).ok_of_ok (hc.advance hb) hbs hb1
    rw [enumMembers.eq_def _ _ c₂]
    simp only [hc.kind hb, hc.current hb, Token.text_shiftLines]
    rw [if_pos hname, h₂]
    dsimp only
    rw [if_pos ((hc.remaining_lt_iff hd).mpr hlt)]
    exact ih d₂ hd hg hb1
  | case7 vs as c name bs c1 hbs hlt hr heof hat hname =>
    obtain ⟨_, d₂, h₂, rfl, hd⟩ := (agree_fieldAttributes []).ok_of_ok (hc.advance hb) hbs hg
    rw [enumMembers.eq_def _ _ c₂]
    simp only [hc.kind hb, hc.current hb, Token.text_shiftLines]
    rw [if_pos hname, h₂]
    dsimp only
    rw [if_neg (mt (hc.remaining_lt_iff hd).mp hlt)]
    exact ⟨rfl, hd⟩
  | case8 vs as c e c1 hbs hr heof hat hname =>
    obtain ⟨d₂, h₂, hd⟩ := (agree_fieldAttributes []).error_of_error (hc.advance hb) hbs hg
    rw [enumMembers.eq_def _ _ c₂]
    simp only [hc.kind hb]
    rw [if_pos hname, h₂]
    exact ⟨rfl, hd⟩
  | case9 vs as c hr heof hat hname =>
    rw [enumMembers.eq_def _ _ c₂]
    simp only [hc.kind hb]
    rw [if_neg hname]
    exact ⟨hc.unexpected hb, hc⟩

theorem agree_datasource : Agree n rest Eq datasource datasource :=
  (agree_header _).bind_eq fun _ => (agree_entries []).bind_eq fun _ => agree_pure rfl

theorem agree_generator : Agree n rest Eq generator generator :=
  (agree_header _).bind_eq fun _ => (agree_entries []).bind_eq fun _ => agree_pure rfl

theorem agree_model : Agree n rest Eq model model :=
  (agree_header _).bind_eq fun _ => (agree_members [] []).bind_eq fun _ => agree_pure rfl

theorem agree_compositeType : Agree n rest Eq compositeType compositeType :=
  (agree_header _).bind_eq fun _ => (agree_members [] []).bind_eq fun _ => agree_pure rfl

theorem agree_enumBlock : Agree n rest Eq enumBlock enumBlock :=
  (agree_header _).bind_eq fun _ => (agree_enumMembers [] []).bind_eq fun _ => agree_pure rfl

theorem agree_block : Agree n rest Eq block block := by
  refine agree_current.bind_token fun t => ?_
  simp only [Token.kind_shiftLines]
  split
  · exact agree_datasource.bind_eq fun _ => agree_pure rfl
  · exact agree_generator.bind_eq fun _ => agree_pure rfl
  · exact agree_model.bind_eq fun _ => agree_pure rfl
  · exact agree_enumBlock.bind_eq fun _ => agree_pure rfl
  · exact agree_compositeType.bind_eq fun _ => agree_pure rfl

/-! ## Recovery and the whole schema -/

theorem recover_shifted (base : Nat) {c₁ c₂ : Cursor} (hc : c₁.Shifted n rest c₂)
    (hg : Before rest (recover base c₁)) : (recover base c₁).Shifted n rest (recover base c₂) := by
  have hb : Before rest c₁ := Before.of_reach (reach_recover base c₁) hg
  fun_induction recover base c₁ generalizing c₂ with
  | case1 c heof =>
    rw [recover.eq_def base c₂, if_pos (by rw [hc.kind hb]; exact heof)]
    exact hc
  | case2 c heof hkw =>
    rw [recover.eq_def base c₂, if_neg (by rw [hc.kind hb]; exact heof),
      if_pos (by rw [hc.kind hb, hc.depth]; exact hkw)]
    exact hc
  | case3 c heof hkw c1 =>
    rename_i hr
    have ha := hc.advance hb
    rw [recover.eq_def base c₂, if_neg (by rw [hc.kind hb]; exact heof),
      if_neg (by rw [hc.kind hb, hc.depth]; exact hkw)]
    dsimp only
    rw [if_pos (by rw [hc.kind hb, ha.depth]; exact hr)]
    exact ha
  | case4 c heof hkw c1 hr hlt =>
    rename_i ih
    have ha := hc.advance hb
    rw [recover.eq_def base c₂, if_neg (by rw [hc.kind hb]; exact heof),
      if_neg (by rw [hc.kind hb, hc.depth]; exact hkw)]
    dsimp only
    rw [if_neg (by rw [hc.kind hb, ha.depth]; exact hr),
      if_pos ((hc.remaining_lt_iff ha).mpr hlt)]
    exact ih ha hg (Before.of_reach (reach_recover base _) hg)
  | case5 c heof hkw c1 hr =>
    rename_i hlt
    have ha := hc.advance hb
    rw [recover.eq_def base c₂, if_neg (by rw [hc.kind hb]; exact heof),
      if_neg (by rw [hc.kind hb, hc.depth]; exact hkw)]
    dsimp only
    rw [if_neg (by rw [hc.kind hb, ha.depth]; exact hr),
      if_neg (mt (hc.remaining_lt_iff ha).mp hlt)]
    exact ha

theorem blocks_shifted (s : Schema) (errs : List SyntaxError) {c₁ c₂ : Cursor}
    (hc : c₁.Shifted n none c₂) :
    blocks s (errs.map (SyntaxError.shiftLines n)) c₂ =
      ((blocks s errs c₁).1, (blocks s errs c₁).2.map (SyntaxError.shiftLines n)) := by
  have hk : ∀ {c d : Cursor}, c.Shifted n none d → d.kind = c.kind := fun h => h.kind (Before.none _)
  fun_induction blocks s errs c₁ generalizing c₂ with
  | case1 s errs c heof =>
    rw [blocks.eq_def s _ c₂, if_pos (by rw [hk hc]; exact heof)]
    simp [List.map_reverse]
  | case2 s errs c heof hill c1 hlt =>
    rename_i ih
    have ha := hc.advance (Before.none c)
    rw [blocks.eq_def s _ c₂, if_neg (by rw [hk hc]; exact heof),
      if_pos (by rw [hk hc]; exact hill)]
    dsimp only
    rw [if_pos ((hc.remaining_lt_iff ha).mpr hlt)]
    exact ih ha
  | case3 s errs c heof hill c1 =>
    rename_i hlt
    have ha := hc.advance (Before.none c)
    rw [blocks.eq_def s _ c₂, if_neg (by rw [hk hc]; exact heof),
      if_pos (by rw [hk hc]; exact hill)]
    dsimp only
    rw [if_neg (mt (hc.remaining_lt_iff ha).mp hlt)]
    simp [List.map_reverse]
  | case4 s errs c heof hill hkw b c1 hblk hlt ih =>
    obtain ⟨_, d₂, h₂, rfl, hd⟩ := agree_block.ok_of_ok hc hblk (Before.none c1)
    rw [blocks.eq_def s _ c₂, if_neg (by rw [hk hc]; exact heof),
      if_neg (by rw [hk hc]; exact hill), if_pos (by rw [hk hc]; exact hkw), h₂]
    dsimp only
    rw [if_pos ((hc.remaining_lt_iff hd).mpr hlt)]
    exact ih hd
  | case5 s errs c heof hill hkw b c1 hblk hlt =>
    obtain ⟨_, d₂, h₂, rfl, hd⟩ := agree_block.ok_of_ok hc hblk (Before.none c1)
    rw [blocks.eq_def s _ c₂, if_neg (by rw [hk hc]; exact heof),
      if_neg (by rw [hk hc]; exact hill), if_pos (by rw [hk hc]; exact hkw), h₂]
    dsimp only
    rw [if_neg (mt (hc.remaining_lt_iff hd).mp hlt)]
    simp [List.map_reverse]
  | case6 s errs c base heof hill hkw e c1 hblk c2 hlt =>
    rename_i ih
    obtain ⟨d₂, h₂, hd⟩ := agree_block.error_of_error hc hblk (Before.none c1)
    have hr := recover_shifted c.depth hd (Before.none _)
    rw [blocks.eq_def s _ c₂, if_neg (by rw [hk hc]; exact heof),
      if_neg (by rw [hk hc]; exact hill), if_pos (by rw [hk hc]; exact hkw), h₂]
    dsimp only
    rw [hc.depth, if_pos ((hc.remaining_lt_iff hr).mpr hlt)]
    have := ih hr
    rw [List.map_cons] at this
    exact this
  | case7 s errs c base heof hill hkw e c1 hblk c2 =>
    rename_i hlt
    obtain ⟨d₂, h₂, hd⟩ := agree_block.error_of_error hc hblk (Before.none c1)
    have hr := recover_shifted c.depth hd (Before.none _)
    rw [blocks.eq_def s _ c₂, if_neg (by rw [hk hc]; exact heof),
      if_neg (by rw [hk hc]; exact hill), if_pos (by rw [hk hc]; exact hkw), h₂]
    dsimp only
    rw [hc.depth, if_neg (mt (hc.remaining_lt_iff hr).mp hlt)]
    simp [List.map_reverse]
  | case8 s errs c heof hill hkw c1 hlt =>
    rename_i ih
    have ha := hc.advance (Before.none c)
    rw [blocks.eq_def s _ c₂, if_neg (by rw [hk hc]; exact heof),
      if_neg (by rw [hk hc]; exact hill), if_neg (by rw [hk hc]; exact hkw)]
    dsimp only
    rw [if_pos ((hc.remaining_lt_iff ha).mpr hlt), hc.unexpected (Before.none c)]
    have := ih ha
    rw [List.map_cons] at this
    exact this
  | case9 s errs c heof hill hkw c1 =>
    rename_i hlt
    have ha := hc.advance (Before.none c)
    rw [blocks.eq_def s _ c₂, if_neg (by rw [hk hc]; exact heof),
      if_neg (by rw [hk hc]; exact hill), if_neg (by rw [hk hc]; exact hkw)]
    dsimp only
    rw [if_neg (mt (hc.remaining_lt_iff ha).mp hlt), hc.unexpected (Before.none c)]
    simp [List.map_reverse]

end Parser

end DbSchema
