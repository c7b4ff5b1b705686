import DbSchema.Proofs.Grammar
import DbSchema.Proofs.RoundTrip

/-! # The parser reads every sentence of the grammar

Started at the tokens of a phrase of the strict grammar (`Grammar`), each reader of the parser
reads the whole phrase to the value the grammar gives it and stops right after it, whatever
follows, as long as the token after it is one the grammar allows there. A comma that the grammar
takes as a skipped item or argument may be taken by the parser as the separator after the one
before; both read as nothing (`IsItems.drop_comma`, `IsArguments.drop_comma`).

* `Parser.reads_valueAt_itemsAt`, then `Parser.valueAt_of_isValue`: values and the items of
  lists and calls, by strong induction on the tokens, as the two readers call each other.
* `Parser.argument_of_isArgument` up to `Parser.block_of_isBlock`: one lemma per phrase.
* `Parser.blocks_of_isSchema_append`, `Parser.blocks_of_isSchema`: a text whose tokens are a
  schema of the grammar reads with no error as the schema of the blocks the grammar reads off
  it, added to the blocks read before.
-/

namespace DbSchema

set_option autoImplicit false

open Cursor

namespace Grammar

theorem startsValue_of_isName {k : TokenKind} (h : k.isName = true) : startsValue k = true := by
  simp [startsValue, h]

theorem ne_eof_of_isName {k : TokenKind} (h : k.isName = true) : k ≠ .eof := by
  rintro rfl
  exact absurd h (by decide)

variable {strict : Bool}

theorem IsValue.ne_nil {d : Nat} {next : TokenKind} {ts : List (TokenKind × String)} {v : Value}
    (h : IsValue strict d next ts v) : ts ≠ [] := by
  cases h <;> simp

theorem IsValue.head {d : Nat} {next : TokenKind} {ts : List (TokenKind × String)} {v : Value}
    (h : IsValue strict d next ts v) : ∃ k x rest, ts = (k, x) :: rest ∧ startsValue k = true := by
  cases h with
  | ident hk => exact ⟨_, _, _, rfl, startsValue_of_isName hk⟩
  | call hk => exact ⟨_, _, _, rfl, startsValue_of_isName hk⟩
  | _ => exact ⟨_, _, _, rfl, rfl⟩

theorem IsItems.ne_nil {close : TokenKind} {d : Nat} {ts : List (TokenKind × String)}
    {vs : List Value} (h : IsItems strict close d ts vs) : ts ≠ [] := by
  cases h with
  | close => simp
  | value hv => simp [hv.ne_nil]
  | skip => simp

theorem IsItems.drop_comma {close : TokenKind} {d : Nat} {y : String}
    {ts : List (TokenKind × String)} {vs : List Value} (hclose : close ≠ .comma)
    (h : IsItems strict close d ((.comma, y) :: ts) vs) : IsItems strict close d ts vs := by
  generalize hus : (TokenKind.comma, y) :: ts = us at h
  cases h with
  | close => cases hus; exact absurd rfl hclose
  | value hv =>
    obtain ⟨k, x, r, rfl, hk⟩ := hv.head
    cases hus
    exact absurd hk (by decide)
  | @skip _ _ _ _ o _ _ _ _ _ hrest =>
    cases hus
    cases o with
    | none => exact hrest
    | some z => exact .skip (o := none) rfl (Ne.symm hclose) (by decide) hrest

theorem not_isName_of_startsValue {k : TokenKind} (h : startsValue k = false) :
    k.isName = false := by
  simp only [startsValue, Bool.or_eq_false_iff] at h
  exact h.2

theorem IsArgument.head {next : TokenKind} {ts : List (TokenKind × String)}
    {oa : Option Argument} (h : IsArgument strict next ts oa) :
    ∃ k x rest, ts = (k, x) :: rest ∧ k ≠ .rParen ∧ k ≠ .eof := by
  cases h with
  | named hk =>
    exact ⟨_, _, _, rfl, by rintro rfl; exact absurd hk (by decide), ne_eof_of_isName hk⟩
  | positional hv =>
    obtain ⟨k, x, rest, rfl, hk⟩ := hv.head
    refine ⟨k, x, rest, rfl, ?_, ?_⟩ <;> (rintro rfl; exact absurd hk (by decide))
  | skip _ hk he => exact ⟨_, _, _, rfl, hk, he⟩

theorem IsArguments.ne_nil {ts : List (TokenKind × String)} {as : List Argument}
    (h : IsArguments strict ts as) : ts ≠ [] := by
  cases h with
  | close => simp
  | cons ha =>
    obtain ⟨k, x, rest, rfl, -⟩ := ha.head
    simp

theorem IsArguments.drop_comma {y : String} {ts : List (TokenKind × String)} {as : List Argument}
    (h : IsArguments strict ((.comma, y) :: ts) as) : IsArguments strict ts as := by
  generalize hus : (TokenKind.comma, y) :: ts = us at h
  cases h with
  | close => cases hus
  | @cons _ _ o _ _ ha hrest =>
    cases ha with
    | named hk =>
      cases hus
      exact absurd hk (by decide)
    | positional hv =>
      obtain ⟨k, x, r, rfl, hk⟩ := hv.head
      cases hus
      exact absurd hk (by decide)
    | skip =>
      cases hus
      cases o with
      | none => exact hrest
      | some z => exact .cons (o := none) (.skip rfl (by decide) (by decide)) hrest

/-- The tokens that may follow a member of a model, type or enum body: the start of another
member, or the closing brace. -/
def StartsMember (k : TokenKind) : Prop :=
  k = .rBrace ∨ k = .doubleAtSign ∨ k.isName = true

theorem StartsMember.ne {k : TokenKind} (h : StartsMember k) :
    k ≠ .atSign ∧ k ≠ .lParen ∧ k ≠ .dot ∧ k ≠ .lBracket ∧ k ≠ .question := by
  rcases h with rfl | rfl | h
  · decide
  · decide
  · refine ⟨?_, ?_, ?_, ?_, ?_⟩ <;> (rintro rfl; exact absurd h (by decide))

theorem IsField.head {ts : List (TokenKind × String)} {f : Field} (h : IsField strict ts f) :
    ∃ k x rest, ts = (k, x) :: rest ∧ k.isName = true := by
  cases h with
  | mk hk => exact ⟨_, _, _, rfl, hk⟩

theorem IsField.ne_nil {ts : List (TokenKind × String)} {f : Field} (h : IsField strict ts f) :
    ts ≠ [] := by
  obtain ⟨k, x, rest, rfl, -⟩ := h.head
  simp

theorem IsMembers.starts {ts : List (TokenKind × String)} {fs : List Field} {as : List Attribute}
    (h : IsMembers strict ts fs as) {c : Cursor} (hc : c.Sees ts) : StartsMember c.kind := by
  cases h with
  | close => exact .inl (Sees.head hc).1
  | field hf =>
    obtain ⟨k, x, rest, rfl, hk⟩ := hf.head
    rw [List.cons_append] at hc
    exact .inr (.inr ((Sees.head hc).1 ▸ hk))
  | attr => exact .inr (.inl (Sees.head hc).1)

theorem IsEnumMembers.starts {ts : List (TokenKind × String)} {vs : List EnumValue}
    {as : List Attribute} (h : IsEnumMembers strict ts vs as) {c : Cursor} (hc : c.Sees ts) :
    StartsMember c.kind := by
  cases h with
  | close => exact .inl (Sees.head hc).1
  | value hk => exact .inr (.inr ((Sees.head hc).1 ▸ hk))
  | attr => exact .inr (.inl (Sees.head hc).1)

theorem IsEntries.ne_nil {ts : List (TokenKind × String)} {es : List ConfigEntry}
    (h : IsEntries strict ts es) : ts ≠ [] := by
  cases h <;> simp

theorem IsBlock.ne_nil {ts : List (TokenKind × String)} {b : Block} (h : IsBlock strict ts b) :
    ts ≠ [] := by
  cases h <;> simp

theorem IsBlock.keyword {ts : List (TokenKind × String)} {b : Block} (h : IsBlock strict ts b)
    {c : Cursor} (hc : c.Sees ts) : c.kind.isKeyword = true := by
  cases h <;> rw [(Sees.head hc).1] <;> rfl

theorem IsMarked.head {ts : List (TokenKind × String)} {as : List Attribute}
    (h : IsMarked strict ts as) : ts = [] ∨ ∃ o rest, ts = (.atSign, o) :: rest := by
  cases h with
  | nil => exact .inl rfl
  | cons => exact .inr ⟨_, _, rfl⟩

end Grammar

namespace Cursor

theorem Sees.kind_eq {c : Cursor} {ts : List (TokenKind × String)} (h : c.Sees ts)
    (hne : ts ≠ []) : c.kind = Grammar.nextKind ts := by
  obtain _ | ⟨⟨k, x⟩, ts⟩ := ts
  · exact absurd rfl hne
  · exact (Sees.head h).1

end Cursor

namespace Parser

open Grammar

/-! ## One branch of the value reader at a time -/

theorem valueAt_of_skip {d : Nat} {c : Cursor} (hs : startsValue c.kind = false)
    (he : c.kind ≠ .eof) : valueAt d c = .ok none c.advance := by
  simp only [startsValue, Bool.or_eq_false_iff, beq_eq_false_iff_ne, ne_eq] at hs
  simp only [Cursor.kind] at hs he
  rw [valueAt]
  cases hc : c.current.kind <;> simp_all [TokenKind.isName, TokenKind.isKeyword]

theorem valueAt_of_name {d : Nat} {c : Cursor} (hk : c.kind.isName = true)
    (hp : c.advance.kind ≠ .lParen) : valueAt d c = .ok (some (.ident c.current.text)) c.advance := by
  have hpeek : c.peek.kind ≠ .lParen := hp
  simp only [Cursor.kind] at hk hp
  rw [valueAt]
  cases hc : c.current.kind <;> simp_all [TokenKind.isName, TokenKind.isKeyword, Cursor.kind]

theorem valueAt_of_list {d : Nat} {c c' : Cursor} {vs : List Value} (hk : c.kind = .lBracket)
    (hd : d < maxNesting) (hv : itemsAt .rBracket (d + 1) [] c.advance = .ok vs c') :
    valueAt d c = .ok (some (.list vs)) c' := by
  have hlt := remaining_advance_lt (c := c) (by rw [hk]; decide)
  simp only [Cursor.kind] at hk
  rw [valueAt]
  simp [hk, Nat.not_le.mpr hd, hlt, hv]

theorem valueAt_of_call {d : Nat} {c c' : Cursor} {vs : List Value} (hk : c.kind.isName = true)
    (hp : c.advance.kind = .lParen) (hd : d < maxNesting)
    (hv : itemsAt .rParen (d + 1) [] c.advance.advance = .ok vs c') :
    valueAt d c = .ok (some (.call c.current.text vs)) c' := by
  have hpeek : c.peek.kind = .lParen := hp
  have hlt : c.advance.advance.remaining < c.remaining :=
    Nat.lt_of_le_of_lt (Reach.remaining_le (Reach.advance _))
      (remaining_advance_lt (ne_eof_of_isName hk))
  simp only [Cursor.kind] at hk hp
  rw [valueAt]
  cases hc : c.current.kind <;>
    simp_all [TokenKind.isName, TokenKind.isKeyword, Cursor.kind, Nat.not_le.mpr hd]

theorem itemsAt_of_skip {close : TokenKind} {d : Nat} {acc : List Value} {c : Cursor}
    (hk : c.kind ≠ close) (he : c.kind ≠ .eof) (hs : startsValue c.kind = false)
    (hlt : (if c.advance.kind = .comma then c.advance.advance else c.advance).remaining <
      c.remaining) :
    itemsAt close d acc c =
      itemsAt close d acc (if c.advance.kind = .comma then c.advance.advance else c.advance) := by
  rw [itemsAt]
  simp only [hk, he, or_self, if_false, valueAt_of_skip hs he]
  rw [if_pos hlt]

/-! ## Values and items -/

theorem sees_skipComma {P : List (TokenKind × String) → Prop}
    (hdrop : ∀ y r, P ((.comma, y) :: r) → P r) {o : Option String}
    {rest : List (TokenKind × String)} {c : Cursor} (hc : c.Sees (comma? o ++ rest))
    (hne : rest ≠ []) (hP : P rest) :
    ∃ r, P r ∧ r.length ≤ rest.length ∧ (if c.kind = .comma then c.advance else c).Sees r ∧
      advance^[r.length] (if c.kind = .comma then c.advance else c) =
        advance^[(comma? o ++ rest).length] c := by
  cases o with
  | some x =>
    obtain ⟨hk, -, -, hs⟩ := Sees.head hc
    refine ⟨rest, hP, le_rfl, by rw [if_pos hk]; exact hs, ?_⟩
    rw [if_pos hk]
    rfl
  | none =>
    simp only [comma?, List.nil_append] at hc ⊢
    by_cases hk : c.kind = .comma
    · obtain ⟨⟨k, y⟩, r, rfl⟩ := List.exists_cons_of_ne_nil hne
      obtain ⟨hk', -, -, hs⟩ := Sees.head hc
      rw [hk] at hk'
      subst hk'
      refine ⟨r, hdrop y r hP, by simp, by rw [if_pos hk]; exact hs, ?_⟩
      rw [if_pos hk]
      rfl
    · exact ⟨rest, hP, le_rfl, by rw [if_neg hk]; exact hc, by rw [if_neg hk]⟩

theorem reads_valueAt_itemsAt (n : Nat) : ∀ ts : List (TokenKind × String), ts.length = n →
    (∀ (d : Nat) (next : TokenKind) (v : Value) (c : Cursor), IsValue true d next ts v →
      c.Sees ts → (advance^[n] c).kind = next → valueAt d c = .ok (some v) (advance^[n] c)) ∧
    (∀ (close : TokenKind) (d : Nat) (vs acc : List Value) (c : Cursor),
      close = .rBracket ∨ close = .rParen → IsItems true close d ts vs → c.Sees ts →
      itemsAt close d acc c = .ok (acc.reverse ++ vs) (advance^[n] c)) := by
  induction n using Nat.strong_induction_on with
  | _ n ih =>
    intro ts hn
    subst hn
    refine ⟨fun d next v c hv hc hnext => ?_, fun close d vs acc c hclose hi hc => ?_⟩
    · cases hv with
      | str x | int x | float x | bool x =>
        obtain ⟨hk, hx, -⟩ := Sees.head hc
        simp only [Cursor.kind] at hk
        rw [valueAt]
        simp [hk, hx, TokenKind.isName, TokenKind.isKeyword]
      | ident hk hnl =>
        obtain ⟨hk', hx, -⟩ := Sees.head hc
        rw [← hx]
        exact valueAt_of_name (hk' ▸ hk) (hnext ▸ hnl rfl)
      | list hd hi =>
        obtain ⟨hk, -, -, hs⟩ := Sees.head hc
        rw [List.length_cons, Function.iterate_succ_apply]
        exact valueAt_of_list hk (hd rfl)
          ((ih _ (by simp) _ rfl).2 .rBracket _ _ [] _ (.inl rfl) hi hs)
      | call hk hd hi =>
        obtain ⟨hk₀, hx, -, hs₁⟩ := Sees.head hc
        obtain ⟨hk₁, -, -, hs₂⟩ := Sees.head hs₁
        rw [List.length_cons, List.length_cons, Function.iterate_succ_apply,
          Function.iterate_succ_apply, ← hx]
        exact valueAt_of_call (hk₀ ▸ hk) hk₁ (hd rfl)
          ((ih _ (by simp only [List.length_cons]; omega) _ rfl).2 .rParen _ _ [] _ (.inr rfl) hi hs₂)
    · have hclose' : close ≠ .comma ∧ startsValue close = false := by
        rcases hclose with rfl | rfl <;> decide
      cases hi with
      | close =>
        rw [itemsAt_of_close (Sees.head hc).1]
        simp
      | @value _ _ tv rest o v vs hv hrest =>
        rw [List.append_assoc] at hc ⊢
        obtain ⟨hcv, hcr⟩ := sees_append.1 hc
        have hne := hrest.ne_nil
        have hlen : tv.length < (tv ++ (comma? o ++ rest)).length := by
          have := List.length_pos_iff.mpr hne
          simp only [List.length_append]
          omega
        have hval := (ih _ (by simpa using hlen) tv rfl).1 d _ v c hv hcv
          (Sees.kind_eq hcr (by simp [hne]))
        obtain ⟨k, x, tv', rfl, hk⟩ := hv.head
        have hck : c.kind = k := (Sees.head hcv).1
        obtain ⟨r, hr, hrlen, hrs, hend⟩ :=
          sees_skipComma (P := fun r => IsItems true close d r vs)
            (fun _ _ h => h.drop_comma hclose'.1) hcr hne hrest
        have hlt := Nat.lt_of_le_of_lt (Reach.remaining_le (reach_skip_comma _))
          (Sees.remaining_lt hcv (List.cons_ne_nil _ _))
        rw [itemsAt_of_value (by rw [hck]; rintro rfl; rw [hclose'.2] at hk; cases hk)
          (by rw [hck]; rintro rfl; exact absurd hk (by decide)) hval hlt,
          (ih _ (by simp only [List.length_append, List.length_cons] at hrlen ⊢; omega) r rfl).2
            close d vs (v :: acc) _ hclose hr hrs, hend, iterate_length_append ((k, x) :: tv')]
        simp
      | @skip _ _ k x o rest vs hs hk he hrest =>
        obtain ⟨hck, -, -, hcr⟩ := Sees.head hc
        have hne := hrest.ne_nil
        obtain ⟨r, hr, hrlen, hrs, hend⟩ :=
          sees_skipComma (P := fun r => IsItems true close d r vs)
            (fun _ _ h => h.drop_comma hclose'.1) hcr hne hrest
        have hlt := Nat.lt_of_le_of_lt (Reach.remaining_le (reach_skip_comma _))
          (remaining_advance_lt (c := c) (by rw [hck]; exact he))
        rw [itemsAt_of_skip (by rw [hck]; exact hk) (by rw [hck]; exact he) (by rw [hck]; exact hs)
          hlt, (ih _ (by simp only [List.length_append, List.length_cons] at hrlen ⊢; omega) r
            rfl).2 close d vs acc _ hclose hr hrs, hend, List.cons_append, List.length_cons,
          Function.iterate_succ_apply]

theorem valueAt_of_isValue {d : Nat} {next : TokenKind} {ts : List (TokenKind × String)}
    {v : Value} (hv : IsValue true d next ts v) {c : Cursor} (hc : c.Sees ts)
    (hnext : (advance^[ts.length] c).kind = next) :
    valueAt d c = .ok (some v) (advance^[ts.length] c) :=
  (reads_valueAt_itemsAt _ ts rfl).1 d next v c hv hc hnext

/-! ## Arguments -/

theorem value_of_isSlot {follow : TokenKind} {ts : List (TokenKind × String)} {o : Option Value}
    (h : IsSlot true follow ts o) {c : Cursor} (hc : c.Sees ts)
    (hnext : (advance^[ts.length] c).kind = follow) : value c = .ok o (advance^[ts.length] c) := by
  cases h with
  | value hv => exact valueAt_of_isValue hv hc hnext
  | skip hs he =>
    obtain ⟨hk, -⟩ := Sees.head hc
    exact valueAt_of_skip (hk ▸ hs) (hk ▸ he)

theorem not_named_of_isValue {follow : TokenKind} {ts : List (TokenKind × String)} {v : Value}
    (hv : IsValue true 0 follow ts v) (hpos : ∀ x, v = .ident x → follow ≠ .colon ∧ follow ≠ .equals)
    {c : Cursor} (hc : c.Sees ts) (hnext : (advance^[ts.length] c).kind = follow) :
    (c.kind.isName && (c.peek.kind == .colon || c.peek.kind == .equals)) = false := by
  cases hv with
  | ident =>
    have hpeek : c.peek.kind = follow := hnext
    obtain ⟨hcolon, hequals⟩ := hpos _ rfl
    simp [hpeek, hcolon, hequals]
  | call =>
    have hpeek : c.peek.kind = .lParen := (Sees.head (Sees.head hc).2.2.2).1
    simp [hpeek]
  | _ =>
    rw [(Sees.head hc).1]
    rfl

theorem argument_of_isArgument {follow : TokenKind} {ts : List (TokenKind × String)}
    {oa : Option Argument} (h : IsArgument true follow ts oa) {c : Cursor} (hc : c.Sees ts)
    (hnext : (advance^[ts.length] c).kind = follow) :
    argument c = .ok oa (advance^[ts.length] c) := by
  unfold argument
  rw [run_bind_of_ok (rfl : (get : Parser Cursor) c = .ok c c)]
  cases h with
  | named hk hs hslot =>
    obtain ⟨hk₀, hx, -, hs₁⟩ := Sees.head hc
    obtain ⟨hk₁, -, -, hs₂⟩ := Sees.head hs₁
    have hpeek : c.peek.kind = c.advance.kind := rfl
    simp only [List.length_cons, Function.iterate_succ_apply] at hnext ⊢
    rw [if_pos (by rcases hs with rfl | rfl <;> simp [hk₀, hk, hpeek, hk₁]),
      run_bind_of_ok (rfl : next c = _), run_bind_of_ok (rfl : next c.advance = _),
      run_bind_of_ok (x := Parser.value) (value_of_isSlot hslot hs₂ hnext), hx]
    rfl
  | positional hv hpos =>
    rw [not_named_of_isValue hv (hpos rfl) hc hnext, if_neg Bool.false_ne_true,
      run_bind_of_ok (x := Parser.value) (valueAt_of_isValue hv hc hnext)]
    rfl
  | skip hs hk he =>
    obtain ⟨hk₀, -⟩ := Sees.head hc
    rw [if_neg (by simp [hk₀, not_isName_of_startsValue hs]),
      run_bind_of_ok (x := Parser.value) (valueAt_of_skip (hk₀ ▸ hs) (hk₀ ▸ he))]
    rfl

theorem arguments_of_read {acc : List Argument} {c c1 : Cursor} {oa : Option Argument}
    (hk : c.kind ≠ .rParen) (he : c.kind ≠ .eof) (ha : argument c = .ok oa c1)
    (hlt : (if c1.kind = .comma then c1.advance else c1).remaining < c.remaining) :
    arguments acc c = arguments (oa.toList ++ acc) (if c1.kind = .comma then c1.advance else c1) := by
  rw [arguments]
  simp only [hk, he, or_self, if_false, ha]
  rw [if_pos hlt]
  cases oa <;> rfl

theorem arguments_of_isArguments (n : Nat) : ∀ ts : List (TokenKind × String), ts.length = n →
    ∀ (as acc : List Argument) (c : Cursor), IsArguments true ts as → c.Sees ts →
    ∃ c', arguments acc c = .ok (acc.reverse ++ as) c' ∧ c'.kind = .rParen ∧
      c'.advance = advance^[n] c := by
  induction n using Nat.strong_induction_on with
  | _ n ih =>
    intro ts hn as acc c h hc
    subst hn
    cases h with
    | close =>
      obtain ⟨hk, -⟩ := Sees.head hc
      exact ⟨c, by rw [arguments_of_close hk]; simp, hk, rfl⟩
    | @cons ta rest o oa bs ha hrest =>
      rw [List.append_assoc] at hc ⊢
      obtain ⟨hca, hcr⟩ := sees_append.1 hc
      have hne := hrest.ne_nil
      have harg := argument_of_isArgument ha hca (Sees.kind_eq hcr (by simp [hne]))
      obtain ⟨k, x, ta', rfl, hk, he⟩ := ha.head
      have hck : c.kind = k := (Sees.head hca).1
      obtain ⟨r, hr, hrlen, hrs, hend⟩ := sees_skipComma (P := fun r => IsArguments true r bs)
        (fun _ _ h => h.drop_comma) hcr hne hrest
      have hlt := Nat.lt_of_le_of_lt (Reach.remaining_le (reach_skip_comma _))
        (Sees.remaining_lt hca (List.cons_ne_nil _ _))
      obtain ⟨c', hread, hk', hadv⟩ := ih r.length
        (by simp only [List.length_append, List.length_cons] at hrlen ⊢; omega) r rfl bs
        (oa.toList ++ acc) _ hr hrs
      refine ⟨c', ?_, hk', ?_⟩
      · rw [arguments_of_read (hck ▸ hk) (hck ▸ he) harg hlt, hread]
        cases oa <;> simp
      · rw [hadv, hend, iterate_length_append ((k, x) :: ta')]

/-! ## Attributes -/

theorem dottedName_of_isDotted {ts : List (TokenKind × String)} {ps : List String}
    (h : IsDotted ts ps) {acc o : String} {c : Cursor} (hc : c.Sees ((.dot, o) :: ts))
    (hnext : (advance^[((.dot, o) :: ts).length] c).kind ≠ .dot) :
    dottedName acc c = .ok (".".intercalate (acc :: ps)) (advance^[((.dot, o) :: ts).length] c) := by
  induction h generalizing acc o c with
  | one hk =>
    obtain ⟨hk₀, -, hlt₁, hs₁⟩ := Sees.head hc
    obtain ⟨hk₁, hx₁, hlt₂, -⟩ := Sees.head hs₁
    simp only [List.length_cons, List.length_nil, Function.iterate_succ_apply,
      Function.iterate_zero_apply] at hnext ⊢
    rw [dottedName, if_pos hk₀, expectName_of_name (hk₁ ▸ hk)]
    dsimp only
    rw [if_pos (Nat.lt_trans hlt₂ hlt₁), dottedName, if_neg hnext, hx₁]
    simp [String.intercalate_cons_cons]
  | @dot k x o' ts ps hk hd ih =>
    obtain ⟨hk₀, -, hlt₁, hs₁⟩ := Sees.head hc
    obtain ⟨hk₁, hx₁, hlt₂, hs₂⟩ := Sees.head hs₁
    have hlen : ((TokenKind.dot, o) :: (k, x) :: (TokenKind.dot, o') :: ts).length =
        ((TokenKind.dot, o') :: ts).length + 1 + 1 := rfl
    rw [hlen, Function.iterate_succ_apply, Function.iterate_succ_apply] at hnext ⊢
    rw [dottedName, if_pos hk₀, expectName_of_name (hk₁ ▸ hk)]
    dsimp only
    rw [if_pos (Nat.lt_trans hlt₂ hlt₁), hx₁, ih hs₂ hnext, String.intercalate_append_cons]

theorem name_of_isDotted {ts : List (TokenKind × String)} {ps : List String} (h : IsDotted ts ps)
    {c : Cursor} (hc : c.Sees ts) (hnext : (advance^[ts.length] c).kind ≠ .dot) :
    ∃ x, expectName c = .ok x c.advance ∧
      dottedName x c.advance = .ok (".".intercalate ps) (advance^[ts.length] c) := by
  cases h with
  | one hk =>
    obtain ⟨hk₀, hx, -⟩ := Sees.head hc
    refine ⟨_, expectName_of_name (hk₀ ▸ hk), ?_⟩
    have hdot : c.advance.kind ≠ .dot := hnext
    rw [dottedName, if_neg hdot, hx]
    rfl
  | @dot k x o ts ps hk hd =>
    obtain ⟨hk₀, hx, -, hs⟩ := Sees.head hc
    refine ⟨_, expectName_of_name (hk₀ ▸ hk), ?_⟩
    have hlen : ((k, x) :: (TokenKind.dot, o) :: ts).length = ((TokenKind.dot, o) :: ts).length + 1 :=
      rfl
    rw [hlen, Function.iterate_succ_apply] at hnext ⊢
    rw [dottedName_of_isDotted hd hs hnext, hx]

theorem attr_of_isAttribute {ts : List (TokenKind × String)} {a : Attribute}
    (h : IsAttribute true ts a) {m : TokenKind} {y : String} {c : Cursor}
    (hc : c.Sees ((m, y) :: ts))
    (hnext : (advance^[((m, y) :: ts).length] c).kind ≠ .lParen ∧
      (advance^[((m, y) :: ts).length] c).kind ≠ .dot) :
    attr c = .ok a (advance^[((m, y) :: ts).length] c) := by
  obtain ⟨-, -, -, hs⟩ := Sees.head hc
  rw [List.length_cons, Function.iterate_succ_apply] at hnext ⊢
  unfold attr
  rw [run_bind_of_ok (rfl : next c = _)]
  cases h with
  | plain hd =>
    obtain ⟨x, hx, hname⟩ := name_of_isDotted hd hs hnext.2
    have hparen : (advance^[ts.length] c.advance).current.kind ≠ .lParen := hnext.1
    rw [run_bind_of_ok hx, run_bind_of_ok hname, current_bind, if_neg hparen]
    rfl
  | @args td us ps o as hd hargs =>
    obtain ⟨hsd, hsa⟩ := sees_append.1 hs
    obtain ⟨hk, -, -, hsu⟩ := Sees.head hsa
    obtain ⟨x, hx, hname⟩ := name_of_isDotted hd hsd (by rw [hk]; decide)
    obtain ⟨c', hread, hk', hadv⟩ := arguments_of_isArguments _ us rfl as [] _ hargs hsu
    have hparen : (advance^[td.length] c.advance).current.kind = .lParen := hk
    rw [run_bind_of_ok hx, run_bind_of_ok hname, current_bind, if_pos hparen,
      run_bind_of_ok (rfl : next _ = _), run_bind_of_ok hread, run_bind_of_ok (expect_of_kind hk'),
      hadv, iterate_length_append, List.length_cons, Function.iterate_succ_apply]
    rfl

theorem fieldAttributes_of_isMarked {ts : List (TokenKind × String)} {as : List Attribute}
    (h : IsMarked true ts as) {acc : List Attribute} {c : Cursor} (hc : c.Sees ts)
    (hnext : (advance^[ts.length] c).kind ≠ .atSign ∧ (advance^[ts.length] c).kind ≠ .lParen ∧
      (advance^[ts.length] c).kind ≠ .dot) :
    fieldAttributes acc c = .ok (acc.reverse ++ as) (advance^[ts.length] c) := by
  induction h generalizing acc c with
  | nil =>
    simp only [List.length_nil, Function.iterate_zero_apply] at hnext ⊢
    rw [fieldAttributes, if_neg hnext.1]
    simp
  | @cons o ta rest a as ha hrest ih =>
    obtain ⟨hca, hcr⟩ := sees_append.1 hc
    rw [iterate_length_append] at hnext ⊢
    have hfollow : (advance^[((TokenKind.atSign, o) :: ta).length] c).kind ≠ .lParen ∧
        (advance^[((TokenKind.atSign, o) :: ta).length] c).kind ≠ .dot := by
      rcases hrest.head with rfl | ⟨o', r, rfl⟩
      · exact hnext.2
      · rw [(Sees.head hcr).1]
        decide
    rw [fieldAttributes, if_pos (Sees.head hca).1, attr_of_isAttribute ha hca hfollow]
    dsimp only
    rw [if_pos (Sees.remaining_lt hca (List.cons_ne_nil _ _)), ih hcr hnext]
    simp

/-! ## Field types -/

theorem typeName_of_isTypeName {ts : List (TokenKind × String)} {base : TypeName}
    (h : IsTypeName ts base) {c : Cursor} (hc : c.Sees ts) :
    typeName c = .ok base (advance^[ts.length] c) := by
  unfold typeName
  cases h with
  | named hn =>
    obtain ⟨hk₀, hx, -⟩ := Sees.head hc
    rw [run_bind_of_ok (expectIdent_of_ident hk₀), hx, if_neg hn]
    rfl
  | unsupported =>
    obtain ⟨hk₀, hx, -, hs₁⟩ := Sees.head hc
    obtain ⟨hk₁, -, -, hs₂⟩ := Sees.head hs₁
    obtain ⟨hk₂, hx₂, -, hs₃⟩ := Sees.head hs₂
    obtain ⟨hk₃, -, -, -⟩ := Sees.head hs₃
    rw [run_bind_of_ok (expectIdent_of_ident hk₀), hx, if_pos rfl,
      run_bind_of_ok (expect_of_kind hk₁), run_bind_of_ok (expect_of_kind hk₂),
      run_bind_of_ok (expect_of_kind hk₃), hx₂]
    rfl

theorem arraySuffix_of_isArrayMark {ts : List (TokenKind × String)} {b : Bool}
    (h : IsArrayMark ts b) {c : Cursor} (hc : c.Sees ts) (hnext : b = false → c.kind ≠ .lBracket) :
    arraySuffix c = .ok b (advance^[ts.length] c) := by
  unfold arraySuffix
  rw [run_bind_of_ok (rfl : (get : Parser Cursor) c = .ok c c)]
  cases h with
  | no =>
    rw [if_neg (fun h => hnext rfl h.1)]
    rfl
  | yes =>
    obtain ⟨hk, -, -, hs⟩ := Sees.head hc
    have hpeek : c.peek.kind = .rBracket := (Sees.head hs).1
    rw [if_pos ⟨hk, hpeek⟩, run_bind_of_ok (rfl : next c = _), run_bind_of_ok (rfl : next _ = _)]
    rfl

theorem optionalMark_of_isOptionalMark {ts : List (TokenKind × String)} {b : Bool}
    (h : IsOptionalMark ts b) {c : Cursor} (hc : c.Sees ts) (hnext : b = false → c.kind ≠ .question) :
    optionalMark c = .ok b (advance^[ts.length] c) := by
  unfold optionalMark
  rw [current_bind]
  cases h with
  | no =>
    have hk : c.current.kind ≠ .question := hnext rfl
    rw [if_neg hk]
    rfl
  | yes =>
    have hk : c.current.kind = .question := (Sees.head hc).1
    rw [if_pos hk, run_bind_of_ok (rfl : next c = _)]
    rfl

theorem fieldType_of_isFieldType {ts : List (TokenKind × String)} {t : FieldType}
    (h : IsFieldType ts t) {c : Cursor} (hc : c.Sees ts)
    (hnext : (advance^[ts.length] c).kind ≠ .lBracket ∧ (advance^[ts.length] c).kind ≠ .question) :
    fieldType c = .ok t (advance^[ts.length] c) := by
  cases h with
  | @mk tb ua wo base arr opt hb ha ho =>
  obtain ⟨hba, hopt⟩ := sees_append.1 hc
  obtain ⟨hbase, harr⟩ := sees_append.1 hba
  simp only [iterate_length_append] at hnext hopt ⊢
  have hnoarr : arr = false → (advance^[tb.length] c).kind ≠ .lBracket := by
    rintro rfl
    cases ha
    cases ho with
    | no => exact hnext.1
    | yes =>
      have hq : (advance^[tb.length] c).kind = .question := (Sees.head hopt).1
      rw [hq]
      decide
  have hnoopt : opt = false → (advance^[ua.length] (advance^[tb.length] c)).kind ≠ .question := by
    rintro rfl
    cases ho
    exact hnext.2
  rw [fieldType_eq, run_bind_of_ok (typeName_of_isTypeName hb hbase),
    run_bind_of_ok (arraySuffix_of_isArrayMark ha harr hnoarr),
    run_bind_of_ok (optionalMark_of_isOptionalMark ho hopt hnoopt)]
  rfl

/-! ## Bodies -/

theorem field_of_isField_of_ne {ts : List (TokenKind × String)} {f : Field}
    (h : IsField true ts f) {c : Cursor} (hc : c.Sees ts)
    (hend : (advance^[ts.length] c).kind ≠ .atSign ∧ (advance^[ts.length] c).kind ≠ .lParen ∧
      (advance^[ts.length] c).kind ≠ .dot ∧ (advance^[ts.length] c).kind ≠ .lBracket ∧
      (advance^[ts.length] c).kind ≠ .question) :
    field c = .ok f (advance^[ts.length] c) := by
  cases h with
  | @mk k x tt us t as hk ht hm =>
  obtain ⟨hct, hcu⟩ := sees_append.1 hc
  obtain ⟨hk₀, hx, -, hst⟩ := Sees.head hct
  rw [iterate_length_append] at hend ⊢
  rw [List.length_cons, Function.iterate_succ_apply] at hend hcu ⊢
  have htype : (advance^[tt.length] c.advance).kind ≠ .lBracket ∧
      (advance^[tt.length] c.advance).kind ≠ .question := by
    rcases hm.head with rfl | ⟨o, r, rfl⟩
    · exact ⟨hend.2.2.2.1, hend.2.2.2.2⟩
    · rw [(Sees.head hcu).1]
      exact ⟨by decide, by decide⟩
  unfold field
  rw [run_bind_of_ok (expectName_of_name (hk₀ ▸ hk)),
    run_bind_of_ok (fieldType_of_isFieldType ht hst htype),
    run_bind_of_ok (fieldAttributes_of_isMarked hm hcu ⟨hend.1, hend.2.1, hend.2.2.1⟩), hx]
  rfl

theorem field_of_isField {ts : List (TokenKind × String)} {f : Field} (h : IsField true ts f)
    {c : Cursor} (hc : c.Sees ts) (hnext : StartsMember (advance^[ts.length] c).kind) :
    field c = .ok f (advance^[ts.length] c) :=
  field_of_isField_of_ne h hc hnext.ne

theorem members_of_close {fs : List Field} {as : List Attribute} {c : Cursor}
    (hk : c.kind = .rBrace) : members fs as c = .ok (fs.reverse, as.reverse) c.advance := by
  rw [members]
  simp [hk]

theorem members_of_attr {fs : List Field} {as : List Attribute} {c c1 : Cursor} {a : Attribute}
    (hk : c.kind = .doubleAtSign) (ha : attr c = .ok a c1) (hlt : c1.remaining < c.remaining) :
    members fs as c = members fs (a :: as) c1 := by
  rw [members]
  simp [hk, ha, hlt]

theorem members_of_field {fs : List Field} {as : List Attribute} {c c1 : Cursor} {f : Field}
    (hk : c.kind.isName = true) (hf : field c = .ok f c1) (hlt : c1.remaining < c.remaining) :
    members fs as c = members (f :: fs) as c1 := by
  rw [members]
  cases h : c.kind <;> simp_all [TokenKind.isName, TokenKind.isKeyword]

theorem members_of_isMembers {ts : List (TokenKind × String)} {fs : List Field}
    {as : List Attribute} (h : IsMembers true ts fs as) {fs₀ : List Field} {as₀ : List Attribute}
    {c : Cursor} (hc : c.Sees ts) :
    members fs₀ as₀ c = .ok (fs₀.reverse ++ fs, as₀.reverse ++ as) (advance^[ts.length] c) := by
  induction h generalizing fs₀ as₀ c with
  | close =>
    rw [members_of_close (Sees.head hc).1]
    simp
  | @field tf rest f fs as hf hrest ih =>
    obtain ⟨hcf, hcr⟩ := sees_append.1 hc
    obtain ⟨k, x, tf', rfl, hk⟩ := hf.head
    rw [members_of_field ((Sees.head hcf).1 ▸ hk) (field_of_isField hf hcf (hrest.starts hcr))
      (Sees.remaining_lt hcf (List.cons_ne_nil _ _)), ih hcr, iterate_length_append]
    simp
  | @attr o ta rest a fs as ha hrest ih =>
    obtain ⟨hca, hcr⟩ := sees_append.1 hc
    have hend := (hrest.starts hcr).ne
    rw [members_of_attr (Sees.head hca).1 (attr_of_isAttribute ha hca ⟨hend.2.1, hend.2.2.1⟩)
      (Sees.remaining_lt hca (List.cons_ne_nil _ _)), ih hcr, iterate_length_append]
    simp

theorem enumMembers_of_close {vs : List EnumValue} {as : List Attribute} {c : Cursor}
    (hk : c.kind = .rBrace) : enumMembers vs as c = .ok (vs.reverse, as.reverse) c.advance := by
  rw [enumMembers]
  simp [hk]

theorem enumMembers_of_attr {vs : List EnumValue} {as : List Attribute} {c c1 : Cursor}
    {a : Attribute} (hk : c.kind = .doubleAtSign) (ha : attr c = .ok a c1)
    (hlt : c1.remaining < c.remaining) : enumMembers vs as c = enumMembers vs (a :: as) c1 := by
  rw [enumMembers]
  simp [hk, ha, hlt]

theorem enumMembers_of_value {vs : List EnumValue} {as bs : List Attribute} {c c1 : Cursor}
    (hk : c.kind.isName = true) (hb : fieldAttributes [] c.advance = .ok bs c1)
    (hlt : c1.remaining < c.remaining) :
    enumMembers vs as c = enumMembers (⟨c.current.text, bs⟩ :: vs) as c1 := by
  rw [enumMembers]
  cases h : c.kind <;> simp_all [TokenKind.isName, TokenKind.isKeyword]

theorem enumMembers_of_isEnumMembers {ts : List (TokenKind × String)} {vs : List EnumValue}
    {as : List Attribute} (h : IsEnumMembers true ts vs as) {vs₀ : List EnumValue}
    {as₀ : List Attribute} {c : Cursor} (hc : c.Sees ts) :
    enumMembers vs₀ as₀ c = .ok (vs₀.reverse ++ vs, as₀.reverse ++ as) (advance^[ts.length] c) := by
  induction h generalizing vs₀ as₀ c with
  | close =>
    rw [enumMembers_of_close (Sees.head hc).1]
    simp
  | @value k x tm rest bs vs as hk hm hrest ih =>
    obtain ⟨hcm, hcr⟩ := sees_append.1 hc
    obtain ⟨hk₀, hx, -, hsm⟩ := Sees.head hcm
    have hend := (hrest.starts hcr).ne
    rw [List.length_cons, Function.iterate_succ_apply] at hcr hend
    rw [enumMembers_of_value (hk₀ ▸ hk)
      (fieldAttributes_of_isMarked hm hsm ⟨hend.1, hend.2.1, hend.2.2.1⟩)
      (Sees.remaining_lt hcm (List.cons_ne_nil _ _)), ih hcr, iterate_length_append,
      List.length_cons, Function.iterate_succ_apply, hx]
    simp
  | @attr o ta rest a vs as ha hrest ih =>
    obtain ⟨hca, hcr⟩ := sees_append.1 hc
    have hend := (hrest.starts hcr).ne
    rw [enumMembers_of_attr (Sees.head hca).1 (attr_of_isAttribute ha hca ⟨hend.2.1, hend.2.2.1⟩)
      (Sees.remaining_lt hca (List.cons_ne_nil _ _)), ih hcr, iterate_length_append]
    simp

theorem entries_of_close {acc : List ConfigEntry} {c : Cursor} (hk : c.kind = .rBrace) :
    entries acc c = .ok acc.reverse c.advance := by
  rw [entries]
  simp [hk]

theorem entries_of_entry {acc : List ConfigEntry} {c c1 : Cursor} {oe : Option ConfigEntry}
    (hk : c.kind.isName = true) (he : entry c = .ok oe c1) (hlt : c1.remaining < c.remaining) :
    entries acc c = entries (oe.toList ++ acc) c1 := by
  rw [entries]
  cases oe <;> cases h : c.kind <;> simp_all [TokenKind.isName, TokenKind.isKeyword]

theorem entry_of_isSlot {k : TokenKind} {x y : String} {ts : List (TokenKind × String)}
    {follow : TokenKind} {o : Option Value} (h : IsSlot true follow ts o) {c : Cursor}
    (hc : c.Sees ((k, x) :: (.equals, y) :: ts))
    (hnext : (advance^[ts.length] c.advance.advance).kind = follow) :
    entry c = .ok (o.map fun v => ⟨x, v⟩) (advance^[ts.length] c.advance.advance) := by
  obtain ⟨-, hx, -, hs₁⟩ := Sees.head hc
  obtain ⟨hk₁, -, -, hs₂⟩ := Sees.head hs₁
  unfold entry
  rw [run_bind_of_ok (rfl : next c = _), run_bind_of_ok (expect_of_kind hk₁),
    run_bind_of_ok (x := Parser.value) (value_of_isSlot h hs₂ hnext), hx]
  rfl

theorem entries_of_isEntries {ts : List (TokenKind × String)} {es : List ConfigEntry}
    (h : IsEntries true ts es) {acc : List ConfigEntry} {c : Cursor} (hc : c.Sees ts) :
    entries acc c = .ok (acc.reverse ++ es) (advance^[ts.length] c) := by
  induction h generalizing acc c with
  | close =>
    rw [entries_of_close (Sees.head hc).1]
    simp
  | @entry k x y ts rest o es hk hslot hrest ih =>
    obtain ⟨hcs, hcr⟩ := sees_append.1 hc
    have hk₀ := (Sees.head hcs).1
    rw [List.length_cons, List.length_cons, Function.iterate_succ_apply,
      Function.iterate_succ_apply] at hcr
    rw [entries_of_entry (hk₀ ▸ hk) (entry_of_isSlot hslot hcs (Sees.kind_eq hcr hrest.ne_nil))
      (Sees.remaining_lt hcs (List.cons_ne_nil _ _)), ih hcr, iterate_length_append,
      List.length_cons, List.length_cons, Function.iterate_succ_apply, Function.iterate_succ_apply]
    cases o <;> simp

/-! ## Blocks -/

theorem header_of_sees {k : TokenKind} {kw n o : String} {ts : List (TokenKind × String)}
    {c : Cursor} (hc : c.Sees ((k, kw) :: (.ident, n) :: (.lBrace, o) :: ts)) :
    header k c = .ok n c.advance.advance.advance := by
  obtain ⟨hk₀, -, -, hs₁⟩ := Sees.head hc
  obtain ⟨hk₁, hx₁, -, hs₂⟩ := Sees.head hs₁
  obtain ⟨hk₂, -, -, -⟩ := Sees.head hs₂
  unfold header
  rw [run_bind_of_ok (expect_of_kind hk₀), run_bind_of_ok (expectIdent_of_ident hk₁),
    run_bind_of_ok (expect_of_kind hk₂), hx₁]
  rfl

theorem block_of_isBlock {ts : List (TokenKind × String)} {b : Block} (h : IsBlock true ts b)
    {c : Cursor} (hc : c.Sees ts) : block c = .ok b (advance^[ts.length] c) := by
  have hs := fun {k : TokenKind} {kw n o : String} {ts : List (TokenKind × String)}
    (hc : c.Sees ((k, kw) :: (.ident, n) :: (.lBrace, o) :: ts)) =>
    (Sees.head (Sees.head (Sees.head hc).2.2.2).2.2.2).2.2.2
  unfold block
  rw [current_bind]
  cases h with
  | @datasource kw n o ts es he =>
    have hd : datasource c = .ok ⟨n, es⟩ (advance^[ts.length] c.advance.advance.advance) := by
      unfold datasource
      rw [run_bind_of_ok (header_of_sees hc), run_bind_of_ok (entries_of_isEntries he (hs hc))]
      rfl
    simp only [show c.current.kind = .datasource from (Sees.head hc).1]
    exact run_bind_of_ok hd
  | @generator kw n o ts es he =>
    have hg : generator c = .ok ⟨n, es⟩ (advance^[ts.length] c.advance.advance.advance) := by
      unfold generator
      rw [run_bind_of_ok (header_of_sees hc), run_bind_of_ok (entries_of_isEntries he (hs hc))]
      rfl
    simp only [show c.current.kind = .generator from (Sees.head hc).1]
    exact run_bind_of_ok hg
  | @model kw n o ts fs as hm =>
    have hmodel : model c = .ok ⟨n, fs, as⟩ (advance^[ts.length] c.advance.advance.advance) := by
      unfold model
      rw [run_bind_of_ok (header_of_sees hc), run_bind_of_ok (members_of_isMembers hm (hs hc))]
      rfl
    simp only [show c.current.kind = .model from (Sees.head hc).1]
    exact run_bind_of_ok hmodel
  | @type kw n o ts fs as hm =>
    have ht : compositeType c = .ok ⟨n, fs, as⟩ (advance^[ts.length] c.advance.advance.advance) := by
      unfold compositeType
      rw [run_bind_of_ok (header_of_sees hc), run_bind_of_ok (members_of_isMembers hm (hs hc))]
      rfl
    simp only [show c.current.kind = .type from (Sees.head hc).1]
    exact run_bind_of_ok ht
  | @enum kw n o ts vs as he =>
    have he' : enumBlock c = .ok ⟨n, vs, as⟩ (advance^[ts.length] c.advance.advance.advance) := by
      unfold enumBlock
      rw [run_bind_of_ok (header_of_sees hc),
        run_bind_of_ok (enumMembers_of_isEnumMembers he (hs hc))]
      rfl
    simp only [show c.current.kind = .enum from (Sees.head hc).1]
    exact run_bind_of_ok he'

theorem blocks_of_illegal {s : Schema} {errs : List SyntaxError} {c : Cursor}
    (hk : c.kind = .illegal) : blocks s errs c = blocks s errs c.advance := by
  have heof : c.kind ≠ .eof := by rw [hk]; decide
  rw [blocks.eq_def s _ c, if_neg heof, if_pos hk]
  dsimp only
  rw [if_pos (remaining_advance_lt heof)]

theorem blocks_of_block {s : Schema} {errs : List SyntaxError} {c c1 : Cursor} {b : Block}
    (hkw : c.kind.isKeyword = true) (hb : block c = .ok b c1) (hlt : c1.remaining < c.remaining) :
    blocks s errs c = blocks (s.push b) errs c1 := by
  have heof : c.kind ≠ .eof := fun h => by rw [h] at hkw; exact absurd hkw (by decide)
  have hill : c.kind ≠ .illegal := fun h => by rw [h] at hkw; exact absurd hkw (by decide)
  rw [blocks.eq_def s _ c, if_neg heof, if_neg hill, if_pos hkw, hb]
  dsimp only
  rw [if_pos hlt]

theorem blocks_of_isSchema_append {ts : List (TokenKind × String)} {bs : List Block}
    (h : IsSchema true ts bs) {s : Schema} {errs : List SyntaxError} {c : Cursor} (hc : c.Sees ts) :
    blocks s errs c = blocks (bs.foldl Schema.push s) errs (advance^[ts.length] c) := by
  induction h generalizing s c with
  | nil => rfl
  | illegal hrest ih =>
    obtain ⟨hk, -, -, hs⟩ := Sees.head hc
    rw [blocks_of_illegal hk, ih hs]
    rfl
  | @block tb rest b bs hb hrest ih =>
    obtain ⟨hcb, hcr⟩ := sees_append.1 hc
    rw [blocks_of_block (hb.keyword hcb) (block_of_isBlock hb hcb) (Sees.remaining_lt hcb hb.ne_nil),
      ih hcr, iterate_length_append]
    rfl

theorem blocks_of_isSchema {ts : List (TokenKind × String)} {bs : List Block}
    (h : IsSchema true ts bs) {s : Schema} {errs : List SyntaxError} {c : Cursor} (hc : c.Sees ts)
    (hend : (advance^[ts.length] c).ahead = []) :
    blocks s errs c = (bs.foldl Schema.push s, errs.reverse) := by
  rw [blocks_of_isSchema_append h hc, blocks_of_eof hend]

end Parser

namespace Schema

open DbSchema.Parser DbSchema.Grammar

theorem parseSyntax_of_isSchema {src : String} {bs : List Block}
    (h : IsSchema true (Scan.views src.toList) bs) : parseSyntax src = (ofBlocks bs, []) := by
  obtain ⟨hc, hend⟩ := sees_of_map (ofText_views src)
  exact blocks_of_isSchema h hc hend

end Schema

end DbSchema
