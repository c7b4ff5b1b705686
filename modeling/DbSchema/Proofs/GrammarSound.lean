import DbSchema.Proofs.GrammarComplete

/-! # Every clean run of the parser is a sentence of the grammar

The converse of `GrammarComplete`: where a reader of the parser succeeds, the tokens it read are
a phrase of the strict grammar (`Grammar`) with the value the reader gave, and the token after
them is one the grammar allows there. Together the two directions say that a text reads with no
syntax error exactly when its tokens are a schema of the strict grammar, and that the schema read
is the one of the blocks the grammar reads off them (`Schema.parseSyntax_eq_iff`).

`Cursor.Spans c c' ts` says that a reader started at `c` read the tokens `ts` and stopped at `c'`.
Each reader gets one lemma that turns a successful run into a span and a derivation. The loops
are inverted by induction on their own recursion; a round that reads nothing is shown
impossible, as every reader that starts at a token other than the end reads it.

Readers that skip one token after `=` or `:` may skip the end of the text as well, which does
not move the cursor. Those runs fail later, and the lemmas for them ask that the cursor they stop
at is not at the end; the cursors of a text hold no end token (`Cursor.NoEof`), so the end is
where the tokens run out.
-/

namespace DbSchema

set_option autoImplicit false

open Cursor

namespace Cursor

/-! ## Spans of tokens -/

/-- `c.Spans c' ts`: the tokens from `c` begin with `ts`, and `c'` is the cursor after them. -/
def Spans (c c' : Cursor) (ts : List (TokenKind × String)) : Prop :=
  c.Sees ts ∧ c' = advance^[ts.length] c

theorem Spans.nil (c : Cursor) : c.Spans c [] :=
  ⟨trivial, rfl⟩

theorem Spans.cons {c c' : Cursor} {ts : List (TokenKind × String)} (he : c.kind ≠ .eof)
    (h : c.advance.Spans c' ts) : c.Spans c' ((c.kind, c.current.text) :: ts) := by
  refine ⟨?_, h.2⟩
  cases ha : c.ahead with
  | nil => exact absurd (kind_of_nil ha) he
  | cons t r =>
    refine ⟨?_, h.1⟩
    rw [ha, kind, Parser.current_of_ahead ha]
    rfl

theorem Spans.one {c : Cursor} (he : c.kind ≠ .eof) :
    c.Spans c.advance [(c.kind, c.current.text)] :=
  Spans.cons he (Spans.nil _)

theorem Spans.append {c c₁ c₂ : Cursor} {ts us : List (TokenKind × String)} (h₁ : c.Spans c₁ ts)
    (h₂ : c₁.Spans c₂ us) : c.Spans c₂ (ts ++ us) := by
  obtain ⟨hs₁, rfl⟩ := h₁
  obtain ⟨hs₂, rfl⟩ := h₂
  exact ⟨sees_append.2 ⟨hs₁, hs₂⟩, (iterate_length_append ts us c).symm⟩

theorem Spans.remaining_lt {c c' : Cursor} {ts : List (TokenKind × String)} (h : c.Spans c' ts)
    (hne : ts ≠ []) : c'.remaining < c.remaining :=
  h.2 ▸ h.1.remaining_lt hne

theorem Spans.kind_eq {c c' : Cursor} {ts : List (TokenKind × String)} (h : c.Spans c' ts)
    (hne : ts ≠ []) : c.kind = Grammar.nextKind ts :=
  Sees.kind_eq h.1 hne

theorem Spans.reach {c c' : Cursor} {ts : List (TokenKind × String)} (h : c.Spans c' ts) :
    c.Reach c' :=
  ⟨ts.length, h.2⟩

/-! ## Cursors with no end token -/

/-- No token ahead of the cursor is the end mark: the end is where the tokens run out. -/
def NoEof (c : Cursor) : Prop :=
  ∀ t ∈ c.ahead, t.kind ≠ .eof

theorem NoEof.reach {c c' : Cursor} (h : c.NoEof) (hr : c.Reach c') : c'.NoEof := by
  obtain ⟨n, hn⟩ := hr.ahead_drop
  intro t ht
  rw [hn] at ht
  exact h t (List.mem_of_mem_drop ht)

theorem NoEof.ahead_nil {c : Cursor} (h : c.NoEof) (hk : c.kind = .eof) : c.ahead = [] := by
  cases ha : c.ahead with
  | nil => rfl
  | cons t r =>
    rw [kind, Parser.current_of_ahead ha] at hk
    exact absurd hk (h t (by rw [ha]; exact List.mem_cons_self))

theorem advance_of_nil {c : Cursor} (h : c.ahead = []) : c.advance = c := by
  obtain ⟨ahead, remaining, heq, endPos, depth⟩ := c
  simp only at h
  subst h
  simp only [List.length_nil] at heq
  subst heq
  rfl

theorem ofText_noEof (s : String) : (ofText s).NoEof :=
  ofText_kind_ne_eof s

theorem Sees.map_view {c : Cursor} {ts : List (TokenKind × String)} (h : c.Sees ts)
    (hend : (advance^[ts.length] c).ahead = []) : c.ahead.map Token.view = ts := by
  induction ts generalizing c with
  | nil => simpa using hend
  | cons p ts ih =>
    obtain ⟨hv, hs⟩ := h
    cases ha : c.ahead with
    | nil => rw [ha] at hv; cases hv
    | cons t r =>
      rw [ha] at hv
      have hr : r.map Token.view = ts := by
        have := ih hs hend
        rwa [advance_ahead, ha] at this
      simp only [List.head?_cons, Option.map_some, Option.some.injEq] at hv
      rw [List.map_cons, hv, hr]

end Cursor

namespace Parser

open Grammar

/-! ## Values and items -/

theorem valueAt_ok_some_cases {d : Nat} {c c' : Cursor} {v : Value}
    (h : valueAt d c = .ok (some v) c') :
    (c' = c.advance ∧
      ((c.kind = .string ∧ v = .str c.current.text) ∨
      (c.kind = .int ∧ v = .int c.current.text) ∨
      (c.kind = .float ∧ v = .float c.current.text) ∨
      (c.kind = .boolean ∧ v = .bool (c.current.text == "true")) ∨
      (c.kind.isName = true ∧ c.advance.kind ≠ .lParen ∧ v = .ident c.current.text))) ∨
    (c.kind = .lBracket ∧ d < maxNesting ∧
      ∃ vs, itemsAt .rBracket (d + 1) [] c.advance = .ok vs c' ∧ v = .list vs) ∨
    (c.kind.isName = true ∧ c.advance.kind = .lParen ∧ d < maxNesting ∧
      ∃ vs, itemsAt .rParen (d + 1) [] c.advance.advance = .ok vs c' ∧
        v = .call c.current.text vs) := by
  rw [valueAt] at h
  split at h
  · cases h
  rename_i hopen
  split at h
  · cases h
    exact .inl ⟨rfl, .inl ⟨‹_›, rfl⟩⟩
  · cases h
    exact .inl ⟨rfl, .inr (.inl ⟨‹_›, rfl⟩)⟩
  · cases h
    exact .inl ⟨rfl, .inr (.inr (.inl ⟨‹_›, rfl⟩))⟩
  · cases h
    exact .inl ⟨rfl, .inr (.inr (.inr (.inl ⟨‹_›, rfl⟩)))⟩
  · rename_i hk
    have hd : d < maxNesting := by
      simp [hk] at hopen
      exact hopen
    dsimp only at h
    split at h
    · split at h
      · cases h
        exact .inr (.inl ⟨hk, hd, _, ‹_›, rfl⟩)
      · cases h
    · cases h
  · dsimp only at h
    split at h
    · rename_i hname
      split at h
      · rename_i hparen
        have hd : d < maxNesting := by
          have hpeek : c.peek.kind = .lParen := hparen
          simp [hname, hpeek] at hopen
          exact hopen
        split at h
        · split at h
          · cases h
            exact .inr (.inr ⟨hname, hparen, hd, _, ‹_›, rfl⟩)
          · cases h
        · cases h
      · cases h
        exact .inl ⟨rfl, .inr (.inr (.inr (.inr ⟨hname, ‹_›, rfl⟩)))⟩
    · cases h

theorem valueAt_ok_none {d : Nat} {c c' : Cursor} (h : valueAt d c = .ok none c') :
    c' = c.advance ∧ startsValue c.kind = false := by
  rw [valueAt] at h
  split at h
  · cases h
  split at h
  · cases h
  · cases h
  · cases h
  · cases h
  · rename_i hk
    have hlt := remaining_advance_lt (c := c) (by simp [kind, hk])
    dsimp only at h
    rw [if_pos hlt] at h
    split at h <;> cases h
  · dsimp only at h
    split at h
    · rename_i hname
      split at h
      · have hlt : c.advance.advance.remaining < c.remaining :=
          Nat.lt_of_le_of_lt (Reach.advance _).remaining_le
            (remaining_advance_lt (kind_ne_eof_of_name hname))
        rw [if_pos hlt] at h
        split at h <;> cases h
      · cases h
    · cases h
      refine ⟨rfl, ?_⟩
      simp only [startsValue, kind, Bool.or_eq_false_iff, beq_eq_false_iff_ne, ne_eq]
      simp_all

theorem valueAt_remaining_lt {d : Nat} {c c' : Cursor} {ov : Option Value}
    (h : valueAt d c = .ok ov c') (he : c.kind ≠ .eof) : c'.remaining < c.remaining := by
  have hlt := remaining_advance_lt he
  cases ov with
  | none => rw [(valueAt_ok_none h).1]; exact hlt
  | some v =>
    rcases valueAt_ok_some_cases h with ⟨rfl, -⟩ | ⟨-, -, vs, hvs, -⟩ | ⟨-, -, -, vs, hvs, -⟩
    · exact hlt
    · exact Nat.lt_of_le_of_lt (forward_of_ok (forward_itemsAt _ _ _) hvs).remaining_le hlt
    · exact Nat.lt_of_le_of_lt
        ((Reach.advance _).trans (forward_of_ok (forward_itemsAt _ _ _) hvs)).remaining_le hlt

theorem spans_skipComma (c : Cursor) {c' : Cursor} {rs : List (TokenKind × String)}
    (hrs : (if c.kind = .comma then c.advance else c).Spans c' rs) (hne : rs ≠ []) :
    ∃ o, c.Spans (if c.kind = .comma then c.advance else c) (comma? o) ∧
      nextKind (comma? o ++ rs) = c.kind := by
  by_cases hk : c.kind = .comma
  · rw [if_pos hk] at hrs ⊢
    refine ⟨some c.current.text, ?_, hk.symm⟩
    have h := Spans.one (c := c) (by rw [hk]; decide)
    rwa [hk] at h
  · rw [if_neg hk] at hrs ⊢
    exact ⟨none, Spans.nil c, (hrs.kind_eq hne).symm⟩

theorem spans_valueAt_itemsAt (n : Nat) : ∀ c : Cursor, c.remaining = n →
    (∀ d v c', valueAt d c = .ok (some v) c' →
      ∃ ts, c.Spans c' ts ∧ IsValue true d c'.kind ts v) ∧
    (∀ close d acc vs c', close = .rBracket ∨ close = .rParen →
      itemsAt close d acc c = .ok vs c' →
      ∃ ts ws, c.Spans c' ts ∧ IsItems true close d ts ws ∧ vs = acc.reverse ++ ws) := by
  induction n using Nat.strong_induction_on with
  | _ n ih =>
    intro c hn
    have items : ∀ close d c₁ vs c', close = .rBracket ∨ close = .rParen →
        c₁.remaining < c.remaining → itemsAt close d [] c₁ = .ok vs c' →
        ∃ ts, c₁.Spans c' ts ∧ IsItems true close d ts vs := by
      intro close d c₁ vs c' hclose hlt h
      obtain ⟨ts, ws, hs, hi, rfl⟩ := (ih _ (hn ▸ hlt) c₁ rfl).2 close d [] vs c' hclose h
      exact ⟨ts, hs, by simpa using hi⟩
    have hvalue : ∀ d v c', valueAt d c = .ok (some v) c' →
        ∃ ts, c.Spans c' ts ∧ IsValue true d c'.kind ts v := by
      intro d v c' h
      rcases valueAt_ok_some_cases h with
        ⟨rfl, ⟨hk, rfl⟩ | ⟨hk, rfl⟩ | ⟨hk, rfl⟩ | ⟨hk, rfl⟩ | ⟨hk, hp, rfl⟩⟩ |
        ⟨hk, hd, vs, hvs, rfl⟩ | ⟨hk, hp, hd, vs, hvs, rfl⟩
      · exact ⟨_, Spans.one (by rw [hk]; decide), by rw [hk]; exact .str _⟩
      · exact ⟨_, Spans.one (by rw [hk]; decide), by rw [hk]; exact .int _⟩
      · exact ⟨_, Spans.one (by rw [hk]; decide), by rw [hk]; exact .float _⟩
      · exact ⟨_, Spans.one (by rw [hk]; decide), by rw [hk]; exact .bool _⟩
      · exact ⟨_, Spans.one (kind_ne_eof_of_name hk), .ident hk (fun _ => hp)⟩
      · have he : c.kind ≠ .eof := by rw [hk]; decide
        obtain ⟨ts, hs, hi⟩ := items _ _ _ _ _ (.inl rfl) (remaining_advance_lt he) hvs
        exact ⟨_, Spans.cons he hs, by rw [hk]; exact .list (fun _ => hd) hi⟩
      · have he := kind_ne_eof_of_name hk
        have he₁ : c.advance.kind ≠ .eof := by rw [hp]; decide
        obtain ⟨ts, hs, hi⟩ := items _ _ _ _ _ (.inr rfl)
          (Nat.lt_of_le_of_lt (Reach.advance _).remaining_le (remaining_advance_lt he)) hvs
        refine ⟨_, Spans.cons he (Spans.cons he₁ hs), ?_⟩
        rw [hp]
        exact .call hk (fun _ => hd) hi
    refine ⟨hvalue, ?_⟩
    intro close d acc vs c' hclose h
    have hclose' : close ≠ .eof ∧ startsValue close = false := by
      rcases hclose with rfl | rfl <;> decide
    rw [itemsAt] at h
    split at h
    · split at h
      · rename_i t c₁ hexp
        cases h
        obtain ⟨hk, -, rfl⟩ := expect_ok hexp
        refine ⟨_, [], Spans.one (by rw [hk]; exact hclose'.1), ?_, by simp⟩
        rw [hk]
        exact .close
      · cases h
    · rename_i hstop
      have hk : c.kind ≠ close := fun h => hstop (.inl h)
      have he : c.kind ≠ .eof := fun h => hstop (.inr h)
      split at h
      · rename_i ov c₁ hv
        dsimp only at h
        have hsep := fun {c' : Cursor} {rs : List (TokenKind × String)} =>
          @spans_skipComma c₁ c' rs
        have hreach := reach_skip_comma c₁
        have hlt₁ := valueAt_remaining_lt hv he
        generalize (if c₁.kind = .comma then c₁.advance else c₁) = c₂ at h hsep hreach
        split at h
        · rename_i hlt
          obtain ⟨rs, ws, hrs, hri, hvs⟩ := (ih _ (hn ▸ hlt) c₂ rfl).2 close d _ vs c' hclose h
          obtain ⟨o, hs, hnext⟩ := hsep hrs hri.ne_nil
          cases ov with
          | some v =>
            obtain ⟨tv, htv, hiv⟩ := hvalue d v c₁ hv
            refine ⟨tv ++ comma? o ++ rs, v :: ws, (htv.append hs).append hrs,
              .value (hnext ▸ hiv) hri,
              ?_⟩
            rw [hvs]
            simp
          | none =>
            obtain ⟨rfl, hsv⟩ := valueAt_ok_none hv
            refine ⟨(c.kind, c.current.text) :: comma? o ++ rs, ws,
              ((Spans.one he).append hs).append hrs, .skip hsv hk he hri, hvs⟩
        · rename_i hge
          exact absurd (Nat.lt_of_le_of_lt hreach.remaining_le hlt₁) hge
      · cases h

theorem spans_value {c c' : Cursor} {v : Value} (h : value c = .ok (some v) c') :
    ∃ ts, c.Spans c' ts ∧ IsValue true 0 c'.kind ts v :=
  (spans_valueAt_itemsAt _ c rfl).1 0 v c' h

/-! ## Arguments -/

theorem spans_slot {c c' : Cursor} {o : Option Value} (hne : c.NoEof) (h : value c = .ok o c')
    (he' : c'.kind ≠ .eof) : ∃ ts, c.Spans c' ts ∧ IsSlot true c'.kind ts o := by
  cases o with
  | some v =>
    obtain ⟨ts, hs, hv⟩ := spans_value h
    exact ⟨ts, hs, .value hv⟩
  | none =>
    obtain ⟨rfl, hs⟩ := valueAt_ok_none h
    have he : c.kind ≠ .eof := fun hk => he' (by rw [advance_of_nil (hne.ahead_nil hk)]; exact hk)
    exact ⟨_, Spans.one he, .skip hs he⟩

theorem spans_argument {c c' : Cursor} {oa : Option Argument} (hne : c.NoEof)
    (h : argument c = .ok oa c') (hk : c.kind ≠ .rParen) (he : c.kind ≠ .eof)
    (he' : c'.kind ≠ .eof) : ∃ ts, c.Spans c' ts ∧ IsArgument true c'.kind ts oa := by
  have hpeek : c.advance.kind = c.peek.kind := rfl
  unfold argument at h
  rw [run_bind_of_ok (rfl : (get : Parser Cursor) c = .ok c c)] at h
  split at h
  · rename_i hnamed
    simp only [Bool.and_eq_true, Bool.or_eq_true, beq_iff_eq] at hnamed
    obtain ⟨hname, hsep⟩ := hnamed
    obtain ⟨_, c₁, h₁, h⟩ := ok_of_bind_ok h
    cases h₁
    obtain ⟨_, c₂, h₂, h⟩ := ok_of_bind_ok h
    cases h₂
    obtain ⟨ov, c₃, h₃, h⟩ := ok_of_bind_ok h
    obtain ⟨rfl, rfl⟩ := pure_ok h
    rw [← hpeek] at hsep
    obtain ⟨ts, hs, hslot⟩ :=
      spans_slot (hne.reach ((Reach.advance _).trans (Reach.advance _))) h₃ he'
    have he₁ : c.advance.kind ≠ .eof := by rcases hsep with h | h <;> rw [h] <;> decide
    exact ⟨_, Spans.cons he (Spans.cons he₁ hs), .named hname hsep hslot⟩
  · rename_i hpos
    obtain ⟨ov, c₁, h₁, h⟩ := ok_of_bind_ok h
    obtain ⟨rfl, rfl⟩ := pure_ok h
    cases ov with
    | some v =>
      obtain ⟨ts, hs, hv⟩ := spans_value h₁
      refine ⟨ts, hs, .positional hv (fun _ x hx => ?_)⟩
      subst hx
      rcases valueAt_ok_some_cases h₁ with
        ⟨rfl, ⟨-, hv'⟩ | ⟨-, hv'⟩ | ⟨-, hv'⟩ | ⟨-, hv'⟩ | ⟨hname, -, -⟩⟩ |
        ⟨-, -, vs, -, hv'⟩ | ⟨-, -, -, vs, -, hv'⟩ <;> try cases hv'
      rw [hpeek]
      simp only [hname, Bool.true_and, Bool.or_eq_true, beq_iff_eq] at hpos
      exact ⟨fun h => hpos (.inl h), fun h => hpos (.inr h)⟩
    | none =>
      obtain ⟨rfl, hs⟩ := valueAt_ok_none h₁
      exact ⟨_, Spans.one he, .skip hs hk he⟩

theorem argument_remaining_lt {c c' : Cursor} {oa : Option Argument}
    (h : argument c = .ok oa c') (he : c.kind ≠ .eof) : c'.remaining < c.remaining := by
  unfold argument at h
  rw [run_bind_of_ok (rfl : (get : Parser Cursor) c = .ok c c)] at h
  split at h
  · obtain ⟨_, c₁, h₁, h⟩ := ok_of_bind_ok h
    cases h₁
    obtain ⟨_, c₂, h₂, h⟩ := ok_of_bind_ok h
    cases h₂
    obtain ⟨ov, c₃, h₃, h⟩ := ok_of_bind_ok h
    obtain ⟨-, rfl⟩ := pure_ok h
    exact Nat.lt_of_le_of_lt ((Reach.advance _).trans (forward_of_ok forward_value h₃)).remaining_le
      (remaining_advance_lt he)
  · obtain ⟨ov, c₁, h₁, h⟩ := ok_of_bind_ok h
    obtain ⟨-, rfl⟩ := pure_ok h
    exact valueAt_remaining_lt h₁ he

theorem arguments_of_eof {acc : List Argument} {c : Cursor} (hk : c.kind = .eof) :
    arguments acc c = .ok acc.reverse c := by
  rw [arguments]
  simp [hk]

theorem spans_arguments {acc as : List Argument} {c c' : Cursor} :
    c.NoEof → arguments acc c = .ok as c' → c'.kind = .rParen →
    ∃ ts ws, c.Spans c'.advance ts ∧ IsArguments true ts ws ∧ as = acc.reverse ++ ws := by
  fun_induction arguments acc c with
  | case1 acc c hend =>
    intro _ h hk
    cases h
    refine ⟨_, [], Spans.one (by rw [hk]; decide), ?_, by simp⟩
    rw [hk]
    exact .close
  | case2 acc₀ c hend oa c₁ ha acc c₂ hlt ih =>
    intro hne h hk
    have hne₂ : c₂.NoEof :=
      hne.reach ((forward_of_ok forward_argument ha).trans (reach_skip_comma c₁))
    obtain ⟨rs, ws, hrs, hri, hvs⟩ := ih hne₂ h hk
    have he₁ : c₁.kind ≠ .eof := by
      intro he₁
      have hc₂ : c₂ = c₁ := by simp [c₂, he₁]
      rw [hc₂, arguments_of_eof he₁] at h
      cases h
      rw [he₁] at hk
      cases hk
    have hstop : c.kind ≠ .rParen ∧ c.kind ≠ .eof := by simpa [not_or] using hend
    obtain ⟨ta, hta, hia⟩ := spans_argument hne ha hstop.1 hstop.2 he₁
    obtain ⟨o, hs, hnext⟩ := spans_skipComma c₁ hrs hri.ne_nil
    refine ⟨ta ++ comma? o ++ rs, oa.toList ++ ws, (hta.append hs).append hrs,
      .cons (hnext ▸ hia) hri, ?_⟩
    rw [hvs]
    cases oa <;> simp [acc]
  | case3 acc₀ c hend oa c₁ ha acc c₂ hlt =>
    intro _ _ _
    have hstop : c.kind ≠ .eof := fun h => hend (.inr h)
    exact absurd (Nat.lt_of_le_of_lt (reach_skip_comma c₁).remaining_le
      (argument_remaining_lt ha hstop)) hlt
  | case4 acc c hend e c₁ ha =>
    intro _ h
    cases h

/-! ## Attributes -/

theorem spans_dottedName {acc name : String} {c c' : Cursor} :
    dottedName acc c = .ok name c' →
    ∃ ts ps, c.Spans c' ts ∧ c'.kind ≠ .dot ∧ name = ".".intercalate (acc :: ps) ∧
      ∀ k x, k.isName = true → IsDotted ((k, x) :: ts) (x :: ps) := by
  fun_induction dottedName acc c with
  | case1 acc c hdot part c₁ hname hlt ih =>
    intro h
    obtain ⟨hk, rfl, rfl⟩ := expectName_ok hname
    obtain ⟨ts, ps, hs, hnd, rfl, hd⟩ := ih h
    refine ⟨_, c.advance.current.text :: ps,
      Spans.cons (by rw [hdot]; decide) (Spans.cons (kind_ne_eof_of_name hk) hs), hnd,
      String.intercalate_append_cons _ _ _ _, fun k x hk' => ?_⟩
    rw [hdot]
    exact .dot hk' (hd _ _ hk)
  | case2 acc c hdot part c₁ hname hlt =>
    intro _
    obtain ⟨hk, rfl, rfl⟩ := expectName_ok hname
    exact absurd (Nat.lt_trans (remaining_advance_lt (kind_ne_eof_of_name hk))
      (remaining_advance_lt (by rw [hdot]; decide))) hlt
  | case3 acc c hdot e c₁ hname =>
    intro h
    cases h
  | case4 acc c hdot =>
    intro h
    cases h
    exact ⟨[], [], Spans.nil _, hdot, by simp, fun k x hk => .one hk⟩

theorem spans_attr {c c' : Cursor} {a : Attribute} (hne : c.NoEof) (he : c.kind ≠ .eof)
    (h : attr c = .ok a c') :
    ∃ ts, c.Spans c' ((c.kind, c.current.text) :: ts) ∧ IsAttribute true ts a := by
  unfold attr at h
  obtain ⟨_, c₁, h₁, h⟩ := ok_of_bind_ok h
  cases h₁
  obtain ⟨first, c₂, h₂, h⟩ := ok_of_bind_ok h
  obtain ⟨hk, rfl, rfl⟩ := expectName_ok h₂
  obtain ⟨name, c₃, h₃, h⟩ := ok_of_bind_ok h
  obtain ⟨td, ps, hsd, -, rfl, hd⟩ := spans_dottedName h₃
  have hsname := Spans.cons (kind_ne_eof_of_name hk) hsd
  rw [current_bind] at h
  split at h
  · rename_i hparen
    have hparen' : c₃.kind = .lParen := hparen
    obtain ⟨_, c₄, h₄, h⟩ := ok_of_bind_ok h
    cases h₄
    obtain ⟨args, c₅, h₅, h⟩ := ok_of_bind_ok h
    obtain ⟨_, c₆, h₆, h⟩ := ok_of_bind_ok h
    obtain ⟨hk₆, -, rfl⟩ := expect_ok h₆
    obtain ⟨rfl, rfl⟩ := pure_ok h
    have hne₄ : c₃.advance.NoEof :=
      hne.reach ((Reach.advance _).trans ((Reach.advance _).trans (hsd.reach.trans (Reach.advance _))))
    obtain ⟨us, ws, hsu, hiu, hargs⟩ := spans_arguments hne₄ h₅ hk₆
    refine ⟨_, Spans.cons he (hsname.append (Spans.cons (by rw [hparen']; decide) hsu)), ?_⟩
    rw [hparen', hargs, List.reverse_nil, List.nil_append]
    exact .args (hd _ _ hk) hiu
  · obtain ⟨rfl, rfl⟩ := pure_ok h
    exact ⟨_, Spans.cons he hsname, .plain (hd _ _ hk)⟩

theorem spans_fieldAttributes {acc as : List Attribute} {c c' : Cursor} :
    c.NoEof → fieldAttributes acc c = .ok as c' →
    ∃ ts ws, c.Spans c' ts ∧ IsMarked true ts ws ∧ as = acc.reverse ++ ws := by
  fun_induction fieldAttributes acc c with
  | case1 acc c hat a c₁ ha hlt ih =>
    intro hne h
    obtain ⟨ta, hsa, hia⟩ := spans_attr hne (by rw [hat]; decide) ha
    obtain ⟨rs, ws, hrs, hir, rfl⟩ := ih (hne.reach hsa.reach) h
    refine ⟨_, a :: ws, hsa.append hrs, ?_, by simp⟩
    rw [hat]
    exact .cons hia hir
  | case2 acc c hat a c₁ ha hlt =>
    intro hne _
    obtain ⟨ta, hsa, -⟩ := spans_attr hne (by rw [hat]; decide) ha
    exact absurd (hsa.remaining_lt (List.cons_ne_nil _ _)) hlt
  | case3 acc c hat e c₁ ha =>
    intro _ h
    cases h
  | case4 acc c hat =>
    intro _ h
    cases h
    exact ⟨[], [], Spans.nil _, .nil, by simp⟩

/-! ## Field types -/

theorem spans_typeName {c c' : Cursor} {base : TypeName} (h : typeName c = .ok base c') :
    ∃ ts, c.Spans c' ts ∧ IsTypeName ts base := by
  unfold typeName at h
  obtain ⟨name, c₁, h₁, h⟩ := ok_of_bind_ok h
  unfold expectIdent at h₁
  obtain ⟨t, c₁', h₁', h₁⟩ := ok_of_bind_ok h₁
  obtain ⟨hk, rfl, rfl⟩ := expect_ok h₁'
  obtain ⟨rfl, rfl⟩ := pure_ok h₁
  have he : c.kind ≠ .eof := by rw [hk]; decide
  split at h
  · rename_i hu
    obtain ⟨_, c₂, h₂, h⟩ := ok_of_bind_ok h
    obtain ⟨hk₂, -, rfl⟩ := expect_ok h₂
    obtain ⟨raw, c₃, h₃, h⟩ := ok_of_bind_ok h
    obtain ⟨hk₃, rfl, rfl⟩ := expect_ok h₃
    obtain ⟨_, c₄, h₄, h⟩ := ok_of_bind_ok h
    obtain ⟨hk₄, -, rfl⟩ := expect_ok h₄
    obtain ⟨rfl, rfl⟩ := pure_ok h
    refine ⟨_, Spans.cons he (Spans.cons (by rw [hk₂]; decide)
      (Spans.cons (by rw [hk₃]; decide) (Spans.one (by rw [hk₄]; decide)))), ?_⟩
    rw [hk, hu, hk₂, hk₃, hk₄]
    exact .unsupported
  · rename_i hu
    obtain ⟨rfl, rfl⟩ := pure_ok h
    refine ⟨_, Spans.one he, ?_⟩
    rw [hk]
    exact .named hu

theorem spans_arraySuffix {c c' : Cursor} {b : Bool} (h : arraySuffix c = .ok b c') :
    ∃ ts, c.Spans c' ts ∧ IsArrayMark ts b := by
  unfold arraySuffix at h
  rw [run_bind_of_ok (rfl : (get : Parser Cursor) c = .ok c c)] at h
  split at h
  · rename_i hb
    obtain ⟨_, c₁, h₁, h⟩ := ok_of_bind_ok h
    cases h₁
    obtain ⟨_, c₂, h₂, h⟩ := ok_of_bind_ok h
    cases h₂
    obtain ⟨rfl, rfl⟩ := pure_ok h
    have hpeek : c.advance.kind = .rBracket := hb.2
    refine ⟨_, Spans.cons (by rw [hb.1]; decide) (Spans.one (by rw [hpeek]; decide)), ?_⟩
    rw [hb.1, hpeek]
    exact .yes
  · obtain ⟨rfl, rfl⟩ := pure_ok h
    exact ⟨[], Spans.nil _, .no⟩

theorem spans_optionalMark {c c' : Cursor} {b : Bool} (h : optionalMark c = .ok b c') :
    ∃ ts, c.Spans c' ts ∧ IsOptionalMark ts b := by
  unfold optionalMark at h
  rw [current_bind] at h
  split at h
  · rename_i hq
    have hq' : c.kind = .question := hq
    obtain ⟨_, c₁, h₁, h⟩ := ok_of_bind_ok h
    cases h₁
    obtain ⟨rfl, rfl⟩ := pure_ok h
    refine ⟨_, Spans.one (by rw [hq']; decide), ?_⟩
    rw [hq']
    exact .yes
  · obtain ⟨rfl, rfl⟩ := pure_ok h
    exact ⟨[], Spans.nil _, .no⟩

theorem spans_fieldType {c c' : Cursor} {t : FieldType} (h : fieldType c = .ok t c') :
    ∃ ts, c.Spans c' ts ∧ IsFieldType ts t := by
  rw [fieldType_eq] at h
  obtain ⟨base, c₁, h₁, h⟩ := ok_of_bind_ok h
  obtain ⟨arr, c₂, h₂, h⟩ := ok_of_bind_ok h
  obtain ⟨opt, c₃, h₃, h⟩ := ok_of_bind_ok h
  obtain ⟨rfl, rfl⟩ := pure_ok h
  obtain ⟨tb, hsb, hib⟩ := spans_typeName h₁
  obtain ⟨ta, hsa, hia⟩ := spans_arraySuffix h₂
  obtain ⟨tq, hsq, hiq⟩ := spans_optionalMark h₃
  exact ⟨_, (hsb.append hsa).append hsq, .mk hib hia hiq⟩

/-! ## Bodies -/

theorem spans_field {c c' : Cursor} {f : Field} (hne : c.NoEof) (h : field c = .ok f c') :
    ∃ ts, c.Spans c' ts ∧ IsField true ts f := by
  unfold field at h
  obtain ⟨name, c₁, h₁, h⟩ := ok_of_bind_ok h
  obtain ⟨hk, rfl, rfl⟩ := expectName_ok h₁
  obtain ⟨t, c₂, h₂, h⟩ := ok_of_bind_ok h
  obtain ⟨as, c₃, h₃, h⟩ := ok_of_bind_ok h
  obtain ⟨rfl, rfl⟩ := pure_ok h
  obtain ⟨tt, hst, hit⟩ := spans_fieldType h₂
  obtain ⟨ta, ws, hsa, hia, hws⟩ :=
    spans_fieldAttributes (hne.reach ((Reach.advance c).trans hst.reach)) h₃
  rw [List.reverse_nil, List.nil_append] at hws
  subst hws
  exact ⟨_, Spans.cons (kind_ne_eof_of_name hk) (hst.append hsa), .mk hk hit hia⟩

theorem spans_members {fs₀ : List Field} {as₀ : List Attribute} {r : List Field × List Attribute}
    {c c' : Cursor} :
    c.NoEof → members fs₀ as₀ c = .ok r c' →
    ∃ ts gs bs, c.Spans c' ts ∧ IsMembers true ts gs bs ∧
      r = (fs₀.reverse ++ gs, as₀.reverse ++ bs) := by
  fun_induction members fs₀ as₀ c with
  | case1 fs as c hk =>
    intro _ h
    cases h
    refine ⟨_, [], [], Spans.one (by rw [hk]; decide), ?_, by simp⟩
    rw [hk]
    exact .close
  | case2 fs as c hk =>
    intro _ h
    cases h
  | case3 fs as c hk a c₁ ha hlt ih =>
    intro hne h
    obtain ⟨ta, hsa, hia⟩ := spans_attr hne (by rw [hk]; decide) ha
    obtain ⟨rs, gs, bs, hrs, hir, rfl⟩ := ih (hne.reach hsa.reach) h
    refine ⟨_, gs, a :: bs, hsa.append hrs, ?_, by simp⟩
    rw [hk]
    exact .attr hia hir
  | case4 fs as c hk a c₁ ha hlt =>
    intro hne _
    obtain ⟨ta, hsa, -⟩ := spans_attr hne (by rw [hk]; decide) ha
    exact absurd (hsa.remaining_lt (List.cons_ne_nil _ _)) hlt
  | case5 fs as c hk e c₁ ha =>
    intro _ h
    cases h
  | case6 fs as c f c₁ hf hlt _ _ _ _ ih =>
    intro hne h
    obtain ⟨tf, hsf, hif⟩ := spans_field hne hf
    obtain ⟨rs, gs, bs, hrs, hir, rfl⟩ := ih (hne.reach hsf.reach) h
    exact ⟨_, f :: gs, bs, hsf.append hrs, .field hif hir, by simp⟩
  | case7 fs as c f c₁ hf hlt =>
    intro hne _
    obtain ⟨tf, hsf, hif⟩ := spans_field hne hf
    exact absurd (hsf.remaining_lt hif.ne_nil) hlt
  | case8 fs as c e c₁ hf =>
    intro _ h
    cases h
  | case9 fs as c =>
    intro _ h
    cases h

theorem spans_enumMembers {vs₀ : List EnumValue} {as₀ : List Attribute}
    {r : List EnumValue × List Attribute} {c c' : Cursor} :
    c.NoEof → enumMembers vs₀ as₀ c = .ok r c' →
    ∃ ts ws bs, c.Spans c' ts ∧ IsEnumMembers true ts ws bs ∧
      r = (vs₀.reverse ++ ws, as₀.reverse ++ bs) := by
  fun_induction enumMembers vs₀ as₀ c with
  | case1 vs as c hk =>
    intro _ h
    cases h
    refine ⟨_, [], [], Spans.one (by rw [hk]; decide), ?_, by simp⟩
    rw [hk]
    exact .close
  | case2 vs as c hk =>
    intro _ h
    cases h
  | case3 vs as c hk a c₁ ha hlt ih =>
    intro hne h
    obtain ⟨ta, hsa, hia⟩ := spans_attr hne (by rw [hk]; decide) ha
    obtain ⟨rs, ws, bs, hrs, hir, rfl⟩ := ih (hne.reach hsa.reach) h
    refine ⟨_, ws, a :: bs, hsa.append hrs, ?_, by simp⟩
    rw [hk]
    exact .attr hia hir
  | case4 vs as c hk a c₁ ha hlt =>
    intro hne _
    obtain ⟨ta, hsa, -⟩ := spans_attr hne (by rw [hk]; decide) ha
    exact absurd (hsa.remaining_lt (List.cons_ne_nil _ _)) hlt
  | case5 vs as c hk e c₁ ha =>
    intro _ h
    cases h
  | case6 vs as c name bs₀ c₁ hb hlt _ _ _ hname ih =>
    intro hne h
    obtain ⟨tb, ws₀, hsb, hib, hws₀⟩ := spans_fieldAttributes (hne.reach (Reach.advance c)) hb
    rw [List.reverse_nil, List.nil_append] at hws₀
    subst hws₀
    obtain ⟨rs, ws, bs, hrs, hir, rfl⟩ := ih (hne.reach ((Reach.advance c).trans hsb.reach)) h
    exact ⟨_, ⟨name, bs₀⟩ :: ws, bs, Spans.cons (kind_ne_eof_of_name hname) (hsb.append hrs),
      .value hname hib hir, by simp⟩
  | case7 vs as c name bs₀ c₁ hb hlt _ _ _ hname =>
    intro hne _
    exact absurd (Nat.lt_of_le_of_lt (forward_of_ok (forward_fieldAttributes []) hb).remaining_le
      (remaining_advance_lt (kind_ne_eof_of_name hname))) hlt
  | case8 vs as c e c₁ hb =>
    intro _ h
    cases h
  | case9 vs as c =>
    intro _ h
    cases h

theorem spans_entry {c c' : Cursor} {oe : Option ConfigEntry} (hne : c.NoEof)
    (he : c.kind ≠ .eof) (h : entry c = .ok oe c') (he' : c'.kind ≠ .eof) :
    ∃ y ts o, c.Spans c' ((c.kind, c.current.text) :: (.equals, y) :: ts) ∧
      IsSlot true c'.kind ts o ∧ oe = o.map fun v => ⟨c.current.text, v⟩ := by
  unfold entry at h
  obtain ⟨_, c₁, h₁, h⟩ := ok_of_bind_ok h
  cases h₁
  obtain ⟨_, c₂, h₂, h⟩ := ok_of_bind_ok h
  obtain ⟨hk₂, -, rfl⟩ := expect_ok h₂
  obtain ⟨ov, c₃, h₃, h⟩ := ok_of_bind_ok h
  obtain ⟨rfl, rfl⟩ := pure_ok h
  obtain ⟨ts, hs, hslot⟩ :=
    spans_slot (hne.reach ((Reach.advance _).trans (Reach.advance _))) h₃ he'
  have hs' := Spans.cons he (Spans.cons (by rw [hk₂]; decide) hs)
  rw [hk₂] at hs'
  exact ⟨_, ts, ov, hs', hslot, rfl⟩

theorem entry_remaining_lt {c c' : Cursor} {oe : Option ConfigEntry} (he : c.kind ≠ .eof)
    (h : entry c = .ok oe c') : c'.remaining < c.remaining := by
  unfold entry at h
  obtain ⟨_, c₁, h₁, h⟩ := ok_of_bind_ok h
  cases h₁
  have hr := forward_of_ok (forward_bind (forward_expect .equals) fun _ =>
    forward_bind forward_value fun _ => forward_pure _) h
  exact Nat.lt_of_le_of_lt hr.remaining_le (remaining_advance_lt he)

theorem entries_of_eof {acc : List ConfigEntry} {c : Cursor} (hk : c.kind = .eof) :
    entries acc c = .error (c.expected TokenKind.rBrace.describe) c := by
  rw [entries]
  simp [hk]

theorem spans_entries {acc es : List ConfigEntry} {c c' : Cursor} :
    c.NoEof → entries acc c = .ok es c' →
    ∃ ts ws, c.Spans c' ts ∧ IsEntries true ts ws ∧ es = acc.reverse ++ ws := by
  fun_induction entries acc c with
  | case1 acc c hk =>
    intro _ h
    cases h
    refine ⟨_, [], Spans.one (by rw [hk]; decide), ?_, by simp⟩
    rw [hk]
    exact .close
  | case2 acc c hk =>
    intro _ h
    cases h
  | case3 acc₀ c oe c₁ he acc hlt _ heof hname ih =>
    intro hne h
    obtain ⟨rs, ws, hrs, hir, hvs⟩ := ih (hne.reach (forward_of_ok forward_entry he)) h
    have he₁ : c₁.kind ≠ .eof := fun hk => by
      rw [entries_of_eof hk] at h
      cases h
    obtain ⟨y, ts, o, hs, hslot, rfl⟩ := spans_entry hne (kind_ne_eof_of_name hname) he he₁
    refine ⟨_, (o.map fun v => ⟨c.current.text, v⟩).toList ++ ws, hs.append hrs,
      .entry hname (hrs.kind_eq hir.ne_nil ▸ hslot) hir, ?_⟩
    rw [hvs]
    cases o <;> simp [acc]
  | case4 acc₀ c oe c₁ he acc hlt _ _ hname =>
    intro _ _
    exact absurd (entry_remaining_lt (kind_ne_eof_of_name hname) he) hlt
  | case5 acc c e c₁ he =>
    intro _ h
    cases h
  | case6 acc c =>
    intro _ h
    cases h

/-! ## Blocks -/

theorem expectIdent_ok {c c' : Cursor} {x : String} (h : expectIdent c = .ok x c') :
    c.kind = .ident ∧ x = c.current.text ∧ c' = c.advance := by
  unfold expectIdent at h
  obtain ⟨t, c₁, h₁, h⟩ := ok_of_bind_ok h
  obtain ⟨hk, rfl, rfl⟩ := expect_ok h₁
  obtain ⟨rfl, rfl⟩ := pure_ok h
  exact ⟨hk, rfl, rfl⟩

theorem ok_header_bind {β : Type} {k : TokenKind} {f : String → Parser β} {c c' : Cursor} {b : β}
    (h : (header k >>= f) c = .ok b c') :
    c.kind = k ∧ c.advance.kind = .ident ∧ c.advance.advance.kind = .lBrace ∧
      f c.advance.current.text c.advance.advance.advance = .ok b c' := by
  obtain ⟨n, c₁, h₁, h⟩ := ok_of_bind_ok h
  unfold header at h₁
  obtain ⟨_, c₂, h₂, h₁⟩ := ok_of_bind_ok h₁
  obtain ⟨hk, -, rfl⟩ := expect_ok h₂
  obtain ⟨name, c₃, h₃, h₁⟩ := ok_of_bind_ok h₁
  obtain ⟨hk₃, rfl, rfl⟩ := expectIdent_ok h₃
  obtain ⟨_, c₄, h₄, h₁⟩ := ok_of_bind_ok h₁
  obtain ⟨hk₄, -, rfl⟩ := expect_ok h₄
  obtain ⟨rfl, rfl⟩ := pure_ok h₁
  exact ⟨hk, hk₃, hk₄, h⟩

theorem spans_block {c c' : Cursor} {b : Block} (hne : c.NoEof) (hkw : c.kind.isKeyword = true)
    (h : block c = .ok b c') : ∃ ts, c.Spans c' ts ∧ IsBlock true ts b := by
  have he : c.kind ≠ .eof := fun hk => by rw [hk] at hkw; cases hkw
  have header : ∀ {k : TokenKind} {c₃ : Cursor} {ts : List (TokenKind × String)}, c.kind = k →
      c.advance.kind = .ident → c.advance.advance.kind = .lBrace →
      c.advance.advance.advance.Spans c₃ ts →
      c.Spans c₃ ((k, c.current.text) :: (.ident, c.advance.current.text) ::
        (.lBrace, c.advance.advance.current.text) :: ts) := by
    intro k c₃ ts hk h₁ h₂ hs
    have hs' := Spans.cons he (Spans.cons (by rw [h₁]; decide) (Spans.cons (by rw [h₂]; decide) hs))
    rwa [hk, h₁, h₂] at hs'
  have hne₃ : c.advance.advance.advance.NoEof :=
    hne.reach ((Reach.advance _).trans ((Reach.advance _).trans (Reach.advance _)))
  have hcases : c.kind = .datasource ∨ c.kind = .generator ∨ c.kind = .model ∨
      c.kind = .enum ∨ c.kind = .type := by
    revert hkw
    cases c.kind <;> simp [TokenKind.isKeyword]
  unfold block at h
  rw [current_bind] at h
  rcases hcases with hk | hk | hk | hk | hk <;>
    simp only [show c.current.kind = c.kind from rfl, hk] at h <;>
    obtain ⟨blk, c₁, h₁, h⟩ := ok_of_bind_ok h <;>
    obtain ⟨rfl, rfl⟩ := pure_ok h
  · unfold datasource at h₁
    obtain ⟨-, hid, hlb, h₁⟩ := ok_header_bind h₁
    obtain ⟨es, c₂, h₂, h₁⟩ := ok_of_bind_ok h₁
    obtain ⟨rfl, rfl⟩ := pure_ok h₁
    obtain ⟨ts, ws, hs, hi, rfl⟩ := spans_entries hne₃ h₂
    exact ⟨_, header hk hid hlb hs, .datasource (by simpa using hi)⟩
  · unfold generator at h₁
    obtain ⟨-, hid, hlb, h₁⟩ := ok_header_bind h₁
    obtain ⟨es, c₂, h₂, h₁⟩ := ok_of_bind_ok h₁
    obtain ⟨rfl, rfl⟩ := pure_ok h₁
    obtain ⟨ts, ws, hs, hi, rfl⟩ := spans_entries hne₃ h₂
    exact ⟨_, header hk hid hlb hs, .generator (by simpa using hi)⟩
  · unfold model at h₁
    obtain ⟨-, hid, hlb, h₁⟩ := ok_header_bind h₁
    obtain ⟨r, c₂, h₂, h₁⟩ := ok_of_bind_ok h₁
    obtain ⟨ts, gs, bs, hs, hi, rfl⟩ := spans_members hne₃ h₂
    obtain ⟨rfl, rfl⟩ := pure_ok h₁
    refine ⟨_, header hk hid hlb hs, ?_⟩
    simp only [List.reverse_nil, List.nil_append]
    exact .model hi
  · unfold enumBlock at h₁
    obtain ⟨-, hid, hlb, h₁⟩ := ok_header_bind h₁
    obtain ⟨r, c₂, h₂, h₁⟩ := ok_of_bind_ok h₁
    obtain ⟨ts, ws, bs, hs, hi, rfl⟩ := spans_enumMembers hne₃ h₂
    obtain ⟨rfl, rfl⟩ := pure_ok h₁
    refine ⟨_, header hk hid hlb hs, ?_⟩
    simp only [List.reverse_nil, List.nil_append]
    exact .enum hi
  · unfold compositeType at h₁
    obtain ⟨-, hid, hlb, h₁⟩ := ok_header_bind h₁
    obtain ⟨r, c₂, h₂, h₁⟩ := ok_of_bind_ok h₁
    obtain ⟨ts, gs, bs, hs, hi, rfl⟩ := spans_members hne₃ h₂
    obtain ⟨rfl, rfl⟩ := pure_ok h₁
    refine ⟨_, header hk hid hlb hs, ?_⟩
    simp only [List.reverse_nil, List.nil_append]
    exact .type hi

theorem spans_blocks {s sch : Schema} {errs : List SyntaxError} {c : Cursor} :
    c.NoEof → blocks s errs c = (sch, []) →
    errs = [] ∧ ∃ ts bs c', c.Spans c' ts ∧ c'.ahead = [] ∧ IsSchema true ts bs ∧
      sch = bs.foldl Schema.push s := by
  fun_induction blocks s errs c with
  | case1 s errs c heof =>
    intro hne h
    simp only [Prod.mk.injEq, List.reverse_eq_nil_iff] at h
    obtain ⟨rfl, rfl⟩ := h
    exact ⟨rfl, [], [], c, Spans.nil c, hne.ahead_nil heof, .nil, rfl⟩
  | case2 s errs c heof hill c₁ hlt ih =>
    intro hne h
    obtain ⟨rfl, ts, bs, c', hs, hend, hi, rfl⟩ := ih (hne.reach (Reach.advance c)) h
    refine ⟨rfl, _, bs, c', Spans.cons heof hs, hend, ?_, rfl⟩
    rw [hill]
    exact .illegal hi
  | case3 s errs c heof hill c₁ hlt =>
    intro _ _
    exact absurd (remaining_advance_lt heof) hlt
  | case4 s errs c heof hill hkw b c₁ hblk hlt ih =>
    intro hne h
    obtain ⟨tb, hsb, hib⟩ := spans_block hne hkw hblk
    obtain ⟨rfl, ts, bs, c', hs, hend, hi, rfl⟩ := ih (hne.reach hsb.reach) h
    exact ⟨rfl, _, b :: bs, c', hsb.append hs, hend, .block hib hi, rfl⟩
  | case5 s errs c heof hill hkw b c₁ hblk hlt =>
    intro hne _
    obtain ⟨tb, hsb, hib⟩ := spans_block hne hkw hblk
    exact absurd (hsb.remaining_lt hib.ne_nil) hlt
  | case6 s errs c base heof hill hkw e c₁ hblk c₂ hlt ih =>
    intro hne h
    have hr : c.Reach c₂ := (forward_of_error forward_block hblk).trans (reach_recover _ _)
    exact absurd (ih (hne.reach hr) h).1 (List.cons_ne_nil _ _)
  | case7 s errs c base heof hill hkw e c₁ hblk c₂ hlt =>
    intro _ h
    simp at h
  | case8 s errs c heof hill hkw c₁ hlt ih =>
    intro hne h
    exact absurd (ih (hne.reach (Reach.advance c)) h).1 (List.cons_ne_nil _ _)
  | case9 s errs c heof hill hkw c₁ hlt =>
    intro _ h
    simp at h

end Parser

namespace Grammar

variable {strict : Bool}

/-! ## What the strict grammar rejects -/

theorem IsItems.close_mem {close : TokenKind} {d : Nat} {ts : List (TokenKind × String)}
    {vs : List Value} (h : IsItems strict close d ts vs) : close ∈ ts.map Prod.fst := by
  obtain ⟨n, hn⟩ : ∃ n, ts.length = n := ⟨_, rfl⟩
  induction n using Nat.strong_induction_on generalizing ts vs with
  | _ n ih =>
    cases h with
    | close => simp
    | @value _ _ tv rest o v vs hv hrest =>
      have hpos := List.length_pos_iff.mpr hv.ne_nil
      have hlt : rest.length < n := by
        rw [← hn]
        simp only [List.length_append]
        omega
      simp [ih _ hlt hrest rfl]
    | @skip _ _ k x o rest vs _ _ _ hrest =>
      have hlt : rest.length < n := by
        rw [← hn]
        simp only [List.cons_append, List.length_cons, List.length_append]
        omega
      simp [ih _ hlt hrest rfl]

theorem IsItems.rParen_mem_of_call {close : TokenKind} {d : Nat} {k : TokenKind} {x o : String}
    {ts : List (TokenKind × String)} {vs : List Value} (hk : k.isName = true)
    (h : IsItems true close d ((k, x) :: (.lParen, o) :: ts) vs) :
    TokenKind.rParen ∈ ts.map Prod.fst := by
  generalize hus : (k, x) :: (TokenKind.lParen, o) :: ts = us at h
  cases h with
  | close => cases hus
  | skip hs =>
    simp only [List.cons_append, List.cons.injEq, Prod.mk.injEq] at hus
    obtain ⟨⟨rfl, -⟩, -⟩ := hus
    rw [startsValue_of_isName hk] at hs
    cases hs
  | @value _ _ tv rest o' v vs hv hrest =>
    cases hv with
    | ident _ hnext =>
      simp only [List.cons_append, List.nil_append, List.cons.injEq] at hus
      obtain ⟨-, hrest'⟩ := hus
      cases o' with
      | some z => cases hrest'
      | none =>
        simp only [comma?, List.nil_append] at hrest'
        subst hrest'
        exact absurd rfl (hnext rfl)
    | call _ _ hi =>
      simp only [List.cons_append, List.append_assoc, List.cons.injEq] at hus
      obtain ⟨-, -, rfl⟩ := hus
      simp [hi.close_mem]
    | str | int | float | bool | list =>
      simp only [List.cons_append, List.cons.injEq, Prod.mk.injEq] at hus
      obtain ⟨⟨rfl, -⟩, -⟩ := hus
      cases hk

end Grammar

namespace Schema

open DbSchema.Parser DbSchema.Grammar

/-- A text reads with no syntax error exactly when its tokens, line breaks left out, are a
schema of the strict grammar; the schema read is then the one of the blocks the grammar reads
off them. -/
theorem parseSyntax_eq_iff {src : String} {sch : Schema} :
    parseSyntax src = (sch, []) ↔
      ∃ bs, IsSchema true (Scan.views src.toList) bs ∧ ofBlocks bs = sch := by
  constructor
  · intro h
    obtain ⟨-, ts, bs, c', ⟨hs, rfl⟩, hend, hi, rfl⟩ := spans_blocks (ofText_noEof src) h
    have hts : Scan.views src.toList = ts := (ofText_views src).symm.trans (Sees.map_view hs hend)
    exact ⟨bs, hts ▸ hi, rfl⟩
  · rintro ⟨bs, hi, rfl⟩
    exact parseSyntax_of_isSchema hi

/-- The grammar as documented, without the parser's lookahead, derives a list in which a name
stands before a skipped `(`. The parser reads the name and the `(` as a call that nothing closes
and reports an error: the strict grammar has no schema for these tokens. -/
theorem parseSyntax_list_name_paren :
    IsSchema false (Scan.views "datasource d { x = [a (] }".toList)
        [.datasource ⟨"d", [⟨"x", .list [.ident "a"]⟩]⟩] ∧
      (parseSyntax "datasource d { x = [a (] }").2 ≠ [] := by
  have hviews : Scan.views "datasource d { x = [a (] }".toList =
      [(.datasource, "datasource"), (.ident, "d"), (.lBrace, "\x7b"), (.ident, "x"), (.equals, "="),
        (.lBracket, "["), (.ident, "a"), (.lParen, "("), (.rBracket, "]"), (.rBrace, "\x7d")] := by
    decide +kernel
  refine ⟨?_, fun h => ?_⟩
  · have hitems : IsItems false .rBracket 1 [(.ident, "a"), (.lParen, "("), (.rBracket, "]")]
        [.ident "a"] :=
      @IsItems.value false .rBracket 1 [(.ident, "a")] [(.lParen, "("), (.rBracket, "]")] none
        (.ident "a") [] (.ident rfl (fun h => absurd h (by decide)))
        (@IsItems.skip false .rBracket 1 .lParen "(" none [(.rBracket, "]")] [] rfl (by decide)
          (by decide) .close)
    have hentries : IsEntries false [(.ident, "x"), (.equals, "="), (.lBracket, "["),
        (.ident, "a"), (.lParen, "("), (.rBracket, "]"), (.rBrace, "\x7d")]
        [⟨"x", .list [.ident "a"]⟩] :=
      @IsEntries.entry false .ident "x" "=" [(.lBracket, "["), (.ident, "a"), (.lParen, "("),
        (.rBracket, "]")] [(.rBrace, "\x7d")] (some (.list [.ident "a"])) [] rfl
        (.value (.list (fun h => absurd h (by decide)) hitems)) .close
    rw [hviews]
    exact @IsSchema.block false _ [] _ [] (.datasource hentries) .nil
  · obtain ⟨-, ts, bs, c', ⟨hs, rfl⟩, hend, hi, -⟩ :=
      spans_blocks (ofText_noEof _) (Prod.ext rfl h : parseSyntax _ = (_, []))
    have hts := (Sees.map_view hs hend).symm.trans ((ofText_views _).trans hviews)
    cases hi with
    | nil => cases hts
    | illegal => cases hts
    | block hb hrest =>
      cases hb
      case datasource he =>
        simp only [List.cons_append, List.cons.injEq, Prod.mk.injEq, true_and] at hts
        obtain ⟨-, -, -, hts⟩ := hts
        cases he with
        | close => simp at hts
        | entry _ hslot hrest₁ =>
          simp only [List.cons_append, List.append_assoc, List.cons.injEq, Prod.mk.injEq,
            true_and] at hts
          obtain ⟨-, -, hts⟩ := hts
          cases hslot with
          | skip hv =>
            simp only [List.cons_append, List.cons.injEq, Prod.mk.injEq] at hts
            obtain ⟨⟨rfl, -⟩, -⟩ := hts
            exact absurd hv (by decide)
          | value hv =>
            cases hv
            case list o ts vs _ hi =>
              simp only [List.cons_append, List.cons.injEq] at hts
              obtain ⟨-, hts⟩ := hts
              obtain _ | ⟨p, _ | ⟨q, ts₃⟩⟩ := ts
              · exact hi.ne_nil rfl
              · simp only [List.cons_append, List.nil_append, List.cons.injEq] at hts
                obtain ⟨rfl, -⟩ := hts
                simpa using hi.close_mem
              · simp only [List.cons_append, List.cons.injEq] at hts
                obtain ⟨rfl, rfl, hts⟩ := hts
                obtain ⟨⟨k, y⟩, hmem, hk⟩ := List.mem_map.1 (hi.rParen_mem_of_call rfl)
                have h₂ : (k, y) ∈ [(TokenKind.rBracket, "]"), (TokenKind.rBrace, "\x7d")] := by
                  rw [← hts]
                  exact List.mem_append_left _ hmem
                simp only at hk
                subst hk
                simp at h₂
            case ident hk _ =>
              simp only [List.cons_append, List.nil_append, List.cons.injEq, Prod.mk.injEq] at hts
              obtain ⟨⟨rfl, -⟩, -⟩ := hts
              cases hk
            case call hk _ _ =>
              simp only [List.cons_append, List.cons.injEq, Prod.mk.injEq] at hts
              obtain ⟨⟨rfl, -⟩, -⟩ := hts
              cases hk
            all_goals simp at hts
      all_goals simp at hts
end Schema

end DbSchema
