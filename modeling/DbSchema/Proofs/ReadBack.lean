import DbSchema.Proofs.Spelling
import DbSchema.Proofs.Recovery

/-! # The grammar reads printed tokens back

`Cursor.Sees c toks` says that the tokens ahead of `c` begin with tokens whose kinds and texts
are `toks`. Each reader of the grammar, started at the tokens of a printed piece in the forms
the lexer writes (`Value.Readable` and the like), reads that piece back and stops right after
those tokens, so long as what follows cannot extend the piece:

* `Value.Readable.valueAt_sees`, with `Parser.itemsAt_sees` for the items of a list or call;
* `Argument.Readable.argument_sees`, `Parser.arguments_sees`, `Attribute.Readable.attr_sees`;
* `TypeName.Readable.typeName_sees`, `FieldType.fieldType_sees`.
-/

namespace DbSchema

set_option autoImplicit false

open Scan

theorem Value.tokens_head (v : Value) : ∃ k x toks, v.tokens = (k, x) :: toks ∧
    k ≠ .rBracket ∧ k ≠ .rParen ∧ k ≠ .eof := by
  have hword : ∀ n, TokenKind.ofWord n ≠ .rBracket ∧ TokenKind.ofWord n ≠ .rParen ∧
      TokenKind.ofWord n ≠ .eof := by
    intro n
    rcases TokenKind.ofWord_cases n with h | h | h | h | h | h | h <;> rw [h] <;> decide
  cases v with
  | str s => exact ⟨_, _, _, rfl, by decide⟩
  | int l => exact ⟨_, _, _, rfl, by decide⟩
  | float l => exact ⟨_, _, _, rfl, by decide⟩
  | bool b => exact ⟨_, _, _, rfl, by decide⟩
  | ident n => exact ⟨_, _, _, rfl, hword n⟩
  | list vs => exact ⟨_, _, _, rfl, by decide⟩
  | call f vs => exact ⟨_, _, _, rfl, hword f⟩

namespace Cursor

/-- The tokens ahead of `c` begin with tokens whose kinds and texts are `toks`. -/
def Sees (c : Cursor) : List (TokenKind × String) → Prop
  | [] => True
  | p :: toks => c.ahead.head?.map Token.view = some p ∧ c.advance.Sees toks

theorem Sees.head {c : Cursor} {k : TokenKind} {x : String} {toks : List (TokenKind × String)}
    (h : c.Sees ((k, x) :: toks)) :
    c.kind = k ∧ c.current.text = x ∧ c.advance.remaining < c.remaining ∧ c.advance.Sees toks := by
  obtain ⟨hv, hs⟩ := h
  cases ha : c.ahead with
  | nil =>
    rw [ha] at hv
    cases hv
  | cons t r =>
    rw [ha] at hv
    simp only [List.head?_cons, Option.map_some, Option.some.injEq, Token.view,
      Prod.mk.injEq] at hv
    have hcur : c.current = t := Parser.current_of_ahead ha
    refine ⟨by rw [kind, hcur, hv.1], by rw [hcur, hv.2], ?_, hs⟩
    rw [c.advance.remaining_eq, c.remaining_eq, advance_ahead, ha]
    simp

theorem sees_append {c : Cursor} {a b : List (TokenKind × String)} :
    c.Sees (a ++ b) ↔ c.Sees a ∧ (advance^[a.length] c).Sees b := by
  induction a generalizing c with
  | nil => simp [Sees]
  | cons p a ih =>
    simp only [List.cons_append, Sees, ih, List.length_cons, Function.iterate_succ_apply, and_assoc]

theorem sees_of_map {c : Cursor} {toks : List (TokenKind × String)}
    (h : c.ahead.map Token.view = toks) : c.Sees toks ∧ (advance^[toks.length] c).ahead = [] := by
  induction toks generalizing c with
  | nil => exact ⟨trivial, List.map_eq_nil_iff.1 h⟩
  | cons p toks ih =>
    obtain ⟨t, r, ha, ht, hr⟩ := List.map_eq_cons_iff.1 h
    have hnext := ih (c := c.advance) (by rw [advance_ahead, ha]; exact hr)
    refine ⟨⟨by rw [ha]; simp [ht], hnext.1⟩, ?_⟩
    rw [List.length_cons, Function.iterate_succ_apply]
    exact hnext.2

theorem Sees.remaining_lt {c : Cursor} {toks : List (TokenKind × String)} (h : c.Sees toks)
    (hne : toks ≠ []) : (advance^[toks.length] c).remaining < c.remaining := by
  obtain _ | ⟨⟨k, x⟩, toks⟩ := toks
  · exact absurd rfl hne
  have hh := h.head
  rw [List.length_cons, Function.iterate_succ_apply]
  exact Nat.lt_of_le_of_lt (Reach.remaining_le ⟨toks.length, rfl⟩) hh.2.2.1

theorem advance_eq_iterate (c : Cursor) : c.advance = advance^[1] c := rfl

theorem iterate_length_append {α : Type} (a b : List α) (c : Cursor) :
    advance^[(a ++ b).length] c = advance^[b.length] (advance^[a.length] c) := by
  rw [List.length_append, Nat.add_comm, Function.iterate_add_apply]

theorem iterate_advance_add (m n : Nat) (c : Cursor) :
    advance^[m] (advance^[n] c) = advance^[m + n] c :=
  (Function.iterate_add_apply advance m n c).symm

end Cursor

namespace Parser

open Cursor

theorem run_bind_of_ok {α β : Type} {x : Parser α} {f : α → Parser β} {c c' : Cursor} {a : α}
    (h : x c = .ok a c') : (x >>= f) c = f a c' := by
  show EStateM.bind x f c = _
  unfold EStateM.bind
  rw [h]

theorem run_bind_of_error {α β : Type} {x : Parser α} {f : α → Parser β} {c c' : Cursor}
    {e : SyntaxError} (h : x c = .error e c') : (x >>= f) c = .error e c' := by
  show EStateM.bind x f c = _
  unfold EStateM.bind
  rw [h]

theorem expect_of_kind {k : TokenKind} {c : Cursor} (h : c.kind = k) :
    expect k c = .ok c.current c.advance := by
  simp [expect, h]

theorem expectName_of_name {c : Cursor} (h : c.kind.isName = true) :
    expectName c = .ok c.current.text c.advance := by
  simp [expectName, h]

/-! ## Comma-separated elements

The items of a list or call and the arguments of an attribute are read by loops of one shape:
stop at the closing token, or read an element, skip a comma after it and go on. `commaJoin_loop`
reads printed elements back through any such loop, given what one round and the stop do. -/

theorem commaJoin_loop {β : Type} (loop : List β → Cursor → Outcome (List β))
    (read : Parser (Option β)) (g : β → List (TokenKind × String)) {close : TokenKind}
    (fin : Cursor → Cursor) (hclose : close ≠ .comma)
    (hfin : ∀ acc c, c.kind = close → loop acc c = .ok acc.reverse (fin c))
    (hstep : ∀ acc c c1 b, c.kind ≠ close → c.kind ≠ .eof → read c = .ok (some b) c1 →
      (if c1.kind = .comma then c1.advance else c1).remaining < c.remaining →
      loop acc c = loop (b :: acc) (if c1.kind = .comma then c1.advance else c1))
    {bs : List β} (hstart : ∀ b ∈ bs, ∃ k x toks, g b = (k, x) :: toks ∧ k ≠ close ∧ k ≠ .eof)
    (hread : ∀ b ∈ bs, ∀ c : Cursor, c.Sees (g b) →
      ((advance^[(g b).length] c).kind = .comma ∨ (advance^[(g b).length] c).kind = close) →
      read c = .ok (some b) (advance^[(g b).length] c))
    {x : String} {acc : List β} {c : Cursor} (hc : c.Sees (commaJoin (bs.map g) ++ [(close, x)])) :
    loop acc c = .ok (acc.reverse ++ bs) (fin (advance^[(commaJoin (bs.map g)).length] c)) := by
  have hfirst : ∀ b, (∃ k x toks, g b = (k, x) :: toks ∧ k ≠ close ∧ k ≠ .eof) →
      ∀ {c : Cursor} {rest}, c.Sees (g b ++ rest) →
      c.kind ≠ close ∧ c.kind ≠ .eof ∧ (advance^[(g b).length] c).remaining < c.remaining := by
    intro b hb c rest h
    obtain ⟨k, y, toks, hg, hk⟩ := hb
    have hb' := (sees_append.1 h).1
    rw [hg, List.cons_append] at h
    rw [h.head.1]
    exact ⟨hk.1, hk.2, hb'.remaining_lt (by simp [hg])⟩
  induction bs generalizing acc c with
  | nil =>
    rw [List.map_nil, commaJoin, List.nil_append] at hc
    rw [hfin acc c hc.head.1]
    simp [commaJoin]
  | cons b bs ih =>
    cases bs with
    | nil =>
      rw [List.map_singleton, commaJoin] at hc ⊢
      obtain ⟨hb, hafter⟩ := sees_append.1 hc
      have hk := hafter.head.1
      have hne : (advance^[(g b).length] c).kind ≠ .comma := hk ▸ hclose
      obtain ⟨hs, he, hlt⟩ := hfirst b (hstart b (by simp)) hc
      rw [hstep acc c _ b hs he (hread b (by simp) c hb (.inr hk)) (by rw [if_neg hne]; exact hlt),
        if_neg hne, hfin _ _ hk]
      simp
    | cons b' bs =>
      have hj : commaJoin ((b :: b' :: bs).map g) =
          g b ++ (.comma, ",") :: commaJoin ((b' :: bs).map g) := rfl
      rw [hj, List.append_assoc, List.cons_append] at hc
      rw [hj]
      obtain ⟨hb, hafter⟩ := sees_append.1 hc
      obtain ⟨hk, -, hlt₁, hrest⟩ := hafter.head
      obtain ⟨hs, he, hlt⟩ := hfirst b (hstart b (by simp)) hc
      rw [hstep acc c _ b hs he (hread b (by simp) c hb (.inl hk)) (by rw [if_pos hk]; omega),
        if_pos hk, ih (fun u hu => hstart u (List.mem_cons_of_mem b hu))
          (fun u hu => hread u (List.mem_cons_of_mem b hu)) hrest,
        ← Function.iterate_succ_apply' advance, iterate_advance_add]
      simp only [List.reverse_cons, List.append_assoc, List.cons_append, List.nil_append,
        List.length_append, List.length_cons]
      congr 3
      omega

/-! ## Values -/

theorem itemsAt_of_close {close : TokenKind} {d : Nat} {acc : List Value} {c : Cursor}
    (hk : c.kind = close) : itemsAt close d acc c = .ok acc.reverse c.advance := by
  rw [itemsAt]
  simp [hk, expect]

theorem itemsAt_of_value {close : TokenKind} {d : Nat} {acc : List Value} {c c1 : Cursor}
    {v : Value} (hk : c.kind ≠ close) (he : c.kind ≠ .eof) (hv : valueAt d c = .ok (some v) c1)
    (hlt : (if c1.kind = .comma then c1.advance else c1).remaining < c.remaining) :
    itemsAt close d acc c =
      itemsAt close d (v :: acc) (if c1.kind = .comma then c1.advance else c1) := by
  rw [itemsAt]
  simp only [hk, he, or_self, if_false, hv]
  rw [if_pos hlt]

theorem itemsAt_sees {close : TokenKind} (hclose : close = .rBracket ∨ close = .rParen)
    {x : String} {d : Nat} {vs : List Value}
    (hread : ∀ v ∈ vs, ∀ c : Cursor, c.Sees v.tokens →
      (advance^[v.tokens.length] c).kind ≠ .lParen →
      valueAt d c = .ok (some v) (advance^[v.tokens.length] c))
    {acc : List Value} {c : Cursor} (hc : c.Sees (Value.itemTokens vs ++ [(close, x)])) :
    itemsAt close d acc c =
      .ok (acc.reverse ++ vs) (advance^[(Value.itemTokens vs).length + 1] c) := by
  have hne : close ≠ .comma ∧ close ≠ .lParen := by
    rcases hclose with rfl | rfl <;> decide
  rw [Value.itemTokens_eq_commaJoin] at hc ⊢
  rw [Function.iterate_succ_apply']
  refine commaJoin_loop (itemsAt close d) (valueAt d) Value.tokens advance hne.1
    (fun acc c hk => itemsAt_of_close hk)
    (fun acc c c1 b hk he hv hlt => itemsAt_of_value hk he hv hlt) ?_ ?_ hc
  · intro v _
    obtain ⟨k, y, toks, hv, hk⟩ := v.tokens_head
    refine ⟨k, y, toks, hv, ?_, hk.2.2⟩
    rcases hclose with rfl | rfl
    · exact hk.1
    · exact hk.2.1
  · intro v hv c hc hafter
    refine hread v hv c hc ?_
    rcases hafter with h | h <;> rw [h]
    · decide
    · exact hne.2

end Parser

open DbSchema.Parser DbSchema.Cursor in
theorem Value.Readable.valueAt_sees {d : Nat} {v : Value} (h : v.Readable d) {c : Cursor}
    (hc : c.Sees v.tokens) (hnext : (advance^[v.tokens.length] c).kind ≠ .lParen) :
    valueAt d c = .ok (some v) (advance^[v.tokens.length] c) := by
  induction h generalizing c with
  | str _ | int _ | float _ =>
    obtain ⟨hk, hx, -⟩ := Sees.head hc
    rw [valueAt]
    simp only [kind] at hk
    simp [hk, hx, tokens, TokenKind.isName, TokenKind.isKeyword]
  | bool =>
    rename_i b
    obtain ⟨hk, hx, -⟩ := Sees.head hc
    rw [valueAt]
    simp only [kind] at hk
    cases b <;> simp [hk, hx, tokens, TokenKind.isName, TokenKind.isKeyword]
  | ident hn =>
    rename_i n
    obtain ⟨hk, hx, -⟩ := Sees.head hc
    have hname : (TokenKind.ofWord n).isName = true := by
      simp only [isNameWord, Bool.and_eq_true] at hn
      exact hn.2
    have hpeek : c.peek.kind ≠ .lParen := hnext
    have hnext' : c.advance.kind ≠ .lParen := hnext
    rw [valueAt]
    simp only [kind] at hk
    rcases TokenKind.ofWord_cases n with h | h | h | h | h | h | h <;> rw [h] at hk hname <;>
      simp [hk, hx, hpeek, hnext', tokens, TokenKind.isName, TokenKind.isKeyword] at hname ⊢
  | list hd hvs ih =>
    rename_i vs
    obtain ⟨hk, -, hlt, hs⟩ := Sees.head hc
    have hitems : itemsAt .rBracket _ [] c.advance = _ :=
      itemsAt_sees (.inl rfl) (fun v hv c hc hn => ih v hv hc hn) hs
    rw [valueAt]
    simp only [kind] at hk
    simp [hk, Nat.not_le.2 hd, hlt, hitems, tokens, Function.iterate_succ_apply]
  | call hf hd hvs ih =>
    rename_i f vs
    obtain ⟨hk, hx, hlt₁, hs₁⟩ := Sees.head hc
    obtain ⟨hk₁, -, hlt₂, hs₂⟩ := Sees.head hs₁
    have hname : (TokenKind.ofWord f).isName = true := by
      simp only [isNameWord, Bool.and_eq_true] at hf
      exact hf.2
    have hpeek : c.peek.kind = .lParen := hk₁
    have hitems : itemsAt .rParen _ [] c.advance.advance = _ :=
      itemsAt_sees (.inr rfl) (fun v hv c hc hn => ih v hv hc hn) hs₂
    rw [valueAt]
    simp only [kind] at hk
    rcases TokenKind.ofWord_cases f with h | h | h | h | h | h | h <;> rw [h] at hk hname <;>
      simp [hk, hx, hpeek, hk₁, Nat.not_le.2 hd, hitems, Nat.lt_trans hlt₂ hlt₁, tokens,
        TokenKind.isName, TokenKind.isKeyword, Function.iterate_succ_apply] at hname ⊢

/-! ## Attributes -/

theorem Scan.dottedTokens_cons (p : String) (ps : List String) :
    dottedTokens (p :: ps) =
      (TokenKind.ofWord p, p) :: ps.flatMap fun q => [(.dot, "."), (TokenKind.ofWord q, q)] := by
  induction ps generalizing p with
  | nil => rfl
  | cons q qs ih => rw [dottedTokens, ih, List.flatMap_cons]; rfl

theorem String.intercalate_append_cons (s a b : String) (l : List String) :
    s.intercalate ((a ++ s ++ b) :: l) = s.intercalate (a :: b :: l) := by
  cases l with
  | nil => simp [String.intercalate_cons_cons]
  | cons x l => simp [String.intercalate_cons_cons, String.append_assoc]

theorem Argument.tokens_head (a : Argument) : ∃ k x toks, a.tokens = (k, x) :: toks ∧
    k ≠ .rParen ∧ k ≠ .eof := by
  unfold Argument.tokens
  cases a.name with
  | some n =>
    refine ⟨_, _, _, rfl, ?_⟩
    rcases TokenKind.ofWord_cases n with h | h | h | h | h | h | h <;> rw [h] <;> decide
  | none =>
    obtain ⟨k, x, toks, hv, -, hk⟩ := a.value.tokens_head
    exact ⟨k, x, toks, hv, hk⟩

namespace Parser

open Cursor

theorem dottedName_sees {ps : List String} (hps : ∀ p ∈ ps, isNameWord p = true) {acc : String}
    {c : Cursor} (hc : c.Sees (ps.flatMap fun q => [(.dot, "."), (TokenKind.ofWord q, q)]))
    (hnext : (advance^[(ps.flatMap fun q => [(.dot, "."), (TokenKind.ofWord q, q)]).length] c).kind
      ≠ .dot) :
    dottedName acc c = .ok (".".intercalate (acc :: ps))
      (advance^[(ps.flatMap fun q => [(.dot, "."), (TokenKind.ofWord q, q)]).length] c) := by
  induction ps generalizing acc c with
  | nil =>
    rw [dottedName, if_neg (by simpa using hnext)]
    simp
  | cons q qs ih =>
    rw [List.flatMap_cons, List.cons_append, List.cons_append, List.nil_append] at hc hnext ⊢
    obtain ⟨hk, -, hlt₁, hs₁⟩ := Sees.head hc
    obtain ⟨hk₁, hx₁, hlt₂, hs₂⟩ := Sees.head hs₁
    have hname : c.advance.kind.isName = true := by
      have := hps q (by simp)
      simp only [isNameWord, Bool.and_eq_true] at this
      rw [hk₁]
      exact this.2
    simp only [List.length_cons, Function.iterate_succ_apply] at hnext ⊢
    rw [dottedName, if_pos hk, expectName_of_name hname]
    dsimp only
    rw [if_pos (Nat.lt_trans hlt₂ hlt₁), hx₁,
      ih (fun p hp => hps p (List.mem_cons_of_mem q hp)) hs₂ hnext,
      String.intercalate_append_cons]

end Parser

open DbSchema.Parser DbSchema.Cursor in
theorem Value.not_named {v : Value} {c : Cursor} (hc : c.Sees v.tokens)
    (hnext : (advance^[v.tokens.length] c).kind = .comma ∨
      (advance^[v.tokens.length] c).kind = .rParen) :
    (c.kind.isName && (c.peek.kind == .colon || c.peek.kind == .equals)) = false := by
  cases v with
  | ident n =>
    have h : c.advance.kind = .comma ∨ c.advance.kind = .rParen := hnext
    have hk : c.peek.kind = c.advance.kind := rfl
    rcases h with h | h <;> simp [hk, h]
  | call f vs =>
    have hk : c.peek.kind = .lParen := (Sees.head (Sees.head hc).2.2.2).1
    simp [hk]
  | _ =>
    rw [(Sees.head hc).1]
    rfl

open DbSchema.Parser DbSchema.Cursor in
theorem Argument.Readable.argument_sees {a : Argument} (h : a.Readable) {c : Cursor}
    (hc : c.Sees a.tokens)
    (hnext : (advance^[a.tokens.length] c).kind = .comma ∨
      (advance^[a.tokens.length] c).kind = .rParen) :
    argument c = .ok (some a) (advance^[a.tokens.length] c) := by
  obtain ⟨name, v⟩ := a
  have hv := h.value
  simp only at hv
  unfold argument
  rw [run_bind_of_ok (rfl : (get : Parser Cursor) c = .ok c c)]
  cases name with
  | none =>
    simp only [Argument.tokens] at hc hnext ⊢
    rw [Value.not_named hc hnext, if_neg Bool.false_ne_true,
      run_bind_of_ok (x := Parser.value) (hv.valueAt_sees hc (by rcases hnext with h | h <;> rw [h] <;> decide))]
    rfl
  | some n =>
    simp only [Argument.tokens] at hc hnext ⊢
    obtain ⟨hk, hx, -, hs₁⟩ := Sees.head hc
    obtain ⟨hk₁, -, -, hs₂⟩ := Sees.head hs₁
    have hname : c.kind.isName = true := by
      have := h.name n rfl
      simp only [isNameWord, Bool.and_eq_true] at this
      rw [hk]
      exact this.2
    have hpeek : c.peek.kind = .colon := hk₁
    simp only [List.length_cons, Function.iterate_succ_apply] at hnext ⊢
    rw [if_pos (by simp [hname, hpeek]), run_bind_of_ok (rfl : next c = _),
      run_bind_of_ok (rfl : next c.advance = _),
      run_bind_of_ok (x := Parser.value) (hv.valueAt_sees hs₂ (by rcases hnext with h | h <;> rw [h] <;> decide)), hx]
    rfl

namespace Parser

open Cursor

theorem arguments_of_close {acc : List Argument} {c : Cursor} (hk : c.kind = .rParen) :
    arguments acc c = .ok acc.reverse c := by
  rw [arguments]
  simp [hk]

theorem arguments_of_argument {acc : List Argument} {c c1 : Cursor} {a : Argument}
    (hk : c.kind ≠ .rParen) (he : c.kind ≠ .eof) (ha : argument c = .ok (some a) c1)
    (hlt : (if c1.kind = .comma then c1.advance else c1).remaining < c.remaining) :
    arguments acc c = arguments (a :: acc) (if c1.kind = .comma then c1.advance else c1) := by
  rw [arguments]
  simp only [hk, he, or_self, if_false, ha]
  rw [if_pos hlt]

theorem arguments_sees {args : List Argument} (hargs : ∀ a ∈ args, a.Readable) {x : String}
    {acc : List Argument} {c : Cursor}
    (hc : c.Sees (commaJoin (args.map Argument.tokens) ++ [(.rParen, x)])) :
    arguments acc c =
      .ok (acc.reverse ++ args) (advance^[(commaJoin (args.map Argument.tokens)).length] c) :=
  commaJoin_loop arguments argument Argument.tokens id (by decide)
    (fun _ _ hk => arguments_of_close hk)
    (fun _ _ _ _ hk he ha hlt => arguments_of_argument hk he ha hlt)
    (fun a _ => a.tokens_head) (fun a ha c hc hnext => (hargs a ha).argument_sees hc hnext) hc

end Parser

open DbSchema.Parser DbSchema.Cursor in
theorem Attribute.Readable.attr_sees {parts : List String} {a : Attribute} (h : a.Readable parts)
    {c : Cursor} (hc : c.Sees (a.tokens parts))
    (hnext : a.args = [] → (advance^[(a.tokens parts).length] c).kind ≠ .lParen ∧
      (advance^[(a.tokens parts).length] c).kind ≠ .dot) :
    attr c = .ok a (advance^[(a.tokens parts).length] c) := by
  obtain ⟨name, args⟩ := a
  obtain ⟨hname, hne, hparts, hargs⟩ := h
  obtain _ | ⟨p, ps⟩ := parts
  · exact absurd rfl hne
  simp only at hname hargs hnext
  subst hname
  have hp : (TokenKind.ofWord p).isName = true := by
    have := hparts p (by simp)
    simp only [isNameWord, Bool.and_eq_true] at this
    exact this.2
  unfold Attribute.tokens at hc hnext ⊢
  rw [dottedTokens_cons] at hc hnext ⊢
  simp only [List.cons_append] at hc hnext ⊢
  obtain ⟨-, -, -, hs₁⟩ := Sees.head hc
  obtain ⟨hk₁, hx₁, -, hs₂⟩ := Sees.head hs₁
  obtain ⟨hflat, hrest⟩ := sees_append.1 hs₂
  have hps : ∀ q ∈ ps, isNameWord q = true := fun q hq => hparts q (List.mem_cons_of_mem p hq)
  have hdot : (advance^[(ps.flatMap fun q => [(.dot, "."), (TokenKind.ofWord q, q)]).length]
      c.advance.advance).kind ≠ .dot := by
    cases args with
    | nil =>
      have := (hnext rfl).2
      simpa [Function.iterate_succ_apply] using this
    | cons a as =>
      simp only [List.isEmpty_cons, if_false, Bool.false_eq_true] at hrest
      rw [(Sees.head hrest).1]
      decide
  unfold attr
  rw [run_bind_of_ok (rfl : next c = _), run_bind_of_ok (expectName_of_name (hk₁ ▸ hp)), hx₁,
    run_bind_of_ok (dottedName_sees hps hflat hdot), current_bind]
  cases args with
  | nil =>
    have hend := hnext rfl
    simp only [List.isEmpty_nil, if_true, List.append_nil, List.length_cons,
      Function.iterate_succ_apply, kind] at hend ⊢
    rw [if_neg hend.1]
    rfl
  | cons a as =>
    simp only [List.isEmpty_cons, if_false, Bool.false_eq_true] at hrest ⊢
    obtain ⟨hk₂, -, -, hs₃⟩ := Sees.head hrest
    obtain ⟨hargs', hclose⟩ := sees_append.1 hs₃
    have hparen : (advance^[(ps.flatMap fun q => [(.dot, "."), (TokenKind.ofWord q, q)]).length]
        c.advance.advance).current.kind = .lParen := hk₂
    rw [if_pos hparen, run_bind_of_ok (rfl : next _ = _),
      run_bind_of_ok (arguments_sees hargs hs₃),
      run_bind_of_ok (expect_of_kind (Sees.head hclose).1)]
    simp only [advance_eq_iterate, iterate_advance_add, List.length_cons, List.length_append,
      List.length_nil, List.reverse_nil, List.nil_append]
    show EStateM.Result.ok _ _ = _
    congr 2
    omega

/-! ## Field types -/

namespace Parser

open Cursor

theorem expectIdent_of_ident {c : Cursor} (h : c.kind = .ident) :
    expectIdent c = .ok c.current.text c.advance := by
  unfold expectIdent
  rw [run_bind_of_ok (expect_of_kind h)]
  rfl

theorem arraySuffix_sees (b : Bool) {c : Cursor}
    (hc : c.Sees (if b then [(.lBracket, "["), (.rBracket, "]")] else []))
    (hnext : b = false → c.kind ≠ .lBracket) :
    arraySuffix c = .ok b
      (advance^[(if b then [(.lBracket, "["), (.rBracket, "]")] else
        ([] : List (TokenKind × String))).length] c) := by
  unfold arraySuffix
  rw [run_bind_of_ok (rfl : (get : Parser Cursor) c = .ok c c)]
  cases b with
  | false =>
    rw [if_neg (fun h => hnext rfl h.1)]
    rfl
  | true =>
    obtain ⟨hk, -, -, hs⟩ := Sees.head hc
    have hpeek : c.peek.kind = .rBracket := (Sees.head hs).1
    rw [if_pos ⟨hk, hpeek⟩, run_bind_of_ok (rfl : next c = _), run_bind_of_ok (rfl : next _ = _)]
    rfl

theorem optionalMark_sees (b : Bool) {c : Cursor}
    (hc : c.Sees (if b then [(.question, "?")] else []))
    (hnext : b = false → c.kind ≠ .question) :
    optionalMark c = .ok b
      (advance^[(if b then [(.question, "?")] else ([] : List (TokenKind × String))).length] c) := by
  unfold optionalMark
  rw [current_bind]
  cases b with
  | false =>
    have hk : c.current.kind ≠ .question := hnext rfl
    rw [if_neg hk]
    rfl
  | true =>
    have hk : c.current.kind = .question := (Sees.head hc).1
    rw [if_pos hk, run_bind_of_ok (rfl : next c = _)]
    rfl

end Parser

open DbSchema.Parser DbSchema.Cursor in
theorem TypeName.Readable.typeName_sees {base : TypeName} (h : base.Readable) {c : Cursor}
    (hc : c.Sees base.tokens) : typeName c = .ok base (advance^[base.tokens.length] c) := by
  unfold typeName
  cases h with
  | named _ hk hn =>
    obtain ⟨hk₀, hx, -⟩ := Sees.head hc
    rw [run_bind_of_ok (expectIdent_of_ident hk₀), hx, if_neg hn]
    rfl
  | unsupported _ =>
    obtain ⟨hk₀, hx, -, hs₁⟩ := Sees.head hc
    obtain ⟨hk₁, -, -, hs₂⟩ := Sees.head hs₁
    obtain ⟨hk₂, hx₂, -, hs₃⟩ := Sees.head hs₂
    obtain ⟨hk₃, -, -, -⟩ := Sees.head hs₃
    rw [run_bind_of_ok (expectIdent_of_ident hk₀), hx, if_pos rfl,
      run_bind_of_ok (expect_of_kind hk₁), run_bind_of_ok (expect_of_kind hk₂),
      run_bind_of_ok (expect_of_kind hk₃), hx₂]
    rfl

open DbSchema.Parser DbSchema.Cursor in
theorem FieldType.fieldType_sees {t : FieldType} (h : t.base.Readable) {c : Cursor}
    (hc : c.Sees t.tokens)
    (hnext : (advance^[t.tokens.length] c).kind ≠ .lBracket ∧
      (advance^[t.tokens.length] c).kind ≠ .question) :
    fieldType c = .ok t (advance^[t.tokens.length] c) := by
  obtain ⟨base, isArray, isOptional⟩ := t
  unfold FieldType.tokens at hc hnext ⊢
  simp only at h hc hnext ⊢
  obtain ⟨hba, hopt⟩ := sees_append.1 hc
  obtain ⟨hbase, harr⟩ := sees_append.1 hba
  simp only [iterate_length_append] at hnext hopt ⊢
  have hnoarr : isArray = false → (advance^[base.tokens.length] c).kind ≠ .lBracket := by
    rintro rfl
    cases isOptional with
    | false => exact hnext.1
    | true =>
      have hq : (advance^[base.tokens.length] c).kind = .question := (Sees.head hopt).1
      rw [hq]
      decide
  rw [fieldType_eq, run_bind_of_ok (h.typeName_sees hbase),
    run_bind_of_ok (arraySuffix_sees isArray harr hnoarr),
    run_bind_of_ok (optionalMark_sees isOptional hopt (fun hb => by subst hb; exact hnext.2))]
  rfl

end DbSchema
