import DbSchema.Proofs.CleanPrefix
import DbSchema.Syntax.Buffered

/-! # The cursor with two tokens read ahead is the cursor over the token list

The grammar is written over `Cursor`, the list of the tokens of a text not yet read. The reader
keeps a `BufferedCursor`: a lexer pulled one token at a time and two slots. A buffered cursor
tracks a list cursor (`BufferedCursor.Tracks`) when their two tokens and their brace counts agree
and the lexer has yet to give the tokens after those two, line breaks left out, and then the end
token. The buffered cursor of a text tracks the list cursor of the text, and a bump gives the
current token and tracks one advance; so the buffered cursor shows, after any number of bumps,
the tokens of the text without its line breaks as a window of two, and keeps giving the end token
once it is reached.

* `Lexer.tokenize_new`: the tokens pulled one at a time are those of `Token.scan`.
* `Lexer.nextSignificant_window`: a pull gives the first of the tokens still to come.
* `BufferedCursor.Tracks.bump`, `BufferedCursor.Tracks.bumps`: a bump, and a run of bumps.
* `BufferedCursor.bumps_window`: the window after any number of bumps of the cursor of a text.
-/

namespace DbSchema

set_option autoImplicit false

open DbSchema.Parser Scan

namespace Lexer

/-- The tokens still to come, line breaks left out, the end token last. -/
def significant (l : Lexer) : List Token :=
  l.tokenize.filter (·.kind != .newline)

theorem nextToken_nil (p : Pos) : (⟨[], p⟩ : Lexer).nextToken = (Token.eofAt p, ⟨[], p⟩) :=
  rfl

theorem nextToken_eof {l : Lexer} (h : l.nextToken.1.kind = .eof) :
    l.nextToken = (Token.eofAt l.nextToken.1.pos, ⟨[], l.nextToken.1.pos⟩) := by
  rcases hs : trivia l.rest with ⟨gap, _ | ⟨c, r⟩⟩
  · simp only [nextToken, hs]
    rfl
  · simp only [nextToken, hs] at h
    exact absurd h (lexeme_kind_ne_eof _ _ (List.cons_ne_nil c r))

theorem nextToken_sticky {l : Lexer} (h : l.nextToken.1.kind = .eof) :
    l.nextToken.2.nextToken = l.nextToken := by
  rw [nextToken_eof h]
  exact nextToken_nil _

theorem tokenize_eq (l : Lexer) :
    l.tokenize = l.nextToken.1 ::
      (if l.nextToken.1.kind = .eof then [] else l.nextToken.2.tokenize) := by
  rw [tokenize]
  split
  rename_i t l' hn
  rw [hn]
  split <;> rfl

theorem tokenize_eq_tokensFrom (l : Lexer) :
    l.tokenize = (tokensFrom l.pos l.rest).1 ++ [Token.eofAt (tokensFrom l.pos l.rest).2] := by
  fun_induction tokenize l with
  | case1 l t l' hn hk =>
    rcases hs : trivia l.rest with ⟨gap, _ | ⟨c, r⟩⟩
    · simp only [nextToken, hs, Prod.mk.injEq] at hn
      rw [tokensFrom_eq_end hs, ← hn.1]
      rfl
    · simp only [nextToken, hs, Prod.mk.injEq] at hn
      exact absurd (hn.1 ▸ hk) (lexeme_kind_ne_eof _ _ (List.cons_ne_nil c r))
  | case2 l t l' hn hk ih =>
    rcases hs : trivia l.rest with ⟨gap, _ | ⟨c, r⟩⟩
    · simp only [nextToken, hs, Prod.mk.injEq] at hn
      exact absurd (hn.1 ▸ rfl) hk
    · simp only [nextToken, hs, Prod.mk.injEq] at hn
      obtain ⟨rfl, rfl⟩ := hn
      rw [ih, tokensFrom_eq_cons hs]
      rfl

theorem tokenize_new (s : String) : (Lexer.new s).tokenize = Token.scan s := by
  rw [tokenize_eq_tokensFrom]
  rfl

theorem significant_eq (l : Lexer) :
    l.significant = (l.nextToken.1 ::
      (if l.nextToken.1.kind = .eof then [] else l.nextToken.2.tokenize)).filter
        (·.kind != .newline) := by
  rw [significant, tokenize_eq]

theorem significant_eq_cons (l : Lexer) :
    l.significant = l.nextSignificant.1 ::
      (if l.nextSignificant.1.kind = .eof then [] else l.nextSignificant.2.significant) := by
  fun_induction nextSignificant l with
  | case1 l t l' hn hk ih =>
    have hne : t.kind ≠ .eof := by rw [hk]; decide
    rw [significant_eq, hn, if_neg hne, List.filter_cons_of_neg (by simp [hk]), ← ih]
    rfl
  | case2 l t l' hn hk =>
    rw [significant_eq, hn, List.filter_cons_of_pos (by simpa using hk)]
    split <;> rfl

theorem significant_of_eof (l : Lexer) (h : l.nextSignificant.1.kind = .eof) :
    l.nextSignificant.2.significant = [l.nextSignificant.1] := by
  fun_induction nextSignificant l with
  | case1 l t l' hn hk ih => exact ih h
  | case2 l t l' hn hk =>
    have hsticky := nextToken_sticky (l := l)
    rw [hn] at hsticky
    rw [significant_eq, hsticky h, if_pos h, List.filter_cons_of_pos (by simpa using hk)]
    rfl

theorem nextSignificant_window {l : Lexer} {D : List Token} {p : Pos}
    (hl : l.significant = D ++ [Token.eofAt p]) (hD : ∀ t ∈ D, t.kind ≠ .eof) :
    l.nextSignificant.1 = D.headD (Token.eofAt p) ∧
      l.nextSignificant.2.significant = D.tail ++ [Token.eofAt p] := by
  have hcons := significant_eq_cons l
  rw [hl] at hcons
  cases D with
  | nil =>
    obtain ⟨hn, -⟩ := List.cons.inj hcons
    have hkind : l.nextSignificant.1.kind = .eof := by rw [← hn]; rfl
    refine ⟨hn.symm, ?_⟩
    rw [significant_of_eof l hkind, ← hn]
    rfl
  | cons x D =>
    obtain ⟨hn, hrest⟩ := List.cons.inj hcons
    have hkind : l.nextSignificant.1.kind ≠ .eof := hn ▸ hD x List.mem_cons_self
    rw [if_neg hkind] at hrest
    exact ⟨hn.symm, hrest.symm⟩

end Lexer

namespace Cursor

/-- The tokens the cursor shows from here on: those not yet read, then the end of the text. -/
def window (c : Cursor) : List Token :=
  c.ahead ++ [Token.eofAt c.endPos]

theorem getElem?_append_min {α : Type} (l : List α) (d : α) (k : Nat) :
    (l ++ [d])[min k l.length]? = some ((l.drop k).headD d) := by
  rw [List.headD_eq_head?_getD, List.head?_drop]
  by_cases hk : k < l.length
  · rw [Nat.min_eq_left hk.le, List.getElem?_append_left hk, List.getElem?_eq_getElem hk]
    rfl
  · rw [Nat.min_eq_right (Nat.le_of_not_lt hk), List.getElem?_concat_length,
      List.getElem?_eq_none (Nat.le_of_not_lt hk)]
    rfl

theorem iterate_endPos (c : Cursor) (k : Nat) : (advance^[k] c).endPos = c.endPos :=
  Reach.endPos ⟨k, rfl⟩

theorem current_iterate (c : Cursor) (k : Nat) :
    c.window[min k c.ahead.length]? = some (advance^[k] c).current := by
  rw [window, getElem?_append_min, Cursor.current, ahead_iterate_advance, iterate_endPos]

theorem peek_iterate (c : Cursor) (k : Nat) :
    c.window[min (k + 1) c.ahead.length]? = some (advance^[k] c).peek := by
  rw [show (advance^[k] c).peek = (advance^[k] c).advance.current from rfl,
    ← Function.iterate_succ_apply' advance, current_iterate]

theorem significant_new (s : String) : (Lexer.new s).significant = (ofText s).window := by
  rw [Lexer.significant, Lexer.tokenize_new, Token.scan, window, ofText_ahead, ofText_endPos,
    List.filter_append]
  rfl

theorem findIdx_ofText_window (s : String) :
    (ofText s).window.findIdx (·.kind == .eof) = (ofText s).ahead.length := by
  have hnone : (ofText s).ahead.findIdx (·.kind == .eof) = (ofText s).ahead.length :=
    List.findIdx_eq_length.mpr fun t ht => by simpa using ofText_kind_ne_eof s t ht
  rw [window, List.findIdx_append, hnone]
  simp [Token.eofAt]

end Cursor

namespace BufferedCursor

@[simp] theorem bump_current (b : BufferedCursor) : b.bump.2.current = b.peek := rfl

@[simp] theorem bump_peek (b : BufferedCursor) : b.bump.2.peek = b.lexer.nextSignificant.1 := rfl

@[simp] theorem bump_lexer (b : BufferedCursor) :
    b.bump.2.lexer = b.lexer.nextSignificant.2 := rfl

theorem bump_depth (b : BufferedCursor) : b.bump.2.depth = depthStep b.depth b.current := rfl

theorem bumps_succ (b : BufferedCursor) (k : Nat) :
    b.bumps (k + 1) = (b.bump.1 :: (b.bump.2.bumps k).1, (b.bump.2.bumps k).2) := rfl

/-- The buffered cursor `b` shows what the list cursor `c` shows: the same two tokens and brace
count, and its lexer has yet to give the tokens of `c` after those two, then the end token. -/
structure Tracks (b : BufferedCursor) (c : Cursor) : Prop where
  current : b.current = c.current
  peek : b.peek = c.peek
  depth : b.depth = c.depth
  pending : b.lexer.significant = c.ahead.tail.tail ++ [Token.eofAt c.endPos]
  ahead_ne_eof : ∀ t ∈ c.ahead, t.kind ≠ .eof

theorem Tracks.bump {b : BufferedCursor} {c : Cursor} (h : b.Tracks c) :
    b.bump.1 = c.current ∧ b.bump.2.Tracks c.advance := by
  have hD : ∀ t ∈ c.ahead.tail.tail, t.kind ≠ .eof := fun t ht =>
    h.ahead_ne_eof t (List.mem_of_mem_tail (List.mem_of_mem_tail ht))
  obtain ⟨hnext, hrest⟩ := Lexer.nextSignificant_window h.pending hD
  refine ⟨h.current, ⟨?_, ?_, ?_, ?_, ?_⟩⟩
  · rw [bump_current, h.peek]
    rfl
  · rw [bump_peek, hnext]
    rfl
  · rw [bump_depth, advance_depth, h.current, h.depth]
  · rw [bump_lexer, hrest]
    rfl
  · exact fun t ht => h.ahead_ne_eof t (List.mem_of_mem_tail ht)

theorem Tracks.bumps {b : BufferedCursor} {c : Cursor} (h : b.Tracks c) (k : Nat) :
    (b.bumps k).1 = (List.range k).map (fun j => (Cursor.advance^[j] c).current) ∧
      (b.bumps k).2.Tracks (Cursor.advance^[k] c) := by
  induction k generalizing b c with
  | zero => exact ⟨rfl, h⟩
  | succ k ih =>
    obtain ⟨hfst, hnext⟩ := h.bump
    obtain ⟨htokens, htracks⟩ := ih hnext
    rw [bumps_succ, Function.iterate_succ_apply]
    refine ⟨?_, htracks⟩
    rw [htokens, hfst, List.range_succ_eq_map, List.map_cons, List.map_map]
    rfl

theorem tracks_new (s : String) : (new (Lexer.new s)).Tracks (Cursor.ofText s) := by
  have hwin : (Lexer.new s).significant = (Cursor.ofText s).ahead ++
      [Token.eofAt (Cursor.ofText s).endPos] := Cursor.significant_new s
  have hne := Cursor.ofText_kind_ne_eof s
  obtain ⟨hcur, hrest⟩ := Lexer.nextSignificant_window hwin hne
  obtain ⟨hpeek, hrest'⟩ := Lexer.nextSignificant_window hrest fun t ht =>
    hne t (List.mem_of_mem_tail ht)
  exact ⟨hcur, hpeek, rfl, hrest', hne⟩

end BufferedCursor

/-- Let `F` be the tokens of a text pulled from its lexer up to the first end token, line breaks
left out, and `m` the index of the end token in `F`. After `k` bumps of the buffered cursor of
the text, its current token is the one at `min k m` of `F` and its next token the one at
`min (k + 1) m`; the `j`-th of the bumps gave the token at `min j m`; and its brace count is the
count over the tokens before `min k m`, from left to right, `{` adding one and `}` taking one
away but never below zero. -/
theorem BufferedCursor.bumps_window (s : String) (k : Nat) :
    (Lexer.new s).significant[min k ((Lexer.new s).significant.findIdx (·.kind == .eof))]? =
        some ((new (Lexer.new s)).bumps k).2.current ∧
      (Lexer.new s).significant[min (k + 1)
          ((Lexer.new s).significant.findIdx (·.kind == .eof))]? =
        some ((new (Lexer.new s)).bumps k).2.peek ∧
      (∀ j, ((new (Lexer.new s)).bumps k).1[j]? =
        if j < k then
          (Lexer.new s).significant[min j ((Lexer.new s).significant.findIdx (·.kind == .eof))]?
        else none) ∧
      ((new (Lexer.new s)).bumps k).2.depth =
        ((Lexer.new s).significant.take
          (min k ((Lexer.new s).significant.findIdx (·.kind == .eof)))).foldl depthStep 0 := by
  obtain ⟨htokens, htracks⟩ := (tracks_new s).bumps k
  have hm : (Lexer.new s).significant.findIdx (·.kind == .eof) = (Cursor.ofText s).ahead.length := by
    rw [Cursor.significant_new, Cursor.findIdx_ofText_window]
  rw [hm, Cursor.significant_new]
  refine ⟨?_, ?_, ?_, ?_⟩
  · rw [htracks.current]
    exact Cursor.current_iterate _ k
  · rw [htracks.peek]
    exact Cursor.peek_iterate _ k
  · intro j
    rw [htokens, List.getElem?_map]
    by_cases hj : j < k
    · rw [List.getElem?_range hj, if_pos hj, Cursor.current_iterate]
      rfl
    · rw [List.getElem?_eq_none (by simpa using Nat.le_of_not_lt hj), if_neg hj]
      rfl
  · have htake : (Cursor.ofText s).window.take (min k (Cursor.ofText s).ahead.length) =
        (Cursor.ofText s).ahead.take k := by
      rw [Cursor.window, List.take_append_of_le_length (Nat.min_le_right _ _), ← List.take_take,
        List.take_length]
    rw [htracks.depth, htake, Cursor.iterate_advance_depth, Cursor.ofText_depth]

end DbSchema
