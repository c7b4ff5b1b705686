import Mathlib.Data.Prod.Lex
import DbSchema.Proofs.ErrorSite

/-! # Syntax errors come in the order of the text

Positions are ordered as they come in a text: by line, then by column. The tokens of a text stand
at positions that increase strictly from one token to the next, with the end of the text after
them all, since every token covers at least one character.

The top level adds at most one error in each round: the error of a broken block, which stands at
the token where the block stopped, after the block's keyword; or the error of an unexpected token,
which stands at that token. Each round reads at least one token (`Parser.RoundsRead`). So each
new error stands after every earlier one, and there are fewer errors than tokens.

The one subtle round is the skip after a broken block, which may read nothing: it stops at once at
the end of the text or at a keyword. The error then stands at the cursor's own token; but a round
from a keyword begins a block, which reports its error further on, and at the end the top level
stops. `Parser.ErrorsBefore` carries that case.

* `Pos.lt_iff`: the order of positions.
* `Cursor.InOrder`: the tokens ahead of a cursor, and the end, stand in strictly increasing order.
* `Parser.blocks_errors_sorted`, `Parser.blocks_errors_length`: what the top level does with its
  errors, from any cursor.
* `Schema.parseSyntax_errors_ordered`: the errors of a text come in strictly increasing order of
  position, and there are fewer of them than tokens other than line breaks.
-/

namespace DbSchema

set_option autoImplicit false

/-! ## The order of positions -/

namespace Pos

/-- Positions are ordered by line, then by column. -/
instance : LinearOrder Pos :=
  LinearOrder.lift' (fun p => toLex (p.line, p.column)) fun p q h => by
    obtain ⟨l, c⟩ := p
    obtain ⟨l', c'⟩ := q
    simp only [toLex_inj, Prod.mk.injEq] at h
    rw [h.1, h.2]

theorem lt_iff {p q : Pos} : p < q ↔ p.line < q.line ∨ (p.line = q.line ∧ p.column < q.column) :=
  Prod.Lex.toLex_lt_toLex

example : (⟨2, 1⟩ : Pos) < ⟨2, 5⟩ ∧ (⟨2, 9⟩ : Pos) < ⟨3, 1⟩ := by decide

theorem lt_advance (p : Pos) (c : Char) : p < p.advance c := by
  rw [lt_iff]
  unfold advance
  split
  · exact .inl (Nat.lt_succ_self _)
  · exact .inr ⟨rfl, Nat.lt_succ_self _⟩

theorem le_advanceAll (p : Pos) (cs : List Char) : p ≤ p.advanceAll cs := by
  induction cs generalizing p with
  | nil => exact le_rfl
  | cons c cs ih => exact (lt_advance p c).le.trans (ih _)

theorem lt_advanceAll (p : Pos) {cs : List Char} (h : cs ≠ []) : p < p.advanceAll cs := by
  obtain ⟨c, cs, rfl⟩ := List.exists_cons_of_ne_nil h
  exact lt_of_lt_of_le (lt_advance p c) (le_advanceAll _ cs)

end Pos

/-! ## The tokens of a text stand in order -/

namespace Scan

theorem lexeme_source_ne_nil (p : Pos) {cs : List Char} (h : cs ≠ []) :
    (lexeme p cs).1.source.toList ≠ [] := by
  intro hs
  have happ := lexeme_source_append p cs h
  have hlt := length_lexeme_lt p cs h
  rw [hs, List.nil_append] at happ
  rw [happ] at hlt
  exact Nat.lt_irrefl _ hlt

theorem tokensFrom_pos (p : Pos) (cs : List Char) :
    ((tokensFrom p cs).1.map Token.pos ++ [(tokensFrom p cs).2]).Pairwise (· < ·) ∧
      ∀ q ∈ (tokensFrom p cs).1.map Token.pos ++ [(tokensFrom p cs).2], p ≤ q := by
  fun_induction tokensFrom p cs with
  | case1 p cs gap hs =>
    refine ⟨List.pairwise_singleton _ _, ?_⟩
    intro q hq
    rw [List.map_nil, List.nil_append, List.mem_singleton] at hq
    rw [hq]
    exact Pos.le_advanceAll p gap
  | case2 p cs gap c r hs q t rest hl ts e ht ih =>
    rw [ht] at ih
    obtain ⟨hsorted, hafter⟩ := ih
    have hpos : t.pos = q := by
      have := lexeme_pos q (c :: r)
      rwa [hl] at this
    have hnext : q < q.advanceAll t.source.toList := by
      have := lexeme_source_ne_nil q (List.cons_ne_nil c r)
      rw [hl] at this
      exact Pos.lt_advanceAll q this
    have hpq : p ≤ q := Pos.le_advanceAll p gap
    refine ⟨?_, ?_⟩
    · rw [List.map_cons, List.cons_append, List.pairwise_cons]
      refine ⟨fun u hu => ?_, hsorted⟩
      rw [hpos]
      exact lt_of_lt_of_le hnext (hafter u hu)
    · intro u hu
      rw [List.map_cons, List.cons_append, List.mem_cons] at hu
      rcases hu with rfl | hu
      · rw [hpos]
        exact hpq
      · exact hpq.trans (lt_of_lt_of_le hnext (hafter u hu)).le

end Scan

namespace Cursor

/-- The tokens ahead of the cursor, and the end of its text, stand at strictly increasing
positions. -/
def InOrder (c : Cursor) : Prop :=
  (c.ahead.map Token.pos ++ [c.endPos]).Pairwise (· < ·)

theorem ofText_inOrder (s : String) : (ofText s).InOrder := by
  have h := (Scan.tokensFrom_pos Pos.start s.toList).1
  unfold InOrder
  rw [ofText_ahead, ofText_endPos]
  exact h.sublist ((List.filter_sublist.map _).append_right _)

theorem InOrder.reach {c c' : Cursor} (h : c.InOrder) (hr : c.Reach c') : c'.InOrder := by
  obtain ⟨n, hn⟩ := hr.ahead_drop
  unfold InOrder
  rw [hn, hr.endPos, List.map_drop]
  exact h.sublist ((List.drop_sublist _ _).append_right _)

theorem current_pos_mem (c : Cursor) : c.current.pos ∈ c.ahead.map Token.pos ++ [c.endPos] := by
  cases ha : c.ahead with
  | nil => simp [current, ha, Token.eofAt]
  | cons t r =>
    rw [Parser.current_of_ahead ha, List.map_cons, List.cons_append]
    exact List.mem_cons_self

theorem InOrder.current_lt {c c' : Cursor} (h : c.InOrder) (hr : c.Reach c')
    (hlt : c'.remaining < c.remaining) : c.current.pos < c'.current.pos := by
  obtain ⟨n, hn⟩ := hr.ahead_drop
  cases ha : c.ahead with
  | nil =>
    rw [c'.remaining_eq, c.remaining_eq, hn, ha] at hlt
    simp at hlt
  | cons t r =>
    cases n with
    | zero =>
      rw [c'.remaining_eq, c.remaining_eq, hn, List.drop_zero] at hlt
      exact absurd hlt (Nat.lt_irrefl _)
    | succ n =>
      have hmem := current_pos_mem c'
      rw [hn, ha, List.drop_succ_cons, hr.endPos] at hmem
      have hsub : (r.drop n).map Token.pos ++ [c.endPos] ⊆ r.map Token.pos ++ [c.endPos] :=
        (((List.drop_sublist n r).map _).append_right _).subset
      have hord := h
      unfold InOrder at hord
      rw [ha, List.map_cons, List.cons_append, List.pairwise_cons] at hord
      rw [Parser.current_of_ahead ha]
      exact hord.1 _ (hsub hmem)

theorem InOrder.current_lt_of_advance {c c' : Cursor} (h : c.InOrder) (he : c.kind ≠ .eof)
    (hr : c.advance.Reach c') : c.current.pos < c'.current.pos :=
  h.current_lt (Reach.of_advance hr) (Nat.lt_of_le_of_lt hr.remaining_le (remaining_advance_lt he))

theorem InOrder.current_le {c c' : Cursor} (h : c.InOrder) (hr : c.Reach c') :
    c.current.pos ≤ c'.current.pos := by
  rcases Nat.lt_or_ge c'.remaining c.remaining with hlt | hge
  · exact (h.current_lt hr hlt).le
  · obtain ⟨n, hn⟩ := hr.ahead_drop
    have hlen : (c.ahead.drop n).length = c.ahead.length := by
      have := hr.remaining_le
      rw [c'.remaining_eq, c.remaining_eq, hn] at this hge
      omega
    have hsame : c'.ahead = c.ahead := by
      rw [hn]
      rw [List.length_drop] at hlen
      cases hc : c.ahead with
      | nil => exact List.drop_nil
      | cons t r =>
        rw [hc, List.length_cons] at hlen
        have : n = 0 := by omega
        rw [this, List.drop_zero]
    rw [current, current, hsame, hr.endPos]

end Cursor

/-! ## The skip after a broken block -/

namespace Parser

open Cursor

theorem recover_cases (base : Nat) (c : Cursor) :
    (recover base c = c ∧ (c.kind = .eof ∨ c.kind.isKeyword = true)) ∨
      (c.kind ≠ .eof ∧ c.advance.Reach (recover base c)) := by
  rw [recover]
  split
  · exact .inl ⟨rfl, .inl ‹_›⟩
  split
  · rename_i hkw
    exact .inl ⟨rfl, .inr hkw.1⟩
  rename_i heof _
  refine .inr ⟨heof, ?_⟩
  dsimp only
  split
  · exact Reach.refl _
  split
  · exact reach_recover base _
  · exact Reach.refl _

/-! ## The errors of the top level -/

/-- What the top level keeps of the errors `errs` it has found (the last first) when it reaches
the cursor `c`: they stand in strictly increasing order, none after the current token, and all
before it unless it is a keyword or the end, where the skip after a broken block can stop with
nothing read. -/
structure ErrorsBefore (errs : List SyntaxError) (c : Cursor) : Prop where
  sorted : (errs.map SyntaxError.pos).Pairwise (· > ·)
  le : ∀ e ∈ errs, e.pos ≤ c.current.pos
  lt : c.kind ≠ .eof → c.kind.isKeyword = false → ∀ e ∈ errs, e.pos < c.current.pos

theorem ErrorsBefore.nil (c : Cursor) : ErrorsBefore [] c :=
  ⟨List.Pairwise.nil, fun _ h => absurd h List.not_mem_nil,
    fun _ _ _ h => absurd h List.not_mem_nil⟩

theorem ErrorsBefore.of_lt {errs : List SyntaxError} {c c' : Cursor} (h : ErrorsBefore errs c)
    (hlt : c.current.pos < c'.current.pos) : ErrorsBefore errs c' where
  sorted := h.sorted
  le e he := (lt_of_le_of_lt (h.le e he) hlt).le
  lt _ _ e he := lt_of_le_of_lt (h.le e he) hlt

theorem ErrorsBefore.sorted_cons {errs : List SyntaxError} {c : Cursor} {e : SyntaxError}
    (h : ErrorsBefore errs c) (hlt : ∀ e' ∈ errs, e'.pos < e.pos) :
    ((e :: errs).map SyntaxError.pos).Pairwise (· > ·) := by
  rw [List.map_cons, List.pairwise_cons]
  refine ⟨fun p hp => ?_, h.sorted⟩
  obtain ⟨e', he', rfl⟩ := List.mem_map.1 hp
  exact hlt e' he'

theorem ErrorsBefore.cons {errs : List SyntaxError} {c c' : Cursor} {e : SyntaxError}
    (h : ErrorsBefore errs c) (hold : ∀ e' ∈ errs, e'.pos < e.pos)
    (hle : e.pos ≤ c'.current.pos)
    (hlt : c'.kind ≠ .eof → c'.kind.isKeyword = false → e.pos < c'.current.pos) :
    ErrorsBefore (e :: errs) c' where
  sorted := h.sorted_cons hold
  le e' he' := by
    rcases List.mem_cons.1 he' with rfl | he'
    · exact hle
    · exact ((hold e' he').trans_le hle).le
  lt heof hkw e' he' := by
    rcases List.mem_cons.1 he' with rfl | he'
    · exact hlt heof hkw
    · exact (hold e' he').trans (hlt heof hkw)

theorem ErrorsBefore.unexpected {errs : List SyntaxError} {c : Cursor} (hord : c.InOrder)
    (h : ErrorsBefore errs c) (heof : c.kind ≠ .eof) (hkw : c.kind.isKeyword = false) :
    ErrorsBefore (c.unexpected :: errs) c.advance := by
  have hnext := hord.current_lt_of_advance heof (Reach.refl _)
  exact h.cons (h.lt heof hkw) hnext.le fun _ _ => hnext

theorem ErrorsBefore.block_error {errs : List SyntaxError} {c c₁ : Cursor} {e : SyntaxError}
    (hord : c.InOrder) (h : ErrorsBefore errs c) (hkw : c.kind.isKeyword = true)
    (hblk : block c = .error e c₁) : ErrorsBefore (e :: errs) (recover c.depth c₁) := by
  have hr₁ : c.advance.Reach c₁ := by
    have := reach_block hkw
    rwa [hblk, Outcome.cursor_error] at this
  have hat : e.pos = c₁.current.pos := errorAtStop_block c c₁ e hblk
  have hafter : c.current.pos < e.pos :=
    hat ▸ hord.current_lt_of_advance (ne_eof_of_keyword hkw) hr₁
  have hord₁ : c₁.InOrder := hord.reach (Reach.of_advance hr₁)
  refine h.cons (fun e' he' => lt_of_le_of_lt (h.le e' he') hafter)
    (hat ▸ hord₁.current_le (reach_recover c.depth c₁)) fun heof₂ hkw₂ => ?_
  rcases recover_cases c.depth c₁ with ⟨hsame, hend | hkey⟩ | ⟨heof₁, hr₂⟩
  · rw [hsame] at heof₂
    exact absurd hend heof₂
  · rw [hsame] at hkw₂
    rw [hkw₂] at hkey
    cases hkey
  · exact hat ▸ hord₁.current_lt_of_advance heof₁ hr₂

theorem blocks_errors_sorted (s : Schema) (errs : List SyntaxError) (c : Cursor)
    (hord : c.InOrder) (h : ErrorsBefore errs c) :
    ((blocks s errs c).2.map SyntaxError.pos).Pairwise (· < ·) := by
  have done : ∀ {errs : List SyntaxError} {c : Cursor}, ErrorsBefore errs c →
      (errs.reverse.map SyntaxError.pos).Pairwise (· < ·) := by
    intro errs c h
    rw [List.map_reverse, List.pairwise_reverse]
    exact h.sorted
  fun_induction blocks s errs c with
  | case1 => exact done h
  | case2 s errs c heof hill c₁ hlt ih =>
    exact ih (hord.reach (Reach.advance c))
      (h.of_lt (hord.current_lt (Reach.advance c) hlt))
  | case3 => exact done h
  | case4 s errs c heof hill hkw b c₁ hblk hlt ih =>
    have hr : c.Reach c₁ := forward_of_ok forward_block hblk
    exact ih (hord.reach hr) (h.of_lt (hord.current_lt hr hlt))
  | case5 => exact done h
  | case6 s errs c base heof hill hkw e c₁ hblk c₂ hlt ih =>
    have hr : c.Reach c₂ :=
      (forward_of_error forward_block hblk).trans (reach_recover c.depth c₁)
    exact ih (hord.reach hr) (h.block_error hord hkw hblk)
  | case7 s errs c base heof hill hkw e c₁ hblk c₂ hlt =>
    exact done (h.block_error hord hkw hblk)
  | case8 s errs c heof hill hkw c₁ hlt ih =>
    exact ih (hord.reach (Reach.advance c)) (h.unexpected hord heof (Bool.eq_false_iff.2 hkw))
  | case9 s errs c heof hill hkw c₁ hlt =>
    exact done (h.unexpected hord heof (Bool.eq_false_iff.2 hkw))

theorem blocks_errors_length (s : Schema) (errs : List SyntaxError) (c : Cursor) :
    (blocks s errs c).2.length ≤ errs.length + c.remaining := by
  fun_induction blocks s errs c with
  | case1 => simp
  | case2 s errs c heof hill c₁ hlt ih => omega
  | case3 => simp
  | case4 s errs c heof hill hkw b c₁ hblk hlt ih => omega
  | case5 => simp
  | case6 s errs c base heof hill hkw e c₁ hblk c₂ hlt ih =>
    simp only [List.length_cons] at ih
    omega
  | case7 s errs c base heof hill hkw e c₁ hblk c₂ hlt =>
    have := remaining_advance_lt heof
    simp only [List.length_reverse, List.length_cons]
    omega
  | case8 s errs c heof hill hkw c₁ hlt ih =>
    simp only [List.length_cons] at ih
    omega
  | case9 s errs c heof hill hkw c₁ hlt =>
    have := remaining_advance_lt heof
    simp only [List.length_reverse, List.length_cons]
    omega

end Parser

theorem Token.length_scan_filter (s : String) :
    ((Token.scan s).filter (·.kind != .newline)).length = (Cursor.ofText s).remaining + 1 := by
  have hscan : Token.scan s = (Scan.tokensFrom Pos.start s.toList).1 ++
      [Token.eofAt (Scan.tokensFrom Pos.start s.toList).2] := rfl
  rw [hscan, List.filter_append, List.length_append, (Cursor.ofText s).remaining_eq,
    Cursor.ofText_ahead]
  rfl

/-- The syntax errors of a text come in strictly increasing order of their positions, line first,
then column: each round of the top level adds at most one, after all the others. And there are
fewer of them than tokens other than line breaks, the end of the text counted as one. -/
theorem Schema.parseSyntax_errors_ordered (src : String) :
    ((parseSyntax src).2.map SyntaxError.pos).Pairwise (· < ·) ∧
      (parseSyntax src).2.length < ((Token.scan src).filter (·.kind != .newline)).length := by
  refine ⟨Parser.blocks_errors_sorted {} [] _ (Cursor.ofText_inOrder src)
    (Parser.ErrorsBefore.nil _), ?_⟩
  have hlen := Parser.blocks_errors_length {} [] (Cursor.ofText src)
  rw [Token.length_scan_filter]
  simp only [parseSyntax, List.length_nil, Nat.zero_add] at hlen ⊢
  omega

end DbSchema
