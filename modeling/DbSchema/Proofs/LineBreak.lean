import DbSchema.Proofs.Layout
import DbSchema.Proofs.Shifted

/-! # A line break ends every token

No token and no trivia but a block comment reads past a line break. So appending a line break
and a second text to a text that does not end inside a block comment keeps every token of the
first text; the line break becomes a token of its own, and the tokens after it are those of the
second text on its own, moved down by the lines of the first (`Cursor.ofText_append_line`).

* `Scan.trailing cs`: the trivia after the last token of `cs`.
* `Scan.triviaFrom_append_stop`, `Scan.lexeme_append_stop`: reading trivia or a token that
  stops before the end of a text stops at the same place once more text follows that cannot
  continue it, as a line break cannot.
* `Scan.tokensFrom_shiftLines`: reading from a position further down gives the same tokens
  further down.
-/

namespace DbSchema

set_option autoImplicit false

theorem Trivia.line_break {g : List Char} (h : Trivia g []) (ds : List Char) :
    Trivia g ('\n' :: ds) := by
  generalize he : ([] : List Char) = e at h
  induction h with
  | nil => exact .nil
  | blank hc _ ih => exact .blank hc (ih he)
  | block hw _ ih => exact .block hw (ih he)
  | line hw _ => exact .line hw (by simp)

namespace Scan

/-! ## Trivia before a line break -/

theorem takeWhile_append_of_dropWhile_ne_nil {p : Char → Bool} {l : List Char}
    (h : l.dropWhile p ≠ []) (m : List Char) : (l ++ m).takeWhile p = l.takeWhile p := by
  rw [List.takeWhile_append]
  split
  · rename_i hlen
    have := List.takeWhile_append_dropWhile (p := p) (l := l)
    have hd : (l.dropWhile p).length = 0 := by
      have := congrArg List.length this
      rw [List.length_append] at this
      omega
    exact absurd (List.eq_nil_of_length_eq_zero hd) h
  · rfl

theorem dropWhile_append_of_ne_nil {p : Char → Bool} {l : List Char}
    (h : l.dropWhile p ≠ []) (m : List Char) : (l ++ m).dropWhile p = l.dropWhile p ++ m := by
  rw [List.dropWhile_append]
  simp [h]

theorem append_ne_cons {c a b x : Char} {r : List Char} (hb : r = [] → c = a → b ≠ x)
    (h : ∀ r', c = a → r = b :: r' → False) (ds : List Char) :
    ∀ r', c = a → r ++ x :: ds = b :: r' → False := by
  intro r' hc hr
  cases r with
  | nil => exact hb rfl hc (List.cons.inj hr).1.symm
  | cons y r₀ => exact h r₀ hc (by rw [(List.cons.inj hr).1])

theorem triviaFrom_append_stop (b : Bool) (cs : List Char) {x : Char} (ds : List Char)
    (h : (triviaFrom b cs).2 ≠ []) (hx : (triviaFrom b cs).2 = ['/'] → x ≠ '/' ∧ x ≠ '*') :
    triviaFrom b (cs ++ x :: ds) =
      ((triviaFrom b cs).1, (triviaFrom b cs).2 ++ x :: ds) := by
  fun_induction triviaFrom b cs with
  | case1 r =>
    simp only at h ⊢
    simp only [List.cons_append, triviaFrom, takeWhile_append_of_dropWhile_ne_nil h,
      dropWhile_append_of_ne_nil h]
  | case2 r body rest hr ih =>
    simp only at h hx ⊢
    rw [hr] at ih
    simp only [List.cons_append, triviaFrom, ih h hx]
  | case3 c r h1 h2 hblank body rest hr ih =>
    simp only at h hx ⊢
    rw [hr] at ih
    have hc : c ≠ '/' := by
      rintro rfl
      exact absurd hblank (by decide)
    rw [List.cons_append, triviaFrom.eq_3 c _ (fun _ h => absurd h hc) (fun _ h => absurd h hc),
      if_pos hblank, ih h hx]
  | case4 c r h1 h2 hblank =>
    simp only [List.cons.injEq] at hx
    rw [List.cons_append,
      triviaFrom.eq_3 c _ (append_ne_cons (fun hr hc => (hx ⟨hc, hr⟩).1.symm) h1 ds)
        (append_ne_cons (fun hr hc => (hx ⟨hc, hr⟩).2.symm) h2 ds), if_neg hblank]
  | case5 => exact absurd rfl h
  | case6 r body rest hr ih =>
    simp only at h hx ⊢
    rw [hr] at ih
    simp only [List.cons_append, triviaFrom, ih h hx]
  | case7 c r h1 body rest hr ih =>
    simp only at h hx ⊢
    rw [hr] at ih
    have hend : r = [] → c = '*' → '/' ≠ x := by
      rintro rfl -
      simp only [triviaFrom, Prod.mk.injEq] at hr
      exact absurd hr.2.symm h
    rw [List.cons_append, triviaFrom.eq_6 c _ (append_ne_cons hend h1 ds), ih h hx]
  | case8 => exact absurd rfl h

theorem triviaFrom_true_close {w : List Char} (hw : ¬ ['*', '/'] <:+: w) (r : List Char) :
    triviaFrom true (w ++ '*' :: '/' :: r) =
      (w ++ '*' :: '/' :: (triviaFrom false r).1, (triviaFrom false r).2) := by
  induction w with
  | nil =>
    rw [List.nil_append, triviaFrom]
    rfl
  | cons x w ih =>
    have hw' : ¬ ['*', '/'] <:+: w := fun h => hw (h.trans (List.suffix_cons x w).isInfix)
    have hx : ∀ r', x = '*' → w ++ '*' :: '/' :: r = '/' :: r' → False := by
      intro r' hx hr
      cases w with
      | nil => simp at hr
      | cons y w =>
        rw [List.cons_append, List.cons.injEq] at hr
        apply hw
        rw [hx, hr.1]
        exact (List.prefix_append ['*', '/'] w).isInfix
    rw [List.cons_append, triviaFrom.eq_6 x _ hx, ih hw']
    rfl

theorem trivia_of_trivia {g after : List Char} (h : Trivia g after) {ds : List Char}
    (ha : after = '\n' :: ds) : trivia (g ++ after) = (g, after) := by
  induction h with
  | nil =>
    subst ha
    rw [List.nil_append, trivia, triviaFrom.eq_3 '\n' ds (by simp) (by simp), if_neg (by decide)]
  | @blank c g after hc _ ih =>
    have hc' : c ≠ '/' := by
      rintro rfl
      exact absurd hc (by decide)
    rw [trivia] at ih ⊢
    rw [List.cons_append, triviaFrom.eq_3 c _ (fun _ h => absurd h hc') (fun _ h => absurd h hc'),
      if_pos hc, ih ha]
  | block hw _ ih =>
    rw [trivia] at ih ⊢
    simp only [List.cons_append, List.append_assoc, triviaFrom, triviaFrom_true_close hw, ih ha]
  | @line w after hw _ =>
    subst ha
    have hp : ∀ c ∈ w, (c != '\n') = true := by
      intro c hc
      have hne : c ≠ '\n' := by
        rintro rfl
        exact hw hc
      simpa using hne
    rw [trivia, List.cons_append, List.cons_append, triviaFrom, List.takeWhile_append,
      List.takeWhile_eq_self_iff.mpr hp, List.dropWhile_append,
      List.dropWhile_eq_nil_iff.mpr hp]
    simp

/-! ## Tokens before a line break -/

section Stop

variable {q : Char → Bool} {x : Char}

theorem takeWhile_append_stop (hq : q x = false) (l m : List Char) :
    (l ++ x :: m).takeWhile q = l.takeWhile q := by
  rw [List.takeWhile_append]
  split
  · rename_i hlen
    rw [(List.takeWhile_prefix q).eq_of_length hlen]
    simp [hq]
  · rfl

theorem dropWhile_append_stop (hq : q x = false) (l m : List Char) :
    (l ++ x :: m).dropWhile q = l.dropWhile q ++ x :: m := by
  rw [List.dropWhile_append]
  split
  · rename_i hnil
    rw [List.isEmpty_iff.mp hnil]
    simp [hq]
  · rfl

end Stop

theorem stringBody_append_stop (cs : List Char) {x : Char} (ds : List Char)
    (h : (stringBody cs).2.1 = true ∨ (stringBody cs).2.2 ≠ [] ∨ x = '\n') :
    stringBody (cs ++ x :: ds) =
      ((stringBody cs).1, (stringBody cs).2.1, (stringBody cs).2.2 ++ x :: ds) := by
  fun_induction stringBody cs with
  | case1 =>
    simp only [Bool.false_eq_true, ne_eq, not_true_eq_false, false_or] at h
    subst h
    rfl
  | case2 r => rfl
  | case3 r => rfl
  | case4 r =>
    rw [List.cons_append, List.cons_append, stringBody.eq_4, if_pos rfl]
  | case5 c r hc body closed rest hr ih =>
    simp only at h
    rw [hr] at ih
    rw [List.cons_append, List.cons_append, stringBody.eq_4, if_neg hc, ih h]
  | case6 c r hquote hline hesc body closed rest hr ih =>
    simp only at h
    rw [hr] at ih
    by_cases hb : c = '\\'
    · subst hb
      cases r with
      | cons c' r' => exact absurd rfl (hesc c' r' rfl)
      | nil =>
        simp only [stringBody] at hr
        cases hr
        simp only [Bool.false_eq_true, ne_eq, not_true_eq_false, false_or] at h
        subst h
        rw [List.cons_append, List.nil_append, stringBody.eq_4, if_pos rfl]
    · rw [List.cons_append, stringBody.eq_5 c _ hquote hline (fun _ _ h => absurd h hb), ih h]

theorem numberTail_append_stop (cs : List Char) {x : Char} (ds : List Char)
    (hd : x.isDigit = false) (hdot : x ≠ '.') :
    numberTail (cs ++ x :: ds) =
      ((numberTail cs).1, (numberTail cs).2.1, (numberTail cs).2.2 ++ x :: ds) := by
  unfold numberTail
  rw [takeWhile_append_stop hd, dropWhile_append_stop hd]
  generalize cs.dropWhile Char.isDigit = D
  rcases D with _ | ⟨y, _ | ⟨d, r⟩⟩
  · simp only [List.nil_append]
    split <;> simp_all
  · by_cases hy : y = '.'
    · subst hy
      simp [hd]
    · simp only [List.cons_append, List.nil_append]
      split <;> simp_all
  · by_cases hy : y = '.'
    · subst hy
      by_cases hdd : d.isDigit = true
      · simp [hdd, takeWhile_append_stop hd, dropWhile_append_stop hd]
      · simp [hdd]
    · simp only [List.cons_append]
      split <;> split <;> simp_all

/-- A character that no token goes on with: no `@`, digit, point or word character. -/
def Stop (x : Char) : Prop :=
  x ≠ '@' ∧ x.isDigit = false ∧ x ≠ '.' ∧ isWordChar x = false

theorem stop_newline : Stop '\n' :=
  ⟨by decide, by decide, by decide, by decide⟩

theorem lexeme_append_stop (p : Pos) (cs : List Char) {x : Char} (ds : List Char) (h : cs ≠ [])
    (hx : Stop x) (hcl : (lexeme p cs).1.closed = true ∨ (lexeme p cs).2 ≠ [] ∨ x = '\n') :
    lexeme p (cs ++ x :: ds) = ((lexeme p cs).1, (lexeme p cs).2 ++ x :: ds) := by
  obtain ⟨hat, hdigit, hdot, hword⟩ := hx
  fun_cases lexeme p cs with
  | case1 => exact absurd rfl h
  | case2 r => rfl
  | case3 r => rfl
  | case4 r hr =>
    rw [List.cons_append, lexeme.eq_4 p _
      (@append_ne_cons '@' '@' '@' x r (fun _ _ => Ne.symm hat) (fun r' _ h => hr r' h) ds · rfl)]
  | case5 r body closed rest hr =>
    simp only [lexeme.eq_5, hr] at hcl
    have hs : (stringBody r).2.1 = true ∨ (stringBody r).2.2 ≠ [] ∨ x = '\n' := by
      rw [hr]
      exact hcl
    simp only [List.cons_append, lexeme.eq_5, stringBody_append_stop r ds hs, hr]
  | case6 d r hd k tail rest hr =>
    simp only [List.cons_append, lexeme.eq_6, if_pos hd, numberTail_append_stop r ds hdigit hdot,
      hr]
  | case7 d r hd =>
    simp only [List.cons_append, lexeme.eq_6, if_neg hd]
  | case8 c r h1 h2 h3 h4 h5 k hk =>
    have hm : c ≠ '-' := by
      rintro rfl
      simp [TokenKind.ofPunct?] at hk
    rw [List.cons_append, lexeme.eq_7 p c _ h1 (fun _ h => absurd h h3) h3 h4
      (fun _ _ h => absurd h hm)]
    simp [hk]
  | case9 c r h1 h2 h3 h4 h5 hp hd k tail rest hr =>
    have hm : c ≠ '-' := by
      rintro rfl
      exact absurd hd (by decide)
    rw [List.cons_append, lexeme.eq_7 p c _ h1 (fun _ h => absurd h h3) h3 h4
      (fun _ _ h => absurd h hm)]
    simp [hp, hd, numberTail_append_stop r ds hdigit hdot, hr]
  | case10 c r h1 h2 h3 h4 h5 hp hd hw =>
    have hm : c ≠ '-' := by
      rintro rfl
      exact absurd hw (by decide)
    rw [List.cons_append, lexeme.eq_7 p c _ h1 (fun _ h => absurd h h3) h3 h4
      (fun _ _ h => absurd h hm)]
    simp only [hp, hd, hw, takeWhile_append_stop hword, dropWhile_append_stop hword,
      Bool.false_eq_true, ↓reduceIte]
    rfl
  | case11 c r h1 h2 h3 h4 h5 hp hd hw =>
    by_cases hm : c = '-'
    · subst hm
      cases r with
      | cons d r => exact absurd rfl (h5 d r rfl)
      | nil => simp [lexeme.eq_6, hdigit]
    · rw [List.cons_append, lexeme.eq_7 p c _ h1 (fun _ h => absurd h h3) h3 h4
        (fun _ _ h => absurd h hm)]
      simp [hp, hd, hw]

/-! ## Reading all tokens -/

theorem tokensFrom_eq_end {p : Pos} {cs gap : List Char} (hs : trivia cs = (gap, [])) :
    tokensFrom p cs = ([], p.advanceAll gap) := by
  rw [tokensFrom]
  split
  · rename_i gap' h'
    rw [hs, Prod.mk.injEq] at h'
    rw [h'.1]
  · rename_i gap' c r h'
    rw [hs] at h'
    simp at h'

theorem tokensFrom_eq_cons {p : Pos} {cs gap : List Char} {c : Char} {r : List Char}
    (hs : trivia cs = (gap, c :: r)) :
    tokensFrom p cs =
      let q := p.advanceAll gap
      let t := (lexeme q (c :: r)).1
      let rest := tokensFrom (q.advanceAll t.source.toList) (lexeme q (c :: r)).2
      (t :: rest.1, rest.2) := by
  rw [tokensFrom]
  split
  · rename_i gap' h'
    rw [hs] at h'
    simp at h'
  · rename_i gap' c' r' h'
    rw [hs, Prod.mk.injEq, List.cons.injEq] at h'
    obtain ⟨rfl, rfl, rfl⟩ := h'
    rfl

/-! ## Reading further down -/

theorem lexeme_shiftLines (n : Nat) (p : Pos) (cs : List Char) :
    lexeme (p.shiftLines n) cs = ((lexeme p cs).1.shiftLines n, (lexeme p cs).2) := by
  unfold lexeme
  repeat' split
  all_goals rfl

theorem tokensFrom_shiftLines (n : Nat) (p : Pos) (cs : List Char) :
    tokensFrom (p.shiftLines n) cs =
      ((tokensFrom p cs).1.map (Token.shiftLines n), (tokensFrom p cs).2.shiftLines n) := by
  fun_induction tokensFrom p cs with
  | case1 p cs gap hs =>
    rw [tokensFrom_eq_end hs, Pos.advanceAll_shiftLines]
    rfl
  | case2 p cs gap c r hs q t rest hl ts e ht ih =>
    rw [tokensFrom_eq_cons hs]
    simp only [Pos.advanceAll_shiftLines, lexeme_shiftLines]
    rw [show p.advanceAll gap = q from rfl, hl]
    simp only [Token.source_shiftLines, ih, ht, List.map_cons]

theorem tokensFrom_kind_ne_eof (p : Pos) (cs : List Char) :
    ∀ t ∈ (tokensFrom p cs).1, t.kind ≠ .eof := by
  fun_induction tokensFrom p cs with
  | case1 p cs gap hs => simp
  | case2 p cs gap c r hs q t rest hl ts e ht ih =>
    have hk := lexeme_kind_ne_eof q (c :: r) (List.cons_ne_nil c r)
    rw [hl] at hk
    rw [ht] at ih
    intro u hu
    rcases List.mem_cons.mp hu with rfl | hu
    · exact hk
    · exact ih u hu

/-! ## The trivia after the last token -/

theorem lexeme_snd (p q : Pos) (cs : List Char) : (lexeme p cs).2 = (lexeme q cs).2 := by
  unfold lexeme
  repeat' split
  all_goals rfl

/-- The trivia after the last token of a text, which may be an unclosed block comment. -/
def trailing (cs : List Char) : List Char :=
  match _hs : trivia cs with
  | (gap, []) => gap
  | (_, c :: r) => trailing (lexeme Pos.start (c :: r)).2
termination_by cs.length
decreasing_by
  have h1 := length_trivia_le cs
  have h2 := length_lexeme_lt Pos.start (c :: r) (List.cons_ne_nil c r)
  rw [_hs] at h1
  simp only [List.length_cons] at h1 h2 ⊢
  omega

theorem trailing_eq_end {cs gap : List Char} (hs : trivia cs = (gap, [])) : trailing cs = gap := by
  rw [trailing]
  split
  · rename_i gap' h'
    rw [hs, Prod.mk.injEq] at h'
    exact h'.1.symm
  · rename_i gap' c r h'
    rw [hs] at h'
    simp at h'

theorem trailing_eq_cons {cs gap : List Char} {c : Char} {r : List Char}
    (hs : trivia cs = (gap, c :: r)) (p : Pos) : trailing cs = trailing (lexeme p (c :: r)).2 := by
  rw [trailing]
  split
  · rename_i gap' h'
    rw [hs] at h'
    simp at h'
  · rename_i gap' c' r' h'
    rw [hs, Prod.mk.injEq, List.cons.injEq] at h'
    obtain ⟨rfl, rfl, rfl⟩ := h'
    rw [lexeme_snd Pos.start p]

theorem tokensFrom_end (p : Pos) (cs : List Char) : (tokensFrom p cs).2 = p.advanceAll cs := by
  fun_induction tokensFrom p cs with
  | case1 p cs gap hs =>
    have hcs : gap = cs := by simpa [hs] using trivia_append cs
    subst hcs
    rfl
  | case2 p cs gap c r hs q t rest hl ts e ht ih =>
    have hcs : gap ++ c :: r = cs := by simpa [hs] using trivia_append cs
    have hsrc : t.source.toList ++ rest = c :: r := by
      simpa [hl] using lexeme_source_append q (c :: r) (List.cons_ne_nil c r)
    rw [ht] at ih
    dsimp only at ih ⊢
    rw [ih, ← hcs, ← hsrc, Pos.advanceAll_append, Pos.advanceAll_append]

theorem tokensFrom_append_line (p : Pos) (cs ds : List Char) (h : Trivia (trailing cs) []) :
    tokensFrom p (cs ++ '\n' :: ds) =
      ((tokensFrom p cs).1 ++ mkToken .newline ['\n'] (tokensFrom p cs).2 ::
        (tokensFrom ((tokensFrom p cs).2.advance '\n') ds).1,
       (tokensFrom ((tokensFrom p cs).2.advance '\n') ds).2) := by
  fun_induction tokensFrom p cs with
  | case1 p cs gap hs =>
    rw [trailing_eq_end hs] at h
    have hcs := trivia_append cs
    rw [hs, List.append_nil] at hcs
    subst hcs
    rw [tokensFrom_eq_cons (trivia_of_trivia (h.line_break ds) rfl)]
    simp only [lexeme, List.nil_append, mkToken_source (by decide : TokenKind.newline ≠ .string),
      Pos.advanceAll_cons, Pos.advanceAll_nil]
  | case2 p cs gap c r hs q t rest hl ts e ht ih =>
    rw [trailing_eq_cons hs q, hl] at h
    have hs' : triviaFrom false cs = (gap, c :: r) := hs
    have hts : trivia (cs ++ '\n' :: ds) = (gap, c :: (r ++ '\n' :: ds)) := by
      have := triviaFrom_append_stop false cs (x := '\n') ds (by rw [hs']; simp)
        (fun _ => ⟨by decide, by decide⟩)
      rw [hs'] at this
      exact this
    have hl' : lexeme q (c :: (r ++ '\n' :: ds)) = (t, rest ++ '\n' :: ds) := by
      have := lexeme_append_stop q (c :: r) ds (List.cons_ne_nil c r) stop_newline
        (Or.inr (Or.inr rfl))
      rw [hl] at this
      exact this
    rw [tokensFrom_eq_cons hts]
    simp only
    rw [show p.advanceAll gap = q from rfl, hl']
    simp only [ih h, ht, List.cons_append]

end Scan

/-! ## Two texts on consecutive lines -/

theorem Pos.advance_line_start (cs : List Char) :
    (Pos.start.advanceAll cs).advance '\n' = Pos.start.shiftLines (cs.count '\n' + 1) := by
  have hcs : Pos.start.advanceAll cs = Pos.after cs := by
    rw [← Pos.after_nil, Pos.advanceAll_after, List.nil_append]
  rw [hcs]
  simp only [Pos.after, Pos.advance, Pos.start, Pos.shiftLines, if_true, Pos.mk.injEq, and_true]
  omega

namespace Cursor

theorem ofText_ahead (s : String) :
    (ofText s).ahead = (Scan.tokensFrom Pos.start s.toList).1.filter (·.kind != .newline) := rfl

theorem ofText_endPos (s : String) : (ofText s).endPos = (Scan.tokensFrom Pos.start s.toList).2 :=
  rfl

@[simp] theorem ofText_depth (s : String) : (ofText s).depth = 0 := rfl

theorem ofText_kind_ne_eof (s : String) : ∀ t ∈ (ofText s).ahead, t.kind ≠ .eof := by
  intro t ht
  rw [ofText_ahead] at ht
  exact Scan.tokensFrom_kind_ne_eof _ _ t (List.mem_of_mem_filter ht)

theorem ofText_append_line (x y : String) (h : Trivia (Scan.trailing x.toList) []) :
    (ofText (x ++ "\n" ++ y)).ahead =
        (ofText x).ahead ++ (ofText y).ahead.map (Token.shiftLines (x.toList.count '\n' + 1)) ∧
      (ofText (x ++ "\n" ++ y)).endPos = (ofText y).endPos.shiftLines (x.toList.count '\n' + 1) := by
  have hs : (x ++ "\n" ++ y).toList = x.toList ++ '\n' :: y.toList := by simp
  have hf : ∀ (n : Nat) (ts : List Token),
      (ts.map (Token.shiftLines n)).filter (·.kind != .newline) =
        (ts.filter (·.kind != .newline)).map (Token.shiftLines n) := by
    intro n ts
    rw [List.filter_map]
    rfl
  simp only [ofText_ahead, ofText_endPos, hs, Scan.tokensFrom_append_line _ _ _ h,
    Scan.tokensFrom_end, Pos.advance_line_start, Scan.tokensFrom_shiftLines, List.filter_append,
    List.filter_cons, Scan.mkToken, bne_self_eq_false, Bool.false_eq_true, if_false, hf, and_self]

end Cursor

end DbSchema
