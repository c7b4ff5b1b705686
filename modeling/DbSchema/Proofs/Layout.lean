import Mathlib.Data.List.Infix
import Mathlib.Data.List.TakeWhile
import DbSchema.Token.Scan

/-! # A text is its tokens and the trivia between them

`Token.scan s` loses nothing and invents nothing: the text `s` is the trivia before the first
token, the source of the first token, the trivia before the second one, and so on, up to the
trivia after the last token. Each token stands at the line and column that the text before it
reaches.

* `Trivia g after`: the characters `g` are blanks, closed block comments and at most one line
  comment, which ends them and stands before a line break or the end of the text `after`.
* `FinalTrivia g`: trivia at the end of a text, which may end in a block comment never closed.
* `Pos.after pre`: the line and column reached after the text `pre`, counted directly.
* `Layout pre rest ts`: once `pre` is read, the text `rest` reads as the tokens `ts`, the last of
  them the end of the text and only that one.
* `Token.scan_layout`: every text reads as its tokens.
-/

namespace DbSchema

set_option autoImplicit false

/-! ## Trivia -/

/-- `Trivia g after`: the characters `g` may stand between two tokens before the text `after`.
They are blanks, block comments closed by their first `*/`, and last a line comment, which runs
to the end of its line: what follows it is a line break or nothing. -/
inductive Trivia : List Char → List Char → Prop
  | nil {after : List Char} : Trivia [] after
  | blank {c : Char} {g after : List Char} : Scan.isBlank c = true → Trivia g after →
      Trivia (c :: g) after
  | block {w g after : List Char} : ¬ ['*', '/'] <:+: w → Trivia g after →
      Trivia ('/' :: '*' :: (w ++ '*' :: '/' :: g)) after
  | line {w after : List Char} : '\n' ∉ w → (∀ c ∈ after.head?, c = '\n') →
      Trivia ('/' :: '/' :: w) after

/-- The trivia at the end of a text: trivia, possibly followed by a block comment that is never
closed. -/
def FinalTrivia (g : List Char) : Prop :=
  Trivia g [] ∨
    ∃ g' w, g = g' ++ '/' :: '*' :: w ∧ ¬ ['*', '/'] <:+: w ∧ Trivia g' ('/' :: '*' :: w)

namespace FinalTrivia

theorem blank {c : Char} {g : List Char} (hc : Scan.isBlank c = true) (h : FinalTrivia g) :
    FinalTrivia (c :: g) := by
  rcases h with h | ⟨g', w, rfl, hw, hg'⟩
  · exact .inl (.blank hc h)
  · exact .inr ⟨c :: g', w, rfl, hw, .blank hc hg'⟩

theorem block {w g : List Char} (hw : ¬ ['*', '/'] <:+: w) (h : FinalTrivia g) :
    FinalTrivia ('/' :: '*' :: (w ++ '*' :: '/' :: g)) := by
  rcases h with h | ⟨g', w', rfl, hw', hg'⟩
  · exact .inl (.block hw h)
  · refine .inr ⟨'/' :: '*' :: (w ++ '*' :: '/' :: g'), w', by simp, hw', .block hw hg'⟩

theorem unclosed {w : List Char} (hw : ¬ ['*', '/'] <:+: w) : FinalTrivia ('/' :: '*' :: w) :=
  .inr ⟨[], w, rfl, hw, .nil⟩

end FinalTrivia

/-! ## Reading trivia -/

namespace Scan

/-- What reading trivia gives: the trivia before a rest that starts a token, or final trivia
when the text is used up. -/
def TriviaSplit (g rest : List Char) : Prop :=
  (rest = [] → FinalTrivia g) ∧ (rest ≠ [] → Trivia g rest)

/-- What reading the body of a block comment gives: the body up to its first `*/` and the trivia
after that, or the whole text when the comment is never closed. -/
def CommentSplit (body rest : List Char) : Prop :=
  (∃ w g, body = w ++ '*' :: '/' :: g ∧ ¬ ['*', '/'] <:+: w ∧ TriviaSplit g rest) ∨
    (¬ ['*', '/'] <:+: body ∧ rest = [])

theorem TriviaSplit.of_trivia {g rest : List Char} (h : Trivia g rest) : TriviaSplit g rest :=
  ⟨fun hr => .inl (hr ▸ h), fun _ => h⟩

theorem not_close_infix_cons {c : Char} {w : List Char} (r : List Char) (hw : ¬ ['*', '/'] <:+: w)
    (hc : ∀ r', c = '*' → w ++ r = '/' :: r' → False) : ¬ ['*', '/'] <:+: c :: w := by
  rw [List.infix_cons_iff]
  rintro (hp | hi)
  · obtain ⟨t, ht⟩ := hp
    simp only [List.cons_append, List.cons.injEq] at ht
    obtain ⟨rfl, rfl⟩ := ht
    exact hc (t ++ r) rfl (by simp)
  · exact hw hi

theorem triviaFrom_split (b : Bool) (cs : List Char) :
    match b with
    | false => TriviaSplit (triviaFrom b cs).1 (triviaFrom b cs).2
    | true => CommentSplit (triviaFrom b cs).1 (triviaFrom b cs).2 := by
  fun_induction triviaFrom b cs with
  | case1 r =>
    have hw : '\n' ∉ r.takeWhile (· != '\n') := by
      intro hm
      simpa using List.mem_takeWhile_imp hm
    have hafter : ∀ c ∈ (r.dropWhile (· != '\n')).head?, c = '\n' := by
      intro c hc
      have := List.head?_dropWhile_not (· != '\n') r
      rw [Option.mem_def] at hc
      rw [hc] at this
      simpa using this
    exact TriviaSplit.of_trivia (.line hw hafter)
  | case2 r body rest hr ih =>
    simp only [hr] at ih
    rcases ih with ⟨w, g, rfl, hw, hg⟩ | ⟨hb, rfl⟩
    · exact ⟨fun hn => .block hw (hg.1 hn), fun hn => .block hw (hg.2 hn)⟩
    · exact ⟨fun _ => .unclosed hb, fun hn => absurd rfl hn⟩
  | case3 c r _ _ hc more rest hr ih =>
    simp only [hr] at ih
    exact ⟨fun hn => .blank hc (ih.1 hn), fun hn => .blank hc (ih.2 hn)⟩
  | case4 c r _ _ _ => exact TriviaSplit.of_trivia .nil
  | case5 => exact TriviaSplit.of_trivia .nil
  | case6 r more rest hr ih =>
    simp only [hr] at ih
    exact .inl ⟨[], more, rfl, by simp, ih⟩
  | case7 c r hc body rest hr ih =>
    have hcs := triviaFrom_append true r
    simp only [hr] at ih hcs
    rcases ih with ⟨w, g, rfl, hw, hg⟩ | ⟨hb, rfl⟩
    · refine .inl ⟨c :: w, g, rfl, not_close_infix_cons ('*' :: '/' :: g ++ rest) hw ?_, hg⟩
      intro r' hc' hw'
      exact hc r' hc' (by rw [← hcs, ← hw']; simp)
    · refine .inr ⟨not_close_infix_cons [] hb ?_, rfl⟩
      intro r' hc' hb'
      exact hc r' hc' (by rw [← hcs, ← hb'])
  | case8 => exact .inr ⟨by simp, rfl⟩

theorem trivia_split (cs : List Char) : TriviaSplit (trivia cs).1 (trivia cs).2 :=
  triviaFrom_split false cs

theorem trivia_append (cs : List Char) : (trivia cs).1 ++ (trivia cs).2 = cs :=
  triviaFrom_append false cs

/-! ## Reading one token -/

theorem stringBody_append (cs : List Char) :
    (stringBody cs).1 ++ ((if (stringBody cs).2.1 then ['"'] else []) ++ (stringBody cs).2.2) =
      cs := by
  fun_induction stringBody cs <;> simp_all

theorem numberTail_append (cs : List Char) : (numberTail cs).2.1 ++ (numberTail cs).2.2 = cs := by
  have h : cs.takeWhile Char.isDigit ++ cs.dropWhile Char.isDigit = cs :=
    List.takeWhile_append_dropWhile
  unfold numberTail
  split
  · rename_i d r hr
    rw [hr] at h
    split
    · conv_rhs => rw [← h]
      simp
    · exact h
  · rename_i r _
    exact h

theorem numberTail_kind (cs : List Char) :
    (numberTail cs).1 = .int ∨ (numberTail cs).1 = .float := by
  unfold numberTail
  split
  · split <;> simp
  · simp

theorem mkToken_source {k : TokenKind} (hk : k ≠ .string) (cs : List Char) (p : Pos) :
    (mkToken k cs p).source.toList = cs := by
  simp [mkToken, Token.source, hk, String.toList_ofList]

theorem ofPunct?_plain {c : Char} {k : TokenKind} (h : TokenKind.ofPunct? c = some k) :
    k ≠ .string ∧ k ≠ .eof := by
  unfold TokenKind.ofPunct? at h
  split at h <;> cases h <;> decide

theorem ofWord_plain (w : String) : TokenKind.ofWord w ≠ .string ∧ TokenKind.ofWord w ≠ .eof := by
  unfold TokenKind.ofWord
  split_ifs <;> simp

theorem lexeme_pos (p : Pos) (cs : List Char) : (lexeme p cs).1.pos = p := by
  unfold lexeme
  repeat' split
  all_goals rfl

theorem lexeme_cases (p : Pos) (cs : List Char) (h : cs ≠ []) :
    (∃ k w rest, k ≠ .string ∧ k ≠ .eof ∧ cs = w ++ rest ∧
      lexeme p cs = (mkToken k w p, rest)) ∨
    (∃ r, cs = '"' :: r ∧ lexeme p cs =
      (⟨.string, String.ofList (stringBody r).1, p, (stringBody r).2.1⟩, (stringBody r).2.2)) := by
  unfold lexeme
  split
  · exact absurd rfl h
  · exact .inl ⟨.newline, ['\n'], _, by decide, by decide, rfl, rfl⟩
  · exact .inl ⟨.doubleAtSign, ['@', '@'], _, by decide, by decide, rfl, rfl⟩
  · exact .inl ⟨.atSign, ['@'], _, by decide, by decide, rfl, rfl⟩
  · exact .inr ⟨_, rfl, rfl⟩
  · rename_i d r
    split
    · have hk := numberTail_kind r
      refine .inl ⟨(numberTail r).1, '-' :: d :: (numberTail r).2.1, (numberTail r).2.2,
        by rcases hk with hk | hk <;> simp [hk], by rcases hk with hk | hk <;> simp [hk], ?_, rfl⟩
      simp [numberTail_append]
    · exact .inl ⟨.illegal, ['-'], _, by decide, by decide, rfl, rfl⟩
  · rename_i c r _ _ _ _ _
    split
    · rename_i k hk
      exact .inl ⟨k, [c], r, (ofPunct?_plain hk).1, (ofPunct?_plain hk).2, rfl, rfl⟩
    · split
      · have hk := numberTail_kind r
        refine .inl ⟨(numberTail r).1, c :: (numberTail r).2.1, (numberTail r).2.2,
          by rcases hk with hk | hk <;> simp [hk], by rcases hk with hk | hk <;> simp [hk], ?_, rfl⟩
        simp [numberTail_append]
      · split
        · exact .inl ⟨_, c :: r.takeWhile isWordChar, r.dropWhile isWordChar,
            (ofWord_plain _).1, (ofWord_plain _).2, by simp, rfl⟩
        · exact .inl ⟨.illegal, [c], r, by decide, by decide, rfl, rfl⟩

theorem lexeme_source_append (p : Pos) (cs : List Char) (h : cs ≠ []) :
    (lexeme p cs).1.source.toList ++ (lexeme p cs).2 = cs := by
  rcases lexeme_cases p cs h with ⟨k, w, rest, hk, -, rfl, hl⟩ | ⟨r, rfl, hl⟩
  · rw [hl, mkToken_source hk]
  · have hb := stringBody_append r
    rw [hl]
    cases hc : (stringBody r).2.1 <;> simp_all [Token.source, String.toList_ofList]

theorem lexeme_kind_ne_eof (p : Pos) (cs : List Char) (h : cs ≠ []) :
    (lexeme p cs).1.kind ≠ .eof := by
  rcases lexeme_cases p cs h with ⟨k, w, rest, -, hk, -, hl⟩ | ⟨r, -, hl⟩
  · rw [hl]
    exact hk
  · rw [hl]
    simp

end Scan

/-! ## Positions -/

namespace Pos

/-- The position reached after the text `pre`: the line is one more than the number of line
breaks in `pre`, the column one more than the number of characters after the last of them. -/
def after (pre : List Char) : Pos :=
  ⟨pre.count '\n' + 1, (pre.reverse.takeWhile (· != '\n')).length + 1⟩

theorem after_nil : after [] = start := rfl

theorem after_concat (pre : List Char) (c : Char) :
    after (pre ++ [c]) = (after pre).advance c := by
  by_cases h : c = '\n'
  · subst h
    simp [after, advance]
  · simp [after, advance, h]

theorem advanceAll_after (pre cs : List Char) :
    (after pre).advanceAll cs = after (pre ++ cs) := by
  induction cs generalizing pre with
  | nil => simp
  | cons c cs ih =>
    rw [advanceAll_cons, ← after_concat, ih]
    simp

end Pos

/-! ## The layout of a text -/

/-- `Layout pre rest ts`: once the text `pre` is read, the text `rest` reads as the tokens `ts`.
Either `rest` is final trivia and `ts` is the end-of-input token at the position reached, or
`rest` is trivia, then the source of a token other than the end, which stands at the position
reached, then a text that reads as the remaining tokens. -/
inductive Layout : List Char → List Char → List Token → Prop
  | eof {pre g : List Char} : FinalTrivia g →
      Layout pre g [Token.eofAt (Pos.after (pre ++ g))]
  | token {pre g rest : List Char} {t : Token} {ts : List Token} :
      Trivia g (t.source.toList ++ rest) → t.kind ≠ .eof → t.pos = Pos.after (pre ++ g) →
      Layout (pre ++ g ++ t.source.toList) rest ts →
      Layout pre (g ++ t.source.toList ++ rest) (t :: ts)

namespace Scan

theorem tokensFrom_layout (p : Pos) (cs pre : List Char) (hp : p = Pos.after pre) :
    Layout pre cs ((tokensFrom p cs).1 ++ [Token.eofAt (tokensFrom p cs).2]) := by
  fun_induction tokensFrom p cs generalizing pre with
  | case1 p cs gap hs =>
    have hcs := trivia_append cs
    have hfin := (trivia_split cs).1
    rw [hs] at hcs hfin
    simp only [List.append_nil] at hcs
    subst hcs hp
    rw [Pos.advanceAll_after]
    exact .eof (hfin rfl)
  | case2 p cs gap c r hs q t rest hl ts e ht ih =>
    have hne := List.cons_ne_nil c r
    have hcs := trivia_append cs
    have hgap := (trivia_split cs).2
    have hsrc := lexeme_source_append q (c :: r) hne
    have hkind := lexeme_kind_ne_eof q (c :: r) hne
    have hpos := lexeme_pos q (c :: r)
    rw [hs] at hcs hgap
    rw [hl] at hsrc hkind hpos
    dsimp only at hcs hgap hsrc hkind hpos
    have hq : q = Pos.after (pre ++ gap) := by
      show p.advanceAll gap = _
      rw [hp]
      exact Pos.advanceAll_after pre gap
    have hrest := ih (pre ++ gap ++ t.source.toList) (by rw [hq, Pos.advanceAll_after])
    rw [ht] at hrest
    rw [← hcs, ← hsrc, ← List.append_assoc]
    rw [← hsrc] at hgap hne
    exact .token (hgap hne) hkind (hpos.trans hq) hrest

end Scan

/-- Every text reads as its tokens: trivia and the sources of the tokens make up the text, only
the last token is the end of the text, and every token stands at the line and column that the
text before it reaches. -/
theorem Token.scan_layout (s : String) : Layout [] s.toList (Token.scan s) :=
  Scan.tokensFrom_layout Pos.start s.toList [] Pos.after_nil.symm

end DbSchema
