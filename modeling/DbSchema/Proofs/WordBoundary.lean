import DbSchema.Proofs.Separator

/-! # A word between two texts reads on its own

A word in the middle of a text is a token of its own when the text before it, `a`, ends where a
word may start one (`Scan.EndsBeforeWord`) and no word character follows it. The first condition
says that `a` ends outside every token and comment, as for a separator, and not inside a word,
which the next word would go on. A number may end `a`: no number goes on with a letter.

The text then reads as the tokens of `a`, the word and the tokens of what follows
(`Scan.views_around_word`). Nothing in this reading depends on which word it is, so one word there
can be traded for another, a keyword for an identifier, and only that token changes.
-/

namespace DbSchema

set_option autoImplicit false

namespace Scan

/-- The kinds of token that words make: identifiers, keywords and booleans. -/
def isWordKind (k : TokenKind) : Bool :=
  k.isName || k == .boolean

theorem isWordKind_ofWord (w : String) : isWordKind (TokenKind.ofWord w) = true := by
  rcases TokenKind.ofWord_cases w with h | h | h | h | h | h | h <;> rw [h] <;> rfl

theorem ne_of_isWordStart {x : Char} (hx : isWordStart x = true) :
    x ≠ '@' ∧ x ≠ '.' ∧ x ≠ '*' ∧ x ≠ '/' ∧ x ≠ '\n' ∧ x.isDigit = false := by
  refine ⟨?_, ?_, ?_, ?_, ?_, ?_⟩
  any_goals rintro rfl; exact absurd hx (by decide)
  cases hd : x.isDigit
  · rfl
  · exact absurd hx (by rw [isWordStart_of_isDigit hd]; decide)

theorem lexeme_append_wordStart (p : Pos) (cs : List Char) {x : Char} (ds : List Char)
    (h : cs ≠ []) (hx : isWordStart x = true)
    (hcl : (lexeme p cs).1.closed = true ∨ (lexeme p cs).2 ≠ [])
    (hw : (lexeme p cs).2 = [] → isWordKind (lexeme p cs).1.kind = false) :
    lexeme p (cs ++ x :: ds) = ((lexeme p cs).1, (lexeme p cs).2 ++ x :: ds) := by
  obtain ⟨hat, hdot, -, -, -, hdigit⟩ := ne_of_isWordStart hx
  fun_cases lexeme p cs with
  | case1 => exact absurd rfl h
  | case2 r => rfl
  | case3 r => rfl
  | case4 r hr =>
    rw [List.cons_append, lexeme.eq_4 p _
      (@append_ne_cons '@' '@' '@' x r (fun _ _ => Ne.symm hat) (fun r' _ h => hr r' h) ds · rfl)]
  | case5 r body closed rest hr =>
    simp only [lexeme.eq_5, hr] at hcl
    have hs : (stringBody r).2.1 = true ∨ (stringBody r).2.2 ≠ [] ∨ x = '\n' := by
      rw [hr]
      exact hcl.imp_right .inl
    simp only [List.cons_append, lexeme.eq_5, stringBody_append_stop r ds hs, hr]
  | case6 d r hd k tail rest hr =>
    simp only [List.cons_append, lexeme.eq_6, if_pos hd, numberTail_append_stop r ds hdigit hdot,
      hr]
  | case7 d r hd =>
    simp only [List.cons_append, lexeme.eq_6, if_neg hd]
  | case8 c r h1 h2 h3 h4 h5 k hk =>
    have hm : c ≠ '-' := by
      rintro rfl
      simp [TokenKind.ofPunct?] at hk
    rw [List.cons_append, lexeme.eq_7 p c _ h1 (fun _ h => absurd h h3) h3 h4
      (fun _ _ h => absurd h hm)]
    simp [hk]
  | case9 c r h1 h2 h3 h4 h5 hp hd k tail rest hr =>
    have hm : c ≠ '-' := by
      rintro rfl
      exact absurd hd (by decide)
    rw [List.cons_append, lexeme.eq_7 p c _ h1 (fun _ h => absurd h h3) h3 h4
      (fun _ _ h => absurd h hm)]
    simp [hp, hd, numberTail_append_stop r ds hdigit hdot, hr]
  | case10 c r h1 h2 h3 h4 h5 hp hd hws =>
    have hm : c ≠ '-' := by
      rintro rfl
      exact absurd hws (by decide)
    have hl : lexeme p (c :: r) =
        (mkToken (TokenKind.ofWord (String.ofList (c :: r.takeWhile isWordChar)))
          (c :: r.takeWhile isWordChar) p, r.dropWhile isWordChar) := by
      rw [lexeme.eq_7 p c _ h1 (fun _ h => absurd h h3) h3 h4 (fun _ _ h => absurd h hm)]
      simp [hp, hd, hws]
    have hrest : r.dropWhile isWordChar ≠ [] := by
      intro hnil
      rw [hl] at hw
      exact absurd (hw hnil) (by simp [mkToken, isWordKind_ofWord])
    rw [List.cons_append, lexeme.eq_7 p c _ h1 (fun _ h => absurd h h3) h3 h4
      (fun _ _ h => absurd h hm)]
    simp only [hp, hd, hws, takeWhile_append_of_dropWhile_ne_nil hrest,
      dropWhile_append_of_ne_nil hrest, Bool.false_eq_true, ↓reduceIte]
    rfl
  | case11 c r h1 h2 h3 h4 h5 hp hd hws =>
    by_cases hm : c = '-'
    · subst hm
      cases r with
      | cons d r => exact absurd rfl (h5 d r rfl)
      | nil => simp [lexeme.eq_6, hdigit]
    · rw [List.cons_append, lexeme.eq_7 p c _ h1 (fun _ h => absurd h h3) h3 h4
        (fun _ _ h => absurd h hm)]
      simp [hp, hd, hws]

theorem tokensFrom_append_wordStart (p : Pos) (cs : List Char) {x : Char} (ds : List Char)
    (hx : isWordStart x = true)
    (hlast : ∀ t ∈ (tokensFrom p cs).1.getLast?, t.closed = true)
    (hword : trailing cs = [] → ∀ t ∈ (tokensFrom p cs).1.getLast?, isWordKind t.kind = false) :
    (tokensFrom p (cs ++ x :: ds)).1.map Token.view =
      (tokensFrom p cs).1.map Token.view ++
        (tokensFrom Pos.start (trailing cs ++ x :: ds)).1.map Token.view := by
  obtain ⟨-, -, hstar, hslash, -, -⟩ := ne_of_isWordStart hx
  fun_induction tokensFrom p cs with
  | case1 p cs gap hs =>
    have hcs : gap = cs := by simpa [hs] using trivia_append cs
    rw [trailing_eq_end hs, hcs, tokensFrom_view p Pos.start]
    rfl
  | case2 p cs gap c r hs q t rest hl ts e ht ih =>
    have hlast' : ∀ u ∈ (t :: ts).getLast?, u.closed = true := by
      simpa [ht] using hlast
    have htrail : trailing cs = trailing rest := by
      rw [trailing_eq_cons hs q, hl]
    have hend : rest = [] → ts = [] := by
      rintro rfl
      rw [tokensFrom_eq_end (by rfl)] at ht
      exact (Prod.mk.inj ht).1.symm
    have hcl : (lexeme q (c :: r)).1.closed = true ∨ (lexeme q (c :: r)).2 ≠ [] := by
      rw [hl]
      by_cases hr : rest = []
      · rw [hend hr] at hlast'
        exact .inl (hlast' t rfl)
      · exact .inr hr
    have hw : (lexeme q (c :: r)).2 = [] → isWordKind (lexeme q (c :: r)).1.kind = false := by
      rw [hl]
      intro hr
      have hts := hend hr
      rw [hts] at hword
      subst hr
      exact hword (by rw [htrail]; exact @trailing_eq_end [] [] rfl) t rfl
    have hl' : lexeme q (c :: (r ++ x :: ds)) = (t, rest ++ x :: ds) := by
      have h := lexeme_append_wordStart q (c :: r) ds (List.cons_ne_nil c r) hx hcl hw
      rw [hl] at h
      exact h
    have hlast'' : ∀ u ∈ (tokensFrom (q.advanceAll t.source.toList) rest).1.getLast?,
        u.closed = true := by
      rw [ht]
      intro u hu
      cases ts with
      | nil => simp at hu
      | cons v ts => exact hlast' u (by rwa [List.getLast?_cons_cons])
    have hword' : trailing rest = [] →
        ∀ u ∈ (tokensFrom (q.advanceAll t.source.toList) rest).1.getLast?,
          isWordKind u.kind = false := by
      rw [ht, ← htrail]
      intro htr u hu
      cases ts with
      | nil => simp at hu
      | cons v ts =>
        refine hword htr u ?_
        show u ∈ (t :: v :: ts).getLast?
        rwa [List.getLast?_cons_cons]
    rw [tokensFrom_eq_cons (trivia_append_of_cons hs hstar (fun h => absurd h hslash) ds)]
    simp only
    rw [show p.advanceAll gap = q from rfl, hl', htrail]
    simp only [List.map_cons, ih hlast'' hword', ht, List.cons_append]

/-- A text ends where a word starts a token of its own: outside every token and comment, and not
inside a word, which the next word would go on. -/
structure EndsBeforeWord (cs : List Char) : Prop extends EndsOutside cs where
  apart : trailing cs = [] →
    ∀ t ∈ (tokensFrom Pos.start cs).1.getLast?, isWordKind t.kind = false

theorem views_append_wordStart {a : List Char} (ha : EndsBeforeWord a) {x : Char}
    (hx : isWordStart x = true) (ds : List Char) :
    views (a ++ x :: ds) = views a ++ views (x :: ds) := by
  have h := tokensFrom_append_wordStart Pos.start a ds hx ha.closed ha.apart
  have hrest : views (trailing a ++ x :: ds) = views (x :: ds) :=
    views_trivia_append ha.trivia (by decide) _
  rw [views, h, List.filter_append]
  exact congrArg (views a ++ ·) hrest

theorem views_around_word {a : List Char} (ha : EndsBeforeWord a) {w : String}
    (hw : isWord w.toList = true) {b : List Char} (hb : ∀ c ∈ b.head?, isWordChar c = false) :
    views (a ++ w.toList ++ b) = views a ++ (TokenKind.ofWord w, w) :: views b := by
  obtain ⟨x, r, hxr⟩ : ∃ x r, w.toList = x :: r := by
    cases hl : w.toList with
    | nil => rw [hl] at hw; exact absurd hw (by decide)
    | cons x r => exact ⟨x, r, rfl⟩
  have hx : isWordStart x = true := by
    rw [hxr, isWord, Bool.and_eq_true] at hw
    exact hw.1
  rw [List.append_assoc, hxr, List.cons_append, views_append_wordStart ha hx, ← List.cons_append,
    ← hxr, views_word hw hb]

end Scan

end DbSchema
