import DbSchema.Proofs.Positions

/-! # Comments and line breaks are invisible

Between two tokens, the lexer skips blanks and comments, and makes every line break a token that
the cursor drops. So a separator, that is a run of blanks and line breaks, a block comment or a
line comment with its line break (`Scan.Separator`), reads as a single blank: the texts
`a ++ c ++ b` and `a ++ " " ++ b` give the same tokens, by kind and text, and so the same schema
and the same errors but for their positions (`Schema.parseSyntax_separator`).

Two conditions on the text `a` before the separator make this true:

* `a` ends outside every token and comment (`Scan.EndsOutside`), that is where a blank after
  it would be trivia. Its last token is complete: no string literal runs to its end. The trivia
  after that token is closed and holds no line comment.
* A comment does not follow a lone `/`. The lexer reads `/` and `/**/` as `//**/`, a line
  comment that swallows the rest of the line (`Schema.parseSyntax_slash_before_comment`).
-/

namespace DbSchema

set_option autoImplicit false

namespace Scan

/-! ## Texts that read as nothing -/

theorem trivia_newline (ds : List Char) : trivia ('\n' :: ds) = ([], '\n' :: ds) := by
  rw [trivia, triviaFrom.eq_3 '\n' ds (by simp) (by simp), if_neg (by decide)]

theorem views_newline (ds : List Char) : views ('\n' :: ds) = views ds := by
  rw [views, tokensFrom_eq_cons (trivia_newline ds)]
  simp only [Pos.advanceAll_nil, lexeme, List.map_cons]
  rw [List.filter_cons_of_neg (by simp [Token.view, mkToken]), tokensFrom_view _ Pos.start ds]
  rfl

theorem trivia_append_of_trivia {t : List Char} {y : Char} {r : List Char} (h : Trivia t (y :: r))
    (hy : y ≠ '\n') (rest : List Char) :
    trivia (t ++ rest) = (t ++ (trivia rest).1, (trivia rest).2) := by
  generalize he : y :: r = after at h
  induction h with
  | nil => rfl
  | @blank c g after hc _ ih =>
    have hc' : c ≠ '/' := by
      rintro rfl
      exact absurd hc (by decide)
    rw [trivia] at ih ⊢
    rw [List.cons_append, triviaFrom.eq_3 c _ (fun _ h => absurd h hc') (fun _ h => absurd h hc'),
      if_pos hc, ih he]
    rfl
  | block hw _ ih =>
    rw [trivia] at ih ⊢
    simp only [List.cons_append, List.append_assoc, triviaFrom, triviaFrom_true_close hw, ih he]
  | line _ hl =>
    subst he
    exact absurd (hl y rfl) hy

theorem views_trivia_append {t : List Char} {y : Char} {r : List Char} (h : Trivia t (y :: r))
    (hy : y ≠ '\n') (rest : List Char) : views (t ++ rest) = views rest :=
  views_of_trivia (by rw [trivia_append_of_trivia h hy])

/-- The texts that separate two tokens as a blank does: a nonempty run of blanks and line breaks,
a block comment closed by its first `*/`, or a line comment with the line break that ends it. -/
inductive Separator : List Char → Prop
  | blanks {g : List Char} : g ≠ [] → (∀ c ∈ g, isBlank c = true ∨ c = '\n') → Separator g
  | block {w : List Char} : ¬ ['*', '/'] <:+: w → Separator ('/' :: '*' :: (w ++ ['*', '/']))
  | line {w : List Char} : '\n' ∉ w → Separator ('/' :: '/' :: (w ++ ['\n']))

theorem views_blanks_append {g : List Char} (hg : ∀ c ∈ g, isBlank c = true ∨ c = '\n')
    (ds : List Char) : views (g ++ ds) = views ds := by
  induction g with
  | nil => rfl
  | cons c g ih =>
    have hg' : ∀ d ∈ g, isBlank d = true ∨ d = '\n' := fun d hd => hg d (List.mem_cons_of_mem c hd)
    rw [List.cons_append]
    rcases hg c List.mem_cons_self with hb | rfl
    · rw [views_blank hb, ih hg']
    · rw [views_newline, ih hg']

theorem views_separator_append {g : List Char} (hg : Separator g) (ds : List Char) :
    views (g ++ ds) = views ds := by
  cases hg with
  | blanks _ hall => exact views_blanks_append hall ds
  | @block w hw =>
    have h : Trivia ('/' :: '*' :: (w ++ ['*', '/'])) [' '] := .block hw .nil
    exact views_trivia_append h (by decide) ds
  | @line w hw =>
    have h := trivia_of_trivia (Trivia.line hw (by simp) : Trivia ('/' :: '/' :: w) ('\n' :: ds)) rfl
    have hg : '/' :: '/' :: (w ++ ['\n']) ++ ds = '/' :: '/' :: w ++ '\n' :: ds := by simp
    have hv : views ('/' :: '/' :: w ++ '\n' :: ds) = views ('\n' :: ds) :=
      views_of_trivia (by rw [h, trivia_newline])
    rw [hg, hv, views_newline]

theorem stop_slash : Stop '/' :=
  ⟨by decide, by decide, by decide, by decide⟩

theorem stop_of_blank {x : Char} (h : isBlank x = true) : Stop x := by
  simp only [isBlank, Bool.or_eq_true, beq_iff_eq] at h
  rcases h with (rfl | rfl) | rfl
  all_goals exact ⟨by decide, by decide, by decide, by decide⟩

theorem Separator.cons {g : List Char} (hg : Separator g) :
    ∃ x r, g = x :: r ∧ Stop x ∧ x ≠ '*' := by
  cases hg with
  | blanks hne hall =>
    obtain ⟨x, r, rfl⟩ := List.exists_cons_of_ne_nil hne
    refine ⟨x, r, rfl, ?_⟩
    rcases hall x List.mem_cons_self with hb | rfl
    · refine ⟨stop_of_blank hb, ?_⟩
      rintro rfl
      exact absurd hb (by decide)
    · exact ⟨stop_newline, by decide⟩
  | block _ => exact ⟨'/', _, rfl, stop_slash, by decide⟩
  | line _ => exact ⟨'/', _, rfl, stop_slash, by decide⟩

/-! ## A separator after a text -/

theorem trivia_append_of_cons {cs gap : List Char} {c : Char} {r : List Char}
    (hs : trivia cs = (gap, c :: r)) {x : Char} (hstar : x ≠ '*')
    (hslash : x = '/' → cs.getLast? ≠ some '/') (ds : List Char) :
    trivia (cs ++ x :: ds) = (gap, c :: (r ++ x :: ds)) := by
  have hs' : triviaFrom false cs = (gap, c :: r) := hs
  have hx : (triviaFrom false cs).2 = ['/'] → x ≠ '/' ∧ x ≠ '*' := by
    rw [hs']
    intro h1
    refine ⟨fun hx => hslash hx ?_, hstar⟩
    have hsplit : gap ++ c :: r = cs := by simpa [hs] using trivia_append cs
    rw [← hsplit, show c :: r = ['/'] from h1]
    simp
  have h := triviaFrom_append_stop false cs ds (by rw [hs']; simp) hx
  rw [hs'] at h
  exact h

theorem tokensFrom_append_stop (p : Pos) (cs : List Char) {x : Char} (ds : List Char)
    (hx : Stop x) (hstar : x ≠ '*') (hslash : x = '/' → cs.getLast? ≠ some '/')
    (hlast : ∀ t ∈ (tokensFrom p cs).1.getLast?, t.closed = true) :
    (tokensFrom p (cs ++ x :: ds)).1.map Token.view =
      (tokensFrom p cs).1.map Token.view ++
        (tokensFrom Pos.start (trailing cs ++ x :: ds)).1.map Token.view := by
  fun_induction tokensFrom p cs with
  | case1 p cs gap hs =>
    have hcs : gap = cs := by simpa [hs] using trivia_append cs
    rw [trailing_eq_end hs, hcs, tokensFrom_view p Pos.start]
    rfl
  | case2 p cs gap c r hs q t rest hl ts e ht ih =>
    have hlast' : ∀ u ∈ (t :: ts).getLast?, u.closed = true := by
      simpa [ht] using hlast
    have hcl : (lexeme q (c :: r)).1.closed = true ∨ (lexeme q (c :: r)).2 ≠ [] ∨ x = '\n' := by
      rw [hl]
      by_cases hr : rest = []
      · subst hr
        have hts : ts = [] := by
          rw [tokensFrom_eq_end (by rfl)] at ht
          exact (Prod.mk.inj ht).1.symm
        subst hts
        exact .inl (hlast' t rfl)
      · exact .inr (.inl hr)
    have hl' : lexeme q (c :: (r ++ x :: ds)) = (t, rest ++ x :: ds) := by
      have h := lexeme_append_stop q (c :: r) ds (List.cons_ne_nil c r) hx hcl
      rw [hl] at h
      exact h
    have hslash' : x = '/' → rest.getLast? ≠ some '/' := by
      intro hx' hr
      have hsplit : gap ++ c :: r = cs := by simpa [hs] using trivia_append cs
      have hsrc : t.source.toList ++ rest = c :: r := by
        simpa [hl] using lexeme_source_append q (c :: r) (List.cons_ne_nil c r)
      apply hslash hx'
      rw [← hsplit, ← hsrc, ← List.append_assoc, List.getLast?_append, hr]
      rfl
    have hlast'' : ∀ u ∈ (tokensFrom (q.advanceAll t.source.toList) rest).1.getLast?,
        u.closed = true := by
      rw [ht]
      intro u hu
      cases ts with
      | nil => simp at hu
      | cons v ts => exact hlast' u (by rwa [List.getLast?_cons_cons])
    rw [tokensFrom_eq_cons (trivia_append_of_cons hs hstar hslash ds)]
    simp only
    rw [show p.advanceAll gap = q from rfl, hl', trailing_eq_cons hs q, hl]
    simp only [List.map_cons, ih hslash' hlast'', ht, List.cons_append]

/-- A text ends outside every token and comment, where a blank after it is trivia: its last token
is complete, and the trivia after that token is closed and holds no line comment. -/
structure EndsOutside (cs : List Char) : Prop where
  trivia : Trivia (trailing cs) [' ']
  closed : ∀ t ∈ (tokensFrom Pos.start cs).1.getLast?, t.closed = true

theorem views_separator {a g : List Char} (ha : EndsOutside a) (hg : Separator g)
    (hslash : g.head? = some '/' → a.getLast? ≠ some '/') (b : List Char) :
    views (a ++ g ++ b) = views a ++ views b := by
  obtain ⟨x, r, rfl, hx, hstar⟩ := hg.cons
  have h := tokensFrom_append_stop Pos.start a (r ++ b) hx hstar
    (fun hx' => hslash (by rw [hx']; rfl)) ha.closed
  have hrest : views (trailing a ++ x :: (r ++ b)) = views b := by
    rw [← List.cons_append, views_trivia_append ha.trivia (by decide),
      views_separator_append hg]
  rw [views, List.append_assoc, List.cons_append, h, List.filter_append]
  exact congrArg (views a ++ ·) hrest

end Scan

/-! ## The schema of a text with a separator -/

namespace Schema

/-- A separator in a text, after a part that ends outside every token and comment, reads as a
blank: the schema is the same, and so are the errors but for their positions. A comment must not
follow a lone `/`. -/
theorem parseSyntax_separator (a b c : String) (ha : Scan.EndsOutside a.toList)
    (hc : Scan.Separator c.toList)
    (hslash : c.toList.head? = some '/' → a.toList.getLast? ≠ some '/') :
    (parseSyntax (a ++ c ++ b)).1 = (parseSyntax (a ++ " " ++ b)).1 ∧
      (parseSyntax (a ++ c ++ b)).2.map SyntaxError.erase =
        (parseSyntax (a ++ " " ++ b)).2.map SyntaxError.erase := by
  apply parseSyntax_of_views
  have hspace : " ".toList = [' '] := by simp
  have hblank : Scan.Separator [' '] := .blanks (List.cons_ne_nil _ _) fun x hx => by
    rw [List.mem_singleton.mp hx]
    exact .inl rfl
  rw [String.toList_append, String.toList_append, String.toList_append, String.toList_append,
    hspace, Scan.views_separator ha hc hslash,
    Scan.views_separator ha hblank (fun h => absurd h (by decide))]

/-- A block comment inside a model. -/
theorem parseSyntax_separator_comment :
    Scan.EndsOutside "model A \x7b".toList ∧ Scan.Separator "/* note */".toList ∧
      ((parseSyntax ("model A \x7b" ++ "/* note */" ++ "id Int \x7d")).1 =
          (parseSyntax ("model A \x7b" ++ " " ++ "id Int \x7d")).1 ∧
        (parseSyntax ("model A \x7b" ++ "/* note */" ++ "id Int \x7d")).2.map SyntaxError.erase =
          (parseSyntax ("model A \x7b" ++ " " ++ "id Int \x7d")).2.map SyntaxError.erase) := by
  have htrail : Scan.trailing "model A \x7b".toList = [] := by decide +kernel
  have ha : Scan.EndsOutside "model A \x7b".toList :=
    ⟨by rw [htrail]; exact .nil, by decide +kernel⟩
  have hsrc : "/* note */".toList = '/' :: '*' :: (" note ".toList ++ ['*', '/']) := by
    decide +kernel
  have hc : Scan.Separator "/* note */".toList := by
    rw [hsrc]
    exact .block (by decide +kernel)
  exact ⟨ha, hc, parseSyntax_separator _ _ _ ha hc (fun _ => by decide +kernel)⟩

/-- A comment after a lone `/` joins it into a line comment, which hides the model after it. -/
theorem parseSyntax_slash_before_comment :
    Scan.EndsOutside "/".toList ∧ Scan.Separator "/**/".toList ∧
      (parseSyntax ("/" ++ "/**/" ++ "model A \x7b \x7d")).1 ≠
        (parseSyntax ("/" ++ " " ++ "model A \x7b \x7d")).1 := by
  have htrail : Scan.trailing "/".toList = [] := by decide +kernel
  have ha : Scan.EndsOutside "/".toList := ⟨by rw [htrail]; exact .nil, by decide +kernel⟩
  have hc : Scan.Separator "/**/".toList := .block (w := []) (by decide)
  have hjoined : (parseSyntax ("/" ++ "/**/" ++ "model A \x7b \x7d")).1.models.length = 0 := by
    decide +kernel
  have hspaced : (parseSyntax ("/" ++ " " ++ "model A \x7b \x7d")).1.models.length = 1 := by
    decide +kernel
  refine ⟨ha, hc, fun h => ?_⟩
  rw [h, hspaced] at hjoined
  exact absurd hjoined (by decide)

end Schema

end DbSchema
