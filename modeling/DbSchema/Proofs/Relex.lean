import Mathlib
import DbSchema.Proofs.LineBreak

/-! # Printed tokens read back

The grammar sees of a token only its kind and its text (`Token.view`); positions go into errors
alone. Read that way, a text is the list `Scan.views` of its tokens, line breaks left out, and
that list does not change when the text moves: where a token stands does not change what it is.

The lexer writes each token of a class in a fixed form, which reads back as that token when
what follows cannot continue it:

* a word (`Scan.isWord`), before a character that is no word character;
* an integer or float literal (`Scan.isIntLit`, `Scan.isFloatLit`), before neither a digit nor
  a point;
* a string body between quotes, when it does not end in a backslash that no escape pairs
  (`Scan.endsInLoneBackslash`);
* a punctuation mark, always.

`Token.Lexed` says that a token's text is in the class of its kind, and every token of a text
is (`Cursor.ofText_lexed`).
-/

namespace DbSchema

set_option autoImplicit false

/-- What the grammar reads of a token: its kind and its text. -/
def Token.view (t : Token) : TokenKind × String :=
  (t.kind, t.text)

namespace Scan

/-! ## Where a token stands does not change what it is -/

theorem lexeme_view (p q : Pos) (cs : List Char) :
    (lexeme p cs).1.view = (lexeme q cs).1.view := by
  unfold lexeme
  repeat' split
  all_goals rfl

theorem tokensFrom_view (p q : Pos) (cs : List Char) :
    (tokensFrom p cs).1.map Token.view = (tokensFrom q cs).1.map Token.view := by
  fun_induction tokensFrom p cs generalizing q with
  | case1 p cs gap hs =>
    rw [tokensFrom_eq_end hs]
  | case2 p cs gap c r hs q' t rest hl ts e ht ih =>
    have hv : t.view = (lexeme (q.advanceAll gap) (c :: r)).1.view := by
      rw [← lexeme_view q', hl]
    have hr : rest = (lexeme (q.advanceAll gap) (c :: r)).2 := by
      rw [← lexeme_snd q', hl]
    rw [ht] at ih
    rw [tokensFrom_eq_cons hs]
    simp only [List.map_cons]
    rw [← hv, ← hr, ← ih]

/-- The kinds and texts of the tokens of a text, line breaks left out. -/
def views (cs : List Char) : List (TokenKind × String) :=
  ((tokensFrom Pos.start cs).1.map Token.view).filter (·.1 != .newline)

theorem views_of_trivia {cs ds : List Char} (h : (trivia cs).2 = (trivia ds).2) :
    views cs = views ds := by
  obtain ⟨g, rest, hg⟩ : ∃ g rest, trivia cs = (g, rest) := ⟨_, _, rfl⟩
  obtain ⟨g', rest', hg'⟩ : ∃ g rest, trivia ds = (g, rest) := ⟨_, _, rfl⟩
  rw [hg, hg'] at h
  dsimp only at h
  subst h
  cases rest with
  | nil => rw [views, views, tokensFrom_eq_end hg, tokensFrom_eq_end hg']
  | cons c r =>
    rw [views, views, tokensFrom_eq_cons hg, tokensFrom_eq_cons hg']
    simp only [List.map_cons]
    rw [lexeme_view (Pos.start.advanceAll g) (Pos.start.advanceAll g'),
      lexeme_snd (Pos.start.advanceAll g) (Pos.start.advanceAll g'), tokensFrom_view _
        ((Pos.start.advanceAll g').advanceAll (lexeme (Pos.start.advanceAll g') (c :: r)).1.source.toList)]

theorem views_nil : views [] = [] := by
  rw [views, @tokensFrom_eq_end Pos.start [] [] rfl]
  rfl

theorem views_blank {c : Char} (hc : isBlank c = true) (ds : List Char) :
    views (c :: ds) = views ds := by
  have hc' : c ≠ '/' := by
    rintro rfl
    exact absurd hc (by decide)
  refine views_of_trivia ?_
  rw [trivia, trivia, triviaFrom.eq_3 c ds (fun _ h => absurd h hc') (fun _ h => absurd h hc'),
    if_pos hc]

theorem views_token {c : Char} {r ds : List Char} (hb : isBlank c = false) (hs : c ≠ '/')
    {t : Token} (hl : lexeme Pos.start (c :: r ++ ds) = (t, ds)) (hk : t.kind ≠ .newline) :
    views (c :: r ++ ds) = t.view :: views ds := by
  have htr : trivia (c :: r ++ ds) = ([], c :: (r ++ ds)) := by
    rw [trivia, List.cons_append, triviaFrom.eq_3 c _ (fun _ h => absurd h hs)
      (fun _ h => absurd h hs), if_neg (by rw [hb]; decide)]
  rw [views, tokensFrom_eq_cons htr]
  simp only [Pos.advanceAll_nil, ← List.cons_append, hl, List.map_cons]
  rw [List.filter_cons_of_pos (by simpa [Token.view] using hk),
    tokensFrom_view _ Pos.start ds]
  rfl

/-! ## Words -/

/-- A word: a character that starts one, then characters that go on with one. -/
def isWord : List Char → Bool
  | [] => false
  | c :: r => isWordStart c && r.all isWordChar

theorem isWordStart_of_isDigit {c : Char} (h : c.isDigit = true) : isWordStart c = false := by
  have e : c.toNat = c.val.toNat := rfl
  have hn : 48 ≤ c.toNat ∧ c.toNat ≤ 57 := by
    simp only [Char.isDigit, Bool.and_eq_true, decide_eq_true_eq, ge_iff_le,
      UInt32.le_iff_toNat_le] at h
    exact h
  have hlt : c.toNat < 128 := by omega
  have hu : c ≠ '_' := by
    rintro rfl
    simp at hn
  simp only [isWordStart, Text.isAlphabetic, Char.isAlpha, Char.isUpper, Char.isLower,
    if_pos hlt, ge_iff_le, UInt32.le_iff_toNat_le]
  simp [hu]
  omega

theorem ofPunct?_of_isWordStart {c : Char} (hc : isWordStart c = true) :
    TokenKind.ofPunct? c = none := by
  cases h : TokenKind.ofPunct? c with
  | none => rfl
  | some k =>
    unfold TokenKind.ofPunct? at h
    split at h <;> first | exact absurd hc (by decide) | cases h

theorem lexeme_wordStart {c : Char} (hc : isWordStart c = true) (p : Pos) (r : List Char) :
    lexeme p (c :: r) =
      (mkToken (TokenKind.ofWord (String.ofList (c :: r.takeWhile isWordChar)))
        (c :: r.takeWhile isWordChar) p, r.dropWhile isWordChar) := by
  have hdigit : c.isDigit = false := by
    cases h : c.isDigit
    · rfl
    · rw [isWordStart_of_isDigit h] at hc
      exact absurd hc (by decide)
  have hne : ∀ x, isWordStart x = false → c ≠ x := by
    rintro x hx rfl
    rw [hx] at hc
    exact absurd hc (by decide)
  rw [lexeme.eq_7 p c r (hne '\n' (by decide)) (fun _ h _ => hne '@' (by decide) h)
    (hne '@' (by decide)) (hne '"' (by decide)) (fun _ _ h _ => hne '-' (by decide) h)]
  simp only [ofPunct?_of_isWordStart hc, hdigit, hc, Bool.false_eq_true, if_false, if_true]

theorem lexeme_word {w : List Char} (hw : isWord w = true) {ds : List Char}
    (hds : ∀ c ∈ ds.head?, isWordChar c = false) (p : Pos) :
    lexeme p (w ++ ds) = (mkToken (TokenKind.ofWord (String.ofList w)) w p, ds) := by
  obtain _ | ⟨c, r⟩ := w
  · simp [isWord] at hw
  simp only [isWord, Bool.and_eq_true, List.all_eq_true] at hw
  have ht : (r ++ ds).takeWhile isWordChar = r := by
    rw [List.takeWhile_append_of_pos hw.2]
    cases ds with
    | nil => simp
    | cons d ds => simp [hds d rfl]
  have hd : (r ++ ds).dropWhile isWordChar = ds := by
    rw [List.dropWhile_append_of_pos hw.2]
    cases ds with
    | nil => simp
    | cons d ds => simp [hds d rfl]
  rw [List.cons_append, lexeme_wordStart hw.1, ht, hd]

/-! ## Numbers -/

def isDigits (cs : List Char) : Bool :=
  !cs.isEmpty && cs.all Char.isDigit

/-- An integer literal as the lexer reads it: digits, after a minus sign or not. -/
def isIntLit : List Char → Bool
  | '-' :: ds => isDigits ds
  | ds => isDigits ds

def isUnsignedFloat (cs : List Char) : Bool :=
  isDigits (cs.takeWhile Char.isDigit) &&
    match cs.dropWhile Char.isDigit with
    | '.' :: r => isDigits r
    | _ => false

/-- A float literal as the lexer reads it: digits, a point and digits, after a minus sign or
not. -/
def isFloatLit : List Char → Bool
  | '-' :: r => isUnsignedFloat r
  | r => isUnsignedFloat r

/-- What may follow a number without continuing it: neither a digit nor a point. -/
def NumStop (ds : List Char) : Prop :=
  ∀ c ∈ ds.head?, c.isDigit = false ∧ c ≠ '.'

theorem takeWhile_digits {a ds : List Char} (ha : a.all Char.isDigit = true) (hds : NumStop ds) :
    (a ++ ds).takeWhile Char.isDigit = a := by
  rw [List.takeWhile_append_of_pos (by simpa using ha)]
  cases ds with
  | nil => simp
  | cons d ds => simp [(hds d rfl).1]

theorem dropWhile_digits {a ds : List Char} (ha : a.all Char.isDigit = true) (hds : NumStop ds) :
    (a ++ ds).dropWhile Char.isDigit = ds := by
  rw [List.dropWhile_append_of_pos (by simpa using ha)]
  cases ds with
  | nil => simp
  | cons d ds => simp [(hds d rfl).1]

theorem numberTail_int {a ds : List Char} (ha : a.all Char.isDigit = true) (hds : NumStop ds) :
    numberTail (a ++ ds) = (.int, a, ds) := by
  unfold numberTail
  split
  · next _ d r hr =>
    rw [dropWhile_digits ha hds] at hr
    exact absurd rfl (hds '.' (by rw [hr]; rfl)).2
  · rw [takeWhile_digits ha hds, dropWhile_digits ha hds]

theorem isDigits_cons {d : Char} {a : List Char} (h : isDigits (d :: a) = true) :
    d.isDigit = true ∧ a.all Char.isDigit = true := by
  simpa [isDigits] using h

theorem numberTail_float {a b ds : List Char} (ha : a.all Char.isDigit = true)
    (hb : isDigits b = true) (hds : NumStop ds) :
    numberTail (a ++ '.' :: (b ++ ds)) = (.float, a ++ '.' :: b, ds) := by
  obtain _ | ⟨d, b⟩ := b
  · simp [isDigits] at hb
  obtain ⟨hd, hb⟩ := isDigits_cons hb
  have hpt : Char.isDigit '.' = false := rfl
  have hdrop : (a ++ '.' :: (d :: b ++ ds)).dropWhile Char.isDigit = '.' :: d :: (b ++ ds) := by
    rw [List.dropWhile_append_of_pos (by simpa using ha), List.dropWhile_cons, hpt]
    rfl
  have htake : (a ++ '.' :: (d :: b ++ ds)).takeWhile Char.isDigit = a := by
    rw [List.takeWhile_append_of_pos (by simpa using ha), List.takeWhile_cons, hpt]
    simp
  unfold numberTail
  rw [hdrop, htake]
  simp only [hd, if_true, takeWhile_digits hb hds, dropWhile_digits hb hds]

theorem lexeme_digit {d : Char} (hd : d.isDigit = true) (p : Pos) (r : List Char) :
    lexeme p (d :: r) =
      (mkToken (numberTail r).1 (d :: (numberTail r).2.1) p, (numberTail r).2.2) := by
  have hne : ∀ x, x.isDigit = false → d ≠ x := by
    rintro x hx rfl
    rw [hx] at hd
    exact absurd hd (by decide)
  have hpunct : TokenKind.ofPunct? d = none := by
    cases h : TokenKind.ofPunct? d with
    | none => rfl
    | some k =>
      unfold TokenKind.ofPunct? at h
      split at h <;> first | exact absurd hd (by decide) | cases h
  rw [lexeme.eq_7 p d r (hne '\n' rfl) (fun _ h _ => hne '@' rfl h) (hne '@' rfl)
    (hne '"' rfl) (fun _ _ h _ => hne '-' rfl h)]
  simp only [hpunct, hd, if_true]

theorem lexeme_int {l : List Char} (hl : isIntLit l = true) {ds : List Char} (hds : NumStop ds)
    (p : Pos) : lexeme p (l ++ ds) = (mkToken .int l p, ds) := by
  unfold isIntLit at hl
  split at hl
  · next a =>
    obtain _ | ⟨d, a⟩ := a
    · simp [isDigits] at hl
    obtain ⟨hd, ha⟩ := isDigits_cons hl
    rw [List.cons_append, List.cons_append, lexeme.eq_6, if_pos hd, numberTail_int ha hds]
  · obtain _ | ⟨d, a⟩ := l
    · simp [isDigits] at hl
    obtain ⟨hd, ha⟩ := isDigits_cons hl
    rw [List.cons_append, lexeme_digit hd, numberTail_int ha hds]

theorem isUnsignedFloat_split {cs : List Char} (h : isUnsignedFloat cs = true) :
    ∃ d a b, cs = d :: a ++ '.' :: b ∧ d.isDigit = true ∧ a.all Char.isDigit = true ∧
      isDigits b = true := by
  unfold isUnsignedFloat at h
  rw [Bool.and_eq_true] at h
  obtain ⟨hw, hr⟩ := h
  split at hr
  · next b hb =>
    cases ht : cs.takeWhile Char.isDigit with
    | nil => simp [ht, isDigits] at hw
    | cons d a =>
      rw [ht] at hw
      obtain ⟨hd, ha⟩ := isDigits_cons hw
      refine ⟨d, a, b, ?_, hd, ha, hr⟩
      rw [← List.takeWhile_append_dropWhile (p := Char.isDigit) (l := cs), ht, hb]
  · exact absurd hr (by decide)

theorem lexeme_float {l : List Char} (hl : isFloatLit l = true) {ds : List Char} (hds : NumStop ds)
    (p : Pos) : lexeme p (l ++ ds) = (mkToken .float l p, ds) := by
  unfold isFloatLit at hl
  split at hl
  · obtain ⟨d, a, b, rfl, hd, ha, hb⟩ := isUnsignedFloat_split hl
    simp only [List.cons_append, List.append_assoc]
    rw [lexeme.eq_6, if_pos hd, numberTail_float ha hb hds]
  · obtain ⟨d, a, b, rfl, hd, ha, hb⟩ := isUnsignedFloat_split hl
    simp only [List.cons_append, List.append_assoc]
    rw [lexeme_digit hd, numberTail_float ha hb hds]

/-! ## String literals -/

/-- Whether a string body ends in a backslash that no escape pairs, reading escapes from the
front as the lexer does: a backslash takes the character after it. -/
def endsInLoneBackslash : List Char → Bool
  | [] => false
  | ['\\'] => true
  | '\\' :: _ :: r => endsInLoneBackslash r
  | _ :: r => endsInLoneBackslash r

theorem stringBody_reread (r : List Char) (h : endsInLoneBackslash (stringBody r).1 = false)
    (ds : List Char) : stringBody ((stringBody r).1 ++ '"' :: ds) = ((stringBody r).1, true, ds) := by
  fun_induction stringBody r with
  | case1 => rfl
  | case2 r => rfl
  | case3 r => rfl
  | case4 r =>
    dsimp only at h
    exact absurd h (by decide)
  | case5 c r hc body closed rest hb ih =>
    rw [hb] at ih
    dsimp only at h ih ⊢
    rw [endsInLoneBackslash.eq_3] at h
    rw [List.cons_append, List.cons_append, stringBody.eq_4, if_neg hc, ih h]
  | case6 c r h₁ h₂ h₃ body closed rest hb ih =>
    rw [hb] at ih
    dsimp only at h ih ⊢
    have hc : c ≠ '\\' := by
      rintro rfl
      cases r with
      | nil =>
        rw [stringBody.eq_1] at hb
        cases hb
        exact absurd h (by decide)
      | cons d r => exact h₃ d r rfl rfl
    rw [endsInLoneBackslash.eq_4 c body (fun h _ => hc h) (fun _ _ h _ => hc h)] at h
    rw [List.cons_append, stringBody.eq_5 c _ h₁ h₂ (fun _ _ h _ => hc h), ih h]

theorem lexeme_string {b ds : List Char} (h : stringBody (b ++ '"' :: ds) = (b, true, ds)) (p : Pos) :
    lexeme p ('"' :: (b ++ '"' :: ds)) = (⟨.string, String.ofList b, p, true⟩, ds) := by
  unfold lexeme
  simp only [h]

/-! ## Punctuation -/

theorem lexeme_punct {c : Char} {k : TokenKind} (h : TokenKind.ofPunct? c = some k) (p : Pos)
    (ds : List Char) : lexeme p (c :: ds) = (mkToken k [c] p, ds) := by
  have hc : c ≠ '\n' ∧ c ≠ '@' ∧ c ≠ '"' ∧ c ≠ '-' := by
    unfold TokenKind.ofPunct? at h
    split at h <;> cases h <;> decide
  rw [lexeme.eq_7 p c ds hc.1 (fun _ h _ => hc.2.1 h) hc.2.1 hc.2.2.1 (fun _ _ h _ => hc.2.2.2 h),
    h]

theorem lexeme_atSign {ds : List Char} (hds : ∀ c ∈ ds.head?, c ≠ '@') (p : Pos) :
    lexeme p ('@' :: ds) = (mkToken .atSign ['@'] p, ds) :=
  lexeme.eq_4 p ds fun r h => hds '@' (by rw [h]; rfl) rfl

theorem isUnsignedFloat_of {d : Char} {a b : List Char} (hd : d.isDigit = true)
    (ha : a.all Char.isDigit = true) (hb : isDigits b = true) :
    isUnsignedFloat (d :: a ++ '.' :: b) = true := by
  have hpt : Char.isDigit '.' = false := rfl
  have hall : (d :: a).all Char.isDigit = true := by simp [hd, ha]
  unfold isUnsignedFloat
  rw [List.takeWhile_append_of_pos (by simpa using hall), List.dropWhile_append_of_pos
    (by simpa using hall), List.takeWhile_cons, List.dropWhile_cons, hpt]
  simpa [isDigits, hd, ha] using hb

theorem numberTail_lit {d : Char} (hd : d.isDigit = true) (r : List Char) :
    ((numberTail r).1 = .int ∧ isDigits (d :: (numberTail r).2.1) = true) ∨
      ((numberTail r).1 = .float ∧ isUnsignedFloat (d :: (numberTail r).2.1) = true) := by
  have hdigits : ∀ l : List Char, (l.takeWhile Char.isDigit).all Char.isDigit = true :=
    fun l => List.all_eq_true.mpr fun x hx => List.mem_takeWhile_imp hx
  have hw := hdigits r
  unfold numberTail
  split
  · next d' r' _ =>
    split
    · next hd' =>
      refine .inr ⟨rfl, ?_⟩
      exact isUnsignedFloat_of hd hw (by simp [isDigits, hd', hdigits r'])
    · exact .inl ⟨rfl, by simp [isDigits, hd, hw]⟩
  · exact .inl ⟨rfl, by simp [isDigits, hd, hw]⟩

end Scan

/-! ## The tokens of a text are in their classes -/

/-- A token's text is in the class of its kind: a word of that kind for a word, a literal for a
number, and for a string a body the lexer reads after an opening quote. -/
def Token.Lexed (t : Token) : Prop :=
  match t.kind with
  | .string => ∃ r, (Scan.stringBody r).1 = t.text.toList
  | .int => Scan.isIntLit t.text.toList = true
  | .float => Scan.isFloatLit t.text.toList = true
  | .ident | .boolean | .model | .enum | .datasource | .generator | .type =>
    Scan.isWord t.text.toList = true ∧ TokenKind.ofWord t.text = t.kind
  | _ => True

theorem TokenKind.ofWord_cases (w : String) :
    ofWord w = .model ∨ ofWord w = .enum ∨ ofWord w = .datasource ∨ ofWord w = .generator ∨
      ofWord w = .type ∨ ofWord w = .boolean ∨ ofWord w = .ident := by
  unfold ofWord
  split_ifs <;> simp

theorem Token.lexed_word {t : Token} (hw : Scan.isWord t.text.toList = true)
    (hk : TokenKind.ofWord t.text = t.kind) : t.Lexed := by
  unfold Token.Lexed
  rw [← hk]
  rcases TokenKind.ofWord_cases t.text with h | h | h | h | h | h | h <;> rw [h] <;> exact ⟨hw, rfl⟩

namespace Scan

theorem lexeme_lexed (p : Pos) (cs : List Char) : (lexeme p cs).1.Lexed := by
  unfold lexeme
  split
  · trivial
  · trivial
  · trivial
  · trivial
  · next r =>
    rcases hs : stringBody r with ⟨body, closed, rest⟩
    exact ⟨r, by rw [hs, String.toList_ofList]⟩
  · next d r =>
    split
    · next hd =>
      rcases numberTail_lit hd r with ⟨hk, hl⟩ | ⟨hk, hl⟩
      · rcases hn : numberTail r with ⟨k, tail, rest⟩
        rw [hn] at hk hl
        dsimp only at hk hl ⊢
        subst hk
        show isIntLit (String.ofList ('-' :: d :: tail)).toList = true
        rw [String.toList_ofList]
        exact hl
      · rcases hn : numberTail r with ⟨k, tail, rest⟩
        rw [hn] at hk hl
        dsimp only at hk hl ⊢
        subst hk
        show isFloatLit (String.ofList ('-' :: d :: tail)).toList = true
        rw [String.toList_ofList]
        exact hl
    · trivial
  · next c r _ _ _ _ _ =>
    split
    · next k hk =>
      unfold TokenKind.ofPunct? at hk
      split at hk <;> cases hk <;> trivial
    · split
      · next hd =>
        have hne : c ≠ '-' := by
          rintro rfl
          exact absurd hd (by decide)
        rcases numberTail_lit hd r with ⟨hk, hl⟩ | ⟨hk, hl⟩
        · rcases hn : numberTail r with ⟨k, tail, rest⟩
          rw [hn] at hk hl
          dsimp only at hk hl ⊢
          subst hk
          show isIntLit (String.ofList (c :: tail)).toList = true
          rw [String.toList_ofList, isIntLit.eq_2 _ fun _ h => hne (List.cons.inj h).1]
          exact hl
        · rcases hn : numberTail r with ⟨k, tail, rest⟩
          rw [hn] at hk hl
          dsimp only at hk hl ⊢
          subst hk
          show isFloatLit (String.ofList (c :: tail)).toList = true
          rw [String.toList_ofList, isFloatLit.eq_2 _ fun _ h => hne (List.cons.inj h).1]
          exact hl
      · split
        · next hw =>
          refine Token.lexed_word ?_ rfl
          simp only [mkToken, String.toList_ofList, isWord, hw, Bool.true_and]
          exact List.all_eq_true.mpr fun x hx => List.mem_takeWhile_imp hx
        · trivial

theorem tokensFrom_lexed (p : Pos) (cs : List Char) : ∀ t ∈ (tokensFrom p cs).1, t.Lexed := by
  fun_induction tokensFrom p cs with
  | case1 p cs gap hs => simp
  | case2 p cs gap c r hs q t rest hl ts e ht ih =>
    have hk := lexeme_lexed q (c :: r)
    rw [hl] at hk
    rw [ht] at ih
    intro u hu
    rcases List.mem_cons.mp hu with rfl | hu
    · exact hk
    · exact ih u hu

end Scan

theorem Cursor.ofText_lexed (s : String) : ∀ t ∈ (Cursor.ofText s).ahead, t.Lexed := by
  intro t ht
  rw [Cursor.ofText_ahead] at ht
  exact Scan.tokensFrom_lexed _ _ t (List.mem_of_mem_filter ht)

end DbSchema
