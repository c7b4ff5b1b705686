import DbSchema.Proofs.Layout

/-! # Every token is the longest of its class

Each token of `Token.scan s` is the longest piece of the text, at its place, that belongs to the
token's class, and the classes are told apart by the characters that start them:

* a word is an alphabetic character or `_`, then alphanumeric characters and `_`, and the next
  character goes on with no word; its kind is a keyword, a boolean or an identifier as
  `TokenKind.ofWord` says;
* an integer is an optional `-` and ASCII digits, and after it stands neither a digit nor a point
  before a digit; a float is an optional `-`, digits, a point and digits, and no digit after it;
* `@@`, and `@` when no second `@` follows; a line break; a punctuation mark;
* a string literal is a quote and a body of escaped pairs and plain characters, closed by a quote,
  or cut off, after at most one backslash, by a line break or the end of the text;
* an `illegal` token is one character that starts none of these, nor any trivia.

* `Scan.StringBody`, `Scan.StartsNothing`, `Scan.Longest k w rest`: the classes, with the text
  `rest` after the token.
* `Scan.Tokenized cs ts`: the text `cs` is trivia and tokens, each the longest of its class there.
* `Token.scan_tokenized`: every text reads so.
-/

namespace DbSchema

set_option autoImplicit false

namespace Scan

/-! ## The token classes -/

/-- The body of a string literal: escaped pairs, a backslash and any character but a line break,
and plain characters, which are no quote, backslash or line break. -/
inductive StringBody : List Char → Prop
  | nil : StringBody []
  | escape {c : Char} {b : List Char} : c ≠ '\n' → StringBody b → StringBody ('\\' :: c :: b)
  | plain {c : Char} {b : List Char} : c ≠ '"' → c ≠ '\\' → c ≠ '\n' → StringBody b →
      StringBody (c :: b)

/-- The character `c`, before the text `rest`, starts no token of any class and no trivia. -/
structure StartsNothing (c : Char) (rest : List Char) : Prop where
  blank : isBlank c = false
  newline : c ≠ '\n'
  atSign : c ≠ '@'
  quote : c ≠ '"'
  punct : TokenKind.ofPunct? c = none
  digit : c.isDigit = false
  word : isWordStart c = false
  /-- A minus sign starts a number only before a digit. -/
  minus : c = '-' → ∀ d ∈ rest.head?, d.isDigit = false
  /-- A slash starts a comment only before a slash or a star. -/
  slash : c = '/' → ∀ d ∈ rest.head?, d ≠ '/' ∧ d ≠ '*'

/-- `Longest k w rest`: the characters `w`, before the text `rest`, are a token of kind `k`, and no
longer piece of `w ++ rest` is one. -/
inductive Longest : TokenKind → List Char → List Char → Prop
  | word {c : Char} {w rest : List Char} : isWordStart c = true → (∀ x ∈ w, isWordChar x = true) →
      (∀ x ∈ rest.head?, isWordChar x = false) →
      Longest (TokenKind.ofWord (String.ofList (c :: w))) (c :: w) rest
  | int {s ds rest : List Char} : s = [] ∨ s = ['-'] → ds ≠ [] → (∀ x ∈ ds, x.isDigit = true) →
      (∀ x ∈ rest.head?, x.isDigit = false) → (∀ d r, rest = '.' :: d :: r → d.isDigit = false) →
      Longest .int (s ++ ds) rest
  | float {s ds es rest : List Char} : s = [] ∨ s = ['-'] → ds ≠ [] →
      (∀ x ∈ ds, x.isDigit = true) → es ≠ [] → (∀ x ∈ es, x.isDigit = true) →
      (∀ x ∈ rest.head?, x.isDigit = false) → Longest .float (s ++ ds ++ '.' :: es) rest
  | doubleAtSign {rest : List Char} : Longest .doubleAtSign ['@', '@'] rest
  | atSign {rest : List Char} : (∀ x ∈ rest.head?, x ≠ '@') → Longest .atSign ['@'] rest
  | newline {rest : List Char} : Longest .newline ['\n'] rest
  | punct {c : Char} {k : TokenKind} {rest : List Char} : TokenKind.ofPunct? c = some k →
      Longest k [c] rest
  | closedString {b rest : List Char} : StringBody b → Longest .string ('"' :: b ++ ['"']) rest
  /-- A literal cut off by a line break or the end of the text; a backslash before the line break
  escapes nothing and stays in the body. -/
  | openString {b e rest : List Char} : StringBody b → e = [] ∨ e = ['\\'] →
      (∀ x ∈ rest.head?, x = '\n') → Longest .string ('"' :: b ++ e) rest
  | illegal {c : Char} {rest : List Char} : StartsNothing c rest → Longest .illegal [c] rest

/-- `Tokenized cs ts`: the text `cs` reads as the tokens `ts`. It is trivia and the source of a
token that is the longest of its class there, then a text that reads as the other tokens; or,
at the end, final trivia and the end token. -/
inductive Tokenized : List Char → List Token → Prop
  | eof {g : List Char} {p : Pos} : FinalTrivia g → Tokenized g [Token.eofAt p]
  | token {g rest : List Char} {t : Token} {ts : List Token} :
      Trivia g (t.source.toList ++ rest) → Longest t.kind t.source.toList rest →
      Tokenized rest ts → Tokenized (g ++ t.source.toList ++ rest) (t :: ts)

/-! ## Where reading stops -/

theorem head?_dropWhile_false (p : Char → Bool) (l : List Char) :
    ∀ x ∈ (l.dropWhile p).head?, p x = false := by
  intro x hx
  have h := List.head?_dropWhile_not p l
  rw [Option.mem_def] at hx
  rw [hx] at h
  simpa using h

theorem triviaFrom_rest (b : Bool) (cs : List Char) {x : Char} {xs : List Char}
    (h : (triviaFrom b cs).2 = x :: xs) :
    isBlank x = false ∧ (x = '/' → ∀ d ∈ xs.head?, d ≠ '/' ∧ d ≠ '*') := by
  fun_induction triviaFrom b cs with
  | case1 r =>
    dsimp only at h
    have hx := head?_dropWhile_false (· != '\n') r x (by rw [h]; rfl)
    simp only [bne_eq_false_iff_eq] at hx
    subst hx
    exact ⟨rfl, fun h => absurd h (by decide)⟩
  | case2 r body rest hr ih => exact ih (by rw [hr]; exact h)
  | case3 c r _ _ hc more rest hr ih => exact ih (by rw [hr]; exact h)
  | case4 c r hline hblock hc =>
    obtain ⟨rfl, rfl⟩ := List.cons.inj h
    refine ⟨by simpa using hc, fun hx d hd => ?_⟩
    cases r with
    | nil => cases hd
    | cons d' r' =>
      obtain rfl : d' = d := by simpa using hd
      exact ⟨fun hd' => hline r' hx (by rw [hd']), fun hd' => hblock r' hx (by rw [hd'])⟩
  | case5 => cases h
  | case6 r more rest hr ih => exact ih (by rw [hr]; exact h)
  | case7 c r hc body rest hr ih => exact ih (by rw [hr]; exact h)
  | case8 => cases h

/-! ## Reading one token -/

theorem stringBody_read (cs : List Char) :
    ∃ b e, (stringBody cs).1 ++ (if (stringBody cs).2.1 then ['"'] else []) = b ++ e ∧
      StringBody b ∧
      (e = ['"'] ∨ (e = [] ∨ e = ['\\']) ∧ ∀ x ∈ (stringBody cs).2.2.head?, x = '\n') := by
  fun_induction stringBody cs with
  | case1 => exact ⟨[], [], rfl, .nil, .inr ⟨.inl rfl, by simp⟩⟩
  | case2 r => exact ⟨[], ['"'], rfl, .nil, .inl rfl⟩
  | case3 r => exact ⟨[], [], rfl, .nil, .inr ⟨.inl rfl, by simp⟩⟩
  | case4 r => exact ⟨[], ['\\'], rfl, .nil, .inr ⟨.inr rfl, by simp⟩⟩
  | case5 c r hc body closed rest hr ih =>
    rw [hr] at ih
    dsimp only at ih ⊢
    obtain ⟨b, e, hbe, hb, he⟩ := ih
    exact ⟨'\\' :: c :: b, e, by simp [hbe], .escape hc hb, he⟩
  | case6 c r hquote hline hesc body closed rest hr ih =>
    rw [hr] at ih
    dsimp only at ih ⊢
    obtain ⟨b, e, hbe, hb, he⟩ := ih
    by_cases hbs : c = '\\'
    · subst hbs
      have hr' : r = [] := by
        cases r with
        | nil => rfl
        | cons c' r' => exact (hesc c' r' rfl rfl).elim
      subst hr'
      simp only [stringBody, Prod.mk.injEq] at hr
      obtain ⟨rfl, rfl, rfl⟩ := hr
      exact ⟨[], ['\\'], rfl, .nil, .inr ⟨.inr rfl, by simp⟩⟩
    · exact ⟨c :: b, e, by simp [hbe], .plain hquote hbs hline hb, he⟩

theorem numberTail_longest {s : List Char} (hs : s = [] ∨ s = ['-']) {d : Char}
    (hd : d.isDigit = true) (cs : List Char) :
    Longest (numberTail cs).1 (s ++ d :: (numberTail cs).2.1) (numberTail cs).2.2 := by
  have hwhole : ∀ x ∈ d :: cs.takeWhile Char.isDigit, x.isDigit = true := by
    intro x hx
    rcases List.mem_cons.1 hx with rfl | hx
    · exact hd
    · exact List.mem_takeWhile_imp hx
  have hstop := head?_dropWhile_false Char.isDigit cs
  unfold numberTail
  split
  · rename_i e r hr
    rw [hr] at hstop
    split
    · rename_i he
      have hfrac : ∀ x ∈ e :: r.takeWhile Char.isDigit, x.isDigit = true := by
        intro x hx
        rcases List.mem_cons.1 hx with rfl | hx
        · exact he
        · exact List.mem_takeWhile_imp hx
      have h := Longest.float hs (List.cons_ne_nil _ _) hwhole (List.cons_ne_nil _ _) hfrac
        (head?_dropWhile_false Char.isDigit r)
      simpa using h
    · rename_i he
      exact Longest.int hs (List.cons_ne_nil _ _) hwhole (by simp)
        (fun _ _ h => by cases h; simpa using he)
  · rename_i r hr
    exact Longest.int hs (List.cons_ne_nil _ _) hwhole hstop (fun e r' h => (hr e r' h).elim)

theorem longest_mkToken {k : TokenKind} {w rest : List Char} (p : Pos) (hk : k ≠ .string)
    (h : Longest k w rest) : Longest (mkToken k w p).kind (mkToken k w p).source.toList rest := by
  rw [mkToken_source hk]
  exact h

theorem numberTail_ne_string (cs : List Char) : (numberTail cs).1 ≠ .string := by
  rcases numberTail_kind cs with hk | hk <;> simp [hk]

theorem longest_number (p : Pos) {s : List Char} (hs : s = [] ∨ s = ['-']) {d : Char}
    (hd : d.isDigit = true) {cs tail rest : List Char} {k : TokenKind}
    (hn : numberTail cs = (k, tail, rest)) :
    Longest (mkToken k (s ++ d :: tail) p).kind (mkToken k (s ++ d :: tail) p).source.toList
      rest := by
  have h := numberTail_longest hs hd cs
  have hk := numberTail_ne_string cs
  rw [hn] at h hk
  exact longest_mkToken p hk h

theorem longest_string (p : Pos) {cs body rest : List Char} {closed : Bool}
    (hsb : stringBody cs = (body, closed, rest)) :
    Longest (Token.mk .string (String.ofList body) p closed).kind
      (Token.mk .string (String.ofList body) p closed).source.toList rest := by
  obtain ⟨b, e, hbe, hbody, he⟩ := stringBody_read cs
  rw [hsb] at hbe he
  have hsrc : (Token.mk .string (String.ofList body) p closed).source.toList =
      '"' :: (body ++ if closed then ['"'] else []) := by
    cases closed <;> simp [Token.source, String.toList_ofList]
  rw [hsrc, hbe]
  rcases he with rfl | ⟨he, hrest⟩
  · exact .closedString hbody
  · exact .openString hbody he hrest

theorem isWordStart_minus : isWordStart '-' = false := by decide

theorem lexeme_longest (p : Pos) {c : Char} {r : List Char} (hb : isBlank c = false)
    (hs : c = '/' → ∀ d ∈ r.head?, d ≠ '/' ∧ d ≠ '*') :
    Longest (lexeme p (c :: r)).1.kind (lexeme p (c :: r)).1.source.toList
      (lexeme p (c :: r)).2 := by
  unfold lexeme
  split
  · rename_i h
    cases h
  · exact longest_mkToken p (by decide) .newline
  · exact longest_mkToken p (by decide) .doubleAtSign
  · rename_i r' hnot _
    refine longest_mkToken p (by decide) (.atSign fun x hx => ?_)
    rintro rfl
    cases r' with
    | nil => cases hx
    | cons y r'' =>
      cases hx
      exact hnot r'' rfl
  · rename_i r' _
    rcases hsb : stringBody r' with ⟨body, closed, rest⟩
    exact longest_string p hsb
  · rename_i d r' _
    split
    · rename_i hd
      rcases hn : numberTail r' with ⟨k, tail, rest⟩
      exact longest_number p (.inr rfl) hd hn
    · rename_i hd
      refine longest_mkToken p (by decide) (.illegal ⟨by decide, by decide, by decide, by decide,
        by decide, by decide, isWordStart_minus, fun _ x hx => ?_, fun h => absurd h (by decide)⟩)
      cases hx
      simpa using hd
  · rename_i c' r' hline hat2 hat hquote hminus h
    obtain ⟨rfl, rfl⟩ := List.cons.inj h
    split
    · rename_i k hk
      exact longest_mkToken p (ofPunct?_plain hk).1 (.punct hk)
    · rename_i hpunct
      split
      · rename_i hd
        rcases hn : numberTail r with ⟨k, tail, rest⟩
        exact longest_number p (.inl rfl) hd hn
      · rename_i hd
        split
        · rename_i hw
          exact longest_mkToken p (ofWord_plain _).1
            (.word hw (fun x hx => List.mem_takeWhile_imp hx) (head?_dropWhile_false _ r))
        · rename_i hw
          refine longest_mkToken p (by decide) (.illegal ⟨hb, hline, hat, hquote, hpunct,
            by simpa using hd, by simpa using hw, fun hc x hx => ?_, hs⟩)
          cases r with
          | nil => cases hx
          | cons y r' => exact (hminus y r' hc rfl).elim

/-! ## Reading a whole text -/

theorem tokensFrom_tokenized (p : Pos) (cs : List Char) :
    Tokenized cs ((tokensFrom p cs).1 ++ [Token.eofAt (tokensFrom p cs).2]) := by
  fun_induction tokensFrom p cs with
  | case1 p cs gap hs =>
    have hcs := trivia_append cs
    have hfin := (trivia_split cs).1
    rw [hs] at hcs hfin
    simp only [List.append_nil] at hcs
    subst hcs
    exact .eof (hfin rfl)
  | case2 p cs gap c r hs q t rest hl ts e ht ih =>
    have hne := List.cons_ne_nil c r
    have hcs := trivia_append cs
    have hgap := (trivia_split cs).2
    have hsrc := lexeme_source_append q (c :: r) hne
    have hrest := triviaFrom_rest false cs (by rw [← trivia, hs])
    have hlong := lexeme_longest q hrest.1 hrest.2
    rw [hs] at hcs hgap
    rw [hl] at hsrc hlong
    rw [ht] at ih
    dsimp only at hcs hgap hsrc hlong
    rw [← hcs, ← hsrc, ← List.append_assoc]
    rw [← hsrc] at hgap hne
    exact .token (hgap hne) hlong ih

end Scan

/-- Every text reads as trivia and tokens, each token the longest piece of the text at its place
that belongs to its class. -/
theorem Token.scan_tokenized (s : String) : Scan.Tokenized s.toList (Token.scan s) :=
  Scan.tokensFrom_tokenized Pos.start s.toList

/- A point not followed by a digit ends a number, and `@@@` is `@@` before `@`. -/
example : (Token.scan "1.x 1.5.3 @@@").map Token.kind =
    [.int, .dot, .ident, .float, .dot, .int, .doubleAtSign, .atSign, .eof] := by
  decide +kernel

end DbSchema
