import DbSchema.Proofs.Forward

/-! # Reading the same tokens elsewhere

A production reads tokens and looks at their kinds and texts; their positions only go into the
errors it reports. Two ways of seeing the same tokens again matter for error recovery:

* the tokens of a text that stands `n` lines further down: every position moves down `n` lines,
  and so does every error;
* the tokens of a text followed by more tokens: the text no longer ends, so a production that
  stops before the end of the text cannot tell the difference.

`Cursor.Shifted n rest c₁ c₂` relates the cursor `c₁` to a cursor `c₂` that sees the tokens of
`c₁` moved down `n` lines, followed by the tokens `B` when `rest = some B`. A production `p`
agrees with `q` (`Parser.Agree`) when, run from related cursors, the two stop at related
cursors, with values related by `V` or with the same error moved down `n` lines, as long as `p`
stops before the end of its text whenever something follows that end (`Cursor.Before`).

The obligations of a production are those of its primitives: `Shifted.current`,
`Shifted.advance`, `Shifted.peek` and `Shifted.remaining`. From them every production of the
grammar agrees with itself, the loops by induction on the tokens left.
-/

namespace DbSchema

set_option autoImplicit false

/-! ## Moving positions down -/

/-- The position `n` lines further down. -/
def Pos.shiftLines (n : Nat) (p : Pos) : Pos :=
  ⟨p.line + n, p.column⟩

/-- The token `n` lines further down. -/
def Token.shiftLines (n : Nat) (t : Token) : Token :=
  { t with pos := t.pos.shiftLines n }

/-- The error `n` lines further down. -/
def SyntaxError.shiftLines (n : Nat) : SyntaxError → SyntaxError
  | .expected what found p => .expected what found (p.shiftLines n)
  | .unexpected found p => .unexpected found (p.shiftLines n)

@[simp] theorem Pos.shiftLines_zero (p : Pos) : p.shiftLines 0 = p := rfl

@[simp] theorem Token.shiftLines_zero (t : Token) : t.shiftLines 0 = t := rfl

@[simp] theorem Token.kind_shiftLines (n : Nat) (t : Token) : (t.shiftLines n).kind = t.kind :=
  rfl

@[simp] theorem Token.text_shiftLines (n : Nat) (t : Token) : (t.shiftLines n).text = t.text :=
  rfl

@[simp] theorem Token.describe_shiftLines (n : Nat) (t : Token) :
    (t.shiftLines n).describe = t.describe := rfl

@[simp] theorem Token.eofAt_shiftLines (n : Nat) (p : Pos) :
    (Token.eofAt p).shiftLines n = Token.eofAt (p.shiftLines n) := rfl

@[simp] theorem SyntaxError.shiftLines_zero (e : SyntaxError) : e.shiftLines 0 = e := by
  cases e <;> rfl

@[simp] theorem Token.map_shiftLines_zero (ts : List Token) : ts.map (Token.shiftLines 0) = ts := by
  have h : Token.shiftLines 0 = id := funext Token.shiftLines_zero
  rw [h, List.map_id]

theorem Pos.advance_shiftLines (n : Nat) (p : Pos) (c : Char) :
    (p.shiftLines n).advance c = (p.advance c).shiftLines n := by
  unfold Pos.advance Pos.shiftLines
  split
  · rw [Nat.add_right_comm]
  · rfl

theorem Pos.advanceAll_shiftLines (n : Nat) (p : Pos) (cs : List Char) :
    (p.shiftLines n).advanceAll cs = (p.advanceAll cs).shiftLines n := by
  induction cs generalizing p with
  | nil => rfl
  | cons c cs ih => rw [Pos.advanceAll_cons, Pos.advance_shiftLines, ih, Pos.advanceAll_cons]

@[simp] theorem Token.source_shiftLines (n : Nat) (t : Token) :
    (t.shiftLines n).source = t.source := rfl

namespace Cursor

/-! ## Related cursors -/

/-- `c₂` sees the tokens of `c₁` moved down `n` lines, followed by the tokens `B` when
`rest = some B`. When something follows, the text of `c₁` ends with a `}`, so that looking one
token ahead from an identifier or a `[` never reaches past its end. -/
structure Shifted (n : Nat) (rest : Option (List Token)) (c₁ c₂ : Cursor) : Prop where
  ahead : c₂.ahead = c₁.ahead.map (Token.shiftLines n) ++ rest.getD []
  depth : c₂.depth = c₁.depth
  endPos : rest = none → c₂.endPos = c₁.endPos.shiftLines n
  last : rest ≠ none → ∀ t ∈ c₁.ahead.getLast?, t.kind = .rBrace

/-- The cursor has not reached the end of its text, or nothing follows that end. -/
def Before (rest : Option (List Token)) (c : Cursor) : Prop :=
  rest = none ∨ c.ahead ≠ []

variable {n : Nat} {rest : Option (List Token)} {c₁ c₂ : Cursor}

theorem Before.none (c : Cursor) : Before none c :=
  Or.inl rfl

theorem Before.of_reach {c c' : Cursor} (h : c.Reach c') (g : Before rest c') : Before rest c := by
  rcases g with g | g
  · exact Or.inl g
  · refine Or.inr fun hc => g ?_
    exact h.at_end hc

theorem Shifted.current (h : Shifted n rest c₁ c₂) (g : Before rest c₁) :
    c₂.current = c₁.current.shiftLines n := by
  unfold Cursor.current
  rw [h.ahead]
  cases hc : c₁.ahead with
  | nil =>
    have hr : rest = none := by
      rcases g with g | g
      · exact g
      · exact absurd hc g
    rw [hr, h.endPos hr]
    rfl
  | cons t ts => rfl

theorem Shifted.kind (h : Shifted n rest c₁ c₂) (g : Before rest c₁) : c₂.kind = c₁.kind := by
  unfold Cursor.kind
  rw [h.current g, Token.kind_shiftLines]

theorem Shifted.remaining (h : Shifted n rest c₁ c₂) :
    c₂.remaining = c₁.remaining + (rest.getD []).length := by
  rw [c₂.remaining_eq, c₁.remaining_eq, h.ahead, List.length_append, List.length_map]

theorem Shifted.remaining_lt_iff {d₁ d₂ : Cursor} (h : Shifted n rest c₁ c₂)
    (h' : Shifted n rest d₁ d₂) : d₂.remaining < c₂.remaining ↔ d₁.remaining < c₁.remaining := by
  rw [h.remaining, h'.remaining]
  omega

theorem Shifted.advance (h : Shifted n rest c₁ c₂) (g : Before rest c₁) :
    Shifted n rest c₁.advance c₂.advance where
  ahead := by
    rw [advance_ahead, advance_ahead, h.ahead]
    cases hc : c₁.ahead with
    | nil =>
      have hr : rest = none := by
        rcases g with g | g
        · exact g
        · exact absurd hc g
      rw [hr]
      rfl
    | cons t ts => rfl
  depth := by
    simp only [Cursor.advance, h.kind g, h.depth]
  endPos := h.endPos
  last := by
    intro hr t ht
    rw [advance_ahead] at ht
    cases hc : c₁.ahead with
    | nil => rw [hc] at ht; simp at ht
    | cons t₀ ts =>
      rw [hc, List.tail_cons] at ht
      cases ts with
      | nil => simp at ht
      | cons t₁ ts =>
        apply h.last hr t
        rw [hc, List.getLast?_cons_cons]
        exact ht

theorem Shifted.before_advance (h : Shifted n rest c₁ c₂) (g : Before rest c₁)
    (hk : c₁.kind ≠ .rBrace) : Before rest c₁.advance := by
  rcases g with g | g
  · exact Or.inl g
  · by_cases hr : rest = none
    · exact Or.inl hr
    · right
      rw [advance_ahead]
      cases hc : c₁.ahead with
      | nil => exact absurd hc g
      | cons t ts =>
        cases ts with
        | nil =>
          have ht := h.last hr t (by rw [hc]; rfl)
          exact absurd (by simp [Cursor.kind, Cursor.current, hc, ht]) hk
        | cons t₁ ts => simp

theorem Shifted.peek (h : Shifted n rest c₁ c₂) (g : Before rest c₁) (hk : c₁.kind ≠ .rBrace) :
    c₂.peek = c₁.peek.shiftLines n := by
  have hadv := (h.advance g).current (h.before_advance g hk)
  unfold Cursor.current at hadv
  unfold Cursor.peek
  rw [← advance_ahead, ← advance_ahead]
  exact hadv

theorem Shifted.expected (h : Shifted n rest c₁ c₂) (g : Before rest c₁) (what : String) :
    c₂.expected what = (c₁.expected what).shiftLines n := by
  simp only [Cursor.expected, h.current g, Token.describe_shiftLines]
  rfl

theorem Shifted.unexpected (h : Shifted n rest c₁ c₂) (g : Before rest c₁) :
    c₂.unexpected = c₁.unexpected.shiftLines n := by
  simp only [Cursor.unexpected, h.current g, Token.describe_shiftLines]
  rfl

theorem Shifted.peek_kind (h : Shifted n rest c₁ c₂) (g : Before rest c₁)
    (hk : c₁.kind ≠ .rBrace) : c₂.peek.kind = c₁.peek.kind := by
  rw [h.peek g hk, Token.kind_shiftLines]

theorem Shifted.skipComma (h : Shifted n rest c₁ c₂) (g : Before rest c₁) :
    Shifted n rest (if c₁.kind = .comma then c₁.advance else c₁)
      (if c₂.kind = .comma then c₂.advance else c₂) := by
  rw [h.kind g]
  split
  · exact h.advance g
  · exact h

end Cursor

open Cursor

/-! ## Outcomes and productions that agree -/

section Agree

variable (n : Nat) (rest : Option (List Token))

/-- Two outcomes agree: both read a value, the two related by `V`, or both stopped with the same
error moved down `n` lines; and both stop at related cursors. -/
def Outcome.Shifted {α β : Type} (V : α → β → Prop) : Outcome α → Outcome β → Prop
  | .ok a c₁, .ok b c₂ => V a b ∧ c₁.Shifted n rest c₂
  | .error e₁ c₁, .error e₂ c₂ => e₂ = e₁.shiftLines n ∧ c₁.Shifted n rest c₂
  | _, _ => False

/-- `p` reads forward, and run from related cursors `p` and `q` have agreeing outcomes whenever
`p` stops before the end of its text or nothing follows that end. -/
def Parser.Agree {α β : Type} (V : α → β → Prop) (p : Parser α) (q : Parser β) : Prop :=
  Parser.Forward p ∧ ∀ c₁ c₂ : Cursor, c₁.Shifted n rest c₂ →
    Before rest (Outcome.cursor (p c₁)) → Outcome.Shifted n rest V (p c₁) (q c₂)

/-- A token read on the second side is the one read on the first, moved down. -/
def TokenShifted (t t' : Token) : Prop :=
  t' = t.shiftLines n

end Agree

namespace Outcome

variable {n : Nat} {rest : Option (List Token)} {α β : Type} {V : α → β → Prop}

theorem Shifted.of_ok {a : α} {c₁ : Cursor} {r : Outcome β}
    (h : Outcome.Shifted n rest V (.ok a c₁) r) :
    ∃ b c₂, r = .ok b c₂ ∧ V a b ∧ c₁.Shifted n rest c₂ := by
  cases r with
  | ok b c₂ => exact ⟨b, c₂, rfl, h⟩
  | error e c₂ => exact h.elim

theorem Shifted.of_error {e : SyntaxError} {c₁ : Cursor} {r : Outcome β}
    (h : Outcome.Shifted n rest V (.error e c₁) r) :
    ∃ c₂, r = .error (e.shiftLines n) c₂ ∧ c₁.Shifted n rest c₂ := by
  cases r with
  | ok b c₂ => exact h.elim
  | error e₂ c₂ =>
    obtain ⟨rfl, hc⟩ := h
    exact ⟨c₂, rfl, hc⟩

end Outcome

namespace Parser

variable {n : Nat} {rest : Option (List Token)} {α α' β β' : Type}

/-! ## Composing productions that agree -/

theorem Agree.ok_of_ok {V : α → β → Prop} {p : Parser α} {q : Parser β}
    (hp : Agree n rest V p q) {c₁ c₂ d₁ : Cursor} {a : α} (hc : c₁.Shifted n rest c₂)
    (h : p c₁ = .ok a d₁) (hb : Before rest d₁) :
    ∃ b d₂, q c₂ = .ok b d₂ ∧ V a b ∧ d₁.Shifted n rest d₂ := by
  have hs := hp.2 c₁ c₂ hc (by rw [h]; exact hb)
  rw [h] at hs
  exact hs.of_ok

theorem Agree.error_of_error {V : α → β → Prop} {p : Parser α} {q : Parser β}
    (hp : Agree n rest V p q) {c₁ c₂ d₁ : Cursor} {e : SyntaxError} (hc : c₁.Shifted n rest c₂)
    (h : p c₁ = .error e d₁) (hb : Before rest d₁) :
    ∃ d₂, q c₂ = .error (e.shiftLines n) d₂ ∧ d₁.Shifted n rest d₂ := by
  have hs := hp.2 c₁ c₂ hc (by rw [h]; exact hb)
  rw [h] at hs
  exact hs.of_error

theorem agree_pure {V : α → β → Prop} {a : α} {b : β} (h : V a b) :
    Agree n rest V (pure a) (pure b) :=
  ⟨forward_pure a, fun _ _ hc _ => ⟨h, hc⟩⟩

theorem Agree.bind {V : α → α' → Prop} {W : β → β' → Prop} {x : Parser α} {y : Parser α'}
    {f : α → Parser β} {g : α' → Parser β'} (hx : Agree n rest V x y)
    (htot : ∀ a, ∃ b, V a b) (hf : ∀ a b, V a b → Agree n rest W (f a) (g b)) :
    Agree n rest W (x >>= f) (y >>= g) := by
  have hfwd : ∀ a, Forward (f a) := by
    intro a
    obtain ⟨b, hb⟩ := htot a
    exact (hf a b hb).1
  refine ⟨forward_bind hx.1 hfwd, fun c₁ c₂ hc hg => ?_⟩
  change Before rest (Outcome.cursor (EStateM.bind x f c₁)) at hg
  change Outcome.Shifted n rest W (EStateM.bind x f c₁) (EStateM.bind y g c₂)
  unfold EStateM.bind at hg ⊢
  have hxc := hx.2 c₁ c₂ hc
  cases hx1 : x c₁ with
  | ok a d₁ =>
    simp only [hx1] at hg hxc ⊢
    have hd : Before rest d₁ := Before.of_reach (hfwd a d₁) hg
    obtain ⟨b, d₂, hy, hab, hd'⟩ := (hxc hd).of_ok
    rw [hy]
    exact (hf a b hab).2 d₁ d₂ hd' hg
  | error e d₁ =>
    simp only [hx1] at hg hxc ⊢
    obtain ⟨d₂, hy, hd'⟩ := (hxc hg).of_error
    rw [hy]
    exact ⟨rfl, hd'⟩

theorem Agree.bind_eq {W : β → β' → Prop} {x y : Parser α} {f : α → Parser β}
    {g : α → Parser β'} (hx : Agree n rest Eq x y) (hf : ∀ a, Agree n rest W (f a) (g a)) :
    Agree n rest W (x >>= f) (y >>= g) :=
  hx.bind (fun a => ⟨a, rfl⟩) fun a _ hab => hab ▸ hf a

theorem Agree.bind_token {W : β → β' → Prop} {x y : Parser Token} {f : Token → Parser β}
    {g : Token → Parser β'} (hx : Agree n rest (TokenShifted n) x y)
    (hf : ∀ t, Agree n rest W (f t) (g (t.shiftLines n))) :
    Agree n rest W (x >>= f) (y >>= g) :=
  hx.bind (fun t => ⟨t.shiftLines n, rfl⟩) fun t _ ht => ht ▸ hf t

theorem agree_ite {V : α → β → Prop} {P Q : Prop} [Decidable P] [Decidable Q]
    {p₁ q₁ : Parser α} {p₂ q₂ : Parser β} (hPQ : P ↔ Q) (hp : Agree n rest V p₁ p₂)
    (hq : Agree n rest V q₁ q₂) :
    Agree n rest V (if P then p₁ else q₁) (if Q then p₂ else q₂) := by
  by_cases hP : P
  · rw [if_pos hP, if_pos (hPQ.mp hP)]
    exact hp
  · rw [if_neg hP, if_neg (mt hPQ.mpr hP)]
    exact hq

theorem agree_get_ite {V : α → β → Prop} {P : Cursor → Prop} [DecidablePred P]
    {p₁ q₁ : Parser α} {p₂ q₂ : Parser β}
    (hP : ∀ c₁ c₂, c₁.Shifted n rest c₂ → Before rest c₁ → (P c₁ ↔ P c₂))
    (hp : Agree n rest V p₁ p₂) (hq : Agree n rest V q₁ q₂) :
    Agree n rest V (get >>= fun c => if P c then p₁ else q₁)
      (get >>= fun c => if P c then p₂ else q₂) := by
  refine ⟨forward_bind forward_get fun c => forward_ite _ hp.1 hq.1, fun c₁ c₂ hc hg => ?_⟩
  change Before rest (Outcome.cursor ((if P c₁ then p₁ else q₁) c₁)) at hg
  change Outcome.Shifted n rest V ((if P c₁ then p₁ else q₁) c₁) ((if P c₂ then p₂ else q₂) c₂)
  have hb : Before rest c₁ := by
    split at hg
    · exact Before.of_reach (hp.1 c₁) hg
    · exact Before.of_reach (hq.1 c₁) hg
  by_cases h₁ : P c₁
  · have h₂ := (hP c₁ c₂ hc hb).mp h₁
    simp only [if_pos h₁, if_pos h₂] at hg ⊢
    exact hp.2 c₁ c₂ hc hg
  · have h₂ : ¬ P c₂ := mt (hP c₁ c₂ hc hb).mpr h₁
    simp only [if_neg h₁, if_neg h₂] at hg ⊢
    exact hq.2 c₁ c₂ hc hg

/-! ## The primitive productions -/

theorem agree_current : Agree n rest (TokenShifted n) current current :=
  ⟨forward_current, fun _ _ hc hg => ⟨(hc.current hg).symm ▸ rfl, hc⟩⟩

theorem agree_next : Agree n rest (TokenShifted n) next next := by
  refine ⟨forward_next, fun c₁ c₂ hc hg => ?_⟩
  have hb : Before rest c₁ := Before.of_reach (Reach.advance c₁) hg
  exact ⟨hc.current hb, hc.advance hb⟩

theorem agree_expect (k : TokenKind) : Agree n rest (TokenShifted n) (expect k) (expect k) := by
  refine ⟨forward_expect k, fun c₁ c₂ hc hg => ?_⟩
  have hb : Before rest c₁ := Before.of_reach (forward_expect k c₁) hg
  unfold expect at hg ⊢
  rw [hc.kind hb]
  split
  · exact ⟨hc.current hb, hc.advance hb⟩
  · exact ⟨hc.expected hb _, hc⟩

theorem agree_expectIdent : Agree n rest Eq expectIdent expectIdent :=
  (agree_expect .ident).bind_token fun t => agree_pure (Token.text_shiftLines n t).symm

theorem agree_expectName : Agree n rest Eq expectName expectName := by
  refine ⟨forward_expectName, fun c₁ c₂ hc hg => ?_⟩
  have hb : Before rest c₁ := Before.of_reach (forward_expectName c₁) hg
  unfold expectName at hg ⊢
  rw [hc.kind hb]
  split
  · exact ⟨by rw [hc.current hb, Token.text_shiftLines], hc.advance hb⟩
  · exact ⟨hc.expected hb _, hc⟩

end Parser

end DbSchema
