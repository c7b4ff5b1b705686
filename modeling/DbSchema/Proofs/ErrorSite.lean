import DbSchema.Proofs.Progress

/-! # A production reports its error where it stops

A production that fails stops at a cursor and reports an error about that cursor's current
token: that the token starts nothing there, that a token of another kind was wanted there, or
that a list or call opened there would nest too deep. It reports the error at once, so no
production reads on after the token its error is about.

* `Parser.StopError c e`: the three errors about the current token of `c`.
* `Parser.ReportsAtStop p`: when `p` fails, its error is a `StopError` of the cursor where it
  stops; `Parser.ErrorAtStop p`: the error stands at that cursor's current token.
* One `reportsAtStop_…` lemma per production, assembled from the lemmas for `bind`, `pure` and the
  primitive productions; the loops go by induction on the tokens left, as in `Forward`.
-/

namespace DbSchema

set_option autoImplicit false

open Cursor

namespace Parser

variable {α β : Type}

/-- When `p` fails, its error stands at the current token of the cursor where it stops. -/
def ErrorAtStop (p : Parser α) : Prop :=
  ∀ (c c' : Cursor) (e : SyntaxError), p c = .error e c' → e.pos = c'.current.pos

/-- The errors a production can report about the current token of the cursor `c` where it stops:
the token starts nothing there, a token of another kind was wanted there, or a list or call
opened there would nest more than `maxNesting` deep. -/
inductive StopError (c : Cursor) : SyntaxError → Prop
  | unexpected : StopError c c.unexpected
  | expected (k : TokenKind) : StopError c (c.expected k.describe)
  | nesting : StopError c (c.expected s!"value nesting of at most {maxNesting} levels")

theorem StopError.pos {c : Cursor} {e : SyntaxError} (h : StopError c e) :
    e.pos = c.current.pos := by
  cases h <;> rfl

/-- When `p` fails, its error is one about the current token of the cursor where it stops. -/
def ReportsAtStop (p : Parser α) : Prop :=
  ∀ (c c' : Cursor) (e : SyntaxError), p c = .error e c' → StopError c' e

theorem ReportsAtStop.errorAtStop {p : Parser α} (h : ReportsAtStop p) : ErrorAtStop p :=
  fun c c' e hp => (h c c' e hp).pos

/-! ## Composing productions -/

theorem reportsAtStop_bind {x : Parser α} {f : α → Parser β} (hx : ReportsAtStop x)
    (hf : ∀ a, ReportsAtStop (f a)) : ReportsAtStop (x >>= f) := by
  intro c c' e h
  change EStateM.bind x f c = _ at h
  unfold EStateM.bind at h
  cases hxc : x c with
  | ok a c₁ =>
    rw [hxc] at h
    exact hf a c₁ c' e h
  | error e₁ c₁ =>
    rw [hxc] at h
    cases h
    exact hx c c' e hxc

theorem reportsAtStop_of_ok {p : Parser α} (h : ∀ c, ∃ a c', p c = .ok a c') :
    ReportsAtStop p := by
  intro c c' e hp
  obtain ⟨a, c₁, hc⟩ := h c
  rw [hc] at hp
  cases hp

theorem reportsAtStop_pure (a : α) : ReportsAtStop (pure a : Parser α) :=
  reportsAtStop_of_ok fun c => ⟨a, c, rfl⟩

theorem reportsAtStop_ite {p q : Parser α} (b : Prop) [Decidable b] (hp : ReportsAtStop p)
    (hq : ReportsAtStop q) : ReportsAtStop (if b then p else q) := by
  split
  · exact hp
  · exact hq

theorem reportsAtStop_get : ReportsAtStop (get : Parser Cursor) :=
  reportsAtStop_of_ok fun c => ⟨c, c, rfl⟩

theorem reportsAtStop_current : ReportsAtStop current :=
  reportsAtStop_of_ok fun c => ⟨c.current, c, rfl⟩

theorem reportsAtStop_next : ReportsAtStop next :=
  reportsAtStop_of_ok fun c => ⟨c.current, c.advance, rfl⟩

theorem reportsAtStop_expect (k : TokenKind) : ReportsAtStop (expect k) := by
  intro c c' e h
  unfold expect at h
  split at h
  · cases h
  · cases h
    exact .expected k

theorem reportsAtStop_expectIdent : ReportsAtStop expectIdent :=
  reportsAtStop_bind (reportsAtStop_expect .ident) fun t => reportsAtStop_pure t.text

theorem reportsAtStop_expectName : ReportsAtStop expectName := by
  intro c c' e h
  unfold expectName at h
  split at h
  · cases h
  · cases h
    exact .expected .ident

/-! ## Values -/

theorem reportsAtStop_valueAt_itemsAt (n : Nat) : ∀ c : Cursor, c.remaining = n →
    (∀ d c' e, valueAt d c = .error e c' → StopError c' e) ∧
      ∀ close d acc c' e, itemsAt close d acc c = .error e c' → StopError c' e := by
  induction n using Nat.strong_induction_on with
  | _ n ih =>
    intro c hn
    have items : ∀ close d c₁ c' e, c₁.remaining < c.remaining →
        itemsAt close d [] c₁ = .error e c' → StopError c' e :=
      fun close d c₁ c' e hlt h => (ih _ (hn ▸ hlt) c₁ rfl).2 close d [] c' e h
    have hvalue : ∀ d c' e, valueAt d c = .error e c' → StopError c' e := by
      intro d c' e h
      rw [valueAt.eq_def] at h
      dsimp only at h
      split at h
      · cases h
        exact .nesting
      split at h
      case h_5 =>
        split at h
        · rename_i hlt
          split at h
          · cases h
          · cases h
            exact items _ _ _ _ _ hlt ‹_›
        · cases h
      case h_6 =>
        split at h
        · split at h
          · split at h
            · rename_i hlt
              split at h
              · cases h
              · cases h
                exact items _ _ _ _ _ hlt ‹_›
            · cases h
          · cases h
        · cases h
      all_goals cases h
    refine ⟨hvalue, ?_⟩
    intro close d acc c' e h
    rw [itemsAt.eq_def] at h
    dsimp only at h
    split at h
    · split at h
      · cases h
      · cases h
        rename_i hx
        exact reportsAtStop_expect close c _ _ hx
    · split at h
      · rename_i v c₁ hv
        generalize hc₂ : (if c₁.kind = .comma then c₁.advance else c₁) = c₂ at h
        split at h
        · rename_i hlt
          exact (ih _ (hn ▸ hlt) c₂ rfl).2 close d _ c' e h
        · cases h
      · cases h
        exact hvalue d _ _ ‹_›

theorem reportsAtStop_valueAt (d : Nat) : ReportsAtStop (valueAt d) :=
  fun c => (reportsAtStop_valueAt_itemsAt c.remaining c rfl).1 d

theorem reportsAtStop_value : ReportsAtStop value :=
  reportsAtStop_valueAt 0

/-! ## Attributes and field types -/

theorem reportsAtStop_dottedName (acc : String) : ReportsAtStop (dottedName acc) := by
  intro c c' e h
  fun_induction dottedName acc c with
  | case1 acc c hdot part c₁ hname hlt ih => exact ih h
  | case2 => cases h
  | case3 acc c hdot e₁ c₁ hname =>
    cases h
    exact reportsAtStop_expectName _ _ _ hname
  | case4 => cases h

theorem reportsAtStop_argument : ReportsAtStop argument := by
  unfold argument
  refine reportsAtStop_bind reportsAtStop_get fun c => reportsAtStop_ite _ ?_ ?_
  · exact reportsAtStop_bind reportsAtStop_next fun _ =>
      reportsAtStop_bind reportsAtStop_next fun _ =>
        reportsAtStop_bind reportsAtStop_value fun _ => reportsAtStop_pure _
  · exact reportsAtStop_bind reportsAtStop_value fun _ => reportsAtStop_pure _

theorem reportsAtStop_arguments (acc : List Argument) : ReportsAtStop (arguments acc) := by
  intro c c' e h
  fun_induction arguments acc c with
  | case1 => cases h
  | case2 acc₀ c hend a c₁ ha acc c₂ hlt ih => exact ih h
  | case3 => cases h
  | case4 acc c hend e₁ c₁ ha =>
    cases h
    exact reportsAtStop_argument _ _ _ ha

theorem reportsAtStop_attr : ReportsAtStop attr := by
  unfold attr
  refine reportsAtStop_bind reportsAtStop_next fun _ => reportsAtStop_bind reportsAtStop_expectName
    fun first => reportsAtStop_bind (reportsAtStop_dottedName first) fun _ =>
      reportsAtStop_bind reportsAtStop_current fun _ =>
        reportsAtStop_ite _ ?_ (reportsAtStop_pure _)
  exact reportsAtStop_bind reportsAtStop_next fun _ =>
    reportsAtStop_bind (reportsAtStop_arguments []) fun _ =>
      reportsAtStop_bind (reportsAtStop_expect .rParen) fun _ => reportsAtStop_pure _

theorem reportsAtStop_fieldAttributes (acc : List Attribute) :
    ReportsAtStop (fieldAttributes acc) := by
  intro c c' e h
  fun_induction fieldAttributes acc c with
  | case1 acc c hat a c₁ ha hlt ih => exact ih h
  | case2 => cases h
  | case3 acc c hat e₁ c₁ ha =>
    cases h
    exact reportsAtStop_attr _ _ _ ha
  | case4 => cases h

theorem reportsAtStop_fieldType : ReportsAtStop fieldType := by
  rw [fieldType_eq]
  refine reportsAtStop_bind ?_ fun _ => reportsAtStop_bind ?_ fun _ =>
    reportsAtStop_bind ?_ fun _ => reportsAtStop_pure _
  · exact reportsAtStop_bind reportsAtStop_expectIdent fun _ => reportsAtStop_ite _
      (reportsAtStop_bind (reportsAtStop_expect _) fun _ =>
        reportsAtStop_bind (reportsAtStop_expect _) fun _ =>
          reportsAtStop_bind (reportsAtStop_expect _) fun _ => reportsAtStop_pure _)
      (reportsAtStop_pure _)
  · exact reportsAtStop_bind reportsAtStop_get fun _ => reportsAtStop_ite _
      (reportsAtStop_bind reportsAtStop_next fun _ => reportsAtStop_bind reportsAtStop_next fun _ =>
        reportsAtStop_pure _)
      (reportsAtStop_pure _)
  · exact reportsAtStop_bind reportsAtStop_current fun _ => reportsAtStop_ite _
      (reportsAtStop_bind reportsAtStop_next fun _ => reportsAtStop_pure _) (reportsAtStop_pure _)

/-! ## Blocks -/

theorem reportsAtStop_header (k : TokenKind) : ReportsAtStop (header k) :=
  reportsAtStop_bind (reportsAtStop_expect k) fun _ => reportsAtStop_bind reportsAtStop_expectIdent
    fun _ => reportsAtStop_bind (reportsAtStop_expect .lBrace) fun _ => reportsAtStop_pure _

theorem reportsAtStop_entry : ReportsAtStop entry :=
  reportsAtStop_bind reportsAtStop_next fun _ => reportsAtStop_bind (reportsAtStop_expect .equals)
    fun _ => reportsAtStop_bind reportsAtStop_value fun _ => reportsAtStop_pure _

theorem reportsAtStop_entries (acc : List ConfigEntry) : ReportsAtStop (entries acc) := by
  intro c c' e h
  fun_induction entries acc c with
  | case1 => cases h
  | case2 =>
    cases h
    exact .expected .rBrace
  | case3 acc₀ c e₁ c₁ he acc hlt _ _ _ ih => exact ih h
  | case4 => cases h
  | case5 acc c e₁ c₁ he _ _ _ =>
    cases h
    exact reportsAtStop_entry _ _ _ he
  | case6 =>
    cases h
    exact .unexpected

theorem reportsAtStop_field : ReportsAtStop field :=
  reportsAtStop_bind reportsAtStop_expectName fun _ => reportsAtStop_bind reportsAtStop_fieldType
    fun _ => reportsAtStop_bind (reportsAtStop_fieldAttributes []) fun _ => reportsAtStop_pure _

theorem reportsAtStop_members (fs : List Field) (as : List Attribute) :
    ReportsAtStop (members fs as) := by
  intro c c' e h
  fun_induction members fs as c with
  | case1 => cases h
  | case2 =>
    cases h
    exact .expected .rBrace
  | case3 fs as c _ a c₁ ha hlt ih => exact ih h
  | case4 => cases h
  | case5 fs as c _ e₁ c₁ ha =>
    cases h
    exact reportsAtStop_attr _ _ _ ha
  | case6 fs as c f c₁ hf hlt _ _ _ _ ih => exact ih h
  | case7 => cases h
  | case8 fs as c e₁ c₁ hf _ _ _ _ =>
    cases h
    exact reportsAtStop_field _ _ _ hf
  | case9 =>
    cases h
    exact .unexpected

theorem reportsAtStop_enumMembers (vs : List EnumValue) (as : List Attribute) :
    ReportsAtStop (enumMembers vs as) := by
  intro c c' e h
  fun_induction enumMembers vs as c with
  | case1 => cases h
  | case2 =>
    cases h
    exact .expected .rBrace
  | case3 vs as c _ a c₁ ha hlt ih => exact ih h
  | case4 => cases h
  | case5 vs as c _ e₁ c₁ ha =>
    cases h
    exact reportsAtStop_attr _ _ _ ha
  | case6 vs as c name bs c₁ hb hlt _ _ _ _ ih => exact ih h
  | case7 => cases h
  | case8 vs as c e₁ c₁ hb _ _ _ _ =>
    cases h
    exact reportsAtStop_fieldAttributes [] _ _ _ hb
  | case9 =>
    cases h
    exact .unexpected

theorem reportsAtStop_datasource : ReportsAtStop datasource :=
  reportsAtStop_bind (reportsAtStop_header _) fun _ =>
    reportsAtStop_bind (reportsAtStop_entries []) fun _ => reportsAtStop_pure _

theorem reportsAtStop_generator : ReportsAtStop generator :=
  reportsAtStop_bind (reportsAtStop_header _) fun _ =>
    reportsAtStop_bind (reportsAtStop_entries []) fun _ => reportsAtStop_pure _

theorem reportsAtStop_model : ReportsAtStop model :=
  reportsAtStop_bind (reportsAtStop_header _) fun _ =>
    reportsAtStop_bind (reportsAtStop_members [] []) fun _ => reportsAtStop_pure _

theorem reportsAtStop_compositeType : ReportsAtStop compositeType :=
  reportsAtStop_bind (reportsAtStop_header _) fun _ =>
    reportsAtStop_bind (reportsAtStop_members [] []) fun _ => reportsAtStop_pure _

theorem reportsAtStop_enumBlock : ReportsAtStop enumBlock :=
  reportsAtStop_bind (reportsAtStop_header _) fun _ =>
    reportsAtStop_bind (reportsAtStop_enumMembers [] []) fun _ => reportsAtStop_pure _

theorem reportsAtStop_block : ReportsAtStop block := by
  refine reportsAtStop_bind reportsAtStop_current fun t => ?_
  split
  · exact reportsAtStop_bind reportsAtStop_datasource fun _ => reportsAtStop_pure _
  · exact reportsAtStop_bind reportsAtStop_generator fun _ => reportsAtStop_pure _
  · exact reportsAtStop_bind reportsAtStop_model fun _ => reportsAtStop_pure _
  · exact reportsAtStop_bind reportsAtStop_enumBlock fun _ => reportsAtStop_pure _
  · exact reportsAtStop_bind reportsAtStop_compositeType fun _ => reportsAtStop_pure _

theorem errorAtStop_block : ErrorAtStop block :=
  reportsAtStop_block.errorAtStop

end Parser

end DbSchema
