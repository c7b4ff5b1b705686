import Mathlib.Logic.Function.Iterate
import Mathlib.Data.Nat.Init
import DbSchema.Syntax.Schema

/-! # The grammar reads forward

Every production moves the cursor only by reading tokens one at a time: the cursor where it
stops is the one where it started, advanced some number of times. Error recovery does the same.

* `Outcome.cursor`: the cursor an outcome stops at, whether it read a value or failed.
* `Cursor.Reach c c'`: `c'` is `c` advanced some number of times; `Reach.ahead_drop` and
  `Reach.at_end` say what that leaves.
* `Parser.Forward p`: the production `p` stops at a cursor reached from where it starts.
* One `forward_…` lemma per production, built from the lemmas for `bind`, `pure` and the
  primitive productions; the loops go by induction on the number of tokens left.
-/

namespace DbSchema

set_option autoImplicit false

/-- The cursor where an outcome stops, whether it read a value or failed. -/
def Outcome.cursor {α : Type} : Outcome α → Cursor
  | .ok _ c => c
  | .error _ c => c

@[simp] theorem Outcome.cursor_ok {α : Type} (a : α) (c : Cursor) :
    Outcome.cursor (.ok a c : Outcome α) = c := rfl

@[simp] theorem Outcome.cursor_error {α : Type} (e : SyntaxError) (c : Cursor) :
    Outcome.cursor (.error e c : Outcome α) = c := rfl

namespace Cursor

/-! ## Reaching a cursor by reading -/

/-- `c'` is reached from `c` by reading tokens: it is `c` advanced `n` times for some `n`. -/
def Reach (c c' : Cursor) : Prop :=
  ∃ n, c' = advance^[n] c

theorem Reach.refl (c : Cursor) : c.Reach c :=
  ⟨0, rfl⟩

theorem Reach.advance (c : Cursor) : c.Reach c.advance :=
  ⟨1, rfl⟩

theorem Reach.trans {c₁ c₂ c₃ : Cursor} (h₁ : c₁.Reach c₂) (h₂ : c₂.Reach c₃) : c₁.Reach c₃ := by
  obtain ⟨m, rfl⟩ := h₁
  obtain ⟨n, rfl⟩ := h₂
  exact ⟨n + m, by rw [Function.iterate_add_apply]⟩

theorem Reach.of_advance {c c' : Cursor} (h : c.advance.Reach c') : c.Reach c' :=
  (Reach.advance c).trans h

theorem ahead_iterate_advance (c : Cursor) (n : Nat) : (advance^[n] c).ahead = c.ahead.drop n := by
  induction n generalizing c with
  | zero => rfl
  | succ n ih =>
    rw [Function.iterate_succ_apply, ih, advance_ahead, List.drop_tail]

theorem Reach.ahead_drop {c c' : Cursor} (h : c.Reach c') : ∃ n, c'.ahead = c.ahead.drop n := by
  obtain ⟨n, rfl⟩ := h
  exact ⟨n, ahead_iterate_advance c n⟩

theorem Reach.remaining_le {c c' : Cursor} (h : c.Reach c') : c'.remaining ≤ c.remaining := by
  obtain ⟨n, hn⟩ := h.ahead_drop
  rw [c'.remaining_eq, c.remaining_eq, hn, List.length_drop]
  omega

theorem Reach.endPos {c c' : Cursor} (h : c.Reach c') : c'.endPos = c.endPos := by
  obtain ⟨n, rfl⟩ := h
  induction n generalizing c with
  | zero => rfl
  | succ n ih => exact @ih c.advance

theorem Reach.at_end {c c' : Cursor} (h : c.Reach c') (hc : c.ahead = []) : c'.ahead = [] := by
  obtain ⟨n, hn⟩ := h.ahead_drop
  rw [hn, hc, List.drop_nil]

end Cursor

open Cursor

namespace Parser

/-! ## Productions that read forward -/

/-- The production `p` stops at a cursor reached from the one where it starts. -/
def Forward {α : Type} (p : Parser α) : Prop :=
  ∀ c : Cursor, c.Reach (Outcome.cursor (p c))

variable {α β : Type}

theorem reach_bind {x : Parser α} {f : α → Parser β} {c d : Cursor}
    (hx : d.Reach (Outcome.cursor (x c))) (hf : ∀ a, Forward (f a)) :
    d.Reach (Outcome.cursor ((x >>= f) c)) := by
  show d.Reach (Outcome.cursor (EStateM.bind x f c))
  unfold EStateM.bind
  cases hc : x c with
  | ok a c' =>
    rw [hc] at hx
    exact hx.trans (hf a c')
  | error e c' =>
    rw [hc] at hx
    exact hx

theorem forward_bind {x : Parser α} {f : α → Parser β} (hx : Forward x)
    (hf : ∀ a, Forward (f a)) : Forward (x >>= f) :=
  fun c => reach_bind (hx c) hf

theorem forward_pure (a : α) : Forward (pure a : Parser α) :=
  fun c => Reach.refl c

theorem forward_ite {p q : Parser α} (b : Prop) [Decidable b] (hp : Forward p) (hq : Forward q) :
    Forward (if b then p else q) := by
  split
  · exact hp
  · exact hq

theorem forward_get : Forward (get : Parser Cursor) :=
  fun c => Reach.refl c

theorem forward_current : Forward current :=
  fun c => Reach.refl c

theorem forward_next : Forward next :=
  fun c => Reach.advance c

theorem forward_expect (k : TokenKind) : Forward (expect k) := by
  intro c
  unfold expect
  split
  · exact Reach.advance c
  · exact Reach.refl c

theorem forward_expectIdent : Forward expectIdent :=
  forward_bind (forward_expect .ident) fun t => forward_pure t.text

theorem forward_expectName : Forward expectName := by
  intro c
  unfold expectName
  split
  · exact Reach.advance c
  · exact Reach.refl c

theorem forward_of_ok {p : Parser α} (hp : Forward p) {c c' : Cursor} {a : α}
    (h : p c = .ok a c') : c.Reach c' := by
  have := hp c
  rw [h] at this
  exact this

theorem forward_of_error {p : Parser α} (hp : Forward p) {c c' : Cursor} {e : SyntaxError}
    (h : p c = .error e c') : c.Reach c' := by
  have := hp c
  rw [h] at this
  exact this

theorem reach_skip_comma (c : Cursor) :
    c.Reach (if c.kind = .comma then c.advance else c) := by
  split
  · exact Reach.advance c
  · exact Reach.refl c

/-! ## Values -/

theorem forward_valueAt_itemsAt (n : Nat) : ∀ c : Cursor, c.remaining = n →
    (∀ d, c.Reach (Outcome.cursor (valueAt d c))) ∧
      ∀ close d acc, c.Reach (Outcome.cursor (itemsAt close d acc c)) := by
  induction n using Nat.strong_induction_on with
  | _ n ih =>
    intro c hn
    have items : ∀ close d c1, c.Reach c1 → c1.remaining < c.remaining →
        c.Reach (Outcome.cursor (itemsAt close d [] c1)) := by
      intro close d c1 hc1 hlt
      exact hc1.trans ((ih c1.remaining (hn ▸ hlt) c1 rfl).2 close d [])
    have hvalue : ∀ d, c.Reach (Outcome.cursor (valueAt d c)) := by
      intro d
      rw [valueAt.eq_def]
      dsimp only
      split
      · exact Reach.refl c
      split
      · exact Reach.advance c
      · exact Reach.advance c
      · exact Reach.advance c
      · exact Reach.advance c
      · split
        · rename_i hlt
          have h := items .rBracket (d + 1) c.advance (Reach.advance c) hlt
          split <;> simp_all
        · exact Reach.advance c
      · split
        · split
          · split
            · rename_i hlt
              have h := items .rParen (d + 1) c.advance.advance
                ((Reach.advance c).trans (Reach.advance _)) hlt
              split <;> simp_all
            · exact (Reach.advance c).trans (Reach.advance _)
          · exact Reach.advance c
        · exact Reach.advance c
    refine ⟨hvalue, ?_⟩
    intro close d acc
    rw [itemsAt.eq_def]
    dsimp only
    split
    · have h := forward_expect close c
      split <;> simp_all
    · have h := hvalue d
      split
      · rename_i v c1 hv
        rw [hv] at h
        simp only [Outcome.cursor_ok] at h
        have h2 := h.trans (reach_skip_comma c1)
        generalize (if c1.kind = .comma then c1.advance else c1) = c2 at h2 ⊢
        split
        · rename_i hlt
          exact h2.trans ((ih _ (hn ▸ hlt) _ rfl).2 close d _)
        · exact h2
      · rename_i e c1 hv
        rw [hv] at h
        exact h

theorem forward_valueAt (d : Nat) : Forward (valueAt d) :=
  fun c => (forward_valueAt_itemsAt c.remaining c rfl).1 d

theorem forward_itemsAt (close : TokenKind) (d : Nat) (acc : List Value) :
    Forward (itemsAt close d acc) :=
  fun c => (forward_valueAt_itemsAt c.remaining c rfl).2 close d acc

theorem forward_value : Forward value :=
  forward_valueAt 0

/-! ## Attributes and field types -/

theorem forward_dottedName (acc : String) : Forward (dottedName acc) := by
  intro c
  fun_induction dottedName acc c with
  | case1 acc c hdot part c1 hname hlt ih =>
    exact (Reach.of_advance (forward_of_ok forward_expectName hname)).trans ih
  | case2 acc c hdot part c1 hname hlt =>
    exact Reach.of_advance (forward_of_ok forward_expectName hname)
  | case3 acc c hdot e c1 hname =>
    exact Reach.of_advance (forward_of_error forward_expectName hname)
  | case4 acc c hdot => exact Reach.refl c

theorem forward_argument : Forward argument := by
  unfold argument
  refine forward_bind forward_get fun c => forward_ite _ ?_ ?_
  · exact forward_bind forward_next fun _ => forward_bind forward_next fun _ =>
      forward_bind forward_value fun _ => forward_pure _
  · exact forward_bind forward_value fun _ => forward_pure _

theorem forward_arguments (acc : List Argument) : Forward (arguments acc) := by
  intro c
  fun_induction arguments acc c with
  | case1 acc c hend => exact Reach.refl c
  | case2 acc₀ c hend a c1 ha acc c2 hlt ih =>
    exact ((forward_of_ok forward_argument ha).trans (reach_skip_comma c1)).trans ih
  | case3 acc₀ c hend a c1 ha acc c2 hlt =>
    exact (forward_of_ok forward_argument ha).trans (reach_skip_comma c1)
  | case4 acc c hend e c1 ha => exact forward_of_error forward_argument ha

theorem forward_attr : Forward attr := by
  unfold attr
  refine forward_bind forward_next fun _ => forward_bind forward_expectName fun first =>
    forward_bind (forward_dottedName first) fun name => forward_bind forward_current fun t =>
      forward_ite _ ?_ (forward_pure _)
  exact forward_bind forward_next fun _ => forward_bind (forward_arguments []) fun _ =>
    forward_bind (forward_expect .rParen) fun _ => forward_pure _

theorem forward_fieldAttributes (acc : List Attribute) : Forward (fieldAttributes acc) := by
  intro c
  fun_induction fieldAttributes acc c with
  | case1 acc c hat a c1 ha hlt ih => exact (forward_of_ok forward_attr ha).trans ih
  | case2 acc c hat a c1 ha hlt => exact forward_of_ok forward_attr ha
  | case3 acc c hat e c1 ha => exact forward_of_error forward_attr ha
  | case4 acc c hat => exact Reach.refl c

/-! ## Field types in three steps

A field type is read as its base type, then an optional `[]`, then an optional `?`. The three
steps are stated as productions of their own, so that what is proved of each is proved once;
`fieldType_eq` says that reading them one after the other is reading a field type. -/

theorem ite_bind {β : Type} (b : Prop) [Decidable b] (x y : Parser α) (f : α → Parser β) :
    (if b then x else y) >>= f = if b then x >>= f else y >>= f := by
  split <;> rfl

/-- Reads the base type of a field: a type name, or an unsupported type with its raw text. -/
def typeName : Parser TypeName := do
  let name ← expectIdent
  if name = "Unsupported" then do
    let _ ← expect .lParen
    let raw ← expect .string
    let _ ← expect .rParen
    pure (.unsupported raw.text)
  else pure (.named name)

/-- Reads the brackets that make a field type a list, if they follow. -/
def arraySuffix : Parser Bool := do
  let c ← get
  if c.kind = .lBracket ∧ c.peek.kind = .rBracket then do
    let _ ← next
    let _ ← next
    pure true
  else pure false

/-- Reads the question mark that makes a field type optional, if it follows. -/
def optionalMark : Parser Bool := do
  if (← current).kind = .question then do
    let _ ← next
    pure true
  else pure false

theorem fieldType_eq : fieldType = (do
    let base ← typeName
    let isArray ← arraySuffix
    let isOptional ← optionalMark
    return ⟨base, isArray, isOptional⟩) := by
  simp only [fieldType, typeName, arraySuffix, optionalMark, bind_assoc, pure_bind, ite_bind]

theorem forward_typeName : Forward typeName :=
  forward_bind forward_expectIdent fun _ => forward_ite _
    (forward_bind (forward_expect _) fun _ => forward_bind (forward_expect _) fun _ =>
      forward_bind (forward_expect _) fun _ => forward_pure _)
    (forward_pure _)

theorem forward_arraySuffix : Forward arraySuffix :=
  forward_bind forward_get fun _ => forward_ite _
    (forward_bind forward_next fun _ => forward_bind forward_next fun _ => forward_pure _)
    (forward_pure _)

theorem forward_optionalMark : Forward optionalMark :=
  forward_bind forward_current fun _ => forward_ite _
    (forward_bind forward_next fun _ => forward_pure _) (forward_pure _)

theorem forward_fieldType : Forward fieldType := by
  rw [fieldType_eq]
  exact forward_bind forward_typeName fun _ => forward_bind forward_arraySuffix fun _ =>
    forward_bind forward_optionalMark fun _ => forward_pure _

/-! ## Blocks -/

theorem forward_header (k : TokenKind) : Forward (header k) :=
  forward_bind (forward_expect k) fun _ => forward_bind forward_expectIdent fun _ =>
    forward_bind (forward_expect .lBrace) fun _ => forward_pure _

theorem forward_entry : Forward entry :=
  forward_bind forward_next fun _ => forward_bind (forward_expect .equals) fun _ =>
    forward_bind forward_value fun _ => forward_pure _

theorem forward_entries (acc : List ConfigEntry) : Forward (entries acc) := by
  intro c
  fun_induction entries acc c with
  | case1 acc c hk => exact Reach.advance c
  | case2 acc c hk => exact Reach.refl c
  | case3 acc₀ c e c1 he acc hlt _ _ _ ih => exact (forward_of_ok forward_entry he).trans ih
  | case4 acc₀ c e c1 he acc hlt _ _ _ => exact forward_of_ok forward_entry he
  | case5 acc c e c1 he _ _ _ => exact forward_of_error forward_entry he
  | case6 acc c _ _ _ => exact Reach.refl c

theorem forward_field : Forward field :=
  forward_bind forward_expectName fun _ => forward_bind forward_fieldType fun _ =>
    forward_bind (forward_fieldAttributes []) fun _ => forward_pure _

theorem forward_members (fs : List Field) (as : List Attribute) : Forward (members fs as) := by
  intro c
  fun_induction members fs as c with
  | case1 => exact Reach.advance _
  | case2 => exact Reach.refl _
  | case3 fs as c _ a c1 ha hlt ih => exact (forward_of_ok forward_attr ha).trans ih
  | case4 fs as c _ a c1 ha hlt => exact forward_of_ok forward_attr ha
  | case5 fs as c _ e c1 ha => exact forward_of_error forward_attr ha
  | case6 fs as c f c1 hf hlt _ _ _ _ ih => exact (forward_of_ok forward_field hf).trans ih
  | case7 fs as c f c1 hf hlt _ _ _ _ => exact forward_of_ok forward_field hf
  | case8 fs as c e c1 hf _ _ _ _ => exact forward_of_error forward_field hf
  | case9 => exact Reach.refl _

theorem forward_enumMembers (vs : List EnumValue) (as : List Attribute) :
    Forward (enumMembers vs as) := by
  intro c
  fun_induction enumMembers vs as c with
  | case1 => exact Reach.advance _
  | case2 => exact Reach.refl _
  | case3 vs as c _ a c1 ha hlt ih => exact (forward_of_ok forward_attr ha).trans ih
  | case4 vs as c _ a c1 ha hlt => exact forward_of_ok forward_attr ha
  | case5 vs as c _ e c1 ha => exact forward_of_error forward_attr ha
  | case6 vs as c name bs c1 hb hlt _ _ _ _ ih =>
    exact (Reach.of_advance (forward_of_ok (forward_fieldAttributes []) hb)).trans ih
  | case7 vs as c name bs c1 hb hlt _ _ _ _ =>
    exact Reach.of_advance (forward_of_ok (forward_fieldAttributes []) hb)
  | case8 vs as c e c1 hb _ _ _ _ =>
    exact Reach.of_advance (forward_of_error (forward_fieldAttributes []) hb)
  | case9 => exact Reach.refl _

theorem forward_datasource : Forward datasource :=
  forward_bind (forward_header _) fun _ => forward_bind (forward_entries []) fun _ => forward_pure _

theorem forward_generator : Forward generator :=
  forward_bind (forward_header _) fun _ => forward_bind (forward_entries []) fun _ => forward_pure _

theorem forward_model : Forward model :=
  forward_bind (forward_header _) fun _ => forward_bind (forward_members [] []) fun _ =>
    forward_pure _

theorem forward_compositeType : Forward compositeType :=
  forward_bind (forward_header _) fun _ => forward_bind (forward_members [] []) fun _ =>
    forward_pure _

theorem forward_enumBlock : Forward enumBlock :=
  forward_bind (forward_header _) fun _ => forward_bind (forward_enumMembers [] []) fun _ =>
    forward_pure _

theorem forward_block : Forward block := by
  refine forward_bind forward_current fun t => ?_
  split
  · exact forward_bind forward_datasource fun _ => forward_pure _
  · exact forward_bind forward_generator fun _ => forward_pure _
  · exact forward_bind forward_model fun _ => forward_pure _
  · exact forward_bind forward_enumBlock fun _ => forward_pure _
  · exact forward_bind forward_compositeType fun _ => forward_pure _

theorem reach_recover (base : Nat) (c : Cursor) : c.Reach (recover base c) := by
  fun_induction recover base c with
  | case1 | case2 => exact Reach.refl _
  | case3 c _ _ _ => exact Reach.advance c
  | case4 c _ _ _ _ _ ih => exact (Reach.advance c).trans ih
  | case5 c _ _ _ _ => exact Reach.advance c

end Parser

end DbSchema
