import DbSchema.Proofs.RoundTrip

/-! # The parser reads no position

A production looks at the kinds and texts of tokens; their positions, and whether a string
literal was closed, go nowhere but into the errors it reports. `Cursor.erase` forgets all of that:
every token keeps its kind and text and stands at the start, and the end of the text too.
A production `p` is natural (`Parser.Natural`) when running it from the erased cursor is running
it from the cursor and erasing what comes out: the cursor where it stops, the position of its
error, and the positions in its value, which `g` erases.

Every production of the grammar is natural. The ones written with `do` are assembled from their
parts (`Parser.Natural.bind`); the loops go by induction on the tokens left, their branches
reading the same kinds on both sides. So the whole reading is natural (`Parser.blocks_erase`),
and two texts whose tokens have the same kinds and texts read as the same schema, with errors
that differ only in their positions (`Schema.parseSyntax_of_views`).
-/

namespace DbSchema

set_option autoImplicit false

/-! ## Erasing positions -/

/-- What the grammar reads of a token, at the start of the text. -/
def Token.erase (t : Token) : Token :=
  ⟨t.kind, t.text, Pos.start, true⟩

/-- The error at the start of the text. -/
def SyntaxError.erase : SyntaxError → SyntaxError
  | .expected what found _ => .expected what found Pos.start
  | .unexpected found _ => .unexpected found Pos.start

namespace Token

@[simp] theorem erase_kind (t : Token) : t.erase.kind = t.kind := rfl

@[simp] theorem erase_text (t : Token) : t.erase.text = t.text := rfl

theorem map_erase_eq {ts us : List Token} (h : ts.map view = us.map view) :
    ts.map erase = us.map erase := by
  have hf : erase = (fun v : TokenKind × String => (⟨v.1, v.2, Pos.start, true⟩ : Token)) ∘ view :=
    rfl
  rw [hf, ← List.map_map, ← List.map_map, h]

end Token

namespace Cursor

/-- The cursor with every position erased. -/
def erase (c : Cursor) : Cursor where
  ahead := c.ahead.map Token.erase
  remaining := c.remaining
  remaining_eq := by rw [List.length_map, c.remaining_eq]
  endPos := Pos.start
  depth := c.depth

theorem eq_of {c d : Cursor} (ha : c.ahead = d.ahead) (he : c.endPos = d.endPos)
    (hd : c.depth = d.depth) : c = d := by
  obtain ⟨ca, cr, crq, ce, cd⟩ := c
  obtain ⟨da, dr, drq, de, dd⟩ := d
  simp only at ha he hd
  subst ha he hd crq drq
  rfl

@[simp] theorem erase_remaining (c : Cursor) : c.erase.remaining = c.remaining := rfl

@[simp] theorem erase_depth (c : Cursor) : c.erase.depth = c.depth := rfl

theorem erase_current (c : Cursor) : c.erase.current = c.current.erase := by
  obtain ⟨ahead, remaining, hr, endPos, depth⟩ := c
  cases ahead <;> rfl

@[simp] theorem erase_kind (c : Cursor) : c.erase.kind = c.kind := by
  rw [kind, kind, erase_current, Token.erase_kind]

theorem erase_peek (c : Cursor) : c.erase.peek = c.peek.erase := by
  obtain ⟨ahead, remaining, hr, endPos, depth⟩ := c
  rcases ahead with _ | ⟨t, _ | ⟨u, r⟩⟩ <;> rfl

theorem erase_advance (c : Cursor) : c.erase.advance = c.advance.erase := by
  refine eq_of (by simp [advance, erase, List.map_tail]) rfl ?_
  simp only [advance, erase_kind]
  rfl

theorem erase_expected (c : Cursor) (what : String) :
    c.erase.expected what = (c.expected what).erase := by
  rw [expected, expected, erase_current]
  rfl

theorem erase_unexpected (c : Cursor) : c.erase.unexpected = c.unexpected.erase := by
  rw [unexpected, unexpected, erase_current]
  rfl

end Cursor

/-- The outcome with every position erased, those of a value by `g`. -/
def Outcome.erase {α : Type} (g : α → α) : Outcome α → Outcome α
  | .ok a c => .ok (g a) c.erase
  | .error e c => .error e.erase c.erase

@[simp] theorem Outcome.erase_ok {α : Type} (g : α → α) (a : α) (c : Cursor) :
    Outcome.erase g (.ok a c) = .ok (g a) c.erase := rfl

@[simp] theorem Outcome.erase_error {α : Type} (g : α → α) (e : SyntaxError) (c : Cursor) :
    Outcome.erase g (.error e c) = .error e.erase c.erase := rfl

namespace Parser

open Cursor

variable {α β : Type}

/-- `p` reads no position: from the erased cursor it gives what it gives from the cursor, erased,
the positions of its value erased by `g`. -/
def Natural (g : α → α) (p : Parser α) : Prop :=
  ∀ c : Cursor, p c.erase = Outcome.erase g (p c)

/-! ## Composing natural productions -/

theorem natural_pure (a : α) : Natural id (pure a : Parser α) :=
  fun _ => rfl

theorem natural_get : Natural Cursor.erase (get : Parser Cursor) :=
  fun _ => rfl

theorem Natural.bind {g : α → α} {h : β → β} {x : Parser α} {f : α → Parser β}
    (hx : Natural g x) (hf : ∀ a, f (g a) = f a) (hfn : ∀ a, Natural h (f a)) :
    Natural h (x >>= f) := by
  intro c
  show EStateM.bind x f c.erase = Outcome.erase h (EStateM.bind x f c)
  unfold EStateM.bind
  rw [hx c]
  cases x c with
  | ok a c' =>
    show f (g a) c'.erase = _
    rw [hf a]
    exact hfn a c'
  | error e c' => rfl

theorem natural_ite {g : α → α} {P : Prop} [Decidable P] {p q : Parser α} (hp : Natural g p)
    (hq : Natural g q) : Natural g (if P then p else q) := by
  split
  · exact hp
  · exact hq

/-! ## The primitive productions -/

theorem natural_current : Natural Token.erase current := by
  intro c
  show EStateM.Result.ok c.erase.current c.erase = _
  rw [erase_current]
  rfl

theorem natural_next : Natural Token.erase next := by
  intro c
  show EStateM.Result.ok c.erase.current c.erase.advance = _
  rw [erase_current, erase_advance]
  rfl

theorem natural_expect (k : TokenKind) : Natural Token.erase (expect k) := by
  intro c
  unfold expect
  rw [erase_kind]
  split
  · rw [erase_current, erase_advance]
    rfl
  · rw [erase_expected]
    rfl

theorem natural_expectIdent : Natural id expectIdent :=
  (natural_expect .ident).bind (fun _ => rfl) fun _ => natural_pure _

theorem natural_expectName : Natural id expectName := by
  intro c
  unfold expectName
  rw [erase_kind]
  split
  · rw [erase_current, erase_advance]
    rfl
  · rw [erase_expected]
    rfl

theorem erase_skipComma (c : Cursor) :
    (if c.erase.kind = .comma then c.erase.advance else c.erase) =
      (if c.kind = .comma then c.advance else c).erase := by
  rw [erase_kind]
  split
  · exact erase_advance c
  · rfl

/-! ## Values -/

theorem natural_valueAt_itemsAt (m : Nat) : ∀ c : Cursor, c.remaining = m →
    (∀ d, valueAt d c.erase = Outcome.erase id (valueAt d c)) ∧
    (∀ close d acc, itemsAt close d acc c.erase = Outcome.erase id (itemsAt close d acc c)) := by
  induction m using Nat.strong_induction_on with
  | _ m ih =>
    intro c hm
    have items : ∀ close d acc (c' : Cursor), c'.remaining < c.remaining →
        itemsAt close d acc c'.erase = Outcome.erase id (itemsAt close d acc c') :=
      fun close d acc c' hlt => (ih _ (hm ▸ hlt) c' rfl).2 close d acc
    have hvalue : ∀ d, valueAt d c.erase = Outcome.erase id (valueAt d c) := by
      intro d
      rw [valueAt.eq_def, valueAt.eq_def]
      simp only [erase_current, erase_peek, Token.erase_kind, Token.erase_text, erase_expected,
        erase_advance, erase_kind, erase_remaining]
      split
      · rfl
      split
      case h_5 =>
        split
        · rename_i hlt
          rw [items .rBracket (d + 1) [] c.advance hlt]
          cases itemsAt .rBracket (d + 1) [] c.advance <;> rfl
        · rfl
      case h_6 =>
        split
        · split
          · split
            · rename_i hlt
              rw [items .rParen (d + 1) [] c.advance.advance hlt]
              cases itemsAt .rParen (d + 1) [] c.advance.advance <;> rfl
            · rfl
          · rfl
        · rfl
      all_goals rfl
    refine ⟨hvalue, fun close d acc => ?_⟩
    rw [itemsAt.eq_def, itemsAt.eq_def]
    simp only [erase_kind]
    split
    · rw [natural_expect close c]
      cases expect close c <;> rfl
    · rw [hvalue d]
      cases valueAt d c with
      | ok v c1 =>
        simp only [Outcome.erase_ok, id]
        rw [erase_skipComma, erase_remaining, erase_remaining]
        generalize (if c1.kind = .comma then c1.advance else c1) = c2
        split
        · rename_i hlt
          exact items close d _ _ hlt
        · rfl
      | error e c1 => rfl

theorem natural_valueAt (d : Nat) : Natural id (valueAt d) :=
  fun c => (natural_valueAt_itemsAt _ c rfl).1 d

theorem natural_value : Natural id value :=
  natural_valueAt 0

/-! ## Attributes -/

theorem natural_dottedName (acc : String) : Natural id (dottedName acc) := by
  intro c
  fun_induction dottedName acc c with
  | case1 acc c hdot part c1 hname hlt ih =>
    rw [dottedName.eq_def _ c.erase, if_pos (by rw [erase_kind]; exact hdot), erase_advance,
      natural_expectName c.advance, hname]
    simp only [Outcome.erase_ok, id]
    split
    · exact ih
    · exact absurd hlt ‹_›
  | case2 acc c hdot part c1 hname hlt =>
    rw [dottedName.eq_def _ c.erase, if_pos (by rw [erase_kind]; exact hdot), erase_advance,
      natural_expectName c.advance, hname]
    simp only [Outcome.erase_ok, id]
    split
    · exact absurd ‹_› hlt
    · rfl
  | case3 acc c hdot e c1 hname =>
    rw [dottedName.eq_def _ c.erase, if_pos (by rw [erase_kind]; exact hdot), erase_advance,
      natural_expectName c.advance, hname]
    rfl
  | case4 acc c hdot =>
    rw [dottedName.eq_def _ c.erase, if_neg (by rw [erase_kind]; exact hdot)]
    rfl

theorem natural_argument : Natural id argument := by
  unfold argument
  refine natural_get.bind (fun c => by simp only [erase_kind, erase_peek, Token.erase_kind])
    fun _ => natural_ite ?_ (natural_value.bind (fun _ => rfl) fun _ => natural_pure _)
  exact natural_next.bind (fun _ => rfl) fun _ => natural_next.bind (fun _ => rfl) fun _ =>
    natural_value.bind (fun _ => rfl) fun _ => natural_pure _

theorem natural_arguments (acc : List Argument) : Natural id (arguments acc) := by
  intro c
  fun_induction arguments acc c with
  | case1 acc c hend =>
    rw [arguments.eq_def _ c.erase, if_pos (by rw [erase_kind]; exact hend)]
    rfl
  | case2 acc₀ c hend a c1 ha acc c2 hlt ih =>
    simp only [acc, c2, dite_eq_ite] at hlt ih ⊢
    rw [arguments.eq_def _ c.erase, if_neg (by rw [erase_kind]; exact hend), natural_argument c,
      ha]
    simp only [Outcome.erase_ok, id]
    rw [erase_skipComma]
    generalize (if c1.kind = .comma then c1.advance else c1) = c2 at hlt ih ⊢
    split
    · exact ih
    · exact absurd hlt ‹_›
  | case3 acc₀ c hend a c1 ha acc c2 hlt =>
    simp only [acc, c2, dite_eq_ite] at hlt ⊢
    rw [arguments.eq_def _ c.erase, if_neg (by rw [erase_kind]; exact hend), natural_argument c,
      ha]
    simp only [Outcome.erase_ok, id]
    rw [erase_skipComma]
    generalize (if c1.kind = .comma then c1.advance else c1) = c2 at hlt ⊢
    split
    · exact absurd ‹_› hlt
    · rfl
  | case4 acc c hend e c1 ha =>
    rw [arguments.eq_def _ c.erase, if_neg (by rw [erase_kind]; exact hend), natural_argument c,
      ha]
    rfl

theorem natural_attr : Natural id attr := by
  unfold attr
  refine natural_next.bind (fun _ => rfl) fun _ => natural_expectName.bind (fun _ => rfl)
    fun first => (natural_dottedName first).bind (fun _ => rfl) fun name =>
      natural_current.bind (fun _ => rfl) fun _ => natural_ite ?_ (natural_pure _)
  exact natural_next.bind (fun _ => rfl) fun _ => (natural_arguments []).bind (fun _ => rfl)
    fun _ => (natural_expect _).bind (fun _ => rfl) fun _ => natural_pure _

theorem natural_fieldAttributes (acc : List Attribute) : Natural id (fieldAttributes acc) := by
  intro c
  fun_induction fieldAttributes acc c with
  | case1 acc c hat a c1 ha hlt ih =>
    rw [fieldAttributes.eq_def _ c.erase, if_pos (by rw [erase_kind]; exact hat), natural_attr c,
      ha]
    simp only [Outcome.erase_ok, id]
    split
    · exact ih
    · exact absurd hlt ‹_›
  | case2 acc c hat a c1 ha hlt =>
    rw [fieldAttributes.eq_def _ c.erase, if_pos (by rw [erase_kind]; exact hat), natural_attr c,
      ha]
    simp only [Outcome.erase_ok, id]
    split
    · exact absurd ‹_› hlt
    · rfl
  | case3 acc c hat e c1 ha =>
    rw [fieldAttributes.eq_def _ c.erase, if_pos (by rw [erase_kind]; exact hat), natural_attr c,
      ha]
    rfl
  | case4 acc c hat =>
    rw [fieldAttributes.eq_def _ c.erase, if_neg (by rw [erase_kind]; exact hat)]
    rfl

/-! ## Field types -/

theorem natural_typeName : Natural id typeName := by
  unfold typeName
  refine natural_expectIdent.bind (fun _ => rfl) fun _ => natural_ite ?_ (natural_pure _)
  exact (natural_expect _).bind (fun _ => rfl) fun _ => (natural_expect _).bind (fun _ => rfl)
    fun _ => (natural_expect _).bind (fun _ => rfl) fun _ => natural_pure _

theorem natural_arraySuffix : Natural id arraySuffix := by
  unfold arraySuffix
  refine natural_get.bind (fun c => by simp only [erase_kind, erase_peek, Token.erase_kind])
    fun _ => natural_ite ?_ (natural_pure _)
  exact natural_next.bind (fun _ => rfl) fun _ => natural_next.bind (fun _ => rfl) fun _ =>
    natural_pure _

theorem natural_optionalMark : Natural id optionalMark := by
  unfold optionalMark
  exact natural_current.bind (fun _ => rfl) fun _ => natural_ite
    (natural_next.bind (fun _ => rfl) fun _ => natural_pure _) (natural_pure _)

theorem natural_fieldType : Natural id fieldType := by
  rw [fieldType_eq]
  exact natural_typeName.bind (fun _ => rfl) fun _ => natural_arraySuffix.bind (fun _ => rfl)
    fun _ => natural_optionalMark.bind (fun _ => rfl) fun _ => natural_pure _

/-! ## Blocks -/

theorem natural_header (k : TokenKind) : Natural id (header k) :=
  (natural_expect k).bind (fun _ => rfl) fun _ => natural_expectIdent.bind (fun _ => rfl) fun _ =>
    (natural_expect _).bind (fun _ => rfl) fun _ => natural_pure _

theorem natural_entry : Natural id entry :=
  natural_next.bind (fun _ => rfl) fun _ => (natural_expect _).bind (fun _ => rfl) fun _ =>
    natural_value.bind (fun _ => rfl) fun _ => natural_pure _

theorem natural_entries (acc : List ConfigEntry) : Natural id (entries acc) := by
  intro c
  fun_induction entries acc c with
  | case1 acc c hk =>
    rw [entries.eq_def _ c.erase]
    simp only [erase_kind, hk]
    rw [erase_advance]
    rfl
  | case2 acc c hk =>
    rw [entries.eq_def _ c.erase]
    simp only [erase_kind, hk]
    rw [erase_expected]
    rfl
  | case3 acc₀ c e c1 he acc hlt hr heof hname ih =>
    rw [entries.eq_def _ c.erase]
    simp only [erase_kind]
    rw [if_pos hname, natural_entry c, he]
    simp only [Outcome.erase_ok, id]
    split
    · exact ih
    · exact absurd hlt ‹_›
  | case4 acc₀ c e c1 he acc hlt hr heof hname =>
    rw [entries.eq_def _ c.erase]
    simp only [erase_kind]
    rw [if_pos hname, natural_entry c, he]
    simp only [Outcome.erase_ok, id]
    split
    · exact absurd ‹_› hlt
    · rfl
  | case5 acc c e c1 he hr heof hname =>
    rw [entries.eq_def _ c.erase]
    simp only [erase_kind]
    rw [if_pos hname, natural_entry c, he]
    rfl
  | case6 acc c hr heof hname =>
    rw [entries.eq_def _ c.erase]
    simp only [erase_kind]
    rw [if_neg hname, erase_unexpected]
    rfl

theorem natural_field : Natural id field :=
  natural_expectName.bind (fun _ => rfl) fun _ => natural_fieldType.bind (fun _ => rfl) fun _ =>
    (natural_fieldAttributes []).bind (fun _ => rfl) fun _ => natural_pure _

theorem natural_members (fs : List Field) (as : List Attribute) : Natural id (members fs as) := by
  intro c
  fun_induction members fs as c with
  | case1 fs as c hk =>
    rw [members.eq_def _ _ c.erase]
    simp only [erase_kind, hk]
    rw [erase_advance]
    rfl
  | case2 fs as c hk =>
    rw [members.eq_def _ _ c.erase]
    simp only [erase_kind, hk]
    rw [erase_expected]
    rfl
  | case3 fs as c hk a c1 ha hlt ih =>
    rw [members.eq_def _ _ c.erase]
    simp only [erase_kind, hk, natural_attr c, ha, Outcome.erase_ok]
    split
    · exact ih
    · exact absurd hlt ‹_›
  | case4 fs as c hk a c1 ha hlt =>
    rw [members.eq_def _ _ c.erase]
    simp only [erase_kind, hk, natural_attr c, ha, Outcome.erase_ok]
    split
    · exact absurd ‹_› hlt
    · rfl
  | case5 fs as c hk e c1 ha =>
    rw [members.eq_def _ _ c.erase]
    simp only [erase_kind, hk, natural_attr c, ha]
    rfl
  | case6 fs as c f c1 hf hlt hr heof hat hname ih =>
    rw [members.eq_def _ _ c.erase]
    simp only [erase_kind]
    rw [if_pos hname, natural_field c, hf]
    simp only [Outcome.erase_ok, id]
    split
    · exact ih
    · exact absurd hlt ‹_›
  | case7 fs as c f c1 hf hlt hr heof hat hname =>
    rw [members.eq_def _ _ c.erase]
    simp only [erase_kind]
    rw [if_pos hname, natural_field c, hf]
    simp only [Outcome.erase_ok, id]
    split
    · exact absurd ‹_› hlt
    · rfl
  | case8 fs as c e c1 hf hr heof hat hname =>
    rw [members.eq_def _ _ c.erase]
    simp only [erase_kind]
    rw [if_pos hname, natural_field c, hf]
    rfl
  | case9 fs as c hr heof hat hname =>
    rw [members.eq_def _ _ c.erase]
    simp only [erase_kind]
    rw [if_neg hname, erase_unexpected]
    rfl

theorem natural_enumMembers (vs : List EnumValue) (as : List Attribute) :
    Natural id (enumMembers vs as) := by
  intro c
  fun_induction enumMembers vs as c with
  | case1 vs as c hk =>
    rw [enumMembers.eq_def _ _ c.erase]
    simp only [erase_kind, hk]
    rw [erase_advance]
    rfl
  | case2 vs as c hk =>
    rw [enumMembers.eq_def _ _ c.erase]
    simp only [erase_kind, hk]
    rw [erase_expected]
    rfl
  | case3 vs as c hk a c1 ha hlt ih =>
    rw [enumMembers.eq_def _ _ c.erase]
    simp only [erase_kind, hk, natural_attr c, ha, Outcome.erase_ok]
    split
    · exact ih
    · exact absurd hlt ‹_›
  | case4 vs as c hk a c1 ha hlt =>
    rw [enumMembers.eq_def _ _ c.erase]
    simp only [erase_kind, hk, natural_attr c, ha, Outcome.erase_ok]
    split
    · exact absurd ‹_› hlt
    · rfl
  | case5 vs as c hk e c1 ha =>
    rw [enumMembers.eq_def _ _ c.erase]
    simp only [erase_kind, hk, natural_attr c, ha]
    rfl
  | case6 vs as c name bs c1 hbs hlt hr heof hat hname ih =>
    rw [enumMembers.eq_def _ _ c.erase]
    simp only [erase_kind, erase_current, Token.erase_text]
    rw [if_pos hname, erase_advance, natural_fieldAttributes [] c.advance, hbs]
    simp only [Outcome.erase_ok, id]
    split
    · exact ih
    · exact absurd hlt ‹_›
  | case7 vs as c name bs c1 hbs hlt hr heof hat hname =>
    rw [enumMembers.eq_def _ _ c.erase]
    simp only [erase_kind, erase_current, Token.erase_text]
    rw [if_pos hname, erase_advance, natural_fieldAttributes [] c.advance, hbs]
    simp only [Outcome.erase_ok, id]
    split
    · exact absurd ‹_› hlt
    · rfl
  | case8 vs as c e c1 hbs hr heof hat hname =>
    rw [enumMembers.eq_def _ _ c.erase]
    simp only [erase_kind]
    rw [if_pos hname, erase_advance, natural_fieldAttributes [] c.advance, hbs]
    rfl
  | case9 vs as c hr heof hat hname =>
    rw [enumMembers.eq_def _ _ c.erase]
    simp only [erase_kind]
    rw [if_neg hname, erase_unexpected]
    rfl

theorem natural_datasource : Natural id datasource :=
  (natural_header _).bind (fun _ => rfl) fun _ => (natural_entries []).bind (fun _ => rfl) fun _ =>
    natural_pure _

theorem natural_generator : Natural id generator :=
  (natural_header _).bind (fun _ => rfl) fun _ => (natural_entries []).bind (fun _ => rfl) fun _ =>
    natural_pure _

theorem natural_model : Natural id model :=
  (natural_header _).bind (fun _ => rfl) fun _ => (natural_members [] []).bind (fun _ => rfl)
    fun _ => natural_pure _

theorem natural_compositeType : Natural id compositeType :=
  (natural_header _).bind (fun _ => rfl) fun _ => (natural_members [] []).bind (fun _ => rfl)
    fun _ => natural_pure _

theorem natural_enumBlock : Natural id enumBlock :=
  (natural_header _).bind (fun _ => rfl) fun _ => (natural_enumMembers [] []).bind (fun _ => rfl)
    fun _ => natural_pure _

theorem natural_block : Natural id block := by
  refine natural_current.bind (fun _ => rfl) fun t => ?_
  split
  · exact natural_datasource.bind (fun _ => rfl) fun _ => natural_pure _
  · exact natural_generator.bind (fun _ => rfl) fun _ => natural_pure _
  · exact natural_model.bind (fun _ => rfl) fun _ => natural_pure _
  · exact natural_enumBlock.bind (fun _ => rfl) fun _ => natural_pure _
  · exact natural_compositeType.bind (fun _ => rfl) fun _ => natural_pure _

/-! ## The whole schema -/

theorem recover_erase (base : Nat) (c : Cursor) : recover base c.erase = (recover base c).erase := by
  fun_induction recover base c with
  | case1 c heof =>
    rw [recover.eq_def base c.erase, if_pos (by rw [erase_kind]; exact heof)]
  | case2 c heof hkw =>
    rw [recover.eq_def base c.erase, if_neg (by rw [erase_kind]; exact heof),
      if_pos (by rw [erase_kind, erase_depth]; exact hkw)]
  | case3 c heof hkw c1 hr =>
    rw [recover.eq_def base c.erase, if_neg (by rw [erase_kind]; exact heof),
      if_neg (by rw [erase_kind, erase_depth]; exact hkw)]
    dsimp only
    rw [erase_advance, if_pos (by rw [erase_kind, erase_depth]; exact hr)]
  | case4 c heof hkw c1 hr hlt ih =>
    rw [recover.eq_def base c.erase, if_neg (by rw [erase_kind]; exact heof),
      if_neg (by rw [erase_kind, erase_depth]; exact hkw)]
    dsimp only
    rw [erase_advance, if_neg (by rw [erase_kind, erase_depth]; exact hr),
      if_pos (by rw [erase_remaining, erase_remaining]; exact hlt)]
    exact ih
  | case5 c heof hkw c1 hr hlt =>
    rw [recover.eq_def base c.erase, if_neg (by rw [erase_kind]; exact heof),
      if_neg (by rw [erase_kind, erase_depth]; exact hkw)]
    dsimp only
    rw [erase_advance, if_neg (by rw [erase_kind, erase_depth]; exact hr),
      if_neg (by rw [erase_remaining, erase_remaining]; exact hlt)]

theorem blocks_erase (s : Schema) (errs : List SyntaxError) (c : Cursor) :
    blocks s (errs.map SyntaxError.erase) c.erase =
      ((blocks s errs c).1, (blocks s errs c).2.map SyntaxError.erase) := by
  fun_induction blocks s errs c with
  | case1 s errs c heof =>
    rw [blocks.eq_def s _ c.erase, if_pos (by rw [erase_kind]; exact heof)]
    simp [List.map_reverse]
  | case2 s errs c heof hill c1 hlt ih =>
    rw [blocks.eq_def s _ c.erase, if_neg (by rw [erase_kind]; exact heof),
      if_pos (by rw [erase_kind]; exact hill)]
    dsimp only
    rw [erase_advance, if_pos (by rw [erase_remaining, erase_remaining]; exact hlt)]
    exact ih
  | case3 s errs c heof hill c1 hlt =>
    rw [blocks.eq_def s _ c.erase, if_neg (by rw [erase_kind]; exact heof),
      if_pos (by rw [erase_kind]; exact hill)]
    dsimp only
    rw [erase_advance, if_neg (by rw [erase_remaining, erase_remaining]; exact hlt)]
    simp [List.map_reverse]
  | case4 s errs c heof hill hkw b c1 hblk hlt ih =>
    rw [blocks.eq_def s _ c.erase, if_neg (by rw [erase_kind]; exact heof),
      if_neg (by rw [erase_kind]; exact hill), if_pos (by rw [erase_kind]; exact hkw),
      natural_block c, hblk, Outcome.erase_ok]
    dsimp only
    rw [if_pos (by rw [erase_remaining]; exact hlt)]
    exact ih
  | case5 s errs c heof hill hkw b c1 hblk hlt =>
    rw [blocks.eq_def s _ c.erase, if_neg (by rw [erase_kind]; exact heof),
      if_neg (by rw [erase_kind]; exact hill), if_pos (by rw [erase_kind]; exact hkw),
      natural_block c, hblk, Outcome.erase_ok]
    dsimp only
    rw [if_neg (by rw [erase_remaining]; exact hlt)]
    simp [List.map_reverse]
  | case6 s errs c base heof hill hkw e c1 hblk c2 hlt ih =>
    rw [blocks.eq_def s _ c.erase, if_neg (by rw [erase_kind]; exact heof),
      if_neg (by rw [erase_kind]; exact hill), if_pos (by rw [erase_kind]; exact hkw),
      natural_block c, hblk, Outcome.erase_error]
    dsimp only
    rw [erase_depth, recover_erase, if_pos (by rw [erase_remaining, erase_remaining]; exact hlt)]
    rw [← List.map_cons]
    exact ih
  | case7 s errs c base heof hill hkw e c1 hblk c2 hlt =>
    rw [blocks.eq_def s _ c.erase, if_neg (by rw [erase_kind]; exact heof),
      if_neg (by rw [erase_kind]; exact hill), if_pos (by rw [erase_kind]; exact hkw),
      natural_block c, hblk, Outcome.erase_error]
    dsimp only
    rw [erase_depth, recover_erase, if_neg (by rw [erase_remaining, erase_remaining]; exact hlt)]
    simp [List.map_reverse]
  | case8 s errs c heof hill hkw c1 hlt ih =>
    rw [blocks.eq_def s _ c.erase, if_neg (by rw [erase_kind]; exact heof),
      if_neg (by rw [erase_kind]; exact hill), if_neg (by rw [erase_kind]; exact hkw)]
    dsimp only
    rw [erase_advance, if_pos (by rw [erase_remaining, erase_remaining]; exact hlt),
      erase_unexpected, ← List.map_cons]
    exact ih
  | case9 s errs c heof hill hkw c1 hlt =>
    rw [blocks.eq_def s _ c.erase, if_neg (by rw [erase_kind]; exact heof),
      if_neg (by rw [erase_kind]; exact hill), if_neg (by rw [erase_kind]; exact hkw)]
    dsimp only
    rw [erase_advance, if_neg (by rw [erase_remaining, erase_remaining]; exact hlt),
      erase_unexpected]
    simp [List.map_reverse]

end Parser

theorem Schema.parseSyntax_of_views {s₁ s₂ : String} (h : Scan.views s₁.toList = Scan.views s₂.toList) :
    (parseSyntax s₁).1 = (parseSyntax s₂).1 ∧
      (parseSyntax s₁).2.map SyntaxError.erase = (parseSyntax s₂).2.map SyntaxError.erase := by
  have hc : (Cursor.ofText s₁).erase = (Cursor.ofText s₂).erase :=
    Cursor.eq_of (Token.map_erase_eq (by rw [Cursor.ofText_views, Cursor.ofText_views, h])) rfl rfl
  have h₁ := Parser.blocks_erase {} [] (Cursor.ofText s₁)
  have h₂ := Parser.blocks_erase {} [] (Cursor.ofText s₂)
  rw [hc, h₂, Prod.mk.injEq] at h₁
  exact ⟨h₁.1.symm, h₁.2.symm⟩

end DbSchema
