import DbSchema.Proofs.GrammarSound

/-! # Every round of every loop of the reader reads a token

The reader is made of loops. The top level reads block after block, and the skip after a broken
block (`Parser.recover`) reads token after token. Inside a block, the body of a datasource or
generator reads entries, the body of a model or composite type reads fields and attributes after
`@@`, the body of an enum reads values and attributes, a field or an enum value reads its
attributes after `@`, an attribute reads the parts of its dotted name and its arguments, and a list
or call reads its items.

Each of these definitions goes round again only under a guard `c'.remaining < c.remaining`: fewer
tokens are left than when the round began. The guard makes the recursion well founded. The
lemmas here show that it holds wherever a loop goes round, so no loop is ever cut short by it and
every round that does not leave its loop reads at least one token other than the end.

* `Parser.Reads p`: started at a token other than the end, `p` reads a token whenever it succeeds.
  At the end of the text a value reads nothing, as the cursor stays there; no loop reads one there.
* `Parser.block_remaining_lt`, `Parser.recover_block_lt`: a block begun at its keyword reads past
  it, whether it succeeds or fails, even when the skip after a failure reads nothing.
* `Parser.RoundsRead`, `Parser.rounds_read`: the guard of every loop, at every round.
-/

namespace DbSchema

set_option autoImplicit false

open Cursor

namespace Parser

variable {α β : Type}

/-- Started at a token other than the end, the production `p` reads at least one token whenever
it succeeds. -/
def Reads (p : Parser α) : Prop :=
  ∀ (c c' : Cursor) (a : α), c.kind ≠ .eof → p c = .ok a c' → c'.remaining < c.remaining

theorem Reads.bind {x : Parser α} {f : α → Parser β} (hx : Reads x) (hf : ∀ a, Forward (f a)) :
    Reads (x >>= f) := by
  intro c c'' b he h
  obtain ⟨a, c', hxc, hfc⟩ := ok_of_bind_ok h
  exact Nat.lt_of_le_of_lt (forward_of_ok (hf a) hfc).remaining_le (hx c c' a he hxc)

theorem remaining_skip_comma_lt {c c' : Cursor} (h : c'.remaining < c.remaining) :
    (if c'.kind = .comma then c'.advance else c').remaining < c.remaining :=
  Nat.lt_of_le_of_lt (reach_skip_comma c').remaining_le h

theorem reads_of_advance {p : Parser α}
    (h : ∀ c : Cursor, c.advance.Reach (Outcome.cursor (p c))) : Reads p := by
  intro c c' a he hp
  have hr := h c
  rw [hp, Outcome.cursor_ok] at hr
  exact Nat.lt_of_le_of_lt hr.remaining_le (remaining_advance_lt he)

theorem reads_next : Reads next :=
  reads_of_advance fun c => Reach.refl c.advance

theorem reads_expectName : Reads expectName := by
  intro c c' x he h
  obtain ⟨-, -, rfl⟩ := expectName_ok h
  exact remaining_advance_lt he

/-! ## The rounds of the loops inside a block -/

theorem reads_attr : Reads attr := by
  unfold attr
  refine reads_next.bind fun _ => forward_bind forward_expectName fun first =>
    forward_bind (forward_dottedName first) fun _ => forward_bind forward_current fun _ =>
      forward_ite _ ?_ (forward_pure _)
  exact forward_bind forward_next fun _ => forward_bind (forward_arguments []) fun _ =>
    forward_bind (forward_expect .rParen) fun _ => forward_pure _

theorem reads_field : Reads field :=
  reads_expectName.bind fun _ => forward_bind forward_fieldType fun _ =>
    forward_bind (forward_fieldAttributes []) fun _ => forward_pure _

theorem reads_enumValue : Reads fun c => fieldAttributes [] c.advance :=
  reads_of_advance fun c => forward_fieldAttributes [] c.advance

theorem reads_dottedPart : Reads fun c => expectName c.advance :=
  reads_of_advance fun c => forward_expectName c.advance

/-! ## The rounds of the top level -/

theorem ne_eof_of_keyword {k : TokenKind} (hk : k.isKeyword = true) : k ≠ .eof := by
  rintro rfl
  cases hk

theorem block_remaining_lt {c : Cursor} (hk : c.kind.isKeyword = true) :
    (Outcome.cursor (block c)).remaining < c.remaining :=
  Nat.lt_of_le_of_lt (reach_block hk).remaining_le (remaining_advance_lt (ne_eof_of_keyword hk))

theorem recover_block_lt {c c' : Cursor} {e : SyntaxError} (hk : c.kind.isKeyword = true)
    (h : block c = .error e c') : (recover c.depth c').remaining < c.remaining := by
  have hlt := block_remaining_lt hk
  rw [h, Outcome.cursor_error] at hlt
  exact Nat.lt_of_le_of_lt (reach_recover c.depth c').remaining_le hlt

/-! ## Every loop -/

/-- The guard of every loop of the reader holds at every round after which the loop goes on: the
round has read at least one token other than the end. A loop goes round only from a token other
than the end, and each field takes the round from any such token. -/
structure RoundsRead : Prop where
  /-- The top level at an illegal or an unexpected token, and the skip after a broken block at any
  token, read that token. -/
  token : ∀ c : Cursor, c.kind ≠ .eof → c.advance.remaining < c.remaining
  /-- The top level at a keyword reads a block, -/
  keyword : ∀ (c c' : Cursor) (b : Block), c.kind.isKeyword = true → block c = .ok b c' →
    c'.remaining < c.remaining
  /-- or, when the block fails, its keyword at least, however little the skip after it reads. -/
  broken : ∀ (c c' : Cursor) (e : SyntaxError), c.kind.isKeyword = true →
    block c = .error e c' → (recover c.depth c').remaining < c.remaining
  /-- The body of a datasource or generator reads an entry. -/
  entry : Reads entry
  /-- The body of a model or composite type reads a field. -/
  field : Reads field
  /-- The bodies read an attribute after `@@`, and fields and enum values one after `@`. -/
  attr : Reads attr
  /-- The body of an enum reads a value and its attributes. -/
  enumValue : Reads fun c => fieldAttributes [] c.advance
  /-- A dotted attribute name reads a dot and the name after it. -/
  dottedName : Reads fun c => expectName c.advance
  /-- The arguments of an attribute read an argument, or skip a token, and a comma after it. -/
  argument : ∀ (c c' : Cursor) (oa : Option Argument), c.kind ≠ .eof → argument c = .ok oa c' →
    (if c'.kind = .comma then c'.advance else c').remaining < c.remaining
  /-- The items of a list or call read a value, or skip a token, and a comma after it. -/
  item : ∀ (d : Nat) (c c' : Cursor) (ov : Option Value), c.kind ≠ .eof →
    valueAt d c = .ok ov c' → (if c'.kind = .comma then c'.advance else c').remaining < c.remaining

/-- Every loop of the reader reads a token in every round after which it goes on, so reading a
text stops, and no loop is cut short by the guard that its definition carries. -/
theorem rounds_read : RoundsRead where
  token _ he := remaining_advance_lt he
  keyword c c' b hk h := by
    have hlt := block_remaining_lt hk
    rwa [h, Outcome.cursor_ok] at hlt
  broken _ _ _ hk h := recover_block_lt hk h
  entry _ _ _ he h := entry_remaining_lt he h
  field := reads_field
  attr := reads_attr
  enumValue := reads_enumValue
  dottedName := reads_dottedPart
  argument _ _ _ he h := remaining_skip_comma_lt (argument_remaining_lt h he)
  item _ _ _ _ he h := remaining_skip_comma_lt (valueAt_remaining_lt h he)

end Parser

end DbSchema
