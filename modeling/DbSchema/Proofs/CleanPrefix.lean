import DbSchema.Proofs.GrammarSound

/-! # A text after one that reads with no error

A text `s₁` that reads with no error is a schema of the strict grammar (`Parser.spans_blocks`),
and the blocks of such a schema are read the same whatever follows them
(`Parser.blocks_of_isSchema_append`). Past them the cursor sees the tokens of the next text,
moved down, with the brace count that the tokens of `s₁` leave. When that count is zero, what
is left reads as the next text alone (`Parser.blocks_shifted`), and as `blocks` only adds to
what it is given (`Parser.blocks_accumulate`), the text `s₁`, a line break and `s₂` read as the
blocks of `s₁` followed, kind by kind, by those of `s₂`, and as the errors of `s₂` moved down
(`Schema.parseSyntax_append_clean`).

The count need not be zero: a `{` skipped inside a value stays counted. A text after it that
lets a skipped `}` bring the count down to zero then sets the skip of a broken block a level
higher, and the skip stops at a block it would have passed over.
-/

namespace DbSchema

set_option autoImplicit false

namespace Cursor

open DbSchema.Parser

theorem iterate_advance_depth (n : Nat) (c : Cursor) :
    (advance^[n] c).depth = (c.ahead.take n).foldl depthStep c.depth := by
  induction n generalizing c with
  | zero => rfl
  | succ n ih =>
    rw [Function.iterate_succ_apply, ih, advance_ahead, advance_depth]
    cases ha : c.ahead with
    | nil =>
      have hk : c.current = Token.eofAt c.endPos := by rw [current, ha]; rfl
      simp [hk, depthStep, Token.eofAt]
    | cons t ts =>
      rw [current_of_ahead ha]
      rfl

theorem sees_of_ahead_append {c : Cursor} {a b : List Token} (h : c.ahead = a ++ b) :
    c.Sees (a.map Token.view) := by
  induction a generalizing c with
  | nil => trivial
  | cons t a ih =>
    refine ⟨by rw [h]; rfl, ih ?_⟩
    rw [advance_ahead, h]
    rfl

end Cursor

namespace Parser

open DbSchema.Cursor DbSchema.Grammar

theorem members_of_stray {fs : List Field} {as : List Attribute} {c : Cursor}
    (hk : c.kind ≠ .rBrace ∧ c.kind ≠ .eof ∧ c.kind ≠ .doubleAtSign ∧ c.kind.isName = false) :
    members fs as c = .error c.unexpected c := by
  obtain ⟨h₁, h₂, h₃, h₄⟩ := hk
  rw [members]
  cases h : c.kind <;> simp_all

theorem block_of_stray_after_field {kw n o x : String} {k : TokenKind}
    {tf rest : List (TokenKind × String)} {f : Field} (hf : IsField true tf f)
    (hk : k ≠ .rBrace ∧ k ≠ .eof ∧ k ≠ .doubleAtSign ∧ k.isName = false)
    (hne : k ≠ .atSign ∧ k ≠ .lParen ∧ k ≠ .dot ∧ k ≠ .lBracket ∧ k ≠ .question) {c : Cursor}
    (hc : c.Sees ((.model, kw) :: (.ident, n) :: (.lBrace, o) :: tf ++ (k, x) :: rest)) :
    block c = .error (advance^[tf.length] c.advance.advance.advance).unexpected
      (advance^[tf.length] c.advance.advance.advance) := by
  obtain ⟨hk₀, -, -, hs₁⟩ := Sees.head hc
  obtain ⟨hcf, hck⟩ := sees_append.1 (Sees.head (Sees.head hs₁).2.2.2).2.2.2
  have hkc := (Sees.head hck).1
  obtain ⟨k₁, x₁, tf', rfl, hk₁⟩ := hf.head
  have hfield := field_of_isField_of_ne hf hcf (hkc ▸ hne)
  have hmembers : members [] [] c.advance.advance.advance =
      .error (advance^[tf'.length + 1] c.advance.advance.advance).unexpected
        (advance^[tf'.length + 1] c.advance.advance.advance) := by
    rw [members_of_field ((Sees.head hcf).1 ▸ hk₁) hfield
      (Sees.remaining_lt hcf (List.cons_ne_nil _ _))]
    exact members_of_stray (hkc ▸ hk)
  have hmodel : model c = .error (advance^[tf'.length + 1] c.advance.advance.advance).unexpected
      (advance^[tf'.length + 1] c.advance.advance.advance) := by
    unfold model
    rw [run_bind_of_ok (header_of_sees hc)]
    exact run_bind_of_error hmembers
  unfold block
  rw [current_bind]
  simp only [show c.current.kind = .model from hk₀]
  exact run_bind_of_error hmodel

end Parser

namespace Schema

open DbSchema.Parser DbSchema.Cursor DbSchema.Grammar

/-- A text that reads with no error, does not end inside a block comment and leaves no brace
open, followed by a line break and any text `s₂`: the blocks of both, kind by kind, and the
errors of `s₂` alone, moved down by the lines of the first text and the break. -/
theorem parseSyntax_append_clean (s₁ s₂ : String) (hclean : (parseSyntax s₁).2 = [])
    (hclosed : Trivia (Scan.trailing s₁.toList) [])
    (hdepth : (ofText s₁).ahead.foldl depthStep 0 = 0) :
    parseSyntax (s₁ ++ "\n" ++ s₂) =
      ((parseSyntax s₁).1.append (parseSyntax s₂).1,
        (parseSyntax s₂).2.map (SyntaxError.shiftLines (s₁.toList.count '\n' + 1))) := by
  obtain ⟨hZa, hZe⟩ := ofText_append_line s₁ s₂ hclosed
  set X := ofText s₁
  set Y := ofText s₂
  set Z := ofText (s₁ ++ "\n" ++ s₂)
  set L := s₁.toList.count '\n' + 1
  obtain ⟨sch, hp⟩ : ∃ sch, parseSyntax s₁ = (sch, []) := ⟨_, Prod.ext rfl hclean⟩
  obtain ⟨-, ts, bs, c', ⟨hs, rfl⟩, hend, hi, rfl⟩ := spans_blocks (ofText_noEof s₁) hp
  have hts : X.ahead.map Token.view = ts := Sees.map_view hs hend
  have hlen : ts.length = X.ahead.length := by rw [← hts, List.length_map]
  have hZ : blocks {} [] Z = blocks (bs.foldl push {}) [] (advance^[ts.length] Z) :=
    blocks_of_isSchema_append hi (hts ▸ sees_of_ahead_append hZa)
  have hYW : Y.Shifted L none (advance^[ts.length] Z) :=
    { ahead := by
        rw [ahead_iterate_advance, hZa, hlen, List.drop_left, Option.getD_none, List.append_nil]
      depth := by rw [iterate_advance_depth, hZa, hlen, List.take_left, ofText_depth, hdepth]; rfl
      endPos := fun _ => by rw [Reach.endPos ⟨_, rfl⟩, hZe]
      last := fun h => absurd rfl h }
  have hmap := blocks_shifted (bs.foldl push {}) [] hYW
  have hacc := blocks_accumulate (bs.foldl push {}) {} [] [] Y
  rw [List.map_nil] at hmap
  rw [append_empty, List.nil_append, List.reverse_nil, List.nil_append] at hacc
  rw [hp, parseSyntax, hZ, hmap, hacc]
  rfl

/-- A model, then a model whose field lacks its type: the first text is clean, so the second
reads as alone, one line down. -/
theorem parseSyntax_append_clean_models :
    (parseSyntax "model A { id Int }").2 = [] ∧
      Trivia (Scan.trailing "model A { id Int }".toList) [] ∧
      (ofText "model A { id Int }").ahead.foldl depthStep 0 = 0 ∧
      parseSyntax ("model A { id Int }" ++ "\n" ++ "model B { f }") =
        ((parseSyntax "model A { id Int }").1.append (parseSyntax "model B { f }").1,
          (parseSyntax "model B { f }").2.map
            (SyntaxError.shiftLines ("model A { id Int }".toList.count '\n' + 1))) := by
  have hclean : (parseSyntax "model A { id Int }").2 = [] := by decide +kernel
  have htrail : Scan.trailing "model A { id Int }".toList = [] := by decide +kernel
  have hclosed : Trivia (Scan.trailing "model A { id Int }".toList) [] := by
    rw [htrail]
    exact .nil
  have hdepth : (ofText "model A { id Int }").ahead.foldl depthStep 0 = 0 := by decide +kernel
  exact ⟨hclean, hclosed, hdepth, parseSyntax_append_clean _ _ hclean hclosed hdepth⟩

/-- A `{` skipped inside an attribute's arguments leaves a brace open after a text that reads
with no error. After it, a model whose arguments skip two `}` fails at a `{`; alone the skip of
the broken model runs to the end and passes over the model `B` inside it, but one brace higher
it stops at `B`, which is read. -/
theorem parseSyntax_skipped_brace_prefix :
    (parseSyntax "model A \x7b f Int @x(\x7b) \x7d").2 = [] ∧
      Trivia (Scan.trailing "model A \x7b f Int @x(\x7b) \x7d".toList) [] ∧
      parseSyntax ("model A \x7b f Int @x(\x7b) \x7d" ++ "\n" ++
          "model C \x7b f Int @x(\x7d\x7d) \x7b model B \x7b \x7d \x7d") ≠
        ((parseSyntax "model A \x7b f Int @x(\x7b) \x7d").1.append
            (parseSyntax "model C \x7b f Int @x(\x7d\x7d) \x7b model B \x7b \x7d \x7d").1,
          (parseSyntax "model C \x7b f Int @x(\x7d\x7d) \x7b model B \x7b \x7d \x7d").2.map
            (SyntaxError.shiftLines
              ("model A \x7b f Int @x(\x7b) \x7d".toList.count '\n' + 1))) := by
  set s₁ := "model A \x7b f Int @x(\x7b) \x7d"
  set s₂ := "model C \x7b f Int @x(\x7d\x7d) \x7b model B \x7b \x7d \x7d"
  have hv₁ : Scan.views s₁.toList = [(.model, "model"), (.ident, "A"), (.lBrace, "\x7b"),
      (.ident, "f"), (.ident, "Int"), (.atSign, "@"), (.ident, "x"), (.lParen, "("),
      (.lBrace, "\x7b"), (.rParen, ")"), (.rBrace, "\x7d")] := by
    decide +kernel
  have hv₂ : Scan.views s₂.toList = [(.model, "model"), (.ident, "C"), (.lBrace, "\x7b"),
      (.ident, "f"), (.ident, "Int"), (.atSign, "@"), (.ident, "x"), (.lParen, "("),
      (.rBrace, "\x7d"), (.rBrace, "\x7d"), (.rParen, ")"), (.lBrace, "\x7b"),
      (.model, "model"), (.ident, "B"), (.lBrace, "\x7b"), (.rBrace, "\x7d"),
      (.rBrace, "\x7d")] := by
    decide +kernel
  have hargs₁ : IsArguments true [(.lBrace, "\x7b"), (.rParen, ")")] [] :=
    .cons (o := none) (.skip (by decide) (by decide) (by decide)) .close
  have hA : IsSchema true (Scan.views s₁.toList)
      [.model ⟨"A", [⟨"f", ⟨.named "Int", false, false⟩, [⟨".".intercalate ["x"], []⟩]⟩], []⟩] := by
    rw [hv₁]
    exact .block (.model (.field (.mk rfl (.mk (.named (by decide)) .no .no)
      (.cons (.args (.one rfl) hargs₁) .nil)) .close)) .nil
  have htrail : Scan.trailing s₁.toList = [] := by decide +kernel
  have hclosed : Trivia (Scan.trailing s₁.toList) [] := by
    rw [htrail]
    exact .nil
  have hclean := parseSyntax_of_isSchema hA
  refine ⟨by rw [hclean], hclosed, fun h => ?_⟩
  have hargs₂ : IsArguments true [(.rBrace, "\x7d"), (.rBrace, "\x7d"), (.rParen, ")")] [] :=
    .cons (o := none) (.skip (by decide) (by decide) (by decide))
      (.cons (o := none) (.skip (by decide) (by decide) (by decide)) .close)
  have hC : IsField true [(.ident, "f"), (.ident, "Int"), (.atSign, "@"), (.ident, "x"),
      (.lParen, "("), (.rBrace, "\x7d"), (.rBrace, "\x7d"), (.rParen, ")")]
      ⟨"f", ⟨.named "Int", false, false⟩, [⟨".".intercalate ["x"], []⟩]⟩ :=
    .mk rfl (.mk (.named (by decide)) .no .no) (.cons (.args (.one rfl) hargs₂) .nil)
  have hbroken : ∀ {c : Cursor}, c.ahead.map Token.view = Scan.views s₂.toList →
      block c = .error (advance^[8] c.advance.advance.advance).unexpected
        (advance^[8] c.advance.advance.advance) := by
    intro c hc
    have hs := (sees_of_map hc).1
    rw [hv₂] at hs
    exact block_of_stray_after_field hC ⟨by decide, by decide, by decide, rfl⟩
      ⟨by decide, by decide, by decide, by decide, by decide⟩ hs
  have hsolo : (parseSyntax s₂).1.models.map (·.name) = [] := by
    rw [parseSyntax, blocks_of_error (by decide +kernel) (hbroken (ofText_views s₂))
      (by decide +kernel)]
    decide +kernel
  obtain ⟨hZa, -⟩ := ofText_append_line s₁ s₂ hclosed
  have hZs : (ofText (s₁ ++ "\n" ++ s₂)).Sees (Scan.views s₁.toList) := by
    rw [← ofText_views]
    exact sees_of_ahead_append hZa
  have hZ := @blocks_of_isSchema_append _ _ hA {} [] _ hZs
  have hn : (Scan.views s₁.toList).length = 11 := by rw [hv₁]; rfl
  rw [hn] at hZ
  have hW : (advance^[11] (ofText (s₁ ++ "\n" ++ s₂))).ahead.map Token.view =
      Scan.views s₂.toList := by
    decide +kernel
  have hjoined : (parseSyntax (s₁ ++ "\n" ++ s₂)).1.models.map (·.name) = ["A", "B"] := by
    rw [parseSyntax, hZ, blocks_of_error (by decide +kernel) (hbroken hW) (by decide +kernel)]
    decide +kernel
  have hnames := congrArg (fun p => p.1.models.map (·.name)) h
  simp only [hjoined, hclean, Schema.append, List.map_append, hsolo, List.append_nil] at hnames
  exact absurd hnames (by decide +kernel)

end Schema

end DbSchema
