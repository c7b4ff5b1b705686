import DbSchema.Proofs.Agree
import DbSchema.Proofs.LineBreak

/-! # A broken block costs one error

When a block fails, `Parser.blocks` drops it, keeps its error and skips what is left of it with
`Parser.recover`, which counts braces. Suppose the block is a keyword, a header without braces
or keywords, and a body in braces that pair up (`Balanced`), and that the block fails at one of
its own tokens. Then the skip stops right after the block's last `}`, whatever follows it. With
the lexer's facts (`Cursor.ofText_append_line`) and the agreement of every production on moved
tokens (`Parser.blocks_shifted`), a text made of such a block, a line break and a text `y` reads
as the block's one error, then the blocks and errors of `y` moved down
(`Schema.parseSyntax_broken_block`).

* `Parser.reach_block`: a block reads its keyword before it can stop.
* `Parser.Skips base d ts`: skipping from brace count `d` reads exactly the tokens `ts`;
  `Parser.recover_of_skips` runs the skip, `Parser.Skips.of_reach` carries it along a read.
* `Parser.blocks_accumulate`: the blocks and errors found from a cursor on come after those
  found before it (`Parser.blocks_errs` for the errors alone).
-/

namespace DbSchema

set_option autoImplicit false

namespace Schema

@[simp] theorem empty_append (s : Schema) : ({} : Schema).append s = s := rfl

@[simp] theorem append_empty (s : Schema) : s.append {} = s := by
  simp [append]

theorem append_push (s t : Schema) (b : Block) : (s.append t).push b = s.append (t.push b) := by
  cases b <;> simp [append, push]

end Schema

namespace Parser

open Cursor

/-! ## A block reads its keyword -/

theorem reach_expect {k : TokenKind} {c : Cursor} (hk : c.kind = k) :
    c.advance.Reach (Outcome.cursor (expect k c)) := by
  show c.advance.Reach (Outcome.cursor (if c.kind = k then _ else _))
  rw [if_pos hk]
  exact Reach.refl _

theorem reach_header {k : TokenKind} {c : Cursor} (hk : c.kind = k) :
    c.advance.Reach (Outcome.cursor (header k c)) :=
  reach_bind (reach_expect hk) fun _ => forward_bind forward_expectIdent fun _ =>
    forward_bind (forward_expect .lBrace) fun _ => forward_pure _

theorem current_bind {β : Type} (f : Token → Parser β) (c : Cursor) :
    (current >>= f) c = f c.current c := rfl

theorem reach_block {c : Cursor} (hk : c.kind.isKeyword = true) :
    c.advance.Reach (Outcome.cursor (block c)) := by
  have hcases : c.kind = .datasource ∨ c.kind = .generator ∨ c.kind = .model ∨
      c.kind = .enum ∨ c.kind = .type := by
    revert hk
    cases c.kind <;> simp [TokenKind.isKeyword]
  unfold block
  rw [current_bind]
  rcases hcases with h | h | h | h | h <;> simp only [show c.current.kind = c.kind from rfl, h]
  · exact reach_bind (reach_bind (reach_header h) fun _ =>
      forward_bind (forward_entries []) fun _ => forward_pure _) fun _ => forward_pure _
  · exact reach_bind (reach_bind (reach_header h) fun _ =>
      forward_bind (forward_entries []) fun _ => forward_pure _) fun _ => forward_pure _
  · exact reach_bind (reach_bind (reach_header h) fun _ =>
      forward_bind (forward_members [] []) fun _ => forward_pure _) fun _ => forward_pure _
  · exact reach_bind (reach_bind (reach_header h) fun _ =>
      forward_bind (forward_enumMembers [] []) fun _ => forward_pure _) fun _ => forward_pure _
  · exact reach_bind (reach_bind (reach_header h) fun _ =>
      forward_bind (forward_members [] []) fun _ => forward_pure _) fun _ => forward_pure _

/-! ## Skipping to the closing brace -/

/-- The brace count after the token `t`, as `Cursor.advance` keeps it. -/
def depthStep (d : Nat) (t : Token) : Nat :=
  match t.kind with
  | .lBrace => d + 1
  | .rBrace => d - 1
  | _ => d

theorem depthStep_of_ne {d : Nat} {t : Token} (hl : t.kind ≠ .lBrace) (hr : t.kind ≠ .rBrace) :
    depthStep d t = d := by
  unfold depthStep
  split <;> simp_all

theorem advance_depth (c : Cursor) : c.advance.depth = depthStep c.depth c.current := rfl

theorem current_of_ahead {c : Cursor} {t : Token} {ts : List Token} (h : c.ahead = t :: ts) :
    c.current = t := by
  rw [Cursor.current, h]
  rfl

/-- `Skips base d ts`: from brace count `d`, skipping what is left of a block begun at brace
count `base` reads exactly the tokens `ts`, the last a `}` that brings the count back down. -/
inductive Skips (base : Nat) : Nat → List Token → Prop
  | close {d : Nat} {t : Token} : t.kind = .rBrace → d - 1 ≤ base → Skips base d [t]
  | step {d : Nat} {t : Token} {ts : List Token} : t.kind ≠ .eof →
      ¬ (t.kind.isKeyword = true ∧ d ≤ base) → ¬ (t.kind = .rBrace ∧ depthStep d t ≤ base) →
      Skips base (depthStep d t) ts → Skips base d (t :: ts)

theorem recover_of_skips {base d : Nat} {ts : List Token} (h : Skips base d ts) {c : Cursor}
    (hd : c.depth = d) {rest : List Token} (hc : c.ahead = ts ++ rest) :
    recover base c = advance^[ts.length] c ∧ (recover base c).depth ≤ base := by
  induction h generalizing c with
  | @close d t hk hle =>
    have hcur := current_of_ahead hc
    have hkind : c.kind = .rBrace := by rw [Cursor.kind, hcur, hk]
    have hdepth : c.advance.depth = d - 1 := by
      rw [advance_depth, hcur, hd, depthStep, hk]
    rw [recover, if_neg (by rw [hkind]; decide), if_neg (by rw [hkind]; exact fun h => absurd h.1 (by decide))]
    dsimp only
    rw [if_pos ⟨hkind, by rw [hdepth]; exact hle⟩]
    exact ⟨rfl, by rw [hdepth]; exact hle⟩
  | @step d t ts heof hkw hrb _ ih =>
    have hcur := current_of_ahead hc
    have hkind : c.kind = t.kind := by rw [Cursor.kind, hcur]
    have hdepth : c.advance.depth = depthStep d t := by rw [advance_depth, hcur, hd]
    have hlt := remaining_advance_lt (hkind ▸ heof)
    rw [recover, if_neg (by rw [hkind]; exact heof), if_neg (by rw [hkind, hd]; exact hkw)]
    dsimp only
    rw [if_neg (by rw [hkind, hdepth]; exact hrb), if_pos hlt]
    obtain ⟨h₁, h₂⟩ := ih hdepth (by rw [advance_ahead, hc]; rfl)
    exact ⟨h₁, h₂⟩

theorem Skips.tail {base d : Nat} {t : Token} {ts : List Token} (h : Skips base d (t :: ts))
    (hts : ts ≠ []) : Skips base (depthStep d t) ts := by
  cases h with
  | close => exact absurd rfl hts
  | step _ _ _ h => exact h

theorem Skips.of_reach {base : Nat} {c c' : Cursor} (h : Skips base c.depth c.ahead)
    (hr : c.Reach c') (hne : c'.ahead ≠ []) : Skips base c'.depth c'.ahead := by
  obtain ⟨n, rfl⟩ := hr
  induction n generalizing c with
  | zero => exact h
  | succ n ih =>
    rw [Function.iterate_succ_apply] at hne ⊢
    have hadv : c.advance.ahead ≠ [] := fun hc => hne (Reach.at_end ⟨n, rfl⟩ hc)
    cases hc : c.ahead with
    | nil => exact absurd (by rw [advance_ahead, hc]; rfl) hadv
    | cons t ts =>
      rw [advance_ahead, hc] at hadv
      refine ih ?_ hne
      rw [hc] at h
      rw [advance_depth, current_of_ahead hc, advance_ahead, hc]
      exact h.tail hadv

/-! ## Braces that pair up -/

/-- Braces that pair up like brackets: every `{` is closed by a later `}`, and no `}` closes
nothing. -/
inductive Balanced : List Token → Prop
  | nil : Balanced []
  | plain {t : Token} {ts : List Token} : t.kind ≠ .lBrace → t.kind ≠ .rBrace → Balanced ts →
      Balanced (t :: ts)
  | group {l r : Token} {body ts : List Token} : l.kind = .lBrace → r.kind = .rBrace →
      Balanced body → Balanced ts → Balanced (l :: body ++ r :: ts)

theorem Skips.balanced {base : Nat} {body : List Token} (hb : Balanced body)
    (hne : ∀ t ∈ body, t.kind ≠ .eof) {d : Nat} (hd : base < d) {rest : List Token}
    (h : Skips base d rest) : Skips base d (body ++ rest) := by
  induction hb generalizing d rest with
  | nil => exact h
  | @plain t ts hl hr _ ih =>
    have hstep : depthStep d t = d := depthStep_of_ne hl hr
    refine .step (hne t (by simp)) (by omega) (fun h' => hr h'.1) ?_
    rw [hstep]
    exact ih (fun u hu => hne u (by simp [hu])) hd h
  | @group l r body ts hl hr _ _ ihb iht =>
    have hsl : depthStep d l = d + 1 := by rw [depthStep, hl]
    have hsr : depthStep (d + 1) r = d := by rw [depthStep, hr]; rfl
    have hts : Skips base d (ts ++ rest) := iht (fun u hu => hne u (by simp [hu])) hd h
    have hr' : Skips base (d + 1) (r :: (ts ++ rest)) := by
      refine .step (by rw [hr]; decide) (by rw [hr]; exact fun h => absurd h.1 (by decide))
        (by rw [hsr]; omega) ?_
      rw [hsr]
      exact hts
    have hbody := ihb (fun u hu => hne u (by simp [hu])) (by omega) hr'
    refine .step (by rw [hl]; decide) (by rw [hl]; exact fun h => absurd h.1 (by decide))
      (by rw [hl]; exact fun h => absurd h.1 (by decide)) ?_
    rw [hsl]
    simpa using hbody

theorem Skips.block {base : Nat} {hdr body : List Token} {lb rb : Token}
    (hhdr : ∀ t ∈ hdr, t.kind ≠ .lBrace ∧ t.kind ≠ .rBrace ∧ t.kind.isKeyword = false)
    (hlb : lb.kind = .lBrace) (hrb : rb.kind = .rBrace) (hbody : Balanced body)
    (hne : ∀ t ∈ hdr ++ lb :: body ++ [rb], t.kind ≠ .eof) :
    Skips base base (hdr ++ lb :: body ++ [rb]) := by
  have hclose : Skips base (base + 1) (body ++ [rb]) :=
    Skips.balanced hbody (fun t ht => hne t (by simp [ht])) (by omega)
      (.close hrb (by omega))
  have hopen : Skips base base (lb :: body ++ [rb]) := by
    have hs : depthStep base lb = base + 1 := by rw [depthStep, hlb]
    refine .step (by rw [hlb]; decide) (by rw [hlb]; exact fun h => absurd h.1 (by decide))
      (by rw [hlb]; exact fun h => absurd h.1 (by decide)) ?_
    rw [hs]
    exact hclose
  clear hclose
  induction hdr with
  | nil => exact hopen
  | cons t hdr ih =>
    obtain ⟨hl, hr, hkw⟩ := hhdr t (by simp)
    have hstep : depthStep base t = base := depthStep_of_ne hl hr
    refine .step (hne t (by simp)) (by rw [hkw]; simp) (fun h' => hr h'.1) ?_
    rw [hstep]
    exact ih (fun u hu => hhdr u (List.mem_cons_of_mem t hu))
      (fun u hu => hne u (List.mem_cons_of_mem t hu))

theorem Skips.of_block_error {c c' : Cursor} {kw lb rb : Token} {hdr body : List Token}
    {e : SyntaxError} (hc : c.ahead = kw :: hdr ++ lb :: body ++ [rb])
    (heof : ∀ t ∈ c.ahead, t.kind ≠ .eof) (hkw : kw.kind.isKeyword = true)
    (hlb : lb.kind = .lBrace) (hrb : rb.kind = .rBrace)
    (hhdr : ∀ t ∈ hdr, t.kind ≠ .lBrace ∧ t.kind ≠ .rBrace ∧ t.kind.isKeyword = false)
    (hbody : Balanced body) (hfail : Parser.block c = .error e c') (hat : c'.ahead ≠ []) :
    Skips c.depth c'.depth c'.ahead := by
  have hreach : c.advance.Reach c' := by
    have := reach_block (by rw [Cursor.kind, current_of_ahead hc]; exact hkw)
    rw [hfail] at this
    exact this
  have hd : c.advance.depth = c.depth := by
    rw [advance_depth, current_of_ahead hc, depthStep_of_ne]
    · exact fun h => by rw [h] at hkw; exact absurd hkw (by decide)
    · exact fun h => by rw [h] at hkw; exact absurd hkw (by decide)
  refine Skips.of_reach ?_ hreach hat
  rw [hd, advance_ahead, hc]
  exact Skips.block hhdr hlb hrb hbody fun t ht =>
    heof t (by rw [hc]; exact List.mem_cons_of_mem kw ht)

/-! ## Collecting errors -/

theorem blocks_accumulate (s t : Schema) (acc errs : List SyntaxError) (c : Cursor) :
    blocks (s.append t) (acc ++ errs) c =
      (s.append (blocks t acc c).1, errs.reverse ++ (blocks t acc c).2) := by
  fun_induction blocks t acc c with
  | case1 t acc c heof =>
    rw [blocks.eq_def (s.append t) _ c, if_pos heof]
    simp
  | case2 t acc c heof hill c1 hlt =>
    rename_i ih
    rw [blocks.eq_def (s.append t) _ c, if_neg heof, if_pos hill]
    dsimp only
    rw [if_pos hlt]
    exact ih
  | case3 t acc c heof hill c1 =>
    rename_i hlt
    rw [blocks.eq_def (s.append t) _ c, if_neg heof, if_pos hill]
    dsimp only
    rw [if_neg hlt]
    simp
  | case4 t acc c heof hill hkw b c1 hblk hlt ih =>
    rw [blocks.eq_def (s.append t) _ c, if_neg heof, if_neg hill, if_pos hkw, hblk]
    dsimp only
    rw [if_pos hlt, Schema.append_push]
    exact ih
  | case5 t acc c heof hill hkw b c1 hblk hlt =>
    rw [blocks.eq_def (s.append t) _ c, if_neg heof, if_neg hill, if_pos hkw, hblk]
    dsimp only
    rw [if_neg hlt, Schema.append_push]
    simp
  | case6 t acc c base heof hill hkw e c1 hblk c2 hlt =>
    rename_i ih
    rw [blocks.eq_def (s.append t) _ c, if_neg heof, if_neg hill, if_pos hkw, hblk]
    dsimp only
    rw [if_pos hlt, ← List.cons_append]
    exact ih
  | case7 t acc c base heof hill hkw e c1 hblk c2 =>
    rename_i hlt
    rw [blocks.eq_def (s.append t) _ c, if_neg heof, if_neg hill, if_pos hkw, hblk]
    dsimp only
    rw [if_neg hlt]
    simp
  | case8 t acc c heof hill hkw c1 hlt =>
    rename_i ih
    rw [blocks.eq_def (s.append t) _ c, if_neg heof, if_neg hill, if_neg hkw]
    dsimp only
    rw [if_pos hlt, ← List.cons_append]
    exact ih
  | case9 t acc c heof hill hkw c1 =>
    rename_i hlt
    rw [blocks.eq_def (s.append t) _ c, if_neg heof, if_neg hill, if_neg hkw]
    dsimp only
    rw [if_neg hlt]
    simp

theorem blocks_errs (s : Schema) (acc errs : List SyntaxError) (c : Cursor) :
    blocks s (acc ++ errs) c = ((blocks s acc c).1, errs.reverse ++ (blocks s acc c).2) := by
  have h := blocks_accumulate {} s acc errs c
  rwa [Schema.empty_append, Schema.empty_append] at h

theorem blocks_of_error {s : Schema} {errs : List SyntaxError} {c c' : Cursor} {e : SyntaxError}
    (hkw : c.kind.isKeyword = true) (hblk : block c = .error e c')
    (hlt : (recover c.depth c').remaining < c.remaining) :
    blocks s errs c = blocks s (e :: errs) (recover c.depth c') := by
  have heof : c.kind ≠ .eof := fun h => by rw [h] at hkw; exact absurd hkw (by decide)
  have hill : c.kind ≠ .illegal := fun h => by rw [h] at hkw; exact absurd hkw (by decide)
  rw [blocks.eq_def s _ c, if_neg heof, if_neg hill, if_pos hkw, hblk]
  dsimp only
  rw [if_pos hlt]

theorem blocks_of_eof {s : Schema} {errs : List SyntaxError} {c : Cursor} (h : c.ahead = []) :
    blocks s errs c = (s, errs.reverse) := by
  have heof : c.kind = .eof := by rw [Cursor.kind, Cursor.current, h]; rfl
  rw [blocks.eq_def s _ c, if_pos heof]

end Parser

namespace Cursor

theorem ofText_shifted_append_line {x : String} (y : String)
    (hclosed : Trivia (Scan.trailing x.toList) [])
    (hlast : ∀ t ∈ (ofText x).ahead.getLast?, t.kind = .rBrace) :
    (ofText x).Shifted 0
      (some ((ofText y).ahead.map (Token.shiftLines (x.toList.count '\n' + 1))))
      (ofText (x ++ "\n" ++ y)) :=
  { ahead := by rw [(ofText_append_line x y hclosed).1, Token.map_shiftLines_zero]; rfl
    depth := rfl
    endPos := fun h => absurd h (Option.some_ne_none _)
    last := fun _ => hlast }

end Cursor

open DbSchema.Parser DbSchema.Cursor

namespace Schema

/-- A block that fails at one of its own tokens, whose header holds no braces or keywords and
whose body is in braces that pair up, costs exactly its one error. Alone it reads as no block
and that error; before a line break and a text `y`, it leaves the blocks of `y` as they are and
their errors moved down by the lines that the block and the break take. -/
theorem parseSyntax_broken_block (x y : String) (kw lb rb : Token) (hdr body : List Token)
    (hx : (Cursor.ofText x).ahead = kw :: hdr ++ lb :: body ++ [rb])
    (hkw : kw.kind.isKeyword = true) (hlb : lb.kind = .lBrace) (hrb : rb.kind = .rBrace)
    (hhdr : ∀ t ∈ hdr, t.kind ≠ .lBrace ∧ t.kind ≠ .rBrace ∧ t.kind.isKeyword = false)
    (hbody : Balanced body) (hclosed : Trivia (Scan.trailing x.toList) [])
    (e : SyntaxError) (c' : Cursor) (hfail : block (Cursor.ofText x) = .error e c')
    (hat : c'.kind ≠ .eof) :
    parseSyntax x = ({}, [e]) ∧
      parseSyntax (x ++ "\n" ++ y) =
        ((parseSyntax y).1,
          e :: (parseSyntax y).2.map (SyntaxError.shiftLines (x.toList.count '\n' + 1))) := by
  obtain ⟨hZa, hZe⟩ := Cursor.ofText_append_line x y hclosed
  set X := Cursor.ofText x
  set Z := Cursor.ofText (x ++ "\n" ++ y)
  set L := x.toList.count '\n' + 1
  set B := (Cursor.ofText y).ahead.map (Token.shiftLines L)
  have hkw' : X.kind.isKeyword = true := by rw [Cursor.kind, current_of_ahead hx]; exact hkw
  have hc' : c'.ahead ≠ [] := fun h => hat (by rw [Cursor.kind, Cursor.current, h]; rfl)
  have hskip : Skips 0 c'.depth c'.ahead :=
    Skips.of_block_error hx (ofText_kind_ne_eof x) hkw hlb hrb hhdr hbody hfail hc'
  have hXlen : 0 < X.ahead.length := by rw [hx]; simp
  have hV : (recover X.depth c').ahead = [] := by
    rw [ofText_depth, (recover_of_skips hskip rfl (List.append_nil _).symm).1,
      ahead_iterate_advance, List.drop_length]
  have hsolo : parseSyntax x = ({}, [e]) := by
    rw [parseSyntax, blocks_of_error hkw' hfail (by rw [remaining_eq, hV, remaining_eq]; exact hXlen),
      blocks_of_eof hV]
    rfl
  have hXZ : X.Shifted 0 (some B) Z := ofText_shifted_append_line y hclosed fun t ht => by
    rw [hx] at ht
    simp only [List.cons_append, List.append_assoc, List.getLast?_cons, List.getLast?_append,
      Option.some_or, Option.getD_some, Option.mem_def, Option.some.injEq] at ht
    rw [← ht]
    exact hrb
  obtain ⟨d₂, h₂, hd₂⟩ := agree_block.error_of_error hXZ hfail (Or.inr hc')
  rw [SyntaxError.shiftLines_zero] at h₂
  obtain ⟨hW, hWd⟩ := recover_of_skips hskip hd₂.depth
    (by rw [hd₂.ahead, Token.map_shiftLines_zero])
  set W := recover Z.depth d₂
  have hWa : W.ahead = B := by
    rw [show W = recover 0 d₂ from rfl, hW, ahead_iterate_advance, hd₂.ahead,
      Token.map_shiftLines_zero]
    simp
  have hWe : W.endPos = Z.endPos := by
    rw [show W = recover 0 d₂ from rfl, hW]
    exact (Reach.endPos ⟨_, rfl⟩).trans (Reach.endPos (forward_of_error forward_block h₂))
  have hYW : (Cursor.ofText y).Shifted L none W :=
    { ahead := by rw [hWa]; simp [B]
      depth := by rw [ofText_depth]; exact Nat.le_zero.mp hWd
      endPos := fun _ => by rw [hWe, hZe]
      last := fun h => absurd rfl h }
  have hZk : Z.kind.isKeyword = true := by
    rw [Cursor.kind, current_of_ahead (t := kw) (by rw [hZa, hx]; rfl)]
    exact hkw
  have hlt : W.remaining < Z.remaining := by
    rw [remaining_eq, remaining_eq, hWa, hZa, List.length_append]
    omega
  refine ⟨hsolo, ?_⟩
  have hmap := blocks_shifted {} [] hYW
  rw [List.map_nil] at hmap
  rw [parseSyntax, blocks_of_error hZk h₂ hlt, show [e] = [] ++ [e] from rfl, blocks_errs, hmap]
  rfl

/-- A model whose field lacks its type, then a second model on the next line. -/
theorem parseSyntax_missing_field_type :
    parseSyntax "model A { f }" = ({}, [.expected "identifier" "'\x7d'" ⟨1, 13⟩]) ∧
      parseSyntax ("model A { f }" ++ "\n" ++ "model B { id Int }") =
        ((parseSyntax "model B { id Int }").1,
          .expected "identifier" "'\x7d'" ⟨1, 13⟩ :: (parseSyntax "model B { id Int }").2.map
            (SyntaxError.shiftLines ("model A { f }".toList.count '\n' + 1))) := by
  have hcheck : (match block (Cursor.ofText "model A { f }") with
      | .error e c' => decide (e = .expected "identifier" "'\x7d'" ⟨1, 13⟩) && decide (c'.kind ≠ .eof)
      | .ok _ _ => false) = true := by decide +kernel
  cases hb : block (Cursor.ofText "model A { f }") with
  | ok b c' =>
    rw [hb] at hcheck
    exact absurd hcheck Bool.false_ne_true
  | error e c' =>
    rw [hb] at hcheck
    simp only [Bool.and_eq_true, decide_eq_true_eq] at hcheck
    obtain ⟨rfl, hat⟩ := hcheck
    have htrail : Scan.trailing "model A { f }".toList = [] := by decide +kernel
    exact parseSyntax_broken_block "model A { f }" "model B { id Int }"
      ⟨.model, "model", ⟨1, 1⟩, true⟩ ⟨.lBrace, "\x7b", ⟨1, 9⟩, true⟩
      ⟨.rBrace, "\x7d", ⟨1, 13⟩, true⟩
      [⟨.ident, "A", ⟨1, 7⟩, true⟩] [⟨.ident, "f", ⟨1, 11⟩, true⟩]
      (by decide +kernel) rfl rfl rfl (by decide) (.plain (by decide) (by decide) .nil)
      (by rw [htrail]; exact .nil) _ c' hb hat

/-- A keyword between a block's keyword and its `{` is where the skip stops: the broken block
`model model A { }` still gives the block `A`, before a second model as alone. -/
theorem parseSyntax_keyword_header_keeps_block :
    (Cursor.ofText "model model A { }").ahead.map (·.kind) =
        [.model, .model, .ident, .lBrace, .rBrace] ∧
      (parseSyntax "model model A { }").2.length = 1 ∧
      (parseSyntax ("model model A { }" ++ "\n" ++ "model B { id Int }")).1.models.map (·.name) =
        ["A", "B"] ∧
      (parseSyntax "model B { id Int }").1.models.map (·.name) = ["B"] := by
  decide +kernel

end Schema

end DbSchema
