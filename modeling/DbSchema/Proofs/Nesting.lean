import DbSchema.Proofs.GrammarSound

/-! # Values nest at most `maxNesting` deep, and no less

Lists and calls nest: the depth of a value counts the lists and calls on its deepest path. The
value reader keeps the depth at which it reads and refuses to open a list or call at depth
`maxNesting`, so every value it gives, and every value in a schema, has depth at most
`maxNesting`. The bound is exact: a value written out that is well formed at any depth reads
exactly when its depth is at most `maxNesting`, and otherwise the reader stops at the `[` or call
name of the first list or call that would open one level more.

* `Value.depth`; `Value.Formed`: well formed at any depth, with
  `Value.readable_iff : v.Readable d ↔ v.Formed ∧ v.depth ≤ maxNesting - d`.
* `Grammar.IsValue.depth_le`: a value of the strict grammar at nesting `d` has depth at most
  `maxNesting - d`; through the productions, `Grammar.IsBlock.values_depth_le`.
* `Value.FirstOpen n v pre`: the first list or call of `v` inside `n` of its lists and calls opens
  after the tokens `pre`; `Value.FirstOpen.valueAt_error`: the reader stops there.
* `Parser.value_nesting_bound`: all of it for `Parser.value` and `Schema.parseSyntax`.
-/

namespace DbSchema

set_option autoImplicit false

open Scan Cursor DbSchema.Parser

namespace Value

/-! ## Depth -/

mutual

/-- How deep lists and calls nest in a value: a literal or a name has depth 0, a list or call
one more than the deepest of its items. -/
def depth : Value → Nat
  | .list vs => itemsDepth vs + 1
  | .call _ vs => itemsDepth vs + 1
  | _ => 0

/-- The depth of the deepest of the items `vs`, or 0 when there is none. -/
def itemsDepth : List Value → Nat
  | [] => 0
  | v :: vs => max v.depth (itemsDepth vs)

end

@[simp]
theorem itemsDepth_le_iff {vs : List Value} {n : Nat} :
    itemsDepth vs ≤ n ↔ ∀ v ∈ vs, v.depth ≤ n := by
  induction vs with
  | nil => simp [itemsDepth]
  | cons v vs ih => simp only [itemsDepth, Nat.max_le, ih, List.mem_cons, forall_eq_or_imp]

theorem exists_first_deeper {vs : List Value} {m : Nat} (h : m < itemsDepth vs) :
    ∃ pre w post, vs = pre ++ w :: post ∧ (∀ u ∈ pre, u.depth ≤ m) ∧ m < w.depth := by
  induction vs with
  | nil => simp [itemsDepth] at h
  | cons v vs ih =>
    by_cases hv : m < v.depth
    · exact ⟨[], v, vs, rfl, by simp, hv⟩
    · have hvs : m < itemsDepth vs := by
        simp only [itemsDepth] at h
        omega
      obtain ⟨pre, w, post, rfl, hpre, hw⟩ := ih hvs
      refine ⟨v :: pre, w, post, rfl, ?_, hw⟩
      simp only [List.mem_cons, forall_eq_or_imp]
      exact ⟨by omega, hpre⟩

/-- `v.Formed`: the grammar can read `v` from the tokens the lexer writes for it, lists and calls
nested to any depth: string bodies are as the lexer reads them, literals as it writes them, and
names are words that read as names. -/
inductive Formed : Value → Prop
  | str {s : String} : (∃ r, (stringBody r).1 = s.toList) → Formed (.str s)
  | int {l : String} : isIntLit l.toList = true → Formed (.int l)
  | float {l : String} : isFloatLit l.toList = true → Formed (.float l)
  | bool {b : Bool} : Formed (.bool b)
  | ident {n : String} : isNameWord n = true → Formed (.ident n)
  | list {vs : List Value} : (∀ v ∈ vs, Formed v) → Formed (.list vs)
  | call {f : String} {vs : List Value} : isNameWord f = true → (∀ v ∈ vs, Formed v) →
      Formed (.call f vs)

theorem Readable.formed {d : Nat} {v : Value} (h : v.Readable d) :
    v.Formed ∧ v.depth ≤ maxNesting - d := by
  induction h with
  | str hs => exact ⟨.str hs, by simp [depth]⟩
  | int hl => exact ⟨.int hl, by simp [depth]⟩
  | float hl => exact ⟨.float hl, by simp [depth]⟩
  | bool => exact ⟨.bool, by simp [depth]⟩
  | ident hn => exact ⟨.ident hn, by simp [depth]⟩
  | @list d vs hd _ ih =>
    have hitems : itemsDepth vs ≤ maxNesting - (d + 1) :=
      itemsDepth_le_iff.2 fun v hv => (ih v hv).2
    exact ⟨.list fun v hv => (ih v hv).1, by simp only [depth]; omega⟩
  | @call d f vs hf hd _ ih =>
    have hitems : itemsDepth vs ≤ maxNesting - (d + 1) :=
      itemsDepth_le_iff.2 fun v hv => (ih v hv).2
    exact ⟨.call hf fun v hv => (ih v hv).1, by simp only [depth]; omega⟩

theorem Formed.readable {v : Value} (h : v.Formed) {d : Nat} (hd : v.depth ≤ maxNesting - d) :
    v.Readable d := by
  induction h generalizing d with
  | str hs => exact .str hs
  | int hl => exact .int hl
  | float hl => exact .float hl
  | bool => exact .bool
  | ident hn => exact .ident hn
  | @list vs _ ih =>
    simp only [depth] at hd
    have hitems : ∀ v ∈ vs, v.depth ≤ maxNesting - (d + 1) := itemsDepth_le_iff.1 (by omega)
    exact .list (by omega) fun v hv => ih v hv (hitems v hv)
  | @call f vs hf _ ih =>
    simp only [depth] at hd
    have hitems : ∀ v ∈ vs, v.depth ≤ maxNesting - (d + 1) := itemsDepth_le_iff.1 (by omega)
    exact .call hf (by omega) fun v hv => ih v hv (hitems v hv)

theorem readable_iff {d : Nat} {v : Value} : v.Readable d ↔ v.Formed ∧ v.depth ≤ maxNesting - d :=
  ⟨Readable.formed, fun h => h.1.readable h.2⟩

/-! ## Where a list or call opens too deep -/

/-- The tokens of the items `pre` of a list or call, each followed by its comma: what stands
before a later item. -/
def itemsBefore (pre : List Value) : List (TokenKind × String) :=
  pre.flatMap fun u => u.tokens ++ [(.comma, ",")]

theorem itemTokens_cons (w : Value) (post : List Value) :
    itemTokens (w :: post) = w.tokens ++ post.flatMap fun u => (.comma, ",") :: u.tokens := by
  induction post generalizing w with
  | nil => simp [itemTokens]
  | cons u post ih => simp [itemTokens, ih]

theorem itemTokens_append_cons (pre : List Value) (w : Value) (post : List Value) :
    itemTokens (pre ++ w :: post) = itemsBefore pre ++ itemTokens (w :: post) := by
  induction pre with
  | nil => simp [itemsBefore]
  | cons u pre ih =>
    obtain ⟨x, xs, hx⟩ := List.exists_cons_of_ne_nil (List.append_ne_nil_of_right_ne_nil pre
      (List.cons_ne_nil w post))
    rw [List.cons_append, hx, itemTokens, ← hx, ih]
    simp [itemsBefore]

/-- `v.FirstOpen n pre`: of the lists and calls of `v` that stand inside `n` lists and calls of
`v`, the first in the order of the tokens opens right after the tokens `pre` of `v`, at its `[`
or at the name of the call. Every item before the one it stands in nests less deep. -/
inductive FirstOpen : Nat → Value → List (TokenKind × String) → Prop
  | list {vs : List Value} : FirstOpen 0 (.list vs) []
  | call {f : String} {vs : List Value} : FirstOpen 0 (.call f vs) []
  | inList {n : Nat} {pre post : List Value} {w : Value} {ts : List (TokenKind × String)} :
      (∀ u ∈ pre, u.depth ≤ n) → FirstOpen n w ts →
      FirstOpen (n + 1) (.list (pre ++ w :: post)) ((.lBracket, "[") :: itemsBefore pre ++ ts)
  | inCall {n : Nat} {f : String} {pre post : List Value} {w : Value}
      {ts : List (TokenKind × String)} : (∀ u ∈ pre, u.depth ≤ n) → FirstOpen n w ts →
      FirstOpen (n + 1) (.call f (pre ++ w :: post))
        ((TokenKind.ofWord f, f) :: (.lParen, "(") :: itemsBefore pre ++ ts)

theorem FirstOpen.tokens_eq {n : Nat} {v : Value} {pre : List (TokenKind × String)}
    (h : v.FirstOpen n pre) :
    ∃ post, v.tokens = pre ++ (.lBracket, "[") :: post ∨
      ∃ f, v.tokens = pre ++ (TokenKind.ofWord f, f) :: (.lParen, "(") :: post := by
  induction h with
  | list => exact ⟨_, .inl rfl⟩
  | call => exact ⟨_, .inr ⟨_, rfl⟩⟩
  | @inList n pre post w ts _ _ ih =>
    obtain ⟨rest, hw⟩ := ih
    refine ⟨rest ++ ((post.flatMap fun u => (.comma, ",") :: u.tokens) ++ [(.rBracket, "]")]), ?_⟩
    rcases hw with hw | ⟨f, hw⟩
    · exact .inl (by simp [tokens, itemTokens_append_cons, itemTokens_cons, hw])
    · exact .inr ⟨f, by simp [tokens, itemTokens_append_cons, itemTokens_cons, hw]⟩
  | @inCall n g pre post w ts _ _ ih =>
    obtain ⟨rest, hw⟩ := ih
    refine ⟨rest ++ ((post.flatMap fun u => (.comma, ",") :: u.tokens) ++ [(.rParen, ")")]), ?_⟩
    rcases hw with hw | ⟨f, hw⟩
    · exact .inl (by simp [tokens, itemTokens_append_cons, itemTokens_cons, hw])
    · exact .inr ⟨f, by simp [tokens, itemTokens_append_cons, itemTokens_cons, hw]⟩

theorem Formed.exists_firstOpen {v : Value} (h : v.Formed) :
    ∀ {n : Nat}, n < v.depth → ∃ pre, v.FirstOpen n pre := by
  induction h with
  | str _ | int _ | float _ | bool | ident _ =>
    intro n hn
    simp [depth] at hn
  | @list vs _ ih =>
    intro n hn
    cases n with
    | zero => exact ⟨[], .list⟩
    | succ m =>
      simp only [depth] at hn
      obtain ⟨pre, w, post, rfl, hpre, hw⟩ := exists_first_deeper (show m < itemsDepth vs by omega)
      obtain ⟨ts, hts⟩ := ih w (by simp) hw
      exact ⟨_, .inList hpre hts⟩
  | @call f vs _ _ ih =>
    intro n hn
    cases n with
    | zero => exact ⟨[], .call⟩
    | succ m =>
      simp only [depth] at hn
      obtain ⟨pre, w, post, rfl, hpre, hw⟩ := exists_first_deeper (show m < itemsDepth vs by omega)
      obtain ⟨ts, hts⟩ := ih w (by simp) hw
      exact ⟨_, .inCall hpre hts⟩

end Value

/-! ## The reader stops where a list or call opens too deep -/

namespace Parser

theorem nesting_message :
    s!"value nesting of at most {maxNesting} levels" = "value nesting of at most 128 levels" :=
  rfl

theorem valueAt_too_deep {d : Nat} {c : Cursor} (hd : maxNesting ≤ d)
    (hk : c.kind = .lBracket ∨ (c.kind.isName = true ∧ c.advance.kind = .lParen)) :
    valueAt d c = .error (c.expected s!"value nesting of at most {maxNesting} levels") c := by
  rw [valueAt]
  rcases hk with hk | ⟨hk, hp⟩
  · simp only [Cursor.kind] at hk
    simp [hk, hd]
  · have hpeek : c.peek.kind = .lParen := hp
    simp only [Cursor.kind] at hk
    simp [hk, hpeek, hd]

theorem valueAt_list_error {d : Nat} {c c' : Cursor} {e : SyntaxError} (hk : c.kind = .lBracket)
    (hd : d < maxNesting) (h : itemsAt .rBracket (d + 1) [] c.advance = .error e c') :
    valueAt d c = .error e c' := by
  have hlt := remaining_advance_lt (c := c) (by rw [hk]; decide)
  simp only [Cursor.kind] at hk
  rw [valueAt]
  simp [hk, Nat.not_le.mpr hd, hlt, h]

theorem valueAt_call_error {d : Nat} {c c' : Cursor} {e : SyntaxError}
    (hk : c.kind.isName = true) (hp : c.advance.kind = .lParen) (hd : d < maxNesting)
    (h : itemsAt .rParen (d + 1) [] c.advance.advance = .error e c') :
    valueAt d c = .error e c' := by
  have hpeek : c.peek.kind = .lParen := hp
  have hlt : c.advance.advance.remaining < c.remaining :=
    Nat.lt_of_le_of_lt (Reach.remaining_le (Reach.advance _))
      (remaining_advance_lt (Grammar.ne_eof_of_isName hk))
  simp only [Cursor.kind] at hk hp
  rw [valueAt]
  cases hc : c.current.kind <;>
    simp_all [TokenKind.isName, TokenKind.isKeyword, Cursor.kind, Nat.not_le.mpr hd]

theorem itemsAt_error {close : TokenKind} {d : Nat} {acc : List Value} {c c' : Cursor}
    {e : SyntaxError} (hk : c.kind ≠ close) (he : c.kind ≠ .eof) (h : valueAt d c = .error e c') :
    itemsAt close d acc c = .error e c' := by
  rw [itemsAt]
  simp [hk, he, h]

theorem itemsAt_before {close : TokenKind} (hclose : close = .rBracket ∨ close = .rParen)
    {d : Nat} {pre : List Value} (hpre : ∀ u ∈ pre, u.Readable d) :
    ∀ (acc : List Value) {c : Cursor} {rest : List (TokenKind × String)},
      c.Sees (Value.itemsBefore pre ++ rest) →
      itemsAt close d acc c =
        itemsAt close d (pre.reverse ++ acc) (advance^[(Value.itemsBefore pre).length] c) := by
  induction pre with
  | nil => intro acc c rest _; rfl
  | cons u pre ih =>
    intro acc c rest hc
    have hsplit : Value.itemsBefore (u :: pre) =
        u.tokens ++ (.comma, ",") :: Value.itemsBefore pre := by
      simp [Value.itemsBefore]
    rw [hsplit, List.append_assoc, List.cons_append] at hc
    obtain ⟨hu, hafter⟩ := sees_append.1 hc
    obtain ⟨hcomma, -, -, hrest⟩ := hafter.head
    obtain ⟨k, x, toks, htok, hk⟩ := u.tokens_head
    have hck : c.kind = k := (Sees.head (htok ▸ hu)).1
    have hv := (hpre u (by simp)).valueAt_sees hu (by rw [hcomma]; decide)
    have hlt : (if (advance^[u.tokens.length] c).kind = .comma then
        (advance^[u.tokens.length] c).advance else advance^[u.tokens.length] c).remaining <
        c.remaining := by
      rw [if_pos hcomma]
      exact Nat.lt_of_le_of_lt (Reach.remaining_le (Reach.advance _))
        (hu.remaining_lt (by simp [htok]))
    rw [itemsAt_of_value (by rw [hck]; rcases hclose with rfl | rfl <;> simp [hk])
      (by rw [hck]; exact hk.2.2) hv hlt, if_pos hcomma,
      ih (fun w hw => hpre w (List.mem_cons_of_mem u hw)) _ hrest, hsplit]
    simp only [List.reverse_cons, List.append_assoc, List.singleton_append, List.length_append,
      List.length_cons, ← Function.iterate_succ_apply' advance, iterate_advance_add]
    congr 2
    omega

theorem itemsAt_error_after {close : TokenKind} (hclose : close = .rBracket ∨ close = .rParen)
    {d : Nat} {pre : List Value} (hpre : ∀ u ∈ pre, u.Readable d) {w : Value} {c c' : Cursor}
    {e : SyntaxError} {rest : List (TokenKind × String)}
    (hc : c.Sees (Value.itemsBefore pre ++ (w.tokens ++ rest)))
    (hw : valueAt d (advance^[(Value.itemsBefore pre).length] c) = .error e c') :
    itemsAt close d [] c = .error e c' := by
  obtain ⟨-, hwc⟩ := sees_append.1 hc
  obtain ⟨k, x, toks, htok, hk⟩ := w.tokens_head
  have hck : (advance^[(Value.itemsBefore pre).length] c).kind = k :=
    (Sees.head (htok ▸ (sees_append.1 hwc).1)).1
  rw [itemsAt_before hclose hpre [] hc]
  exact itemsAt_error (by rw [hck]; rcases hclose with rfl | rfl <;> simp [hk])
    (by rw [hck]; exact hk.2.2) hw

end Parser

theorem Scan.isName_of_isNameWord {w : String} (h : isNameWord w = true) :
    (TokenKind.ofWord w).isName = true := by
  simp only [isNameWord, Bool.and_eq_true] at h
  exact h.2

namespace Value

theorem FirstOpen.valueAt_error {n : Nat} {v : Value} {pre : List (TokenKind × String)}
    (h : v.FirstOpen n pre) (hf : v.Formed) {d : Nat} (hn : n = maxNesting - d) {c : Cursor}
    (hc : c.Sees v.tokens) :
    valueAt d c = .error ((advance^[pre.length] c).expected
      s!"value nesting of at most {maxNesting} levels") (advance^[pre.length] c) := by
  induction h generalizing d c with
  | list =>
    exact valueAt_too_deep (by omega) (.inl (Sees.head hc).1)
  | @call f vs =>
    obtain ⟨hk, -, -, hs⟩ := Sees.head hc
    have hname : (TokenKind.ofWord f).isName = true := by
      cases hf with
      | call hw _ => exact isName_of_isNameWord hw
    exact valueAt_too_deep (by omega) (.inr ⟨hk ▸ hname, (Sees.head hs).1⟩)
  | @inList n pre post w ts hpre _ ih =>
    have hitems : ∀ u ∈ pre ++ w :: post, u.Formed := by
      cases hf with
      | list h => exact h
    rw [tokens, itemTokens_append_cons, itemTokens_cons, List.cons_append] at hc
    obtain ⟨hk, -, -, hs⟩ := Sees.head hc
    rw [List.append_assoc, List.append_assoc] at hs
    have hw := (sees_append.1 (sees_append.1 hs).2).1
    have hpos : advance^[ts.length] (advance^[(itemsBefore pre).length] c.advance) =
        advance^[((TokenKind.lBracket, "[") :: itemsBefore pre ++ ts).length] c := by
      rw [advance_eq_iterate c, iterate_advance_add, iterate_advance_add]
      simp only [List.length_cons, List.length_append]
      congr 1
      omega
    rw [← hpos]
    exact valueAt_list_error hk (by omega) (itemsAt_error_after (.inl rfl)
      (fun u hu => (hitems u (by simp [hu])).readable (Nat.le_trans (hpre u hu) (by omega))) hs
      (ih (hitems w (by simp)) (d := d + 1) (by omega) hw))
  | @inCall n f pre post w ts hpre _ ih =>
    have hitems : ∀ u ∈ pre ++ w :: post, u.Formed := by
      cases hf with
      | call _ h => exact h
    have hname : (TokenKind.ofWord f).isName = true := by
      cases hf with
      | call hw _ => exact isName_of_isNameWord hw
    rw [tokens, itemTokens_append_cons, itemTokens_cons, List.cons_append, List.cons_append] at hc
    obtain ⟨hk, -, -, hs₁⟩ := Sees.head hc
    obtain ⟨hp, -, -, hs⟩ := Sees.head hs₁
    rw [List.append_assoc, List.append_assoc] at hs
    have hw := (sees_append.1 (sees_append.1 hs).2).1
    have hpos : advance^[ts.length] (advance^[(itemsBefore pre).length] c.advance.advance) =
        advance^[((TokenKind.ofWord f, f) :: (TokenKind.lParen, "(") :: itemsBefore pre ++
          ts).length] c := by
      rw [advance_eq_iterate c.advance, advance_eq_iterate c, iterate_advance_add,
        iterate_advance_add, iterate_advance_add]
      simp only [List.length_cons, List.length_append]
      congr 1
      omega
    rw [← hpos]
    exact valueAt_call_error (hk ▸ hname) hp (by omega) (itemsAt_error_after (.inr rfl)
      (fun u hu => (hitems u (by simp [hu])).readable (Nat.le_trans (hpre u hu) (by omega))) hs
      (ih (hitems w (by simp)) (d := d + 1) (by omega) hw))

end Value

/-! ## The values the reader gives -/

/-- The values in the arguments of an attribute. -/
def Attribute.values (a : Attribute) : List Value :=
  a.args.map Argument.value

/-- The values a block holds: those of its entries, and those in the arguments of its
attributes and of the attributes of its fields and enum values. -/
def Block.values : Block → List Value
  | .datasource d => d.entries.map ConfigEntry.value
  | .generator g => g.entries.map ConfigEntry.value
  | .model m => (m.fields.flatMap Field.attributes ++ m.attributes).flatMap Attribute.values
  | .enum e => (e.values.flatMap EnumValue.attributes ++ e.attributes).flatMap Attribute.values
  | .type t => (t.fields.flatMap Field.attributes ++ t.attributes).flatMap Attribute.values

/-- The values a schema holds, block by block. -/
def Schema.values (s : Schema) : List Value :=
  s.datasources.flatMap (fun d => (Block.datasource d).values) ++
    s.generators.flatMap (fun g => (Block.generator g).values) ++
    s.models.flatMap (fun m => (Block.model m).values) ++
    s.enums.flatMap (fun e => (Block.enum e).values) ++
    s.types.flatMap (fun t => (Block.type t).values)

theorem Schema.mem_values_push {s : Schema} {b : Block} {v : Value} (h : v ∈ (s.push b).values) :
    v ∈ s.values ∨ v ∈ b.values := by
  cases b <;> simp only [Schema.push, Schema.values, List.flatMap_append, List.flatMap_cons,
    List.flatMap_nil, List.append_nil, List.mem_append] at h ⊢ <;> tauto

namespace Grammar

mutual

theorem IsValue.depth_le {d : Nat} {next : TokenKind} {ts : List (TokenKind × String)}
    {v : Value} : IsValue true d next ts v → v.depth ≤ maxNesting - d
  | .str _ | .int _ | .float _ | .bool _ | .ident _ _ => by simp [Value.depth]
  | .list hd hi => by
    have hitems := IsItems.depth_le hi
    have hlt := hd rfl
    simp only [Value.depth]
    omega
  | .call _ hd hi => by
    have hitems := IsItems.depth_le hi
    have hlt := hd rfl
    simp only [Value.depth]
    omega

theorem IsItems.depth_le {close : TokenKind} {d : Nat} {ts : List (TokenKind × String)}
    {vs : List Value} : IsItems true close d ts vs → Value.itemsDepth vs ≤ maxNesting - d
  | .close => by simp [Value.itemsDepth]
  | .value hv hi => by
    have hhead := IsValue.depth_le hv
    have htail := IsItems.depth_le hi
    simp only [Value.itemsDepth]
    omega
  | .skip _ _ _ hi => IsItems.depth_le hi

end

theorem IsSlot.depth_le {next : TokenKind} {ts : List (TokenKind × String)} {o : Option Value}
    (h : IsSlot true next ts o) : ∀ v ∈ o, v.depth ≤ maxNesting := by
  cases h with
  | value hv =>
    intro v hv'
    cases hv'
    simpa using hv.depth_le
  | skip => simp

theorem IsArgument.depth_le {next : TokenKind} {ts : List (TokenKind × String)}
    {oa : Option Argument} (h : IsArgument true next ts oa) :
    ∀ a ∈ oa, a.value.depth ≤ maxNesting := by
  cases h with
  | named _ _ hs =>
    intro a ha
    obtain ⟨v, hv, rfl⟩ := Option.map_eq_some_iff.1 ha
    exact hs.depth_le v hv
  | positional hv _ =>
    intro a ha
    cases ha
    simpa using hv.depth_le
  | skip => simp

theorem IsArguments.depth_le {ts : List (TokenKind × String)} {as : List Argument}
    (h : IsArguments true ts as) : ∀ a ∈ as, a.value.depth ≤ maxNesting := by
  induction h with
  | close => simp
  | cons ha _ ih =>
    intro a hmem
    rcases List.mem_append.1 hmem with h | h
    · exact ha.depth_le a (Option.mem_toList.1 h)
    · exact ih a h

theorem IsAttribute.values_depth_le {ts : List (TokenKind × String)} {a : Attribute}
    (h : IsAttribute true ts a) : ∀ v ∈ a.values, v.depth ≤ maxNesting := by
  cases h with
  | plain => simp [Attribute.values]
  | args _ has =>
    intro v hv
    obtain ⟨x, hx, rfl⟩ := List.mem_map.1 hv
    exact has.depth_le x hx

theorem IsMarked.values_depth_le {ts : List (TokenKind × String)} {as : List Attribute}
    (h : IsMarked true ts as) : ∀ a ∈ as, ∀ v ∈ a.values, v.depth ≤ maxNesting := by
  induction h with
  | nil => simp
  | cons ha _ ih =>
    intro a hmem
    rcases List.mem_cons.1 hmem with rfl | h
    · exact ha.values_depth_le
    · exact ih a h

theorem IsMembers.values_depth_le {ts : List (TokenKind × String)} {fs : List Field}
    {as : List Attribute} (h : IsMembers true ts fs as) :
    ∀ a ∈ fs.flatMap Field.attributes ++ as, ∀ v ∈ a.values, v.depth ≤ maxNesting := by
  induction h with
  | close => simp
  | field hf _ ih =>
    cases hf with
    | mk _ _ hm =>
      intro a hmem
      rw [List.flatMap_cons, List.append_assoc, List.mem_append] at hmem
      exact hmem.elim (hm.values_depth_le a) (ih a)
  | attr ha _ ih =>
    intro a hmem
    simp only [List.mem_append, List.mem_cons] at hmem
    rcases hmem with h | rfl | h
    · exact ih a (List.mem_append_left _ h)
    · exact ha.values_depth_le
    · exact ih a (List.mem_append_right _ h)

theorem IsEnumMembers.values_depth_le {ts : List (TokenKind × String)} {vs : List EnumValue}
    {as : List Attribute} (h : IsEnumMembers true ts vs as) :
    ∀ a ∈ vs.flatMap EnumValue.attributes ++ as, ∀ v ∈ a.values, v.depth ≤ maxNesting := by
  induction h with
  | close => simp
  | value _ hm _ ih =>
    intro a hmem
    rw [List.flatMap_cons, List.append_assoc, List.mem_append] at hmem
    exact hmem.elim (hm.values_depth_le a) (ih a)
  | attr ha _ ih =>
    intro a hmem
    simp only [List.mem_append, List.mem_cons] at hmem
    rcases hmem with h | rfl | h
    · exact ih a (List.mem_append_left _ h)
    · exact ha.values_depth_le
    · exact ih a (List.mem_append_right _ h)

theorem IsEntries.depth_le {ts : List (TokenKind × String)} {es : List ConfigEntry}
    (h : IsEntries true ts es) : ∀ e ∈ es, e.value.depth ≤ maxNesting := by
  induction h with
  | close => simp
  | entry _ hs _ ih =>
    intro e hmem
    rcases List.mem_append.1 hmem with h | h
    · obtain ⟨v, hv, rfl⟩ := Option.map_eq_some_iff.1 (Option.mem_toList.1 h)
      exact hs.depth_le v hv
    · exact ih e h

theorem IsBlock.values_depth_le {ts : List (TokenKind × String)} {b : Block}
    (h : IsBlock true ts b) : ∀ v ∈ b.values, v.depth ≤ maxNesting := by
  intro v hv
  cases h with
  | datasource he | generator he =>
    obtain ⟨e, he', rfl⟩ := List.mem_map.1 hv
    exact he.depth_le e he'
  | model hm | type hm =>
    obtain ⟨a, ha, hva⟩ := List.mem_flatMap.1 hv
    exact hm.values_depth_le a ha v hva
  | enum hm =>
    obtain ⟨a, ha, hva⟩ := List.mem_flatMap.1 hv
    exact hm.values_depth_le a ha v hva

end Grammar

namespace Parser

open Grammar

theorem valueAt_depth_le {d : Nat} {c c' : Cursor} {v : Value}
    (h : valueAt d c = .ok (some v) c') : v.depth ≤ maxNesting - d := by
  obtain ⟨ts, -, hv⟩ := (spans_valueAt_itemsAt _ c rfl).1 d v c' h
  exact hv.depth_le

theorem blocks_values_depth_le {s : Schema} {errs : List SyntaxError} {c : Cursor} :
    c.NoEof → (∀ v ∈ s.values, v.depth ≤ maxNesting) →
    ∀ v ∈ (blocks s errs c).1.values, v.depth ≤ maxNesting := by
  fun_induction blocks s errs c with
  | case1 => exact fun _ hs => hs
  | case2 s errs c heof hill c₁ hlt ih => exact fun hne hs => ih (hne.reach (Reach.advance c)) hs
  | case3 => exact fun _ hs => hs
  | case4 s errs c heof hill hkw b c₁ hblk hlt ih =>
    intro hne hs
    obtain ⟨ts, hsp, hib⟩ := spans_block hne hkw hblk
    refine ih (hne.reach hsp.reach) fun v hv => ?_
    exact (Schema.mem_values_push hv).elim (hs v) (hib.values_depth_le v)
  | case5 s errs c heof hill hkw b c₁ hblk hlt =>
    intro hne hs v hv
    obtain ⟨ts, -, hib⟩ := spans_block hne hkw hblk
    exact (Schema.mem_values_push hv).elim (hs v) (hib.values_depth_le v)
  | case6 s errs c base heof hill hkw e c₁ hblk c₂ hlt ih =>
    intro hne hs
    exact ih (hne.reach ((forward_of_error forward_block hblk).trans (reach_recover _ _))) hs
  | case7 => exact fun _ hs => hs
  | case8 s errs c heof hill hkw c₁ hlt ih => exact fun hne hs => ih (hne.reach (Reach.advance c)) hs
  | case9 => exact fun _ hs => hs

end Parser

/-! ## The bound is exact -/

theorem Value.Formed.valueAt_ok_iff {v : Value} (hf : v.Formed) {d : Nat} {c : Cursor}
    (hc : c.Sees v.tokens) (hnext : (advance^[v.tokens.length] c).kind ≠ .lParen) :
    (∃ r c', valueAt d c = .ok r c') ↔ v.depth ≤ maxNesting - d := by
  constructor
  · rintro ⟨r, c', h⟩
    by_contra hdeep
    obtain ⟨pre, hpre⟩ := hf.exists_firstOpen (Nat.lt_of_not_le hdeep)
    rw [hpre.valueAt_error hf rfl hc] at h
    cases h
  · intro hd
    exact ⟨_, _, (hf.readable hd).valueAt_sees hc hnext⟩

namespace Parser

/-- Values nest at most `maxNesting` deep, and the bound is exact. Every value the reader gives,
and every value in the schema of a text, nests at most `maxNesting` deep. A value written out
that is well formed at any depth, and not followed by `(`, reads exactly when it nests at most
`maxNesting` deep. Deeper, the reader stops with the nesting error at the `[` or the name of the
first list or call inside `maxNesting` others: the one that opens level `maxNesting + 1`. -/
theorem value_nesting_bound :
    (∀ (c c' : Cursor) (v : Value), value c = .ok (some v) c' → v.depth ≤ maxNesting) ∧
    (∀ src : String, ∀ v ∈ (Schema.parseSyntax src).1.values, v.depth ≤ maxNesting) ∧
    (∀ (v : Value) (c : Cursor), v.Formed → c.Sees v.tokens →
      (advance^[v.tokens.length] c).kind ≠ .lParen →
      ((∃ r c', value c = .ok r c') ↔ v.depth ≤ maxNesting)) ∧
    (∀ (v : Value) (c : Cursor), v.Formed → c.Sees v.tokens → maxNesting < v.depth →
      ∃ pre post, v.FirstOpen maxNesting pre ∧
        (v.tokens = pre ++ (.lBracket, "[") :: post ∨
          ∃ f, v.tokens = pre ++ (TokenKind.ofWord f, f) :: (.lParen, "(") :: post) ∧
        value c = .error ((advance^[pre.length] c).expected "value nesting of at most 128 levels")
          (advance^[pre.length] c)) := by
  refine ⟨fun c c' v h => valueAt_depth_le h, fun src => ?_, fun v c hf hc hnext => ?_,
    fun v c hf hc hdeep => ?_⟩
  · exact blocks_values_depth_le (ofText_noEof src) (by simp [Schema.values])
  · exact hf.valueAt_ok_iff hc hnext
  · obtain ⟨pre, hpre⟩ := hf.exists_firstOpen hdeep
    obtain ⟨post, htok⟩ := hpre.tokens_eq
    refine ⟨pre, post, hpre, htok, ?_⟩
    rw [← nesting_message]
    exact hpre.valueAt_error hf (d := 0) rfl hc

/-- A list of one number, written out, is well formed and reads. -/
theorem value_nesting_bound_list :
    (Value.list [.int "1"]).Formed ∧ (ofText "[1]").Sees (Value.list [.int "1"]).tokens ∧
      ∃ r c', value (ofText "[1]") = .ok r c' := by
  have hv : (ofText "[1]").ahead.map Token.view = (Value.list [.int "1"]).tokens := by
    decide +kernel
  obtain ⟨hs, hend⟩ := sees_of_map hv
  have hf : (Value.list [.int "1"]).Formed :=
    .list fun v hv => by
      rw [List.mem_singleton] at hv
      subst hv
      exact .int (by decide)
  refine ⟨hf, hs, (value_nesting_bound.2.2.1 _ _ hf hs (by rw [kind_of_nil hend]; decide)).2 ?_⟩
  simp [Value.depth, Value.itemsDepth, maxNesting]

end Parser

end DbSchema
