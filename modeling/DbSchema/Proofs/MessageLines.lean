import DbSchema.Proofs.ErrorSite
import DbSchema.Proofs.OneLine
import DbSchema.Proofs.SafeNames

/-! # Every message is one line

A syntax error is about the token where reading stopped: it names that token, and a kind of token
or the nesting limit it wanted there. A problem that validation reports names blocks, members,
types, attributes and providers, and numbers. Tokens other than line breaks, and the texts of a
schema read from a text, lie on one line (`Proofs/OneLine`), and so do the default providers; so
no message of reading and validating a text holds a line break. Collapsed into one refusal, the
messages therefore stand one per line under a header that counts them.

* `Parser.blocks_stopErrors`: every error of the loop over blocks is a `StopError` of a cursor
  it reached.
* `Schema.parseSyntax_errors_oneLine`, `Schema.diagnose_oneLine`: the two kinds of message.
* `Schema.parse_messages_single_line`: all of it for `Schema.parse` and the refusal of
  `Schema.parseAndValidate`.
-/

namespace DbSchema

set_option autoImplicit false

open Cursor

/-! ## Syntax errors -/

namespace Parser

theorem blocks_stopErrors {s : Schema} {errs : List SyntaxError} {c : Cursor} :
    ∀ e ∈ (blocks s errs c).2, e ∈ errs ∨ ∃ c', c.Reach c' ∧ StopError c' e := by
  fun_induction blocks s errs c with
  | case1 | case3 | case5 => exact fun e he => .inl (List.mem_reverse.mp he)
  | case2 s errs c heof hill c₁ hlt ih =>
    intro e he
    rcases ih e he with h | ⟨c', hr, hs⟩
    · exact .inl h
    · exact .inr ⟨c', (Reach.advance c).trans hr, hs⟩
  | case4 s errs c heof hill hkw b c₁ hblk hlt ih =>
    intro e he
    rcases ih e he with h | ⟨c', hr, hs⟩
    · exact .inl h
    · exact .inr ⟨c', (forward_of_ok forward_block hblk).trans hr, hs⟩
  | case6 s errs c base heof hill hkw e₀ c₁ hblk c₂ hlt ih =>
    intro e he
    have hr₁ : c.Reach c₁ := forward_of_error forward_block hblk
    rcases ih e he with h | ⟨c', hr, hs⟩
    · rcases List.mem_cons.mp h with rfl | h
      · exact .inr ⟨c₁, hr₁, reportsAtStop_block c c₁ e hblk⟩
      · exact .inl h
    · exact .inr ⟨c', (hr₁.trans (reach_recover _ _)).trans hr, hs⟩
  | case7 s errs c base heof hill hkw e₀ c₁ hblk c₂ hlt =>
    intro e he
    rcases List.mem_cons.mp (List.mem_reverse.mp he) with rfl | h
    · exact .inr ⟨c₁, forward_of_error forward_block hblk, reportsAtStop_block c c₁ e hblk⟩
    · exact .inl h
  | case8 s errs c heof hill hkw c₁ hlt ih =>
    intro e he
    rcases ih e he with h | ⟨c', hr, hs⟩
    · rcases List.mem_cons.mp h with rfl | h
      · exact .inr ⟨c, Reach.refl c, .unexpected⟩
      · exact .inl h
    · exact .inr ⟨c', (Reach.advance c).trans hr, hs⟩
  | case9 s errs c heof hill hkw c₁ hlt =>
    intro e he
    rcases List.mem_cons.mp (List.mem_reverse.mp he) with rfl | h
    · exact .inr ⟨c, Reach.refl c, .unexpected⟩
    · exact .inl h

theorem StopError.oneLine_message {c : Cursor} {e : SyntaxError} (h : StopError c e)
    (hc : ∀ t ∈ c.ahead, OneLine t.text) : OneLine e.message := by
  have hfound := Token.oneLine_describe (oneLine_current hc)
  cases h <;> delta SyntaxError.message Cursor.expected Cursor.unexpected <;> dsimp only
  case expected k => simp +decide [hfound, TokenKind.oneLine_describe k]
  all_goals simp +decide [hfound]

end Parser

theorem Schema.parseSyntax_errors_oneLine (src : String) :
    ∀ e ∈ (parseSyntax src).2, OneLine e.message := by
  intro e he
  rcases Parser.blocks_stopErrors e he with h | ⟨c', hr, hs⟩
  · cases h
  · exact hs.oneLine_message (hr.forall_ahead (ofText_oneLine src))

/-! ## What validation reads from a schema -/

theorem OneLine.of_mem_intercalate {sep x : String} {xs : List String}
    (h : OneLine (sep.intercalate xs)) (hx : x ∈ xs) : OneLine x := by
  intro hmem
  apply h
  rw [String.toList_intercalate]
  clear h
  induction xs with
  | nil => cases hx
  | cons y ys ih =>
    cases ys with
    | nil =>
      rw [List.map_cons, List.map_nil, List.intercalate_singleton, ← List.mem_singleton.mp hx]
      exact hmem
    | cons z zs =>
      rw [List.map_cons, List.intercalate_cons_of_ne_nil (by simp)]
      rcases List.mem_cons.mp hx with rfl | hx
      · exact List.mem_append_left _ (List.mem_append_left _ hmem)
      · exact List.mem_append_right _ (ih hx)

theorem Value.oneLine_asName? {v : Value} {x : String} (hv : OneLine v.display)
    (hx : v.asName? = some x) : OneLine x := by
  cases v with
  | str s =>
    cases hx
    exact ((oneLine_append.mp hv).1 |> oneLine_append.mp).2
  | ident n =>
    cases hx
    exact hv
  | _ => cases hx

theorem Attribute.oneLine_name {a : Attribute} (h : OneLine a.display) : OneLine a.name :=
  ((oneLine_append.mp h).1 |> oneLine_append.mp).2

theorem Attribute.oneLine_arg? {a : Attribute} {n : String} {v : Value} (h : OneLine a.display)
    (hv : a.arg? n = some v) : OneLine v.display := by
  obtain ⟨arg, hfind, rfl⟩ := Option.map_eq_some_iff.mp hv
  have hmem := List.mem_of_find?_eq_some hfind
  have hargs : OneLine (", ".intercalate (a.args.map Argument.display)) := by
    have hrest := (oneLine_append.mp h).2
    rw [if_neg (by simpa using List.ne_nil_of_mem hmem)] at hrest
    exact ((oneLine_append.mp hrest).1 |> oneLine_append.mp).2
  have harg := hargs.of_mem_intercalate (List.mem_map_of_mem hmem)
  unfold Argument.display at harg
  split at harg
  · exact (oneLine_append.mp harg).2
  · exact harg

theorem FieldType.oneLine_name {t : FieldType} (h : OneLine t.display) : OneLine t.name := by
  have hbase := (oneLine_append.mp (oneLine_append.mp h).1).1
  unfold FieldType.name
  split
  · next n hn =>
    simp only [hn] at hbase
    exact hbase
  · decide

theorem oneLine_found_entry {es : List ConfigEntry} {n : String} {v : Value}
    (h : ∀ e ∈ es, OneLine e.value.display) (hv : entry? es n = some v) : OneLine v.display := by
  obtain ⟨e, hfind, rfl⟩ := Option.map_eq_some_iff.mp hv
  exact h e (List.mem_of_find?_eq_some hfind)

theorem mem_of_mem_repeatsAfter {seen names : List String} {n : String}
    (h : n ∈ repeatsAfter seen names) : n ∈ names := by
  fun_induction repeatsAfter seen names with
  | case1 => cases h
  | case2 seen m ns _ ih =>
    rcases List.mem_cons.mp h with rfl | h
    · exact List.mem_cons_self
    · exact List.mem_cons_of_mem _ (ih h)
  | case3 seen m ns _ ih => exact List.mem_cons_of_mem _ (ih h)

theorem mem_of_mem_repeats {names : List String} {n : String} (h : n ∈ repeats names) :
    n ∈ names :=
  mem_of_mem_repeatsAfter h

/-! ## Problems -/

/-- The texts an issue names lie on one line. -/
def Issue.TextsOneLine : Issue → Prop
  | .missingProvider kind name | .duplicate kind name => OneLine kind ∧ OneLine name
  | .unsupportedProvider ds p allowed => OneLine ds ∧ OneLine p ∧ ∀ a ∈ allowed, OneLine a
  | .duplicateMember kind owner name => OneLine kind ∧ OneLine owner ∧ OneLine name
  | .emptyTypeName owner field | .relationArity owner field _ _ => OneLine owner ∧ OneLine field
  | .invalidAttribute attr target reason => OneLine attr ∧ OneLine target ∧ OneLine reason
  | .missingName name | .emptyEnum name => OneLine name
  | .unknownRelationTarget model field target => OneLine model ∧ OneLine field ∧ OneLine target

theorem Issue.oneLine_message {i : Issue} (h : i.TextsOneLine) : OneLine i.message := by
  cases i <;> delta Issue.message <;> dsimp only <;> simp only [TextsOneLine] at h
  case unsupportedProvider ds p allowed =>
    simp +decide [h.1, h.2.1, oneLine_intercalate (show OneLine ", " by decide) h.2.2]
  all_goals simp +decide [h]

namespace Validation

theorem datasourceIssues_oneLine {providers : List String} (hp : ∀ p ∈ providers, OneLine p)
    {d : Datasource} (hd : (Block.datasource d).TextsOneLine) :
    ∀ i ∈ datasourceIssues providers d, OneLine i.message := by
  obtain ⟨hname, hentries⟩ := hd
  unfold datasourceIssues
  split
  · exact List.forall_mem_singleton.mpr (Issue.oneLine_message ⟨by decide, hname⟩)
  · next p hprov =>
    have hp' : OneLine p :=
      Value.oneLine_asName? (oneLine_found_entry (fun e he => (hentries e he).2) hprov) rfl
    split
    · simp
    · exact List.forall_mem_singleton.mpr (Issue.oneLine_message ⟨hname, hp', hp⟩)
  · simp

theorem generatorIssues_oneLine {g : Generator} (hg : (Block.generator g).TextsOneLine) :
    ∀ i ∈ generatorIssues g, OneLine i.message := by
  unfold generatorIssues
  split
  · exact List.forall_mem_singleton.mpr (Issue.oneLine_message ⟨by decide, hg.1⟩)
  · simp

theorem fieldAttributeIssues_oneLine {target : String} (ht : OneLine target) (a : Attribute) :
    ∀ i ∈ fieldAttributeIssues target a, OneLine i.message := by
  unfold fieldAttributeIssues
  split
  · exact List.forall_mem_singleton.mpr (Issue.oneLine_message ⟨by decide, ht, by decide⟩)
  · split
    · exact List.forall_mem_singleton.mpr (Issue.oneLine_message ⟨by decide, ht, by decide⟩)
    · simp

theorem fieldIssues_oneLine {owner : String} (ho : OneLine owner) {fields : List Field}
    (hf : ∀ f ∈ fields, f.TextsOneLine) : ∀ i ∈ fieldIssues owner fields, OneLine i.message := by
  intro i hi
  rcases List.mem_append.mp hi with hi | hi
  · obtain ⟨n, hn, rfl⟩ := List.mem_map.mp hi
    obtain ⟨f, hmem, rfl⟩ := List.mem_map.mp (mem_of_mem_repeats hn)
    exact Issue.oneLine_message ⟨by decide, ho, (hf f hmem).name⟩
  · obtain ⟨f, hmem, hi⟩ := List.mem_flatMap.mp hi
    have hname := (hf f hmem).name
    rcases List.mem_append.mp hi with hi | hi
    · split at hi
      · rw [List.mem_singleton.mp hi]
        exact Issue.oneLine_message ⟨ho, hname⟩
      · cases hi
    · obtain ⟨a, -, ha⟩ := List.mem_flatMap.mp hi
      have htarget : OneLine (owner ++ "." ++ f.name) :=
        oneLine_append.mpr ⟨oneLine_append.mpr ⟨ho, by decide⟩, hname⟩
      exact fieldAttributeIssues_oneLine htarget a i ha

theorem blockAttributeIssues_oneLine {owner : String} (ho : OneLine owner) {a : Attribute}
    (ha : OneLine a.display) : ∀ i ∈ blockAttributeIssues owner a, OneLine i.message := by
  unfold blockAttributeIssues
  split
  · have hattr : OneLine ("@" ++ a.name) :=
      oneLine_append.mpr ⟨by decide, Attribute.oneLine_name ha⟩
    exact List.forall_mem_singleton.mpr (Issue.oneLine_message ⟨hattr, ho, by decide⟩)
  · simp

theorem enumIssues_oneLine {e : Enum} (he : (Block.enum e).TextsOneLine) :
    ∀ i ∈ enumIssues e, OneLine i.message := by
  obtain ⟨hname, hvalues, -⟩ := he
  intro i hi
  simp only [enumIssues, List.mem_append, List.mem_map] at hi
  rcases hi with (hi | hi) | ⟨n, hn, rfl⟩
  · split at hi
    · rw [List.mem_singleton.mp hi]
      exact Issue.oneLine_message (show OneLine "enum" by decide)
    · cases hi
  · split at hi
    · rw [List.mem_singleton.mp hi]
      exact Issue.oneLine_message hname
    · cases hi
  · obtain ⟨v, hmem, rfl⟩ := List.mem_map.mp (mem_of_mem_repeats hn)
    exact Issue.oneLine_message ⟨by decide, hname, (hvalues v hmem).1⟩

theorem relationIssues_oneLine (s : Schema) {m : Model} (hm : OneLine m.name) {f : Field}
    (hf : f.TextsOneLine) : ∀ i ∈ relationIssues s m f, OneLine i.message := by
  unfold relationIssues
  split
  · simp
  · next r hr =>
    have hrd : OneLine r.display := hf.attributes r (List.mem_of_find?_eq_some hr)
    have htarget : OneLine (relationTarget f r) := by
      unfold relationTarget
      cases hmodel : (r.arg? "model").bind Value.asName? with
      | none => exact FieldType.oneLine_name hf.type
      | some x =>
        obtain ⟨v, hv, hx⟩ := Option.bind_eq_some_iff.mp hmodel
        exact Value.oneLine_asName? (Attribute.oneLine_arg? hrd hv) hx
    refine List.forall_mem_append.mpr ⟨?_, ?_⟩
    · split
      · exact List.forall_mem_singleton.mpr (Issue.oneLine_message ⟨hm, hf.name, htarget⟩)
      · simp
    · split
      · split
        · exact List.forall_mem_singleton.mpr (Issue.oneLine_message ⟨hm, hf.name⟩)
        · simp
      · simp

end Validation

open Validation in
theorem Schema.diagnose_oneLine {providers : List String} (hp : ∀ p ∈ providers, OneLine p)
    {s : Schema} (hs : s.Blockwise Block.TextsOneLine) :
    ∀ i ∈ s.diagnose providers, OneLine i.message := by
  intro i hi
  simp only [diagnose, List.mem_append, List.mem_flatMap, List.mem_map] at hi
  rcases hi with ((((((⟨d, hd, hi⟩ | ⟨g, hg, hi⟩) | ⟨n, hn, rfl⟩) | ⟨m, hm, hi⟩) | ⟨n, hn, rfl⟩) |
    ⟨t, ht, hi⟩) | ⟨e, he, hi⟩) | ⟨m, hm, f, hf, hi⟩
  · exact datasourceIssues_oneLine hp (hs.datasources d hd) i hi
  · exact generatorIssues_oneLine (hs.generators g hg) i hi
  · obtain ⟨m, hm, rfl⟩ := List.mem_map.mp (mem_of_mem_repeats hn)
    exact Issue.oneLine_message ⟨by decide, (hs.models m hm).1⟩
  · obtain ⟨hname, hfs, has⟩ := hs.models m hm
    rcases List.mem_append.mp hi with hi | hi
    · exact fieldIssues_oneLine hname hfs i hi
    · obtain ⟨a, ha, hi⟩ := List.mem_flatMap.mp hi
      exact blockAttributeIssues_oneLine hname (has a ha) i hi
  · obtain ⟨t, ht, rfl⟩ := List.mem_map.mp (mem_of_mem_repeats hn)
    exact Issue.oneLine_message ⟨by decide, (hs.types t ht).1⟩
  · obtain ⟨hname, hfs, -⟩ := hs.types t ht
    exact fieldIssues_oneLine hname hfs i hi
  · exact enumIssues_oneLine (hs.enums e he) i hi
  · obtain ⟨hname, hfs, -⟩ := hs.models m hm
    exact relationIssues_oneLine s hname (hfs f hf) i hi

/-! ## The messages of reading and validating a text -/

theorem Parsed.toSchema_of_ne_nil {p : Parsed} (h : p.errors ≠ []) :
    p.toSchema = .error (.validationFailed p.errors) := by
  simp [Parsed.toSchema, h]

theorem Parsed.check_of_ne_nil {p : Parsed} (h : p.errors ≠ []) :
    p.check = .error (.invalidSchema p.errors.length) := by
  simp [Parsed.check, h]

theorem Refusal.message_validationFailed {ms : List String} (hne : ms ≠ []) :
    (Refusal.validationFailed ms).message =
      "\n".intercalate
        (s!"schema validation failed with {ms.length} error(s):" :: ms.map ("  - " ++ ·)) := by
  obtain ⟨m, ms', rfl⟩ := List.exists_cons_of_ne_nil hne
  delta Refusal.message
  dsimp only
  rw [List.map_cons, String.intercalate_cons_cons,
    show toString " error(s):\n" = toString " error(s):" ++ "\n" by rfl]
  simp only [String.append_assoc]

/-- No message of reading and validating any text holds a line break, whether a syntax error or
a problem found by the default validation. So when reading and validating fails, there are
`N > 0` messages; the refusal's message is the header `schema validation failed with N error(s):`
and then exactly one line `  - m` for each message `m`, in order; and `Parsed.check` refuses the
text as having `N` errors. -/
theorem Schema.parse_messages_single_line (src : String) :
    (∀ m ∈ (parse src).errors, '\n' ∉ m.toList) ∧
      ∀ r, parseAndValidate src = .error r →
        0 < (parse src).errors.length ∧
        r.message.toList.splitOn '\n' =
          s!"schema validation failed with {(parse src).errors.length} error(s):".toList ::
            (parse src).errors.map (fun m => ("  - " ++ m).toList) ∧
        (parse src).check = .error (.invalidSchema (parse src).errors.length) := by
  have hone : ∀ m ∈ (parse src).errors, OneLine m := by
    intro m hm
    rw [parse, parseWith_errors, List.mem_append, List.mem_map, List.mem_map] at hm
    rcases hm with ⟨e, he, rfl⟩ | ⟨i, hi, rfl⟩
    · exact parseSyntax_errors_oneLine src e he
    · exact diagnose_oneLine (by decide) (parseSyntax_textsOneLine src) i hi
  refine ⟨hone, fun r hr => ?_⟩
  have hne : (parse src).errors ≠ [] := by
    intro he
    simp [parseAndValidate, Parsed.toSchema, he] at hr
  rw [parseAndValidate, Parsed.toSchema_of_ne_nil hne, Except.error.injEq] at hr
  subst hr
  have hlines : ∀ l ∈ s!"schema validation failed with {(parse src).errors.length} error(s):" ::
      (parse src).errors.map ("  - " ++ ·), OneLine l := by
    intro l hl
    rcases List.mem_cons.mp hl with rfl | hl
    · simp +decide
    · obtain ⟨m, hm, rfl⟩ := List.mem_map.mp hl
      simp +decide [hone m hm]
  refine ⟨List.length_pos_iff.mpr hne, ?_, Parsed.check_of_ne_nil hne⟩
  rw [Refusal.message_validationFailed hne,
    String.splitOn_toList_intercalate rfl (List.cons_ne_nil _ _) hlines, List.map_cons, List.map_map]
  rfl

end DbSchema
