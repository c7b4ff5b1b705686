import DbSchema.Proofs.RoundTrip
import Mathlib.Data.Nat.Digits.Defs

/-! # Integer literals read as 64-bit integers

The lexer writes an integer literal as an optional `-` and ASCII digits, leading zeros allowed,
and the value reader keeps the literal as written (`Value.int`). `Value.asInt?` reads it as the
integer its digits denote in base ten, negated after a `-`, when that integer lies in the range
of 64-bit two's complement, from `-2^63` to `2^63 - 1`, and gives `none` outside that range; it
gives `none` for every float.

* `Value.decimal`: the number ASCII digits denote; `Value.Denotes l z`: the literal `l` is a
  sign and digits that denote `z`.
* `Value.readInt64?_of_isIntLit`: a literal of the lexer's form is read exactly within range.
* `Value.Inside`; `Value.Readable.isIntLit_of_inside`: every integer literal in a value the
  grammar reads has the lexer's form.
* `Parser.value_asInt?`: all of it for every value the reader gives from a text.
-/

namespace DbSchema

set_option autoImplicit false

open Scan

namespace Value

/-! ## What a literal denotes -/

/-- The number that the ASCII digits `ds` denote in base ten, the most significant first. -/
def decimal (ds : List Char) : Nat :=
  Nat.ofDigits 10 (ds.map fun c => c.toNat - '0'.toNat).reverse

/-- `Denotes l z`: the literal `l` is an optional `-` and ASCII digits, at least one, that
denote `z` in base ten, negated after the `-`. -/
def Denotes (l : String) (z : Int) : Prop :=
  ∃ (neg : Bool) (ds : List Char), ds ≠ [] ∧ (∀ x ∈ ds, x.isDigit = true) ∧
    l.toList = (if neg then '-' :: ds else ds) ∧
      z = if neg then -(decimal ds : Int) else decimal ds

theorem foldl_digits (a : Nat) (ds : List Char) :
    ds.foldl (fun n c => 10 * n + (c.toNat - '0'.toNat)) a = 10 ^ ds.length * a + decimal ds := by
  induction ds generalizing a with
  | nil => simp [decimal]
  | cons d ds ih =>
    rw [List.foldl_cons, ih, decimal, decimal, List.map_cons, List.reverse_cons,
      Nat.ofDigits_append, Nat.ofDigits_singleton, List.length_reverse, List.length_map,
      List.length_cons, Nat.pow_succ]
    ring

theorem digitsValue?_of_isDigits {ds : List Char} (h : isDigits ds = true) :
    digitsValue? ds = some (decimal ds) := by
  simp only [isDigits, Bool.and_eq_true, Bool.not_eq_true', List.isEmpty_eq_false_iff] at h
  rw [digitsValue?, if_pos ⟨h.1, h.2⟩, foldl_digits, Nat.mul_zero, Nat.zero_add]

theorem splitSign_of_isDigits {ds : List Char} (h : isDigits ds = true) :
    splitSign ds = (false, ds) := by
  obtain _ | ⟨d, ds⟩ := ds
  · simp [isDigits] at h
  · have hd : d.isDigit = true := by
      simp only [isDigits, List.all_cons, Bool.and_eq_true] at h
      exact h.2.1
    have hminus : d ≠ '-' := by
      rintro rfl
      exact absurd hd (by decide)
    have hplus : d ≠ '+' := by
      rintro rfl
      exact absurd hd (by decide)
    unfold splitSign
    split
    · next r heq => exact absurd (List.cons.inj heq).1 hminus
    · next r heq => exact absurd (List.cons.inj heq).1 hplus
    · rfl

theorem mem_digits_of_isDigits {ds : List Char} (h : isDigits ds = true) :
    ds ≠ [] ∧ ∀ x ∈ ds, x.isDigit = true := by
  simp only [isDigits, Bool.and_eq_true, Bool.not_eq_true', List.isEmpty_eq_false_iff,
    List.all_eq_true] at h
  exact h

theorem readInt64?_of_isIntLit {l : String} (h : isIntLit l.toList = true) :
    ∃ z, Denotes l z ∧
      readInt64? l = if -(2 ^ 63) ≤ z ∧ z ≤ 2 ^ 63 - 1 then some z else none := by
  have hsplit : ∃ (neg : Bool) (ds : List Char), isDigits ds = true ∧
      l.toList = (if neg then '-' :: ds else ds) ∧ splitSign l.toList = (neg, ds) := by
    cases hl : l.toList with
    | nil => rw [hl] at h; simp [isIntLit, isDigits] at h
    | cons c r =>
      rw [hl] at h
      by_cases hc : c = '-'
      · subst hc
        exact ⟨true, r, h, rfl, rfl⟩
      · have hd : isDigits (c :: r) = true := by
          rw [isIntLit.eq_2 _ fun ds he => hc (List.cons.inj he).1] at h
          exact h
        exact ⟨false, c :: r, hd, rfl, splitSign_of_isDigits hd⟩
  obtain ⟨neg, ds, hds, hl, hs⟩ := hsplit
  obtain ⟨hne, hdig⟩ := mem_digits_of_isDigits hds
  refine ⟨_, ⟨neg, ds, hne, hdig, hl, rfl⟩, ?_⟩
  rw [readInt64?, hs]
  dsimp only
  rw [digitsValue?_of_isDigits hds]
  rfl

/-! ## Integer literals inside a value -/

/-- `u.Inside v`: `u` is `v` or stands inside one of its lists and calls. -/
inductive Inside (u : Value) : Value → Prop
  | refl : Inside u u
  | list {v : Value} {vs : List Value} : v ∈ vs → Inside u v → Inside u (.list vs)
  | call {f : String} {v : Value} {vs : List Value} : v ∈ vs → Inside u v →
      Inside u (.call f vs)

theorem Readable.isIntLit_of_inside {d : Nat} {v : Value} (h : v.Readable d) {l : String}
    (hin : (Value.int l).Inside v) : isIntLit l.toList = true := by
  induction h with
  | int hl => cases hin with | refl => exact hl
  | list _ _ ih => cases hin with | list hw hin => exact ih _ hw hin
  | call _ _ _ ih => cases hin with | call hw hin => exact ih _ hw hin
  | str | float | bool | ident => cases hin

end Value

namespace Parser

open Cursor

/-- Every integer literal in a value that the reader gives, anywhere in a text, is an optional
`-` and ASCII digits, and `asInt?` reads it as the integer it denotes exactly when that integer
lies in `[-2^63, 2^63 - 1]`, and as nothing otherwise; no float reads as an integer. -/
theorem value_asInt? (src : String) (n : Nat) {v : Value} {c' : Cursor}
    (h : value (advance^[n] (ofText src)) = .ok (some v) c') :
    (∀ l, (Value.int l).Inside v → ∃ z, Value.Denotes l z ∧
      (Value.int l).asInt? = if -(2 ^ 63) ≤ z ∧ z ≤ 2 ^ 63 - 1 then some z else none) ∧
    ∀ l, (Value.float l).asInt? = none := by
  have hlex : (advance^[n] (ofText src)).Lexed := Lexed.reach (ofText_lexed src) ⟨n, rfl⟩
  have hv : v.Readable 0 := readable_valueAt hlex h
  exact ⟨fun l hin => Value.readInt64?_of_isIntLit (hv.isIntLit_of_inside hin), fun _ => rfl⟩

/-- A list read from a text holding `-2^63`, the least 64-bit integer, and `2^63`, one past the
largest. -/
theorem value_asInt?_int64_ends :
    ∃ c', value (advance^[0] (ofText "[-9223372036854775808, 9223372036854775808]")) =
        .ok (some (.list [.int "-9223372036854775808", .int "9223372036854775808"])) c' ∧
      (∀ l, (Value.int l).Inside
          (.list [.int "-9223372036854775808", .int "9223372036854775808"]) →
        ∃ z, Value.Denotes l z ∧
          (Value.int l).asInt? = if -(2 ^ 63) ≤ z ∧ z ≤ 2 ^ 63 - 1 then some z else none) ∧
      ∀ l, (Value.float l).asInt? = none := by
  have hv : (ofText "[-9223372036854775808, 9223372036854775808]").ahead.map Token.view =
      (Value.list [.int "-9223372036854775808", .int "9223372036854775808"]).tokens := by
    decide +kernel
  obtain ⟨hs, hend⟩ := sees_of_map hv
  have hr : (Value.list [.int "-9223372036854775808", .int "9223372036854775808"]).Readable 0 := by
    refine .list (by decide) fun u hu => ?_
    simp only [List.mem_cons, List.not_mem_nil, or_false] at hu
    rcases hu with rfl | rfl <;> exact .int (by decide)
  have hread := hr.valueAt_sees hs (by rw [kind_of_nil hend]; decide)
  exact ⟨_, hread, value_asInt? _ 0 hread⟩

end Parser

end DbSchema
