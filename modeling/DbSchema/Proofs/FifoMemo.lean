import DbSchema.Cache

/-! # The cache is a FIFO memo table

Asked one command after another, a `Cache` answers as a plain memo table of texts does
(`FifoMemo`): the table holds texts in the order they came in, and counts hits, misses and the
texts it forgot. Looking up a text it holds counts a hit and changes nothing else, so a hit does
not make a text younger. Looking up any other text counts a miss, forgets the oldest text while
the table is full, counting each one, and puts the new text last. Removing a text keeps the
others in their order; clearing forgets every text and keeps the counts. Every look-up gives
the result of reading the text against the cache's providers, whether it was held or not. The
counts of both are 64-bit words, which wrap around; and the second look-up of a miss, made before
the new entry goes in, never finds the text when the commands come one after another.

* `Cache.Command`, `Cache.Answer`: what a cache is asked and what it answers; `Cache.exec` and
  `Cache.run` ask a cache one command or a list of them.
* `FifoMemo.exec`, `FifoMemo.run`: the same for the memo table, whose eviction is written as the
  loop it is (`FifoMemo.evict`), one text at a time.
* `Cache.Coherent`: the texts of a cache are distinct, each of its entries holds the result of
  reading its text, and there are at most `capacity` of them.
* `Cache.exec_refines`: one command answers as the memo table does and leaves a coherent cache
  that the table sees as its own next state; `Cache.run_refines_fifoMemo`: so does every run of
  a fresh cache, which never holds more entries than its capacity.
-/

namespace DbSchema

set_option autoImplicit false

namespace Cache

/-- What a cache is asked. -/
inductive Command where
  | get (src : String)
  | contains (src : String)
  | remove (src : String)
  | clear
  | len
  | stats
deriving DecidableEq, Repr

/-- What a cache answers: the result of a look-up and whether the text was held, a yes or no,
a number of entries, the counts, or nothing. -/
inductive Answer where
  | parsed (p : Parsed) (hit : Bool)
  | flag (b : Bool)
  | count (n : Nat)
  | stats (s : CacheStats)
  | done
deriving Repr

/-- Asks the cache one command: its answer and the cache after it. -/
def exec (c : Cache) : Command → Answer × Cache
  | .get src =>
    let (p, hit, c') := c.get src
    (.parsed p hit, c')
  | .contains src => (.flag (c.contains src), c)
  | .remove src =>
    let (had, c') := c.remove src
    (.flag had, c')
  | .clear => (.done, c.clear)
  | .len => (.count c.size, c)
  | .stats => (.stats c.stats, c)

/-- The answers to the commands, asked in order. -/
def run (c : Cache) : List Command → List Answer
  | [] => []
  | cmd :: cmds => (c.exec cmd).1 :: (c.exec cmd).2.run cmds

/-- The cache after the commands. -/
def after (c : Cache) (cmds : List Command) : Cache :=
  cmds.foldl (fun c cmd => (c.exec cmd).2) c

end Cache

/-- A memo table of texts: the texts it holds, oldest first, and the counts of hits, misses and
texts forgotten to make room. -/
structure FifoMemo where
  texts : List String
  hits : UInt64
  misses : UInt64
  evictions : UInt64
deriving DecidableEq, Repr

namespace FifoMemo

/-- The table with no text and no counts. -/
def empty : FifoMemo :=
  ⟨[], 0, 0, 0⟩

/-- Forgets the oldest text while at least `cap` are held, adding one to `gone` for each. -/
def evict (cap : Nat) : List String → UInt64 → List String × UInt64
  | [], gone => ([], gone)
  | t :: ts, gone => if cap ≤ ts.length + 1 then evict cap ts (gone + 1) else (t :: ts, gone)

/-- One command on a table that holds at most `cap` texts and reads them against
`providers`: its answer and the table after it. -/
def exec (cap : Nat) (providers : List String) (m : FifoMemo) :
    Cache.Command → Cache.Answer × FifoMemo
  | .get src =>
    if src ∈ m.texts then
      (.parsed (Schema.parseWith providers src) true, { m with hits := m.hits + 1 })
    else
      let (kept, gone) := evict cap m.texts m.evictions
      (.parsed (Schema.parseWith providers src) false,
        { m with texts := kept ++ [src], misses := m.misses + 1, evictions := gone })
  | .contains src => (.flag (decide (src ∈ m.texts)), m)
  | .remove src => (.flag (decide (src ∈ m.texts)), { m with texts := m.texts.erase src })
  | .clear => (.done, { m with texts := [] })
  | .len => (.count m.texts.length, m)
  | .stats => (.stats ⟨m.hits, m.misses, m.evictions, m.texts.length⟩, m)

/-- The answers of the table to the commands, asked in order. -/
def run (cap : Nat) (providers : List String) (m : FifoMemo) : List Cache.Command →
    List Cache.Answer
  | [] => []
  | cmd :: cmds => (m.exec cap providers cmd).1 :: (m.exec cap providers cmd).2.run cap providers cmds

theorem evict_eq {cap : Nat} (hcap : 0 < cap) (ts : List String) (gone : UInt64) :
    evict cap ts gone =
      (ts.drop (ts.length + 1 - cap), gone + (ts.length + 1 - cap).toUInt64) := by
  induction ts generalizing gone with
  | nil =>
    have h : 0 + 1 - cap = 0 := by omega
    simp [evict, h]
  | cons t ts ih =>
    rw [evict]
    split
    · rename_i hfull
      have h : ts.length + 1 + 1 - cap = (ts.length + 1 - cap) + 1 := by omega
      rw [ih, List.length_cons, h, List.drop_succ_cons, Nat.toUInt64_eq, Nat.toUInt64_eq,
        UInt64.ofNat_add, UInt64.add_comm _ (UInt64.ofNat 1), UInt64.add_assoc]
      rfl
    · rename_i hroom
      have h : ts.length + 1 + 1 - cap = 0 := by omega
      simp [h]

end FifoMemo

namespace Cache

/-! ## The memo table a cache holds -/

/-- The texts a cache holds, oldest first. -/
def keys (c : Cache) : List String :=
  c.entries.map (·.1)

/-- The memo table that the cache is: its texts and its counts. -/
def memo (c : Cache) : FifoMemo :=
  ⟨c.keys, c.hits, c.misses, c.evictions⟩

/-- What every cache driven from empty keeps: distinct texts, each held with the result of
reading it, and no more of them than the capacity, which is at least one. -/
structure Coherent (c : Cache) : Prop where
  nodup : c.keys.Nodup
  parsed : ∀ e ∈ c.entries, e.2 = Schema.parseWith c.providers e.1
  size_le : c.entries.length ≤ c.capacity
  capacity_pos : 0 < c.capacity

theorem coherent_empty (n : Nat) (providers : List String) : (empty n providers).Coherent where
  nodup := List.nodup_nil
  parsed := fun _ h => absurd h List.not_mem_nil
  size_le := Nat.zero_le _
  capacity_pos := Nat.lt_of_lt_of_le Nat.zero_lt_one (Nat.le_max_right n 1)

theorem contains_eq (c : Cache) (src : String) : c.contains src = decide (src ∈ c.keys) := by
  rw [contains, keys, Bool.eq_iff_iff, List.any_eq_true, decide_eq_true_iff, List.mem_map]
  simp only [beq_iff_eq]

theorem find?_eq_none_iff (c : Cache) (src : String) :
    c.entries.find? (·.1 == src) = none ↔ src ∉ c.keys := by
  rw [List.find?_eq_none, keys, List.mem_map]
  constructor
  · rintro h ⟨e, he, rfl⟩
    exact h e he (beq_self_eq_true e.1)
  · intro h e he hsrc
    exact h ⟨e, he, beq_iff_eq.mp hsrc⟩

theorem find?_eq_some {c : Cache} (hc : c.Coherent) {src : String} {e : String × Parsed}
    (h : c.entries.find? (·.1 == src) = some e) :
    e = (src, Schema.parseWith c.providers src) := by
  have hkey : e.1 = src := by simpa using List.find?_some h
  have hval := hc.parsed e (List.mem_of_find?_eq_some h)
  rw [hkey] at hval
  exact Prod.ext hkey hval

theorem keys_filter {c : Cache} (hc : c.Coherent) (src : String) :
    (c.entries.filter (·.1 != src)).map (·.1) = c.keys.erase src := by
  rw [hc.nodup.erase_eq_filter, keys, List.filter_map]
  rfl

/-! ## One command -/

theorem exec_get_of_mem {c : Cache} (hc : c.Coherent) {src : String} (h : src ∈ c.keys) :
    c.exec (.get src) =
      (.parsed (Schema.parseWith c.providers src) true, { c with hits := c.hits + 1 }) := by
  have hne : c.entries.find? (·.1 == src) ≠ none := fun h' => (c.find?_eq_none_iff src).mp h' h
  obtain ⟨e, he⟩ := Option.ne_none_iff_exists'.mp hne
  rw [find?_eq_some hc he] at he
  simp [exec, get, he]

theorem exec_get_of_not_mem (c : Cache) {src : String} (h : src ∉ c.keys) :
    c.exec (.get src) =
      (.parsed (Schema.parseWith c.providers src) false,
        { c with
          entries := c.entries.drop (c.entries.length + 1 - c.capacity) ++
            [(src, Schema.parseWith c.providers src)]
          misses := c.misses + 1
          evictions := c.evictions + (c.entries.length + 1 - c.capacity).toUInt64 }) := by
  simp [exec, get, (c.find?_eq_none_iff src).mpr h]

theorem coherent_miss {c : Cache} (hc : c.Coherent) {src : String} (h : src ∉ c.keys) :
    Coherent { c with
      entries := c.entries.drop (c.entries.length + 1 - c.capacity) ++
        [(src, Schema.parseWith c.providers src)]
      misses := c.misses + 1
      evictions := c.evictions + (c.entries.length + 1 - c.capacity).toUInt64 } where
  nodup := by
    have hkept : List.Sublist ((c.entries.drop (c.entries.length + 1 - c.capacity)).map (·.1))
        c.keys :=
      (List.drop_sublist _ _).map _
    simp only [keys, List.map_append, List.map_cons, List.map_nil]
    refine List.nodup_append.mpr ⟨hc.nodup.sublist hkept, List.pairwise_singleton _ _, ?_⟩
    intro a ha b hb hab
    rw [List.mem_singleton] at hb
    rw [hb] at hab
    rw [hab] at ha
    exact h (hkept.subset ha)
  parsed := by
    intro e he
    rcases List.mem_append.mp he with he | he
    · exact hc.parsed e (List.mem_of_mem_drop he)
    · rw [List.mem_singleton.mp he]
  size_le := by
    have hle := hc.size_le
    have hpos := hc.capacity_pos
    show (c.entries.drop (c.entries.length + 1 - c.capacity) ++
      [(src, Schema.parseWith c.providers src)]).length ≤ c.capacity
    rw [List.length_append, List.length_drop, List.length_singleton]
    omega
  capacity_pos := hc.capacity_pos

theorem coherent_exec {c : Cache} (hc : c.Coherent) (cmd : Command) : (c.exec cmd).2.Coherent := by
  cases cmd with
  | get src =>
    by_cases h : src ∈ c.keys
    · rw [exec_get_of_mem hc h]
      exact ⟨hc.nodup, hc.parsed, hc.size_le, hc.capacity_pos⟩
    · rw [exec_get_of_not_mem c h]
      exact coherent_miss hc h
  | remove src =>
    refine ⟨?_, fun e he => hc.parsed e (List.mem_filter.mp he).1, ?_, hc.capacity_pos⟩
    · show ((c.entries.filter (·.1 != src)).map (·.1)).Nodup
      rw [keys_filter hc]
      exact hc.nodup.erase src
    · exact Nat.le_trans (List.length_filter_le _ _) hc.size_le
  | clear => exact ⟨List.nodup_nil, fun _ h => absurd h List.not_mem_nil, Nat.zero_le _, hc.capacity_pos⟩
  | contains | len | stats => exact hc

theorem exec_capacity (c : Cache) (cmd : Command) : (c.exec cmd).2.capacity = c.capacity := by
  cases cmd with
  | get src =>
    simp only [exec, get]
    split <;> rfl
  | contains | remove | clear | len | stats => rfl

theorem exec_providers (c : Cache) (cmd : Command) : (c.exec cmd).2.providers = c.providers := by
  cases cmd with
  | get src =>
    simp only [exec, get]
    split <;> rfl
  | contains | remove | clear | len | stats => rfl

theorem exec_refines {c : Cache} (hc : c.Coherent) (cmd : Command) :
    ((c.exec cmd).1, (c.exec cmd).2.memo) = c.memo.exec c.capacity c.providers cmd := by
  have htexts : c.memo.texts = c.keys := rfl
  cases cmd with
  | get src =>
    by_cases h : src ∈ c.keys
    · rw [exec_get_of_mem hc h, FifoMemo.exec, if_pos (htexts ▸ h)]
      rfl
    · rw [exec_get_of_not_mem c h, FifoMemo.exec, if_neg (htexts ▸ h),
        FifoMemo.evict_eq hc.capacity_pos]
      simp [memo, keys, List.map_drop]
  | contains src =>
    rw [exec, FifoMemo.exec, contains_eq]
    rfl
  | remove src =>
    rw [exec, FifoMemo.exec, htexts, ← keys_filter hc]
    simp only [remove, contains_eq]
    rfl
  | clear => rfl
  | len => simp [exec, FifoMemo.exec, memo, keys, size]
  | stats => simp [exec, FifoMemo.exec, memo, keys, stats, size]

/-! ## Runs -/

theorem after_capacity (c : Cache) (cmds : List Command) : (c.after cmds).capacity = c.capacity := by
  induction cmds generalizing c with
  | nil => rfl
  | cons cmd cmds ih => exact (ih (c.exec cmd).2).trans (exec_capacity c cmd)

theorem run_refines {c : Cache} (hc : c.Coherent) (cmds : List Command) :
    c.run cmds = c.memo.run c.capacity c.providers cmds ∧ (c.after cmds).Coherent := by
  induction cmds generalizing c with
  | nil => exact ⟨rfl, hc⟩
  | cons cmd cmds ih =>
    have hstep := exec_refines hc cmd
    obtain ⟨hrun, hafter⟩ := ih (coherent_exec hc cmd)
    rw [exec_capacity, exec_providers] at hrun
    refine ⟨?_, hafter⟩
    rw [run, FifoMemo.run, ← hstep, hrun]

/-- A fresh cache of limit `n`, reading against any providers and asked any commands in turn,
answers each of them as the FIFO memo table of capacity `max n 1` does, every look-up giving the
result of reading its text; and it never holds more than `max n 1` entries. -/
theorem run_refines_fifoMemo (n : Nat) (providers : List String) (cmds : List Command) :
    (empty n providers).run cmds = FifoMemo.empty.run (max n 1) providers cmds ∧
      ((empty n providers).after cmds).size ≤ max n 1 := by
  obtain ⟨hrun, hafter⟩ := run_refines (coherent_empty n providers) cmds
  refine ⟨hrun, ?_⟩
  have hsize := hafter.size_le
  rw [after_capacity] at hsize
  exact hsize

/-- A hit does not make a text younger: a cache of two asked for `a`, `b`, `a` and `c` forgets
`a`, the oldest, and keeps `b` and `c`. -/
example : ((empty 2 []).after [.get "a", .get "b", .get "a", .get "c"]).keys = ["b", "c"] ∧
    ((empty 2 []).after [.get "a", .get "b", .get "a", .get "c"]).stats = ⟨1, 3, 1, 2⟩ := by
  decide

end Cache

end DbSchema
