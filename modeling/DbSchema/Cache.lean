import DbSchema.Parsed

/-!
# A cache of parsed schemas

A `Cache` remembers the results of reading texts, keyed by the text, so that reading the same
text again costs nothing. It holds at most `capacity` results and forgets the oldest first:
the order is that of insertion, a hit does not make an entry younger, and removing an entry
keeps the order of the others. It counts hits, misses and the entries it had to forget;
clearing it forgets every entry and keeps the counts. The counts are 64-bit words, which wrap
around past `2^64 - 1`.
-/

namespace DbSchema

/-- The counts of a cache. -/
structure CacheStats where
  hits : UInt64
  misses : UInt64
  evictions : UInt64
  cachedCount : Nat
deriving DecidableEq, Repr

/-- A cache of parsed schemas, validated against `providers`. -/
structure Cache where
  /-- The most entries it holds; at least one. -/
  capacity : Nat
  providers : List String
  /-- The entries, oldest first. -/
  entries : List (String × Parsed)
  hits : UInt64
  misses : UInt64
  evictions : UInt64
deriving Repr

namespace Cache

/-- The number of entries a cache holds when no other limit is given. -/
def defaultCapacity : Nat := 1024

/-- An empty cache for at most `maxEntries` entries; a limit of zero holds one entry. -/
def empty (maxEntries : Nat) (providers : List String) : Cache :=
  ⟨max maxEntries 1, providers, [], 0, 0, 0⟩

def contains (c : Cache) (src : String) : Bool :=
  c.entries.any (·.1 == src)

def size (c : Cache) : Nat :=
  c.entries.length

/-- The result for the text `src`, and whether it was held: a hit counts as such, a miss reads
the text and counts as such; then, unless the entries hold the text by now, it forgets the oldest
entries until there is room and keeps the result as the youngest entry. -/
def get (c : Cache) (src : String) : Parsed × Bool × Cache :=
  match c.entries.find? (·.1 == src) with
  | some (_, p) => (p, true, { c with hits := c.hits + 1 })
  | none =>
    let p := Schema.parseWith c.providers src
    let c := { c with misses := c.misses + 1 }
    match c.entries.find? (·.1 == src) with
    | some (_, q) => (q, false, c)
    | none =>
      let gone := c.entries.length + 1 - c.capacity
      (p, false,
        { c with
          entries := c.entries.drop gone ++ [(src, p)]
          evictions := c.evictions + gone.toUInt64 })

/-- Forgets the entry of the text `src`, and tells whether there was one. -/
def remove (c : Cache) (src : String) : Bool × Cache :=
  (c.contains src, { c with entries := c.entries.filter (·.1 != src) })

def clear (c : Cache) : Cache :=
  { c with entries := [] }

def stats (c : Cache) : CacheStats :=
  ⟨c.hits, c.misses, c.evictions, c.size⟩

end Cache

/-- The share of hits among all look-ups: the hits and their 64-bit sum with the misses, each
rounded to binary64, divided in binary64 and written as the shortest decimal; zero when that sum
is zero. -/
def CacheStats.hitRate (s : CacheStats) : Decimal :=
  let total := s.hits + s.misses
  if total = 0 then ⟨0, 0⟩
  else
    match (Binary64.ofRatio s.hits.toNat 1).bind fun h =>
        (Binary64.ofRatio total.toNat 1).bind h.div with
    | some x => x.shortest
    | none => ⟨0, 0⟩

example : (CacheStats.mk 1 2 0 0).hitRate = ⟨3333333333333333, -16⟩ := by decide +kernel

end DbSchema
