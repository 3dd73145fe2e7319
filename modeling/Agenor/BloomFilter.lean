import Agenor.Bloom
import Agenor.Lib.PackBits
import Agenor.Serialize

/-!
What a bloom filter remembers (`bloom.cpp`): after every history of insertions, of merges with other
filters and of round trips through a stream.

Two flags are kept beside the bits. `isFull` stands for a filter in which every bit is set, and
`isEmpty` for one into which nothing has been inserted; `insert` and `contains` look at the flags
first. `Merge` changes the bits and leaves the flags as they are.
-/

namespace Agenor

open Lib Lib.Fallible

def MAX_BLOOM_FILTER_SIZE : ℕ := 36000

/-- How an operation on a filter ends when it does not return. -/
inductive BloomFault
  /-- The data are written past their end. -/
  | outOfRange
  | throws
  deriving DecidableEq, Repr

namespace BloomFlags

def toByte : BloomFlags → UInt8
  | BLOOM_UPDATE_NONE => 0
  | BLOOM_UPDATE_ALL => 1
  | BLOOM_UPDATE_P2PUBKEY_ONLY => 2

/-- What the byte selects, as `nFlags & BLOOM_UPDATE_MASK`. -/
def ofByte (n : ℕ) : BloomFlags :=
  if n % 4 = 1 then BLOOM_UPDATE_ALL
  else if n % 4 = 2 then BLOOM_UPDATE_P2PUBKEY_ONLY
  else BLOOM_UPDATE_NONE

lemma ofByte_toByte (nFlags : BloomFlags) : ofByte nFlags.toByte.toNat = nFlags := by
  cases nFlags <;> rfl

end BloomFlags

namespace CBloomFilter

variable (filter : CBloomFilter)

def clear : CBloomFilter :=
  { filter with
    vData := List.replicate filter.vData.length 0
    isFull := false
    isEmpty := true }

def reset (nNewTweak : UInt32) : CBloomFilter := { filter.clear with nTweak := nNewTweak }

def matchesAll : Bool := filter.vData.all (· == 0xff)

/-- `vData[i] = b`. -/
def store (vData : List UInt8) (i : ℕ) (b : UInt8) : Except BloomFault (List UInt8) :=
  if i < vData.length then .ok (vData.set i b) else .error .outOfRange

/-- `Merge` adds the bits of filters that agree in their parameters. -/
def Mergeable (other : CBloomFilter) : Prop :=
  other.vData.length = filter.vData.length ∧ other.nHashFuncs = filter.nHashFuncs ∧
    other.nTweak = filter.nTweak

instance (other : CBloomFilter) : Decidable (filter.Mergeable other) :=
  inferInstanceAs (Decidable (_ ∧ _ ∧ _))

/-- `Merge`: whether the other filter is accepted, and the filter afterwards. -/
def merge (other : CBloomFilter) : Except BloomFault (Bool × CBloomFilter) :=
  if filter.matchesAll = false ∧ other.matchesAll = false then
    if filter.Mergeable other then
      .ok (true, { filter with vData := List.zipWith (· ||| ·) filter.vData other.vData })
    else .ok (false, filter)
  else do
    -- the data are cleared before their first byte is set
    let vData ← store [] 0 0xff
    return (true, { filter with vData })

def serialize : List UInt8 :=
  writeCompactSize filter.vData.length ++ (filter.vData ++ (writeLE 4 filter.nHashFuncs ++
    (writeLE 4 filter.nTweak.toNat ++ [filter.nFlags.toByte])))

/-- A filter is read into a new one, which is marked as full. -/
def unserialize : Reader CBloomFilter := do
  let nSize ← Reader.compactSize
  let vData ← Reader.bytes nSize
  let nHashFuncs ← Reader.uint 4
  let nTweak ← Reader.uint 4
  let nFlags ← Reader.uint 1
  return ⟨vData, true, false, nHashFuncs, UInt32.ofNat nTweak, BloomFlags.ofByte nFlags⟩

/-- Through a stream and `UpdateEmptyFull`. -/
def reload : Except BloomFault CBloomFilter :=
  match unserialize filter.serialize with
  | none => .error .throws
  | some (read, _) => .ok read.updateEmptyFull

variable {filter other : CBloomFilter} {items : List (List UInt8)} {vKey : List UInt8} {q : ℕ}

/-! ### Single operations -/

lemma bit_eq (q : ℕ) : filter.bit q = bitAt filter.vData q := bitAt_eq.symm

lemma hash_congr (hlen : other.vData.length = filter.vData.length)
    (htweak : other.nTweak = filter.nTweak) : other.hash = filter.hash := by
  unfold hash
  rw [hlen, htweak]

lemma hash_lt (h : 0 < filter.vData.length) (i : ℕ) (vKey : List UInt8) :
    filter.hash i vKey / 8 < filter.vData.length := by
  rw [Nat.div_lt_iff_lt_mul (by decide)]
  exact Nat.mod_lt _ (by omega)

def places (vKey : List UInt8) : List ℕ :=
  (List.range filter.nHashFuncs).map fun i => filter.hash i vKey

/-- All the bits of a key are set. -/
def Holds (vKey : List UInt8) : Prop :=
  ∀ i < filter.nHashFuncs, bitAt filter.vData (filter.hash i vKey) = true

lemma Holds.mono (hlen : other.vData.length = filter.vData.length)
    (htweak : other.nTweak = filter.nTweak) (hfuncs : other.nHashFuncs = filter.nHashFuncs)
    (hbits : ∀ q, bitAt filter.vData q = true → bitAt other.vData q = true)
    (h : filter.Holds vKey) : other.Holds vKey := by
  intro i hi
  rw [hash_congr hlen htweak]
  exact hbits _ (h i (hfuncs ▸ hi))

lemma contains_of_holds (hempty : filter.isEmpty = false) (h : filter.Holds vKey) :
    filter.contains vKey = true := by
  rw [contains, hempty]
  cases filter.isFull with
  | true => rfl
  | false =>
    rw [if_neg (by decide), if_neg (by decide), List.all_eq_true]
    intro i hi
    rw [bit_eq]
    exact h i (List.mem_range.mp hi)

lemma insert_of_full (h : filter.isFull = true) : filter.insert vKey = filter := by
  rw [insert, if_pos h]

lemma insert_of_not_full (h : filter.isFull = false) (vKey : List UInt8) : filter.insert vKey =
    { filter with vData := (filter.places vKey).foldl setBit filter.vData, isEmpty := false } := by
  rw [insert, if_neg (by simp [h]), places, List.foldl_map]
  rfl

lemma bitAt_insert (h : 0 < filter.vData.length) (hfull : filter.isFull = false)
    (vKey : List UInt8) (q : ℕ) : bitAt (filter.insert vKey).vData q =
      (bitAt filter.vData q || decide (q ∈ filter.places vKey)) := by
  rw [insert_of_not_full hfull]
  refine bitAt_foldl_setBit fun p hp => ?_
  obtain ⟨i, -, rfl⟩ := List.mem_map.mp hp
  exact hash_lt h i vKey

/-- The filter takes keys, and holds these. -/
structure Stores (filter : CBloomFilter) (items : List (List UInt8)) : Prop where
  pos : 0 < filter.vData.length
  notFull : filter.isFull = false
  empty : filter.isEmpty = true → items = []
  holds : ∀ vKey ∈ items, filter.Holds vKey

lemma Stores.insert (h : Stores filter items) (vKey : List UInt8) :
    Stores (filter.insert vKey) (vKey :: items) := by
  have heq := insert_of_not_full h.notFull vKey
  have hlen : (filter.insert vKey).vData.length = filter.vData.length := by
    rw [heq]
    exact length_foldl_setBit _
  have hbits := bitAt_insert h.pos h.notFull vKey
  have htweak : (filter.insert vKey).nTweak = filter.nTweak := by rw [heq]
  have hfuncs : (filter.insert vKey).nHashFuncs = filter.nHashFuncs := by rw [heq]
  refine ⟨hlen ▸ h.pos, by rw [heq]; exact h.notFull, ?_, ?_⟩
  · rw [heq]
    intro hcon
    cases hcon
  · intro key hmem
    rcases List.mem_cons.mp hmem with rfl | hmem
    · intro i hi
      rw [hbits, hash_congr hlen htweak, Bool.or_eq_true, decide_eq_true_iff]
      exact .inr (List.mem_map.mpr ⟨i, List.mem_range.mpr (hfuncs ▸ hi), rfl⟩)
    · refine (h.holds key hmem).mono hlen htweak hfuncs fun q hq => ?_
      rw [hbits, hq, Bool.true_or]

lemma Stores.contains (h : Stores filter items) (hmem : vKey ∈ items) :
    filter.contains vKey = true := by
  refine contains_of_holds ?_ (h.holds vKey hmem)
  rw [← Bool.not_eq_true]
  intro hempty
  rw [h.empty hempty] at hmem
  cases hmem

lemma Stores.mono {items' : List (List UInt8)} (h : Stores filter items)
    (hsub : ∀ vKey ∈ items', vKey ∈ items) : Stores filter items' := by
  refine ⟨h.pos, h.notFull, fun hempty => ?_, fun key hmem => h.holds key (hsub key hmem)⟩
  rw [List.eq_nil_iff_forall_not_mem]
  intro key hmem
  have hcon := hsub key hmem
  rw [h.empty hempty] at hcon
  cases hcon

lemma stores_clear (h : 0 < filter.vData.length) : Stores filter.clear [] :=
  ⟨by simpa [clear] using h, rfl, fun _ => rfl, nofun⟩

lemma merge_of_matchesAll (h : ¬ (filter.matchesAll = false ∧ other.matchesAll = false)) :
    filter.merge other = .error .outOfRange := by
  rw [merge, if_neg h]
  rfl

lemma matchesAll_iff : filter.matchesAll = true ↔ ∀ b ∈ filter.vData, b = 0xff := by
  simp [matchesAll]

lemma reload_eq (hsize : filter.vData.length ≤ Reader.MAX_SIZE)
    (hfuncs : filter.nHashFuncs < 2 ^ 32) : filter.reload = .ok filter.updateEmptyFull := by
  have htweak : filter.nTweak.toNat < 256 ^ 4 := filter.nTweak.toNat_lt
  have hread : ReadsBack unserialize filter.serialize
      ⟨filter.vData, true, false, filter.nHashFuncs, UInt32.ofNat filter.nTweak.toNat,
        BloomFlags.ofByte filter.nFlags.toByte.toNat⟩ := by
    refine (readsBack_compactSize hsize).bind ((readsBack_bytes _).bind ?_)
    refine (readsBack_uint (by omega)).bind ((readsBack_uint htweak).bind ?_)
    exact ReadsBack.map _ ((readsBack_bytes [filter.nFlags.toByte]).map Script.readLE)
  have hnil := hread []
  rw [List.append_nil] at hnil
  rw [reload, hnil, BloomFlags.ofByte_toByte, UInt32.ofNat_toNat]
  rfl

end CBloomFilter

/-! ### Histories -/

/-- How a filter has come about. A merge has the history of the other filter beside it. -/
inductive BloomHistory
  /-- The constructor, which keeps the size within the limits of the protocol. -/
  | construct (size : ℕ) (hsize : 0 < size ∧ size ≤ MAX_BLOOM_FILTER_SIZE)
      (nHashFuncs nTweak : UInt32) (nFlags : BloomFlags)
  /-- Read from a stream, then `UpdateEmptyFull`. -/
  | receive (vData : List UInt8) (hsize : 0 < vData.length ∧ vData.length ≤ Reader.MAX_SIZE)
      (nHashFuncs nTweak : UInt32) (nFlags : BloomFlags)
  | insert (h : BloomHistory) (vKey : List UInt8)
  | updateEmptyFull (h : BloomHistory)
  | merge (h other : BloomHistory)
  | reload (h : BloomHistory)
  | clear (h : BloomHistory)
  | reset (h : BloomHistory) (nNewTweak : UInt32)

namespace BloomHistory

/-- The filter, and what has been inserted into it or into filters that it has accepted, since it
was cleared. -/
def run : BloomHistory → Except BloomFault (CBloomFilter × List (List UInt8))
  | construct size _ nHashFuncs nTweak nFlags =>
    .ok (⟨List.replicate size 0, false, false, nHashFuncs.toNat, nTweak, nFlags⟩, [])
  | receive vData _ nHashFuncs nTweak nFlags =>
    .ok ((CBloomFilter.mk vData true false nHashFuncs.toNat nTweak nFlags).updateEmptyFull, [])
  | insert h vKey => do
    let (filter, items) ← h.run
    return (filter.insert vKey, vKey :: items)
  | updateEmptyFull h => do
    let (filter, items) ← h.run
    return (filter.updateEmptyFull, items)
  | merge h other => do
    let (filter, items) ← h.run
    let (filter', items') ← other.run
    let (accepted, filter) ← filter.merge filter'
    return (filter, if accepted then items' ++ items else items)
  | reload h => do
    let (filter, items) ← h.run
    return (← filter.reload, items)
  | clear h => do
    let (filter, _) ← h.run
    return (filter.clear, [])
  | reset h nNewTweak => do
    let (filter, _) ← h.run
    return (filter.reset nNewTweak, [])

/-- At the end of a history, and at the end of every one that it is made of. -/
def Throughout (P : BloomHistory → Prop) : BloomHistory → Prop
  | h@(construct ..) | h@(receive ..) => P h
  | h@(insert p _) | h@(updateEmptyFull p) | h@(reload p) | h@(clear p) | h@(reset p _) =>
    P h ∧ Throughout P p
  | h@(merge p other) => P h ∧ Throughout P p ∧ Throughout P other

/-- The history has come to its end, every key in it is found, and no key leads to a place outside
of the data. -/
def Remembers (h : BloomHistory) : Prop :=
  ∃ filter items, h.run = .ok (filter, items) ∧ (∀ vKey ∈ items, filter.contains vKey = true) ∧
    ∀ i vKey, filter.hash i vKey / 8 < filter.vData.length

/-- When the last operation keeps the flags in line with the bits: no filter that matches all takes
part in a merge, a filter that is marked as empty accepts none with something in it, and without
hash functions the bits are not taken as a sign that nothing has been inserted. -/
def Careful : BloomHistory → Prop
  | merge h other => ∀ filter items filter' items', h.run = .ok (filter, items) →
      other.run = .ok (filter', items') → filter.matchesAll = false ∧ filter'.matchesAll = false ∧
        (filter.Mergeable filter' → filter.isEmpty = true → items' = [])
  | updateEmptyFull h | reload h => ∀ filter items, h.run = .ok (filter, items) →
      filter.nHashFuncs = 0 → items ≠ [] → ∃ b ∈ filter.vData, b ≠ 0
  | construct .. | receive .. | insert .. | clear .. | reset .. => True

/-! ### What every careful history keeps -/

variable {h : BloomHistory} {filter : CBloomFilter} {items : List (List UInt8)} {vKey : List UInt8}

/-- The flags are in line with the bits and with what has been inserted. -/
structure Kept (filter : CBloomFilter) (items : List (List UInt8)) : Prop where
  pos : 0 < filter.vData.length
  size : filter.vData.length ≤ Reader.MAX_SIZE
  funcs : filter.nHashFuncs < 2 ^ 32
  full : filter.isFull = true → filter.matchesAll = true ∧ filter.isEmpty = false
  empty : filter.isEmpty = true → items = []
  holds : ∀ vKey ∈ items, filter.Holds vKey

lemma Kept.contains (h : Kept filter items) (hmem : vKey ∈ items) :
    filter.contains vKey = true := by
  refine CBloomFilter.contains_of_holds ?_ (h.holds vKey hmem)
  rw [← Bool.not_eq_true]
  intro hempty
  rw [h.empty hempty] at hmem
  cases hmem

lemma Kept.remembers (h : Kept filter items) {b : BloomHistory}
    (hrun : b.run = .ok (filter, items)) : Remembers b :=
  ⟨filter, items, hrun, fun _ hmem => h.contains hmem, CBloomFilter.hash_lt h.pos⟩

lemma Kept.construct {size nHashFuncs : ℕ} (hpos : 0 < size) (hsize : size ≤ MAX_BLOOM_FILTER_SIZE)
    (hfuncs : nHashFuncs < 2 ^ 32) (nTweak : UInt32) (nFlags : BloomFlags) :
    Kept ⟨List.replicate size 0, false, false, nHashFuncs, nTweak, nFlags⟩ [] where
  pos := by simpa using hpos
  size := by
    simp only [MAX_BLOOM_FILTER_SIZE, Reader.MAX_SIZE, List.length_replicate] at hsize ⊢
    omega
  funcs := hfuncs
  full hfull := by cases hfull
  empty hempty := by cases hempty
  holds _ hmem := by cases hmem

lemma Kept.clear (h : Kept filter items) : Kept filter.clear [] where
  pos := by simpa [CBloomFilter.clear] using h.pos
  size := by simpa [CBloomFilter.clear] using h.size
  funcs := h.funcs
  full hfull := by cases hfull
  empty _ := rfl
  holds _ hmem := by cases hmem

lemma Kept.reset (h : Kept filter items) (nNewTweak : UInt32) :
    Kept (filter.reset nNewTweak) [] where
  pos := h.clear.pos
  size := h.clear.size
  funcs := h.funcs
  full hfull := by cases hfull
  empty _ := rfl
  holds _ hmem := by cases hmem

lemma Kept.insert (h : Kept filter items) (vKey : List UInt8) :
    Kept (filter.insert vKey) (vKey :: items) := by
  cases hfull : filter.isFull with
  | true =>
    -- every bit is set already
    obtain ⟨hall, hmarked⟩ := h.full hfull
    have hones := CBloomFilter.matchesAll_iff.mp hall
    rw [CBloomFilter.insert_of_full hfull]
    refine ⟨h.pos, h.size, h.funcs, h.full, fun hempty => ?_, fun key _ i _ => ?_⟩
    · rw [hmarked] at hempty
      cases hempty
    · exact bitAt_of_all_ones hones (CBloomFilter.hash_lt h.pos i key)
  | false =>
    have heq := CBloomFilter.insert_of_not_full hfull vKey
    have hlen : (filter.insert vKey).vData.length = filter.vData.length := by
      rw [heq]
      exact length_foldl_setBit _
    have hstores := CBloomFilter.Stores.insert ⟨h.pos, hfull, h.empty, h.holds⟩ vKey
    refine ⟨hstores.pos, hlen ▸ h.size, ?_, fun hcon => ?_, hstores.empty, hstores.holds⟩
    · rw [heq]
      exact h.funcs
    · rw [hstores.notFull] at hcon
      cases hcon

lemma Kept.updateEmptyFull (h : Kept filter items)
    (hcare : filter.nHashFuncs = 0 → items ≠ [] → ∃ b ∈ filter.vData, b ≠ 0) :
    Kept filter.updateEmptyFull items where
  pos := h.pos
  size := h.size
  funcs := h.funcs
  full hfull := by
    refine ⟨hfull, ?_⟩
    obtain ⟨b, hb⟩ := List.exists_mem_of_length_pos h.pos
    have hone : b = 0xff := CBloomFilter.matchesAll_iff.mp hfull b hb
    rw [← Bool.not_eq_true]
    intro hzero
    have hb0 : b = 0 := by simpa using List.all_eq_true.mp hzero b hb
    rw [hone] at hb0
    exact absurd hb0 (by decide)
  empty hempty := by
    have hzero : ∀ b ∈ filter.vData, b = 0 := by
      intro b hb
      simpa using List.all_eq_true.mp hempty b hb
    by_contra hne
    rcases Nat.eq_zero_or_pos filter.nHashFuncs with hnone | hsome
    · obtain ⟨b, hb, hb0⟩ := hcare hnone hne
      exact hb0 (hzero b hb)
    · -- the first bit of a key is not zero
      obtain ⟨key, hkey⟩ := List.exists_mem_of_ne_nil items hne
      have hset := h.holds key hkey 0 hsome
      rw [bitAt_of_all_zero hzero] at hset
      cases hset
  holds := h.holds

lemma Kept.merge {other : CBloomFilter} {items' : List (List UInt8)} (h : Kept filter items)
    (h' : Kept other items') (hall : filter.matchesAll = false) (hm : filter.Mergeable other)
    (hcare : filter.isEmpty = true → items' = []) :
    Kept { filter with vData := List.zipWith (· ||| ·) filter.vData other.vData }
      (items' ++ items) := by
  obtain ⟨hlen, hfuncs, htweak⟩ := hm
  have hlength : (List.zipWith (· ||| ·) filter.vData other.vData).length =
      filter.vData.length := by
    rw [List.length_zipWith, hlen, Nat.min_self]
  have hbits := fun q => bitAt_zipWith_or (q := q) hlen
  refine ⟨hlength ▸ h.pos, hlength ▸ h.size, h.funcs, ?_, ?_, ?_⟩
  · intro hfull
    have hcon := (h.full hfull).1
    rw [hall] at hcon
    cases hcon
  · intro hempty
    rw [h.empty hempty, hcare hempty, List.append_nil]
  · intro key hmem
    rcases List.mem_append.mp hmem with hmem | hmem
    · refine (h'.holds key hmem).mono (hlength.trans hlen.symm) htweak.symm hfuncs.symm ?_
      intro q hq
      rw [hbits, hq, Bool.or_true]
    · refine (h.holds key hmem).mono hlength rfl rfl fun q hq => ?_
      rw [hbits, hq, Bool.true_or]

lemma run_reload (hkept : Kept filter items) (hrun : h.run = .ok (filter, items)) :
    (reload h).run = .ok (filter.updateEmptyFull, items) := by
  rw [run, hrun]
  show (filter.reload >>= fun f => pure (f, items)) = _
  rw [CBloomFilter.reload_eq hkept.size hkept.funcs]
  rfl

lemma run_merge {p other : BloomHistory} {filter' : CBloomFilter} {items' : List (List UInt8)}
    (hrun : p.run = .ok (filter, items)) (hrun' : other.run = .ok (filter', items')) :
    (merge p other).run = (filter.merge filter').map fun r =>
      (r.2, if r.1 then items' ++ items else items) := by
  rw [run, hrun, hrun']
  show (filter.merge filter' >>= fun r => pure (r.2, if r.1 then items' ++ items else items)) = _
  cases filter.merge filter' <;> rfl

lemma kept_of_careful (hc : Throughout Careful h) :
    ∃ filter items, h.run = .ok (filter, items) ∧ Kept filter items := by
  induction h with
  | construct size hsize nHashFuncs nTweak nFlags =>
    exact ⟨_, _, rfl, .construct hsize.1 hsize.2 nHashFuncs.toNat_lt nTweak nFlags⟩
  | receive vData hsize nHashFuncs nTweak nFlags =>
    -- nothing depends on the flags that have been there before
    have hkept : Kept ⟨vData, false, false, nHashFuncs.toNat, nTweak, nFlags⟩ [] :=
      ⟨hsize.1, hsize.2, nHashFuncs.toNat_lt, nofun, nofun, nofun⟩
    exact ⟨_, _, rfl, hkept.updateEmptyFull fun _ hne => absurd rfl hne⟩
  | insert p vKey ih =>
    obtain ⟨filter, items, hrun, hkept⟩ := ih hc.2
    exact ⟨_, _, by rw [run, hrun]; rfl, hkept.insert vKey⟩
  | updateEmptyFull p ih =>
    obtain ⟨filter, items, hrun, hkept⟩ := ih hc.2
    exact ⟨_, _, by rw [run, hrun]; rfl, hkept.updateEmptyFull (hc.1 filter items hrun)⟩
  | reload p ih =>
    obtain ⟨filter, items, hrun, hkept⟩ := ih hc.2
    exact ⟨_, _, run_reload hkept hrun, hkept.updateEmptyFull (hc.1 filter items hrun)⟩
  | clear p ih =>
    obtain ⟨filter, items, hrun, hkept⟩ := ih hc.2
    exact ⟨_, _, by rw [run, hrun]; rfl, hkept.clear⟩
  | reset p nNewTweak ih =>
    obtain ⟨filter, items, hrun, hkept⟩ := ih hc.2
    exact ⟨_, _, by rw [run, hrun]; rfl, hkept.reset nNewTweak⟩
  | merge p other ih ih' =>
    obtain ⟨filter, items, hrun, hkept⟩ := ih hc.2.1
    obtain ⟨filter', items', hrun', hkept'⟩ := ih' hc.2.2
    obtain ⟨hall, hall', hcare⟩ := hc.1 filter items filter' items' hrun hrun'
    rw [run_merge hrun hrun', CBloomFilter.merge, if_pos ⟨hall, hall'⟩]
    by_cases hm : filter.Mergeable filter'
    · rw [if_pos hm]
      exact ⟨_, _, rfl, hkept.merge hkept' hall hm (hcare hm)⟩
    · rw [if_neg hm]
      exact ⟨_, _, rfl, hkept⟩

/-! ### What goes wrong otherwise -/

lemma not_remembers_of_empty (hrun : h.run = .ok (filter, items)) (hfull : filter.isFull = false)
    (hempty : filter.isEmpty = true) (hne : items ≠ []) : ¬ Remembers h := by
  rintro ⟨filter', items', hrun', hcontains, -⟩
  obtain ⟨rfl, rfl⟩ : filter = filter' ∧ items = items' := by
    rw [hrun] at hrun'
    simpa using hrun'
  obtain ⟨key, hkey⟩ := List.exists_mem_of_ne_nil items hne
  have hcon := hcontains key hkey
  rw [CBloomFilter.contains, hfull, hempty] at hcon
  cases hcon

lemma Kept.isEmpty_of_zero (h : Kept filter items) (hzero : ∀ b ∈ filter.vData, b = 0) :
    filter.updateEmptyFull.isEmpty = true ∧ filter.updateEmptyFull.isFull = false := by
  refine ⟨List.all_eq_true.mpr fun b hb => by simp [hzero b hb], ?_⟩
  obtain ⟨b, hb⟩ := List.exists_mem_of_length_pos h.pos
  rw [← Bool.not_eq_true]
  intro hfull
  have hone := List.all_eq_true.mp hfull b hb
  rw [hzero b hb] at hone
  exact absurd hone (by decide)

lemma careful_of_update (hkept : Kept filter items)
    (hrun : h.run = .ok (filter.updateEmptyFull, items)) (hr : Remembers h) (hne : items ≠ []) :
    ∃ b ∈ filter.vData, b ≠ 0 := by
  by_contra hcon
  push Not at hcon
  obtain ⟨hempty, hfull⟩ := hkept.isEmpty_of_zero hcon
  exact not_remembers_of_empty hrun hfull hempty hne hr

lemma careful_of_merge {p other : BloomHistory} {filter' : CBloomFilter}
    {items' : List (List UInt8)} (hkept : Kept filter items) (hrun : p.run = .ok (filter, items))
    (hrun' : other.run = .ok (filter', items')) (hr : Remembers (merge p other)) :
    filter.matchesAll = false ∧ filter'.matchesAll = false ∧
      (filter.Mergeable filter' → filter.isEmpty = true → items' = []) := by
  by_cases hall : filter.matchesAll = false ∧ filter'.matchesAll = false
  · refine ⟨hall.1, hall.2, fun hm hempty => ?_⟩
    have hfull : filter.isFull = false := by
      rw [← Bool.not_eq_true]
      intro hfull
      rw [(hkept.full hfull).2] at hempty
      cases hempty
    by_contra hne
    have hmerge := run_merge hrun hrun'
    rw [CBloomFilter.merge, if_pos hall, if_pos hm] at hmerge
    exact not_remembers_of_empty hmerge hfull hempty (by simp [hne]) hr
  · obtain ⟨_, _, hok, -⟩ := hr
    rw [run_merge hrun hrun', CBloomFilter.merge_of_matchesAll hall] at hok
    cases hok

lemma careful_of_remembers (hr : Throughout Remembers h) : Throughout Careful h := by
  induction h with
  | construct | receive => trivial
  | insert p vKey ih => exact ⟨trivial, ih hr.2⟩
  | clear p ih => exact ⟨trivial, ih hr.2⟩
  | reset p nNewTweak ih => exact ⟨trivial, ih hr.2⟩
  | updateEmptyFull p ih =>
    refine ⟨fun filter' items' hrun' _ hne => ?_, ih hr.2⟩
    obtain ⟨filter, items, hrun, hkept⟩ := kept_of_careful (ih hr.2)
    obtain ⟨rfl, rfl⟩ : filter = filter' ∧ items = items' := by
      rw [hrun] at hrun'
      simpa using hrun'
    exact careful_of_update hkept (by rw [run, hrun]; rfl) hr.1 hne
  | reload p ih =>
    refine ⟨fun filter' items' hrun' _ hne => ?_, ih hr.2⟩
    obtain ⟨filter, items, hrun, hkept⟩ := kept_of_careful (ih hr.2)
    obtain ⟨rfl, rfl⟩ : filter = filter' ∧ items = items' := by
      rw [hrun] at hrun'
      simpa using hrun'
    exact careful_of_update hkept (run_reload hkept hrun) hr.1 hne
  | merge p other ih ih' =>
    refine ⟨fun filter' items' filter'' items'' hrun' hrun'' => ?_, ih hr.2.1, ih' hr.2.2⟩
    obtain ⟨filter, items, hrun, hkept⟩ := kept_of_careful (ih hr.2.1)
    obtain ⟨rfl, rfl⟩ : filter = filter' ∧ items = items' := by
      rw [hrun] at hrun'
      simpa using hrun'
    exact careful_of_merge hkept hrun hrun'' hr.1

/-- **No false negatives.** In a history all that has been inserted is found at any time, and no
access is out of range, exactly if no step of it leaves the flags behind the bits. -/
theorem remembers_iff (h : BloomHistory) : Throughout Remembers h ↔ Throughout Careful h := by
  refine ⟨careful_of_remembers, fun hc => ?_⟩
  induction h with
  | construct | receive =>
    obtain ⟨filter, items, hrun, hkept⟩ := kept_of_careful hc
    exact hkept.remembers hrun
  | insert p _ ih | updateEmptyFull p ih | reload p ih | clear p ih | reset p _ ih =>
    obtain ⟨filter, items, hrun, hkept⟩ := kept_of_careful hc
    exact ⟨hkept.remembers hrun, ih hc.2⟩
  | merge p other ih ih' =>
    obtain ⟨filter, items, hrun, hkept⟩ := kept_of_careful hc
    exact ⟨hkept.remembers hrun, ih hc.2.1, ih' hc.2.2⟩

/-- A filter that has been cleared accepts one that contains a key: the key is not found. And a
filter in which every bit is set cannot be merged at all. -/
theorem not_remembers_merged :
    ¬ Throughout Remembers (merge (clear (construct 2 (by decide) 1 0 .BLOOM_UPDATE_NONE))
      (insert (construct 2 (by decide) 1 0 .BLOOM_UPDATE_NONE) [1])) ∧
    ¬ Throughout Remembers (merge (receive [0xff] (by decide) 1 0 .BLOOM_UPDATE_NONE)
      (construct 1 (by decide) 1 0 .BLOOM_UPDATE_NONE)) := by
  refine ⟨fun h => ?_, fun h => ?_⟩
  · have hlost := ((careful_of_remembers h).1 _ _ _ _ rfl rfl).2.2 (by decide +kernel) rfl
    cases hlost
  · have hall := ((careful_of_remembers h).1 _ _ _ _ rfl rfl).1
    cases hall

end BloomHistory

end Agenor
