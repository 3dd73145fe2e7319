import Agenor.BloomFilter

/-!
The rolling bloom filter (`bloom.cpp`), which is to contain the last `nElements` items.

Two filters are filled with every item, and cleared in turn: the first one at the start of a cycle
of `nBloomSize` insertions, the second one in the middle. The one that has not been cleared in this
half of the cycle is asked. The length of the cycle is twice the number of items, as an unsigned
number of 32 bits.
-/

namespace Agenor

open Lib

structure CRollingBloomFilter where
  nBloomSize : ℕ
  nInsertions : ℕ
  b1 : CBloomFilter
  b2 : CBloomFilter
  deriving DecidableEq, Repr

namespace CRollingBloomFilter

def reset (filter : CRollingBloomFilter) (nNewTweak : UInt32) : CRollingBloomFilter :=
  { filter with
    b1 := filter.b1.reset nNewTweak
    b2 := filter.b2.reset nNewTweak
    nInsertions := 0 }

/-- The private constructor of a filter. How large it is and how many hash functions it has are
computed with floating-point numbers. -/
def newFilter (nBytes nHashFuncs : ℕ) : CBloomFilter :=
  ⟨List.replicate nBytes 0, false, true, nHashFuncs, 0, .BLOOM_UPDATE_NONE⟩

/-- The constructor, with the tweak that `reset` draws. -/
def create (nElements nBytes nHashFuncs : ℕ) (nNewTweak : UInt32) : CRollingBloomFilter :=
  reset ⟨nElements * 2 % 2 ^ 32, 0, newFilter nBytes nHashFuncs, newFilter nBytes nHashFuncs⟩
    nNewTweak

def insert (filter : CRollingBloomFilter) (vKey : List UInt8) : CRollingBloomFilter :=
  let b1 := if filter.nInsertions = 0 then filter.b1.clear else filter.b1
  let b2 := if filter.nInsertions ≠ 0 ∧ filter.nInsertions = filter.nBloomSize / 2 then
    filter.b2.clear else filter.b2
  let nInsertions := (filter.nInsertions + 1) % 2 ^ 32
  { filter with
    b1 := b1.insert vKey
    b2 := b2.insert vKey
    nInsertions := if nInsertions = filter.nBloomSize then 0 else nInsertions }

def contains (filter : CRollingBloomFilter) (vKey : List UInt8) : Bool :=
  if filter.nInsertions < filter.nBloomSize / 2 then filter.b2.contains vKey
  else filter.b1.contains vKey

/-! ### Runs -/

inductive Op
  | insert (vKey : List UInt8)
  | reset (nNewTweak : UInt32)

/-- The filter, and the items since it was constructed or reset, the last one first. -/
structure Recent where
  filter : CRollingBloomFilter
  items : List (List UInt8)

def Recent.step (s : Recent) : Op → Recent
  | .insert vKey => ⟨s.filter.insert vKey, vKey :: s.items⟩
  | .reset nNewTweak => ⟨s.filter.reset nNewTweak, []⟩

def Recent.run (s : Recent) (ops : List Op) : Recent := ops.foldl Recent.step s

def start (nElements nBytes nHashFuncs : ℕ) (nNewTweak : UInt32) : Recent :=
  ⟨create nElements nBytes nHashFuncs nNewTweak, []⟩

/-- The last `nElements` items are found. -/
def Remembers (nElements : ℕ) (s : Recent) : Prop :=
  ∀ vKey ∈ s.items.take nElements, s.filter.contains vKey = true

/-- Somewhere in a cycle of `2 * n` insertions: the first filter holds those of this cycle, the
second one those since the middle of a cycle. -/
structure Staggered (n : ℕ) (s : Recent) : Prop where
  size : s.filter.nBloomSize = 2 * n
  small : 2 * n < 2 ^ 32
  cycle : s.filter.nInsertions < 2 * n
  early : s.items.length < 2 * n → s.filter.nInsertions = s.items.length
  first : s.filter.b1.Stores (s.items.take s.filter.nInsertions)
  second : s.filter.b2.Stores (s.items.take
    (if s.filter.nInsertions ≤ n then s.filter.nInsertions + n else s.filter.nInsertions - n))

variable {n nElements : ℕ} {s : Recent} {filter : CBloomFilter}
variable {items : List (List UInt8)} {k : ℕ}

lemma stores_insert (h : filter.Stores (items.take k)) (vKey : List UInt8) :
    (filter.insert vKey).Stores ((vKey :: items).take (k + 1)) := h.insert vKey

lemma stores_take (h : filter.Stores (items.take k)) {j : ℕ} (hj : j ≤ k) :
    filter.Stores (items.take j) :=
  h.mono fun _ hmem => (List.take_subset_take_left items hj) hmem

lemma Staggered.insert (h : Staggered n s) (vKey : List UInt8) :
    Staggered n (s.step (.insert vKey)) := by
  obtain ⟨⟨nBloomSize, k, b1, b2⟩, items⟩ := s
  obtain ⟨hsize, hsmall, hcycle, hearly, hfirst, hsecond⟩ := h
  simp only at hsize hcycle hearly hfirst hsecond
  subst hsize
  have hhalf : 2 * n / 2 = n := by omega
  have hmod : (k + 1) % 2 ^ 32 = k + 1 := Nat.mod_eq_of_lt (by omega)
  -- the filters after they have been cleared
  have hb1 : (if k = 0 then b1.clear else b1).Stores (items.take k) := by
    split_ifs with hk
    · rw [hk, List.take_zero]
      exact CBloomFilter.stores_clear hfirst.pos
    · exact hfirst
  have hb2 : (if k ≠ 0 ∧ k = 2 * n / 2 then b2.clear else b2).Stores
      (items.take (if k < n then k + n else k - n)) := by
    rw [hhalf]
    split_ifs with hclear hk hk
    · omega
    · rw [hclear.2, Nat.sub_self, List.take_zero]
      exact CBloomFilter.stores_clear hsecond.pos
    · rwa [if_pos hk.le] at hsecond
    · rwa [if_neg (by omega)] at hsecond
  have hnext1 := stores_insert hb1 vKey
  have hnext2 := stores_insert hb2 vKey
  refine ⟨rfl, hsmall, ?_, ?_, ?_, ?_⟩ <;>
    simp only [Recent.step, CRollingBloomFilter.insert, hmod, List.length_cons]
  · split_ifs <;> omega
  · intro hlt
    rw [if_neg] <;> omega
  · by_cases hwrap : k + 1 = 2 * n
    · rw [if_pos hwrap]
      exact stores_take hnext1 (Nat.zero_le _)
    · rw [if_neg hwrap]
      exact hnext1
  · by_cases hwrap : k + 1 = 2 * n
    · rw [if_pos hwrap, if_pos (Nat.zero_le n)]
      refine stores_take hnext2 ?_
      split_ifs <;> omega
    · rw [if_neg hwrap]
      refine stores_take hnext2 ?_
      split_ifs <;> omega

lemma stores_reset (h : 0 < filter.vData.length) (nNewTweak : UInt32) :
    (filter.reset nNewTweak).Stores [] :=
  ⟨by simpa [CBloomFilter.reset, CBloomFilter.clear] using h, rfl, fun _ => rfl, nofun⟩

lemma staggered_reset {filter : CRollingBloomFilter} (hn : 0 < n) (hsmall : 2 * n < 2 ^ 32)
    (hsize : filter.nBloomSize = 2 * n) (h1 : 0 < filter.b1.vData.length)
    (h2 : 0 < filter.b2.vData.length) (nNewTweak : UInt32) :
    Staggered n ⟨filter.reset nNewTweak, []⟩ := by
  refine ⟨hsize, hsmall, ?_, fun _ => rfl, stores_reset h1 nNewTweak, ?_⟩
  · show 0 < 2 * n
    omega
  · rw [List.take_nil]
    exact stores_reset h2 nNewTweak

lemma Staggered.step (h : Staggered n s) (op : Op) : Staggered n (s.step op) := by
  cases op with
  | insert vKey => exact h.insert vKey
  | reset nNewTweak =>
    have hn : 0 < n := by
      have hcycle := h.cycle
      omega
    exact staggered_reset hn h.small h.size h.first.pos h.second.pos nNewTweak

lemma Staggered.run (h : Staggered n s) (ops : List Op) : Staggered n (s.run ops) := by
  induction ops generalizing s with
  | nil => exact h
  | cons op ops ih => exact ih (h.step op)

lemma Staggered.contains (h : Staggered n s) (hwide : nElements ≤ n ∨ s.items.length < 2 * n) :
    Remembers nElements s := by
  intro vKey hmem
  have hlen : (s.items.take nElements).length ≤ s.items.length := by simp
  have hsize := h.size
  have hearly := h.early
  have hhalf : s.filter.nBloomSize / 2 = n := by omega
  -- nothing is lost when as many are held as there are
  have hsub : ∀ j, nElements ≤ j ∨ s.items.length ≤ j → vKey ∈ s.items.take j := by
    rintro j (hj | hj)
    · exact List.take_subset_take_left s.items hj hmem
    · rw [List.take_of_length_le hj]
      exact List.mem_of_mem_take hmem
  rw [CRollingBloomFilter.contains, hhalf]
  split_ifs with hk
  · refine h.second.contains (hsub _ ?_)
    rw [if_pos hk.le]
    omega
  · refine h.first.contains (hsub _ ?_)
    omega

/-- **The rolling filter remembers** the last `nElements` items, unless a cycle of twice as many
does not fit into 32 bits and has been completed. -/
theorem remembers_run (nElements nBytes nHashFuncs : ℕ) (nNewTweak : UInt32) (ops : List Op)
    (hpos : 1 ≤ nElements) (hbytes : 0 < nBytes)
    (hfits : nElements < 2 ^ 31 ∨ ((start nElements nBytes nHashFuncs nNewTweak).run
      ops).items.length < nElements * 2 % 2 ^ 32) :
    Remembers nElements ((start nElements nBytes nHashFuncs nNewTweak).run ops) := by
  have hn : 0 < nElements * 2 % 2 ^ 32 / 2 := by omega
  have heven : nElements * 2 % 2 ^ 32 = 2 * (nElements * 2 % 2 ^ 32 / 2) := by omega
  have hstart : Staggered (nElements * 2 % 2 ^ 32 / 2)
      (start nElements nBytes nHashFuncs nNewTweak) :=
    staggered_reset hn (by omega) heven (by simpa [newFilter] using hbytes)
      (by simpa [newFilter] using hbytes) nNewTweak
  refine (hstart.run ops).contains ?_
  omega

theorem remembers_run_two : 1 ≤ 2 ∧ 0 < 3 ∧ 2 < 2 ^ 31 ∧
    Remembers 2 ((start 2 3 5 0).run [.insert [1], .insert [2], .reset 7, .insert [3]]) :=
  ⟨by decide, by decide, by decide,
    remembers_run 2 3 5 0 [.insert [1], .insert [2], .reset 7, .insert [3]] (by decide) (by decide)
      (.inl (by decide))⟩

/-- For `2 ^ 31 + 1` items a cycle has two insertions, and after them the first one is lost. -/
theorem not_remembers_large :
    ¬ Remembers (2 ^ 31 + 1) ((start (2 ^ 31 + 1) 2 5 0).run [.insert [1], .insert [2]]) := by
  intro h
  have hlost := h [1] (List.mem_of_getElem? (i := 1) rfl)
  revert hlost
  decide +kernel

end CRollingBloomFilter

end Agenor
