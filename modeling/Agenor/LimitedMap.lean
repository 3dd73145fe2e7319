import Mathlib.Data.Finmap
import Mathlib.Data.List.Sort
import Mathlib.Order.Lattice
import Mathlib.Tactic.SplitIfs

/-!
The map of limited size (`limitedmap.h`), which is to keep the elements with the highest values.

Beside the map there is a multimap from the values to the places in the map, so that the first
element of the multimap stands for the lowest value. A new element is put into the map, then room
is made if the map has reached its size, and only then the new element is put into the multimap.
-/

namespace Agenor

/-- `limitedmap<K, V>`. An iterator into `map` is the key that it stands at. -/
structure LimitedMap (K V : Type) where
  map : Finmap fun _ : K => V
  rmap : List (V × K)
  nMaxSize : ℕ

namespace LimitedMap

variable {K V : Type} [LinearOrder V]

def create (nMaxSizeIn : ℕ) : LimitedMap K V := ⟨∅, [], nMaxSizeIn⟩

def size (s : LimitedMap K V) : ℕ := s.map.keys.card

/-- `rmap.insert`: behind the elements with the same value. -/
def rmapInsert (x : V × K) : List (V × K) → List (V × K)
  | [] => [x]
  | e :: rmap => if x.1 < e.1 then x :: e :: rmap else e :: rmapInsert x rmap

lemma perm_rmapInsert (x : V × K) (rmap : List (V × K)) : (rmapInsert x rmap).Perm (x :: rmap) := by
  induction rmap with
  | nil => exact .rfl
  | cons e rmap ih =>
    rw [rmapInsert]
    split_ifs
    · exact .rfl
    · exact (ih.cons e).trans (.swap x e rmap)

lemma sorted_rmapInsert {x : V × K} {rmap : List (V × K)}
    (h : rmap.Pairwise fun a b => a.1 ≤ b.1) :
    (rmapInsert x rmap).Pairwise fun a b => a.1 ≤ b.1 := by
  induction rmap with
  | nil => exact List.pairwise_singleton _ _
  | cons e rmap ih =>
    obtain ⟨he, htail⟩ := List.pairwise_cons.mp h
    rw [rmapInsert]
    split_ifs with hlt
    · refine List.pairwise_cons.mpr ⟨fun b hb => ?_, h⟩
      rcases List.mem_cons.mp hb with rfl | hb
      · exact hlt.le
      · exact hlt.le.trans (he b hb)
    · refine List.pairwise_cons.mpr ⟨fun b hb => ?_, ih htail⟩
      rcases List.mem_cons.mp ((perm_rmapInsert x rmap).mem_iff.mp hb) with rfl | hb
      · exact not_lt.mp hlt
      · exact he b hb

variable [DecidableEq K]

/-- The element of `rmap` in the range of this value that stands for this key is erased; `none` is
the assertion that there is one. -/
def rmapErase (v : V) (k : K) (rmap : List (V × K)) : Option (List (V × K)) :=
  let found (e : V × K) : Bool := !decide (e.1 < v) && !decide (v < e.1) && decide (e.2 = k)
  if rmap.any found then some (rmap.eraseP found) else none

/-- `insert`. Where `rmap.begin()` is read there must be an element. -/
def insert (s : LimitedMap K V) (k : K) (v : V) : Option (LimitedMap K V) :=
  if k ∈ s.map then some s
  else
    let map := s.map.insert k v
    if s.nMaxSize ≠ 0 ∧ map.keys.card = s.nMaxSize then
      match s.rmap with
      | [] => none
      | e :: rmap => some { s with map := map.erase e.2, rmap := rmapInsert (v, k) rmap }
    else some { s with map, rmap := rmapInsert (v, k) s.rmap }

def erase (s : LimitedMap K V) (k : K) : Option (LimitedMap K V) :=
  match s.map.lookup k with
  | none => some s
  | some v => (rmapErase v k s.rmap).map fun rmap => { s with map := s.map.erase k, rmap }

/-- `update`, with the key of the iterator. -/
def update (s : LimitedMap K V) (k : K) (v : V) : Option (LimitedMap K V) :=
  match s.map.lookup k with
  | none => some s
  | some v' => (rmapErase v' k s.rmap).map fun rmap =>
      { s with map := s.map.insert k v, rmap := rmapInsert (v, k) rmap }

/-- The loop of `max_size`. -/
def shrink (n : ℕ) (map : Finmap fun _ : K => V) :
    List (V × K) → Option ((Finmap fun _ : K => V) × List (V × K))
  | [] => if n < map.keys.card then none else some (map, [])
  | e :: rmap =>
    if n < map.keys.card then shrink n (map.erase e.2) rmap else some (map, e :: rmap)

/-- `max_size(s)`. -/
def maxSize (s : LimitedMap K V) (n : ℕ) : Option (LimitedMap K V) :=
  if n = 0 then some { s with nMaxSize := n }
  else (shrink n s.map s.rmap).map fun r => ⟨r.1, r.2, n⟩

/-! ### Runs -/

inductive Op (K V : Type)
  | insert (k : K) (v : V)
  | erase (k : K)
  | update (k : K) (v : V)
  | maxSize (n : ℕ)

def exec (s : LimitedMap K V) : Op K V → Option (LimitedMap K V)
  | .insert k v => s.insert k v
  | .erase k => s.erase k
  | .update k v => s.update k v
  | .maxSize n => s.maxSize n

/-- The operations one after the other, on an empty map. -/
def run (nMaxSizeIn : ℕ) (ops : List (Op K V)) : Option (LimitedMap K V) :=
  ops.foldlM exec (create nMaxSizeIn)

/-- The two containers hold the same, and the multimap is in order. -/
structure Linked (map : Finmap fun _ : K => V) (rmap : List (V × K)) : Prop where
  nodup : (rmap.map Prod.snd).Nodup
  mem : ∀ v k, (v, k) ∈ rmap ↔ map.lookup k = some v
  sorted : rmap.Pairwise fun a b => a.1 ≤ b.1

/-- What a limited map of size `nMaxSizeIn` is to do: the containers hold the same and no more than
the size, at any time, and of elements with different keys that are only inserted it holds as many
as it can, and those with the highest values. -/
structure KeepsLargest (nMaxSizeIn : ℕ) (ops : List (Op K V)) : Prop where
  safe : ∀ l, l <+: ops → ∃ s, run nMaxSizeIn l = some s ∧ Linked s.map s.rmap ∧
    (s.nMaxSize ≠ 0 → s.size ≤ s.nMaxSize)
  largest : ∀ es : List (K × V), ops = es.map (fun e => .insert e.1 e.2) →
    (es.map Prod.fst).Nodup → ∃ s, run nMaxSizeIn ops = some s ∧
      s.size = min nMaxSizeIn es.length ∧
      ∀ e ∈ es, e.1 ∉ s.map → ∀ k v, s.map.lookup k = some v → e.2 ≤ v

/-- There is room for every new element, and the size is never reached. -/
structure Roomy (nMaxSizeIn : ℕ) (ops : List (Op K V)) : Prop where
  room : ∀ l k v s, l ++ [.insert k v] <+: ops → run nMaxSizeIn l = some s → k ∉ s.map →
    s.nMaxSize ≠ 0 → s.size < s.nMaxSize ∧ s.nMaxSize ≠ 1
  few : ∀ es : List (K × V), ops = es.map (fun e => .insert e.1 e.2) →
    (es.map Prod.fst).Nodup → es.length < nMaxSizeIn

variable {map : Finmap fun _ : K => V} {rmap : List (V × K)} {s : LimitedMap K V} {k : K} {v : V}

/-! ### The containers -/

lemma linked_empty : Linked (∅ : Finmap fun _ : K => V) [] where
  nodup := List.nodup_nil
  mem v k := by simp
  sorted := .nil

lemma Linked.card_eq (h : Linked map rmap) : map.keys.card = rmap.length := by
  have hkeys : map.keys = (rmap.map Prod.snd).toFinset := by
    ext k
    rw [Finmap.mem_keys, Finmap.mem_iff, List.mem_toFinset, List.mem_map]
    constructor
    · rintro ⟨v, hv⟩
      exact ⟨(v, k), (h.mem v k).mpr hv, rfl⟩
    · rintro ⟨⟨v, k⟩, he, rfl⟩
      exact ⟨v, (h.mem v k).mp he⟩
  rw [hkeys, List.toFinset_card_of_nodup h.nodup, List.length_map]

lemma Linked.put (h : Linked map rmap) (hk : k ∉ map) (v : V) :
    Linked (map.insert k v) (rmapInsert (v, k) rmap) where
  nodup := by
    rw [((perm_rmapInsert (v, k) rmap).map Prod.snd).nodup_iff, List.map_cons, List.nodup_cons]
    refine ⟨fun hmem => hk ?_, h.nodup⟩
    obtain ⟨⟨w, k⟩, he, rfl⟩ := List.mem_map.mp hmem
    exact Finmap.mem_iff.mpr ⟨w, (h.mem w k).mp he⟩
  mem w k' := by
    rw [(perm_rmapInsert (v, k) rmap).mem_iff, List.mem_cons, h.mem, Prod.mk.injEq]
    by_cases hkk : k' = k
    · subst hkk
      rw [Finmap.lookup_insert, Finmap.lookup_eq_none.mpr hk]
      simp [eq_comm]
    · rw [Finmap.lookup_insert_of_ne _ hkk]
      simp [hkk]
  sorted := sorted_rmapInsert h.sorted

lemma Linked.remove (h : Linked map rmap) (hk : map.lookup k = some v) :
    Linked (map.erase k) (rmap.erase (v, k)) where
  nodup := h.nodup.sublist (List.erase_sublist.map _)
  mem w k' := by
    rw [(List.Nodup.of_map _ h.nodup).mem_erase_iff, h.mem]
    by_cases hkk : k' = k
    · subst hkk
      rw [Finmap.lookup_erase, hk]
      simp [eq_comm]
    · rw [Finmap.lookup_erase_ne hkk]
      simp [hkk]
  sorted := h.sorted.sublist List.erase_sublist

lemma Linked.pop {e : V × K} (h : Linked map (e :: rmap)) : Linked (map.erase e.2) rmap := by
  have hrest := h.remove ((h.mem e.1 e.2).mp (List.mem_cons_self ..))
  rwa [List.erase_cons_head] at hrest

lemma Linked.rmapErase_eq (h : Linked map rmap) (hk : map.lookup k = some v) :
    rmapErase v k rmap = some (rmap.erase (v, k)) := by
  have hfound : (fun e : V × K => !decide (e.1 < v) && !decide (v < e.1) && decide (e.2 = k)) =
      fun e => e == (v, k) := by
    funext e
    rw [Bool.eq_iff_iff]
    simp only [Bool.and_eq_true, Bool.not_eq_true', decide_eq_false_iff_not, not_lt,
      decide_eq_true_eq, beq_iff_eq, Prod.ext_iff]
    exact and_congr_left' ⟨fun hle => le_antisymm hle.2 hle.1, fun heq => ⟨heq.ge, heq.le⟩⟩
  have hany : rmap.any (fun e => e == (v, k)) = true :=
    List.any_eq_true.mpr ⟨(v, k), (h.mem v k).mpr hk, beq_self_eq_true _⟩
  unfold rmapErase
  rw [hfound]
  dsimp only
  rw [if_pos hany, List.erase_eq_eraseP']

lemma Linked.shrink (h : Linked map rmap) (n : ℕ) :
    ∃ map' rmap', LimitedMap.shrink n map rmap = some (map', rmap') ∧ Linked map' rmap' ∧
      map'.keys.card ≤ n := by
  induction rmap generalizing map with
  | nil =>
    have hcard := h.card_eq
    rw [List.length_nil] at hcard
    refine ⟨map, [], ?_, h, by omega⟩
    rw [LimitedMap.shrink, if_neg (by omega)]
  | cons e rmap ih =>
    rw [LimitedMap.shrink]
    split_ifs with hlt
    · exact ih h.pop
    · exact ⟨map, e :: rmap, rfl, h, not_lt.mp hlt⟩

/-! ### The operations -/

lemma insert_known (hk : k ∈ s.map) : s.insert k v = some s := by
  rw [insert, if_pos hk]

lemma card_put (h : Linked s.map s.rmap) (hk : k ∉ s.map) :
    (s.map.insert k v).keys.card = s.size + 1 := by
  rw [(h.put hk v).card_eq, (perm_rmapInsert _ _).length_eq, size, h.card_eq, List.length_cons]

lemma insert_free (h : Linked s.map s.rmap) (hk : k ∉ s.map)
    (hfree : ¬ (s.nMaxSize ≠ 0 ∧ s.size + 1 = s.nMaxSize)) :
    ∃ s', s.insert k v = some s' ∧ Linked s'.map s'.rmap ∧ s'.size = s.size + 1 ∧
      s'.nMaxSize = s.nMaxSize ∧ s'.map = s.map.insert k v := by
  have hcard : (s.map.insert k v).keys.card = s.size + 1 := card_put h hk
  refine ⟨{ s with map := s.map.insert k v, rmap := rmapInsert (v, k) s.rmap }, ?_, h.put hk v,
    hcard, rfl, rfl⟩
  rw [insert, if_neg hk]
  dsimp only
  rw [hcard, if_neg hfree]

lemma insert_full (h : Linked s.map s.rmap) (hk : k ∉ s.map) (hfull : s.size + 1 = s.nMaxSize) :
    (s.size = 0 ∧ s.insert k v = none) ∨
      s.size ≠ 0 ∧ ∃ s', s.insert k v = some s' ∧ Linked s'.map s'.rmap ∧ s'.size = s.size ∧
        s'.nMaxSize = s.nMaxSize := by
  have hcard : (s.map.insert k v).keys.card = s.size + 1 := card_put h hk
  have hsize : s.size = s.rmap.length := h.card_eq
  rw [insert, if_neg hk]
  dsimp only
  rw [hcard, if_pos ⟨by omega, hfull⟩]
  cases hrmap : s.rmap with
  | nil => exact .inl ⟨by rw [hsize, hrmap, List.length_nil], rfl⟩
  | cons e rmap =>
    rw [hrmap] at h
    have hne : k ≠ e.2 := by
      rintro rfl
      exact hk (Finmap.mem_iff.mpr ⟨e.1, (h.mem e.1 e.2).mp (List.mem_cons_self ..)⟩)
    have hswap : (s.map.insert k v).erase e.2 = (s.map.erase e.2).insert k v := by
      refine Finmap.ext_lookup fun k' => ?_
      by_cases hke : k' = e.2
      · rw [hke, Finmap.lookup_erase, Finmap.lookup_insert_of_ne _ hne.symm, Finmap.lookup_erase]
      · rw [Finmap.lookup_erase_ne hke]
        by_cases hkk : k' = k
        · rw [hkk, Finmap.lookup_insert, Finmap.lookup_insert]
        · rw [Finmap.lookup_insert_of_ne _ hkk, Finmap.lookup_insert_of_ne _ hkk,
            Finmap.lookup_erase_ne hke]
    have hput := h.pop.put (fun hmem => hk (Finmap.mem_erase.mp hmem).2) v
    refine .inr ⟨by rw [hsize, hrmap, List.length_cons]; omega, _, rfl, ?_, ?_, rfl⟩
    · rw [hswap]
      exact hput
    · rw [size, hswap, hput.card_eq, (perm_rmapInsert _ _).length_eq, size, h.card_eq,
        List.length_cons, List.length_cons]

lemma erase_spec (h : Linked s.map s.rmap) (k : K) :
    ∃ s', s.erase k = some s' ∧ Linked s'.map s'.rmap ∧ s'.size ≤ s.size ∧
      s'.nMaxSize = s.nMaxSize := by
  rw [erase]
  cases hk : s.map.lookup k with
  | none => exact ⟨s, rfl, h, le_rfl, rfl⟩
  | some v =>
    dsimp only
    rw [h.rmapErase_eq hk]
    refine ⟨_, rfl, h.remove hk, ?_, rfl⟩
    rw [size, (h.remove hk).card_eq, size, h.card_eq]
    exact List.length_erase_le

lemma update_spec (h : Linked s.map s.rmap) (k : K) (v : V) :
    ∃ s', s.update k v = some s' ∧ Linked s'.map s'.rmap ∧ s'.size ≤ s.size ∧
      s'.nMaxSize = s.nMaxSize := by
  rw [update]
  cases hk : s.map.lookup k with
  | none => exact ⟨s, rfl, h, le_rfl, rfl⟩
  | some v' =>
    have hput := (h.remove hk).put Finmap.notMem_erase_self v
    have hagain : (s.map.erase k).insert k v = s.map.insert k v := by
      refine Finmap.ext_lookup fun k' => ?_
      by_cases hkk : k' = k
      · rw [hkk, Finmap.lookup_insert, Finmap.lookup_insert]
      · rw [Finmap.lookup_insert_of_ne _ hkk, Finmap.lookup_insert_of_ne _ hkk,
          Finmap.lookup_erase_ne hkk]
    rw [hagain] at hput
    dsimp only
    rw [h.rmapErase_eq hk]
    refine ⟨_, rfl, hput, ?_, rfl⟩
    have hpos : 0 < s.rmap.length := List.length_pos_of_mem ((h.mem v' k).mpr hk)
    rw [size, hput.card_eq, (perm_rmapInsert _ _).length_eq, List.length_cons,
      List.length_erase_of_mem ((h.mem v' k).mpr hk), size, h.card_eq]
    omega

lemma maxSize_spec (h : Linked s.map s.rmap) (n : ℕ) :
    ∃ s', s.maxSize n = some s' ∧ Linked s'.map s'.rmap ∧
      (s'.nMaxSize ≠ 0 → s'.size ≤ s'.nMaxSize) := by
  rw [maxSize]
  split_ifs with hn
  · exact ⟨_, rfl, h, fun hne => absurd hn hne⟩
  · obtain ⟨map', rmap', heq, hlinked, hcard⟩ := h.shrink n
    rw [heq]
    exact ⟨_, rfl, hlinked, fun _ => hcard⟩

/-! ### Which runs keep the largest -/

variable {N : ℕ} {l ops : List (Op K V)} {op : Op K V} {es : List (K × V)}

lemma run_snoc : run N (l ++ [op]) = (run N l).bind fun s => s.exec op := by
  simp [run, List.foldlM_append]

lemma exec_safe (h : Linked s.map s.rmap) (hsize : s.nMaxSize ≠ 0 → s.size ≤ s.nMaxSize)
    (hroom : ∀ k v, op = .insert k v → k ∉ s.map → s.nMaxSize ≠ 0 →
      s.size < s.nMaxSize ∧ s.nMaxSize ≠ 1) :
    ∃ s', s.exec op = some s' ∧ Linked s'.map s'.rmap ∧
      (s'.nMaxSize ≠ 0 → s'.size ≤ s'.nMaxSize) := by
  cases op with
  | insert k v =>
    by_cases hk : k ∈ s.map
    · exact ⟨s, insert_known hk, h, hsize⟩
    by_cases hfull : s.nMaxSize ≠ 0 ∧ s.size + 1 = s.nMaxSize
    · rcases insert_full h hk hfull.2 with ⟨hzero, -⟩ | ⟨-, s', heq, hlinked, hsame, hmax⟩
      · exact absurd (by omega) (hroom k v rfl hk hfull.1).2
      · refine ⟨s', heq, hlinked, fun _ => ?_⟩
        rw [hsame, hmax]
        exact hsize hfull.1
    · obtain ⟨s', heq, hlinked, hmore, hmax, -⟩ := insert_free h hk hfull
      refine ⟨s', heq, hlinked, fun hne => ?_⟩
      rw [hmax] at hne ⊢
      have := (hroom k v rfl hk hne).1
      omega
  | erase k =>
    obtain ⟨s', heq, hlinked, hle, hmax⟩ := erase_spec h k
    exact ⟨s', heq, hlinked, fun hne => hmax ▸ hle.trans (hsize (hmax ▸ hne))⟩
  | update k v =>
    obtain ⟨s', heq, hlinked, hle, hmax⟩ := update_spec h k v
    exact ⟨s', heq, hlinked, fun hne => hmax ▸ hle.trans (hsize (hmax ▸ hne))⟩
  | maxSize n => exact maxSize_spec h n

lemma run_safe (hroom : ∀ l k v s, l ++ [.insert k v] <+: ops → run N l = some s → k ∉ s.map →
      s.nMaxSize ≠ 0 → s.size < s.nMaxSize ∧ s.nMaxSize ≠ 1) (hl : l <+: ops) :
    ∃ s, run N l = some s ∧ Linked s.map s.rmap ∧ (s.nMaxSize ≠ 0 → s.size ≤ s.nMaxSize) := by
  induction l using List.reverseRecOn with
  | nil => exact ⟨create N, rfl, linked_empty, fun _ => Nat.zero_le _⟩
  | append_singleton l op ih =>
    obtain ⟨s, hs, hlinked, hsize⟩ := ih ((List.prefix_append l [op]).trans hl)
    rw [run_snoc, hs]
    refine exec_safe hlinked hsize fun k v hop hk hne => ?_
    subst hop
    exact hroom l k v s hl hs hk hne

lemma run_few (hes : (es.map Prod.fst).Nodup) (hfew : es.length < N) :
    ∃ s, run N (es.map fun e => .insert e.1 e.2) = some s ∧ Linked s.map s.rmap ∧
      s.nMaxSize = N ∧ s.size = es.length ∧ ∀ k, k ∈ s.map ↔ k ∈ es.map Prod.fst := by
  induction es using List.reverseRecOn with
  | nil => exact ⟨create N, rfl, linked_empty, rfl, rfl, fun k => by simp [create, Finmap.mem_iff]⟩
  | append_singleton es e ih =>
    rw [List.map_append, List.map_singleton, List.nodup_append] at hes
    rw [List.length_append, List.length_singleton] at hfew
    obtain ⟨s, hs, hlinked, hmax, hsize, hmem⟩ := ih hes.1 (by omega)
    have hk : e.1 ∉ s.map := by
      rw [hmem]
      exact fun hin => hes.2.2 _ hin _ (by simp) rfl
    obtain ⟨s', heq, hlinked', hmore, hmax', hmap⟩ := insert_free (v := e.2) hlinked hk (by omega)
    refine ⟨s', ?_, hlinked', hmax'.trans hmax, ?_, fun k => ?_⟩
    · rw [List.map_append, List.map_singleton, run_snoc, hs]
      exact heq
    · rw [hmore, hsize, List.length_append, List.length_singleton]
    · rw [hmap, Finmap.mem_insert, hmem, List.map_append, List.mem_append, List.map_singleton,
        List.mem_singleton, or_comm]

lemma size_lt_of_inserts (hN : 1 ≤ N) (hs : run N (es.map fun e => .insert e.1 e.2) = some s) :
    s.size < N ∧ Linked s.map s.rmap ∧ s.nMaxSize = N := by
  induction es using List.reverseRecOn generalizing s with
  | nil =>
    obtain rfl : create N = s := Option.some.inj hs
    exact ⟨hN, linked_empty, rfl⟩
  | append_singleton es e ih =>
    rw [List.map_append, List.map_singleton, run_snoc, Option.bind_eq_some_iff] at hs
    obtain ⟨s₀, hs₀, hexec⟩ := hs
    change s₀.insert e.1 e.2 = some s at hexec
    obtain ⟨hlt, hlinked, hmax⟩ := ih hs₀
    by_cases hk : e.1 ∈ s₀.map
    · rw [insert_known hk] at hexec
      obtain rfl := Option.some.inj hexec
      exact ⟨hlt, hlinked, hmax⟩
    by_cases hfull : s₀.nMaxSize ≠ 0 ∧ s₀.size + 1 = s₀.nMaxSize
    · rcases insert_full (v := e.2) hlinked hk hfull.2 with ⟨-, hnone⟩ | ⟨-, s', heq, hl, hsame, hm⟩
      · rw [hnone] at hexec
        cases hexec
      · rw [heq] at hexec
        obtain rfl := Option.some.inj hexec
        exact ⟨by omega, hl, hm.trans hmax⟩
    · obtain ⟨s', heq, hl, hmore, hm, -⟩ := insert_free (v := e.2) hlinked hk hfull
      rw [heq] at hexec
      obtain rfl := Option.some.inj hexec
      exact ⟨by omega, hl, hm.trans hmax⟩

/-- **`limitedmap`.** It keeps the largest just as long as there is room for every new element and
its size is not reached. -/
theorem keepsLargest_iff (hN : 1 ≤ N) : KeepsLargest N ops ↔ Roomy N ops := by
  constructor
  · intro h
    refine ⟨fun l k v s hl hs hk hne => ?_, fun es hes hnodup => ?_⟩
    · obtain ⟨s₀, hs₀, hlinked, hsize⟩ := h.safe l ((List.prefix_append ..).trans hl)
      obtain rfl : s₀ = s := Option.some.inj (hs₀.symm.trans hs)
      obtain ⟨s', hs', -, hsize'⟩ := h.safe _ hl
      rw [run_snoc, hs₀] at hs'
      change s₀.insert k v = some s' at hs'
      by_cases hfull : s₀.size + 1 = s₀.nMaxSize
      · rcases insert_full (v := v) hlinked hk hfull with ⟨-, hnone⟩ | ⟨hpos, -⟩
        · rw [hnone] at hs'
          cases hs'
        · omega
      · obtain ⟨s₁, heq, -, hmore, hmax, -⟩ :=
          insert_free (v := v) hlinked hk fun hboth => hfull hboth.2
        obtain rfl : s₁ = s' := Option.some.inj (heq.symm.trans hs')
        have := hsize' (hmax ▸ hne)
        omega
    · obtain ⟨s, hs, hsize, -⟩ := h.largest es hes hnodup
      rw [hes] at hs
      have := (size_lt_of_inserts hN hs).1
      omega
  · intro h
    refine ⟨fun l hl => run_safe h.room hl, fun es hes hnodup => ?_⟩
    have hfew := h.few es hes hnodup
    obtain ⟨s, hs, -, -, hsize, hmem⟩ := run_few hnodup hfew
    refine ⟨s, hes ▸ hs, ?_, fun e he hout => ?_⟩
    · rw [hsize, min_eq_right hfew.le]
    · exact absurd ((hmem e.1).mpr (List.mem_map_of_mem he)) hout

/-- Of three elements a map of size 3 holds two. -/
theorem not_keepsLargest_three :
    ¬ KeepsLargest 3 [Op.insert 1 10, Op.insert 2 20, Op.insert (3 : ℕ) (30 : ℕ)] := by
  intro h
  obtain ⟨s, hs, hsize, -⟩ := h.largest [(1, 10), (2, 20), (3, 30)] rfl (by decide)
  have htwo : (run 3 [Op.insert 1 10, Op.insert 2 20, Op.insert (3 : ℕ) (30 : ℕ)]).map size =
    some 2 := by decide
  rw [hs, Option.map_some, hsize] at htwo
  exact absurd htwo (by decide)

/-- A map of size 4 holds them all. -/
theorem keepsLargest_three :
    KeepsLargest 4 [Op.insert 1 10, Op.insert 2 20, Op.insert (3 : ℕ) (30 : ℕ)] := by
  refine (keepsLargest_iff (by decide)).mpr ⟨fun l k v s hl hs _ _ => ?_, fun es hes _ => ?_⟩
  · have htake : l = ([(1, 10), (2, 20), (3, 30)].take l.length).map
        fun e : ℕ × ℕ => Op.insert e.1 e.2 := by
      rw [List.map_take]
      exact List.prefix_iff_eq_take.mp ((List.prefix_append ..).trans hl)
    rw [htake] at hs
    obtain ⟨hsize, -, hmax⟩ := size_lt_of_inserts (by decide) hs
    exact ⟨by omega, by omega⟩
  · have hlen := congrArg List.length hes
    rw [List.length_map] at hlen
    exact hlen ▸ by decide

/-- A map of size 1 has no element to make room with. -/
example : (run 1 [Op.insert (1 : ℕ) (10 : ℕ)]).isNone = true := by decide

end LimitedMap

end Agenor
