import Mathlib.Algebra.Order.Monoid.Prod
import Agenor.MempoolLinks

/-!
The numbers that the entries of the memory pool keep about their descendants.

Each entry that is not dirty knows the sum of the weights of a set of entries, itself among them.
`UpdateState` is called for all ancestors of an entry at once; the sums follow, and its assertions
hold because an entry never loses itself.
-/

namespace Agenor

open Lib

/-- What an entry with its descendants must weigh. -/
structure Weight.Positive (w : Weight) : Prop where
  size : 0 < w.1
  fee : 0 ≤ w.2.1
  count : 0 < w.2.2

lemma Weight.Positive.add {w w' : Weight} (h : Weight.Positive w) (h' : 0 ≤ w') :
    Weight.Positive (w + w') := by
  obtain ⟨h₁, h₂, h₃⟩ : (0 : ℤ) ≤ w'.1 ∧ (0 : ℤ) ≤ w'.2.1 ∧ (0 : ℤ) ≤ w'.2.2 :=
    ⟨h'.1, h'.2.1, h'.2.2⟩
  have := h.size
  have := h.fee
  have := h.count
  refine ⟨?_, ?_, ?_⟩
  · change 0 < w.1 + w'.1
    omega
  · change 0 ≤ w.2.1 + w'.2.1
    omega
  · change 0 < w.2.2 + w'.2.2
    omega

lemma Weight.Positive.nonneg {w : Weight} (h : Weight.Positive w) : 0 ≤ w :=
  ⟨h.size.le, h.fee, h.count.le⟩

lemma CTxMemPoolEntry.updateStateHolds_of_positive {e : CTxMemPoolEntry} {w : Weight}
    (h : Weight.Positive (e.state + w)) : e.updateStateHolds w.1 w.2.1 w.2.2 = true := by
  have hsize : 0 < e.nSizeWithDescendants + w.1 := h.size
  have hfee : 0 ≤ e.nFeesWithDescendants + w.2.1 := h.fee
  have hcount : 0 < e.nCountWithDescendants + w.2.2 := h.count
  simp [updateStateHolds, hsize, hfee, hcount]

lemma CTxMemPoolEntry.updateState_of_dirty {e : CTxMemPoolEntry} (h : e.isDirty = true)
    (a b c : ℤ) : e.updateState a b c = e := by
  simp [updateState, h]

namespace CTxMemPool

variable {mu : MemUsage} {m m' m₁ : CTxMemPool} {it : Uint256}

/-! ### Weights -/

/-- What the entry for a hash counts for. -/
def weightAt (m : CTxMemPool) (it : Uint256) : Weight := ((m.bareAt it).map (·.weight)).getD 0

def usageAt (m : CTxMemPool) (it : Uint256) : ℤ :=
  ((m.bareAt it).map fun e => (e.nUsageSize : ℤ)).getD 0

lemma Alike.weightAt (h : Alike m m') (it : Uint256) : m'.weightAt it = m.weightAt it := by
  rw [CTxMemPool.weightAt, CTxMemPool.weightAt, h.bare]

lemma Alike.usageAt (h : Alike m m') (it : Uint256) : m'.usageAt it = m.usageAt it := by
  rw [CTxMemPool.usageAt, CTxMemPool.usageAt, h.bare]

lemma weightAt_of_lookup {e : CTxMemPoolEntry} (h : m.mapTx.lookup it = some e) :
    m.weightAt it = e.weight := by
  simp [weightAt, bareAt, h]

lemma weightAt_eq (h : it ∈ m.mapTx) : m.weightAt it = (m.txSize it, m.fee it, 1) := by
  obtain ⟨e, he⟩ := Finmap.mem_iff.mp h
  simp [weightAt_of_lookup he, CTxMemPoolEntry.weight, txSize, fee, he]

lemma txSize_eq_bareAt (m : CTxMemPool) (it : Uint256) :
    m.txSize it = ((m.bareAt it).map fun e => (e.nTxSize : ℤ)).getD 0 := by
  rw [txSize, bareAt, Option.map_map]
  rfl

/-- Every entry weighs something. -/
def Weighty (m : CTxMemPool) : Prop := ∀ it ∈ m.mapTx, (m.weightAt it).Positive

lemma Alike.weighty (h : Alike m m') (hw : Weighty m) : Weighty m' := by
  intro it hit
  rw [h.weightAt]
  exact hw it (h.mem_iff.mp hit)

lemma Weighty.sum (hw : Weighty m) {s : Finset Uint256} (hs : s ⊆ m.mapTx.keys) (hit : it ∈ s) :
    (∑ d ∈ s, m.weightAt d).Positive := by
  rw [← Finset.add_sum_erase _ _ hit]
  refine (hw it (Finmap.mem_keys.mp (hs hit))).add (Finset.sum_nonneg fun d hd => ?_)
  exact (hw d (Finmap.mem_keys.mp (hs (Finset.mem_of_mem_erase hd)))).nonneg

/-! ### What the entries know -/

/-- Every entry is dirty or knows the weight of the set that `T` gives for it. -/
def Tracks (m : CTxMemPool) (T : Uint256 → Finset Uint256) : Prop :=
  ∀ it e, m.mapTx.lookup it = some e → e.isDirty = true ∨ e.state = ∑ d ∈ T it, m.weightAt d

lemma Tracks.congr {T T' : Uint256 → Finset Uint256} (h : Tracks m T)
    (hT : ∀ a ∈ m.mapTx, T' a = T a) : Tracks m T' := by
  intro a e he
  rw [hT a (Finmap.mem_of_lookup_eq_some he)]
  exact h a e he

lemma Tracks.of_mapTx {T : Uint256 → Finset Uint256} (h : Tracks m T) (heq : m'.mapTx = m.mapTx) :
    Tracks m' T := by
  intro a e he
  rw [heq] at he
  have hweight : ∀ d, m'.weightAt d = m.weightAt d := by
    intro d
    rw [weightAt, weightAt, bareAt, bareAt, heq]
  simp only [hweight]
  exact h a e he

lemma lookup_modify (m : CTxMemPool) (a b : Uint256) (f : CTxMemPoolEntry → CTxMemPoolEntry) :
    (m.modify b f).mapTx.lookup a =
      if a = b then (m.mapTx.lookup a).map f else m.mapTx.lookup a := by
  unfold modify
  cases hb : m.mapTx.lookup b with
  | none =>
    split_ifs with hab
    · rw [hab, hb]
      rfl
    · rfl
  | some e =>
    dsimp only
    rw [lookup_insert_eq]
    split_ifs with hab
    · rw [hab, hb]
      rfl
    · rfl

lemma modify_mapLinks (m : CTxMemPool) (b : Uint256) (f : CTxMemPoolEntry → CTxMemPoolEntry) :
    (m.modify b f).mapLinks = m.mapLinks ∧ (m.modify b f).cachedInnerUsage = m.cachedInnerUsage ∧
      (m.modify b f).failed = m.failed := by
  unfold modify
  cases m.mapTx.lookup b <;> exact ⟨rfl, rfl, rfl⟩

/-- The effect of `UpdateState` on the entries of a set: their numbers change, and nothing else. -/
structure Shifted (l : List Uint256) (w : Weight) (m m' : CTxMemPool) : Prop where
  alike : Alike m m'
  lookup : ∀ a, m'.mapTx.lookup a = if a ∈ l then
    (m.mapTx.lookup a).map (·.updateState w.1 w.2.1 w.2.2) else m.mapTx.lookup a
  links : m'.mapLinks = m.mapLinks
  usage : m'.cachedInnerUsage = m.cachedInnerUsage
  failed : (∀ a ∈ l, ∀ e, m.mapTx.lookup a = some e →
    e.updateStateHolds w.1 w.2.1 w.2.2 = true) → m'.failed = m.failed

lemma shifted_foldl {l : List Uint256} (hl : l.Nodup) (w : Weight) (m : CTxMemPool) :
    Shifted l w m (l.foldl (fun m => m.updateDescendantState w.1 w.2.1 w.2.2) m) := by
  induction l generalizing m with
  | nil => exact ⟨.refl m, fun a => by simp, rfl, rfl, fun _ => rfl⟩
  | cons b l ih =>
    obtain ⟨hb, hl⟩ := List.nodup_cons.mp hl
    have hrest := ih hl (m.updateDescendantState w.1 w.2.1 w.2.2 b)
    rw [List.foldl_cons]
    have hlook : ∀ a, (m.updateDescendantState w.1 w.2.1 w.2.2 b).mapTx.lookup a = if a = b then
        (m.mapTx.lookup a).map (·.updateState w.1 w.2.1 w.2.2) else m.mapTx.lookup a :=
      fun a => lookup_modify m a b _
    obtain ⟨hlinks, husage, hfailed⟩ :=
      modify_mapLinks m b fun e => e.updateState w.1 w.2.1 w.2.2
    refine ⟨(alike_updateDescendantState m _ _ _ b).trans hrest.alike, fun a => ?_,
      hrest.links.trans hlinks, hrest.usage.trans husage, fun hholds => ?_⟩
    · rw [hrest.lookup, hlook]
      by_cases hab : a = b
      · simp [hab, hb]
      · simp [hab]
    · rw [hrest.failed]
      · have hone : (m.mapTx.lookup b).all (·.updateStateHolds w.1 w.2.1 w.2.2) = true := by
          cases he : m.mapTx.lookup b with
          | none => rfl
          | some e => exact hholds b (List.mem_cons_self ..) e he
        change ((m.modify b _).failed || !_) = m.failed
        rw [hfailed, hone]
        simp
      · intro a ha e he
        have hab : a ≠ b := fun hab => hb (hab ▸ ha)
        rw [hlook, if_neg hab] at he
        exact hholds a (List.mem_cons_of_mem _ ha) e he

/-- **The sums follow.** When the entries of a list are told of a change, and the sets they stand
for weigh that much more, all sums are right afterwards and no assertion fails. -/
theorem Shifted.tracks {l : List Uint256} {w : Weight} {T : Uint256 → Finset Uint256}
    (T' : Uint256 → Finset Uint256) (hs : Shifted l w m m') (hw : Weighty m) (ht : Tracks m T)
    (hT : ∀ a ∈ m.mapTx, a ∈ T' a ∧ T' a ⊆ m.mapTx.keys ∧
      ∑ d ∈ T' a, m.weightAt d = ∑ d ∈ T a, m.weightAt d + if a ∈ l then w else 0) :
    Tracks m' T' ∧ m'.failed = m.failed := by
  have hpos : ∀ a ∈ m.mapTx, (∑ d ∈ T' a, m.weightAt d).Positive := fun a ha =>
    hw.sum (hT a ha).2.1 (hT a ha).1
  refine ⟨fun a e he => ?_, hs.failed fun a ha e he => ?_⟩
  · simp only [hs.alike.weightAt]
    rw [hs.lookup] at he
    split_ifs at he with hal
    · obtain ⟨e₀, he₀, rfl⟩ := Option.map_eq_some_iff.mp he
      have hsum := (hT a (Finmap.mem_of_lookup_eq_some he₀)).2.2
      rw [if_pos hal] at hsum
      cases hd : e₀.isDirty with
      | true =>
        rw [CTxMemPoolEntry.updateState_of_dirty hd]
        exact .inl hd
      | false =>
        right
        rw [CTxMemPoolEntry.state_updateState hd, hsum]
        exact congrArg (· + w) ((ht a e₀ he₀).resolve_left (by simp [hd]))
    · have hsum := (hT a (Finmap.mem_of_lookup_eq_some he)).2.2
      rw [if_neg hal, add_zero] at hsum
      rw [hsum]
      exact ht a e he
  · cases hd : e.isDirty with
    | true => simp [CTxMemPoolEntry.updateStateHolds, hd]
    | false =>
      apply CTxMemPoolEntry.updateStateHolds_of_positive
      have ha' := Finmap.mem_of_lookup_eq_some he
      have hsum := (hT a ha').2.2
      rw [if_pos ha] at hsum
      rw [(ht a e he).resolve_left (by simp [hd]), ← hsum]
      exact hpos a ha'

end CTxMemPool

end Agenor
