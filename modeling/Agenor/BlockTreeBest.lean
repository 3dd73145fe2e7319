import Agenor.BlockTreeActivate

/-!
What `FindMostWorkChain` finds, in every tree of blocks: the best candidate that can be reached from
the active chain over blocks that are all there and have not failed.

Nothing is asked of the candidates but that they are in the index, with the blocks below them. In
particular the data of a block may be missing, as it is after pruning.
-/

namespace Agenor.BlockTree

open Lib.Ancestry

variable {s s' : BlockTree} {a b c m t : ℕ} {line : List ℕ}

/-- A block lies on the path from another one down to the active chain. -/
def OnPath (s : BlockTree) (a b : ℕ) : Prop := Anc s.pprev a b ∧ ¬ Anc s.pprev a s.tip

/-- All blocks on the path of a block can be used. -/
def Usable (s : BlockTree) (b : ℕ) : Prop := ∀ a, s.OnPath a b → s.isUnusable a = false

/-- The index is a tree that has the tip and the candidates in it. The blocks below a candidate have
been counted, as the assertion of the walk wants it. -/
structure Indexed (s : BlockTree) : Prop where
  shape : Shape s
  tip : s.tip < s.size
  candidates : ∀ b, s.setBlockIndexCandidates b = true → b < s.size
  counted : ∀ b, s.setBlockIndexCandidates b = true → ∀ a, Anc s.pprev a b →
    (s.status a).nChainTx ≠ 0 ∨ s.nHeight a = 0

lemma Indexed.mem_offChain (h : Indexed s) (hb : b < s.size) :
    a ∈ s.offChain (s.nHeight b + 1) b ↔ s.OnPath a b :=
  h.shape.mem_offChain h.tip hb (Nat.lt_succ_self _)

/-! ### A chain is taken out -/

/-- What `removeChain` changes. -/
structure Removed (s : BlockTree) (line : List ℕ) (t : ℕ) (s' : BlockTree) : Prop where
  size : s'.size = s.size
  node : s'.node = s.node
  tip : s'.tip = s.tip
  status : ∀ c, (s'.status c).haveData = (s.status c).haveData ∧
    (s'.status c).nChainTx = (s.status c).nChainTx ∧
    (s'.status c).nSequenceId = (s.status c).nSequenceId
  failed : ∀ c, (s'.status c).failed = true ↔ (s.status c).failed = true ∨
    (s.status t).failed = true ∧ c ∈ line.takeWhile (· != t)
  candidates : ∀ c, s'.setBlockIndexCandidates c = true ↔
    s.setBlockIndexCandidates c = true ∧ c ∉ line.takeWhile (· != t) ∧ c ≠ t

lemma removed_removeChain (s : BlockTree) (line : List ℕ) (t : ℕ) :
    Removed s line t (s.removeChain line t) := by
  by_cases hf : (s.status t).failed = true
  · obtain ⟨hre, htip, hst, hcand⟩ := removeChain_failed line hf
    refine ⟨hre.size, hre.node, htip, fun c => ?_, fun c => ?_, hcand⟩
    · obtain ⟨h1, -, h3, h4⟩ := hre.status c
      exact ⟨h1, h3, h4⟩
    · rw [(hst c).2]
      simp [hf]
  · -- the blocks above only wait for the data
    set above := line.takeWhile (· != t) with habove
    let marked : BlockTree := { s with
      mapBlocksUnlinked := above.filterMap (fun b => (s.pprev b).map (·, b)) ++
        s.mapBlocksUnlinked }
    have hdef : s.removeChain line t = (above.foldl eraseCandidate marked).eraseCandidate t := by
      simp only [removeChain, if_neg hf]
      rfl
    obtain ⟨hre, htip, hst, hcand⟩ := foldl_eraseCandidate (s := marked) above
    rw [hdef]
    refine ⟨hre.size, hre.node, htip, fun c => ?_, fun c => ?_, fun c => ?_⟩
    · rw [show ((above.foldl eraseCandidate marked).eraseCandidate t).status = s.status from hst]
      exact ⟨rfl, rfl, rfl⟩
    · rw [show ((above.foldl eraseCandidate marked).eraseCandidate t).status = s.status from hst]
      simp [hf]
    · rw [show s.setBlockIndexCandidates c = marked.setBlockIndexCandidates c from rfl,
        ← and_assoc, ← hcand]
      by_cases hc : c = t
      · subst hc
        simp [eraseCandidate]
      · simp [eraseCandidate, hc]

namespace Removed

variable (h : Removed s line t s')
include h

lemma pprev : s'.pprev = s.pprev := pprev_congr h.node

lemma worse (a b : ℕ) : s'.worse a b = s.worse a b :=
  worse_congr h.node (h.status a).2.2 (h.status b).2.2

lemma onPath : s'.OnPath a b ↔ s.OnPath a b := by
  rw [OnPath, OnPath, h.pprev, h.tip]

lemma indexed (hs : Indexed s) : Indexed s' where
  shape := hs.shape.congr h.size h.node
  tip := by
    rw [h.tip, h.size]
    exact hs.tip
  candidates := by
    intro b hb
    rw [h.size]
    exact hs.candidates b ((h.candidates b).mp hb).1
  counted := by
    intro b hb a ha
    rw [h.pprev] at ha
    rw [(h.status a).2.1, nHeight, h.node]
    exact hs.counted b ((h.candidates b).mp hb).1 a ha

lemma isUnusable (ha : s.isUnusable a = true) : s'.isUnusable a = true := by
  rw [BlockTree.isUnusable, Bool.or_eq_true] at ha ⊢
  rw [h.failed, (h.status a).1]
  exact ha.imp Or.inl id

lemma usable_iff (ht : s.isUnusable t = true) (htip : ¬ Anc s.pprev t s.tip)
    (habove : ∀ c ∈ line.takeWhile (· != t), Anc s.pprev t c) : s'.Usable c ↔ s.Usable c := by
  constructor
  · intro hu a ha
    by_contra hbad
    rw [Bool.not_eq_false] at hbad
    have := hu a (h.onPath.mpr ha)
    rw [h.isUnusable hbad] at this
    cases this
  · intro hu a ha
    rw [h.onPath] at ha
    have hok := hu a ha
    rw [BlockTree.isUnusable, Bool.or_eq_false_iff] at hok ⊢
    rw [(h.status a).1, ← Bool.not_eq_true, h.failed]
    refine ⟨?_, hok.2⟩
    rintro (hf | ⟨-, hmem⟩)
    · rw [hok.1] at hf
      cases hf
    · have := hu t ⟨(habove a hmem).trans ha.1, htip⟩
      rw [ht] at this
      cases this

end Removed

/-! ### The loop -/

lemma Indexed.removeChain (h : Indexed s) (hm : s.bestCandidate = some m)
    (hfind : (s.offChain (s.nHeight m + 1) m).find? s.isUnusable = some t) :
    s.OnPath t m ∧ s.isUnusable t = true ∧
    (∀ c ∈ (s.offChain (s.nHeight m + 1) m).takeWhile (· != t), Anc s.pprev t c) ∧
    (s.removeChain (s.offChain (s.nHeight m + 1) m) t).numCandidates < s.numCandidates := by
  obtain ⟨hlt, hcand⟩ := bestCandidate_sound hm
  have hmem := List.mem_of_find?_eq_some hfind
  have hpath : s.OnPath t m := (h.mem_offChain hlt).mp hmem
  have hr := removed_removeChain s (s.offChain (s.nHeight m + 1) m) t
  refine ⟨hpath, List.find?_some hfind, fun c hc => anc_of_mem_above hmem hc, ?_⟩
  refine Finset.card_lt_card ((Finset.ssubset_iff_of_subset ?_).mpr ⟨m, ?_, ?_⟩)
  · intro c hc
    rw [Finset.mem_filter, hr.size] at hc
    exact Finset.mem_filter.mpr ⟨hc.1, ((hr.candidates c).mp hc.2).1⟩
  · exact Finset.mem_filter.mpr ⟨Finset.mem_range.mpr hlt, hcand⟩
  · intro hmc
    obtain ⟨-, hna, hmt⟩ := (hr.candidates m).mp (Finset.mem_filter.mp hmc).2
    refine hna ?_
    -- the line starts at the candidate itself
    have hhead : ∃ l, s.offChain (s.nHeight m + 1) m = m :: l := by
      rw [offChain]
      split_ifs with hcon
      · rw [h.shape.contains_iff h.tip] at hcon
        exact absurd (hpath.1.trans hcon) hpath.2
      · exact ⟨_, rfl⟩
    obtain ⟨l, hl⟩ := hhead
    rw [hl, List.takeWhile_cons_of_pos (by simpa using hmt)]
    exact List.mem_cons_self ..

/-- The assertion of the walk down from the best candidate, in all passes. -/
def assertsHold : ℕ → BlockTree → Bool
  | 0, _ => true
  | n + 1, s =>
    match s.bestCandidate with
    | none => true
    | some pindexNew =>
      let line := s.offChain (s.nHeight pindexNew + 1) pindexNew
      (line.all fun b => decide ((s.status b).nChainTx ≠ 0 ∨ s.nHeight b = 0)) &&
        match line.find? s.isUnusable with
        | none => true
        | some pindexTest => assertsHold n (s.removeChain line pindexTest)

/-- What the loop finds, and what it leaves of the candidates. -/
structure MostWork (s : BlockTree) (r : BlockTree × Option ℕ) : Prop where
  /-- The result is the best candidate that can be used. -/
  best : ∀ m, r.2 = some m ↔ s.setBlockIndexCandidates m = true ∧ s.Usable m ∧
    ∀ c, s.setBlockIndexCandidates c = true → s.Usable c → s.worse m c = false
  none : r.2 = none ↔ ∀ c, s.setBlockIndexCandidates c = true → ¬ s.Usable c
  subset : ∀ c, r.1.setBlockIndexCandidates c = true → s.setBlockIndexCandidates c = true
  kept : ∀ c, s.setBlockIndexCandidates c = true → s.Usable c →
    r.1.setBlockIndexCandidates c = true
  removed : ∀ c, s.setBlockIndexCandidates c = true → r.1.setBlockIndexCandidates c = false →
    ∃ a, s.OnPath a c ∧ s.isUnusable a = true

lemma not_usable_iff : ¬ s.Usable c ↔ ∃ a, s.OnPath a c ∧ s.isUnusable a = true := by
  simp [Usable]

lemma mostWork_none (hs : Indexed s) (hm : s.bestCandidate = none) : MostWork s (s, none) := by
  have hno : ∀ c, ¬ s.setBlockIndexCandidates c = true := by
    intro c hc
    obtain ⟨m, hm', -⟩ := bestCandidate_complete (hs.candidates c hc) hc
    rw [hm] at hm'
    cases hm'
  refine ⟨fun m => ⟨fun h => (by cases h), fun h => absurd h.1 (hno m)⟩,
    ⟨fun _ c hc => absurd hc (hno c), fun _ => rfl⟩, fun c hc => hc, fun c hc _ => hc,
    fun c hc => absurd hc (hno c)⟩

lemma mostWork_some (hs : Indexed s) (hm : s.bestCandidate = some m) (hu : s.Usable m) :
    MostWork s (s, some m) := by
  obtain ⟨-, hcand⟩ := bestCandidate_sound hm
  have hbest : ∀ c, s.setBlockIndexCandidates c = true → s.worse m c = false := by
    intro c hc
    obtain ⟨m', hm', hw⟩ := bestCandidate_complete (hs.candidates c hc) hc
    obtain rfl := Option.some.inj (hm.symm.trans hm')
    exact hw
  refine ⟨fun m' => ?_, ⟨fun h => (by cases h), fun h => absurd hu (h m hcand)⟩, fun c hc => hc,
    fun c hc _ => hc, fun c hc hc' => ?_⟩
  · constructor
    · intro h
      obtain rfl := Option.some.inj h
      exact ⟨hcand, hu, fun c hc _ => hbest c hc⟩
    · rintro ⟨hc', -, hmax⟩
      rw [eq_of_worse_false (hbest m' hc') (hmax m hcand hu)]
  · rw [hc] at hc'
    cases hc'

lemma MostWork.of_removed {r : BlockTree × Option ℕ} (h : MostWork s' r)
    (hr : Removed s line t s') (ht : s.isUnusable t = true) (htip : ¬ Anc s.pprev t s.tip)
    (habove : ∀ c ∈ line.takeWhile (· != t), Anc s.pprev t c) : MostWork s r := by
  have husable : ∀ {c}, s'.Usable c ↔ s.Usable c := hr.usable_iff ht htip habove
  -- what is taken out could not be used
  have hout : ∀ c, s.setBlockIndexCandidates c = true → s'.setBlockIndexCandidates c = false →
      s.OnPath t c := by
    intro c hc hc'
    rw [← Bool.not_eq_true, hr.candidates] at hc'
    by_cases hct : c = t
    · subst hct
      exact ⟨.refl c, htip⟩
    · by_cases hmem : c ∈ line.takeWhile (· != t)
      · exact ⟨habove c hmem, htip⟩
      · exact absurd ⟨hc, hmem, hct⟩ hc'
  have hsame : ∀ c, s'.setBlockIndexCandidates c = true ∧ s'.Usable c ↔
      s.setBlockIndexCandidates c = true ∧ s.Usable c := by
    intro c
    rw [husable]
    refine ⟨fun hc => ⟨((hr.candidates c).mp hc.1).1, hc.2⟩, fun hc => ⟨?_, hc.2⟩⟩
    by_contra hno
    rw [Bool.not_eq_true] at hno
    have := hc.2 t (hout c hc.1 hno)
    rw [ht] at this
    cases this
  refine ⟨fun m => ?_, ?_, fun c hc => ((hr.candidates c).mp (h.subset c hc)).1,
    fun c hc hu => ?_, fun c hc hc' => ?_⟩
  · rw [h.best m, ← and_assoc, hsame m, and_assoc]
    refine and_congr_right fun _ => and_congr_right fun _ => forall_congr' fun c => ?_
    rw [hr.worse, ← and_imp, ← and_imp, hsame c]
  · rw [h.none]
    refine forall_congr' fun c => ?_
    rw [← not_and, ← not_and, hsame c]
  · obtain ⟨hc', hu'⟩ := (hsame c).mpr ⟨hc, hu⟩
    exact h.kept c hc' hu'
  · cases hcs : s'.setBlockIndexCandidates c with
    | false => exact ⟨t, hout c hc hcs, ht⟩
    | true =>
      rw [← not_usable_iff, ← husable, not_usable_iff]
      exact h.removed c hcs hc'

/-- **The best chain.** In every tree of blocks the loop ends, after at most as many passes as there
are candidates and one more, without a failed assertion; it finds the best candidate that can be
used, keeps all candidates that can be used, and removes only such that have an unusable block on
their path. -/
theorem findMostWorkChain_mostWork (s : BlockTree) (hs : Indexed s) (n : ℕ)
    (hn : s.numCandidates < n) :
    s.findMostWorkChain n = s.findMostWorkChain (s.numCandidates + 1) ∧
      s.assertsHold n = true ∧ MostWork s (s.findMostWorkChain n) := by
  suffices key : ∀ n n' s, Indexed s → s.numCandidates < n → s.numCandidates < n' →
      s.findMostWorkChain n = s.findMostWorkChain n' ∧ s.assertsHold n = true ∧
        MostWork s (s.findMostWorkChain n) from
    key n _ s hs hn (Nat.lt_succ_self _)
  intro n
  induction n with
  | zero => intro n' s hs hn; omega
  | succ n ih =>
    intro n' s hs hn hn'
    obtain ⟨n', rfl⟩ : ∃ k, n' = k + 1 := Nat.exists_eq_succ_of_ne_zero (by omega)
    rw [findMostWorkChain, findMostWorkChain, assertsHold]
    cases hm : s.bestCandidate with
    | none => exact ⟨rfl, rfl, mostWork_none hs hm⟩
    | some m =>
      obtain ⟨hlt, hcand⟩ := bestCandidate_sound hm
      have hall : ((s.offChain (s.nHeight m + 1) m).all fun b =>
          decide ((s.status b).nChainTx ≠ 0 ∨ s.nHeight b = 0)) = true := by
        rw [List.all_eq_true]
        intro a ha
        rw [decide_eq_true_eq]
        exact hs.counted m hcand a ((hs.mem_offChain hlt).mp ha).1
      dsimp only
      rw [hall, Bool.true_and]
      cases hfind : (s.offChain (s.nHeight m + 1) m).find? s.isUnusable with
      | none =>
        refine ⟨rfl, rfl, mostWork_some hs hm fun a ha => ?_⟩
        have := List.find?_eq_none.mp hfind a ((hs.mem_offChain hlt).mpr ha)
        rwa [Bool.not_eq_true] at this
      | some t =>
        obtain ⟨hpath, ht, habove, hcount⟩ := hs.removeChain hm hfind
        have hr := removed_removeChain s (s.offChain (s.nHeight m + 1) m) t
        obtain ⟨heq, hassert, hmost⟩ := ih n' _ (hr.indexed hs) (by omega) (by omega)
        exact ⟨heq, hassert, hmost.of_removed hr ht hpath.2 habove⟩

end Agenor.BlockTree

namespace Agenor.Concrete

/-- Two branches on the genesis block. The longer one, of the blocks 2 and 3, starts with a block
that is invalid. -/
def twoBranches : BlockTree where
  size := 4
  node := fun b => [⟨none, none, 0, 1⟩, ⟨some 0, none, 1, 2⟩, ⟨some 0, none, 1, 2⟩,
    ⟨some 2, some 0, 2, 3⟩].getD b ⟨none, none, 0, 0⟩
  status := fun b => ⟨BLOCK_VALID_TRANSACTIONS, true, b == 2, false, 1, 1, b⟩
  setBlockIndexCandidates := fun b => b == 1 || b == 3
  mapBlocksUnlinked := []
  tip := 0
  nBlockSequenceId := 4

end Agenor.Concrete

namespace Agenor.BlockTree

open Concrete

/-- The shorter branch is found, and the candidate of the other one is removed. -/
theorem findMostWorkChain_twoBranches :
    Indexed twoBranches ∧ (twoBranches.findMostWorkChain 3).2 = some 1 ∧
      (twoBranches.findMostWorkChain 3).1.setBlockIndexCandidates 3 = false ∧
      MostWork twoBranches (twoBranches.findMostWorkChain 3) := by
  have hs : Indexed twoBranches := by
    refine ⟨⟨by decide, rfl, rfl, by decide, by decide⟩, by decide, fun b hb => ?_,
      fun b _ a _ => Or.inl Nat.one_ne_zero⟩
    simp only [twoBranches, Bool.or_eq_true, beq_iff_eq] at hb ⊢
    omega
  exact ⟨hs, by decide, by decide, (findMostWorkChain_mostWork twoBranches hs 3 (by decide)).2.2⟩

end Agenor.BlockTree
