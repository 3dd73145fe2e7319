import Agenor.Params
import Mathlib.Data.List.Sort
import Mathlib.Data.List.Chain
import Mathlib.Data.List.Perm.Subperm

/-!
The first version of the stake modifier (`legacy/stakemodifier.cpp`).

A modifier of 64 bits is put together from the entropy bits of as many blocks, which are selected
one in each round from the blocks before. A chain is given by its blocks, the last one first, so
that `pprev` is the rest of the list.
-/

namespace Agenor

/-- The fields of a `CBlockIndex` that the modifier depends on. -/
structure ModifierBlock where
  hash : Uint256
  nHeight : ℤ
  nTime : ℕ
  isProofOfStake : Bool
  generatedStakeModifier : Bool
  vStakeModifier : Option (BitVec 64)
  deriving DecidableEq, Repr

namespace ModifierBlock

def getBlockTime (b : ModifierBlock) : ℤ := b.nTime

def getStakeEntropyBit (b : ModifierBlock) : BitVec 32 := (b.hash.setWidth 64 &&& 1).setWidth 32

def getStakeModifierV1 (consensus : ChainParams) (b : ModifierBlock) : BitVec 64 :=
  if consensus.networkUpgradeActive b.nHeight .UPGRADE_V3_4 then 0 else b.vStakeModifier.getD 0

end ModifierBlock

def MODIFIER_INTERVAL : ℤ := 60
def MODIFIER_INTERVAL_RATIO : ℤ := 3
def OLD_MODIFIER_INTERVAL : ℤ := 2087

def getStakeModifierSelectionIntervalSection (nSection : ℕ) : ℤ :=
  MODIFIER_INTERVAL * 63 / (63 + (63 - nSection) * ( MODIFIER_INTERVAL_RATIO - 1))

/-- What the selection depends on besides the chain. -/
structure ModifierEnv where
  consensus : ChainParams
  mapBlockIndex : Uint256 → Option ModifierBlock
  /-- `Hash`. -/
  hash : List UInt8 → Uint256
  /-- The address of the literal that the block after the genesis block gets as its modifier. -/
  literal : BitVec 64

namespace ModifierEnv

variable (env : ModifierEnv)

/-- The hash that a candidate is judged by. -/
def hashSelection (fModifierV2 : Bool) (nStakeModifierPrev : BitVec 64) (pindex : ModifierBlock) :
    Uint256 :=
  let hashProof : Uint256 :=
    if fModifierV2 then pindex.hash else if pindex.isProofOfStake then 0 else pindex.hash
  let hashSelection := env.hash (bytesLE 32 hashProof.toNat ++ bytesLE 8 nStakeModifierPrev.toNat)
  if pindex.isProofOfStake then hashSelection >>> (32 : ℕ) else hashSelection

/-- The loop of `SelectBlockFromCandidates`. `fModifierV2` is set in the first run, and `best` is
the candidate that is selected so far, with its hash. -/
def selectLoop (mapSelectedBlocks : List ModifierBlock) (nSelectionIntervalStop : ℤ)
    (nStakeModifierPrev : BitVec 64) : Option Bool → Option (Uint256 × ModifierBlock) →
    List (ℤ × Uint256) → Option ModifierBlock
  | _, best, [] => best.map (·.2)
  | fModifierV2, best, item :: rest =>
    match env.mapBlockIndex item.2 with
    | none => none
    | some pindex =>
      if best.isSome = true ∧ nSelectionIntervalStop < pindex.getBlockTime then best.map (·.2)
      else
        let fModifierV2 := fModifierV2.getD
          (env.consensus.networkUpgradeActive pindex.nHeight .UPGRADE_POS_V2)
        if (mapSelectedBlocks.map (·.hash)).contains pindex.hash then
          selectLoop mapSelectedBlocks nSelectionIntervalStop nStakeModifierPrev
            (some fModifierV2) best rest
        else
          let hash := env.hashSelection fModifierV2 nStakeModifierPrev pindex
          let best := match best with
            | none => some (hash, pindex)
            | some (hashBest, selected) =>
              if hash < hashBest then some (hash, pindex) else some (hashBest, selected)
          selectLoop mapSelectedBlocks nSelectionIntervalStop nStakeModifierPrev
            (some fModifierV2) best rest

def selectBlockFromCandidates (vSortedByTimestamp : List (ℤ × Uint256))
    (mapSelectedBlocks : List ModifierBlock) (nSelectionIntervalStop : ℤ)
    (nStakeModifierPrev : BitVec 64) : Option ModifierBlock :=
  env.selectLoop mapSelectedBlocks nSelectionIntervalStop nStakeModifierPrev none none
    vSortedByTimestamp

/-- The rounds of `ComputeNextStakeModifier`. The blocks that have been selected are in the order of
the rounds, so there have been as many rounds. -/
def selectRounds (vSortedByTimestamp : List (ℤ × Uint256)) (nStakeModifierPrev : BitVec 64) :
    ℕ → ℤ → List ModifierBlock → BitVec 64 → Option (List ModifierBlock × BitVec 64)
  | 0, _, mapSelectedBlocks, nStakeModifierNew => some (mapSelectedBlocks, nStakeModifierNew)
  | n + 1, nSelectionIntervalStop, mapSelectedBlocks, nStakeModifierNew =>
    let nRound := mapSelectedBlocks.length
    let nSelectionIntervalStop :=
      nSelectionIntervalStop + getStakeModifierSelectionIntervalSection nRound
    match env.selectBlockFromCandidates vSortedByTimestamp mapSelectedBlocks nSelectionIntervalStop
      nStakeModifierPrev with
    | none => none
    | some pindex =>
      selectRounds vSortedByTimestamp nStakeModifierPrev n nSelectionIntervalStop
        (mapSelectedBlocks ++ [pindex])
        (nStakeModifierNew ||| pindex.getStakeEntropyBit.setWidth 64 <<< nRound)

/-- The start of the interval that candidates are taken from. -/
def nSelectionIntervalStart (pindexPrev : ModifierBlock) : ℤ :=
  pindexPrev.getBlockTime / MODIFIER_INTERVAL * MODIFIER_INTERVAL - OLD_MODIFIER_INTERVAL

/-- The candidates: the blocks back to the first one before the interval. -/
def candidates (pindexPrev : ModifierBlock) (chain : List ModifierBlock) : List ModifierBlock :=
  chain.takeWhile fun b => decide (nSelectionIntervalStart pindexPrev ≤ b.getBlockTime)

/-- The candidates by their times, and by their hashes where these are the same. -/
def sortedByTimestamp (candidates : List ModifierBlock) : List (ℤ × Uint256) :=
  (candidates.map fun b => (b.getBlockTime, b.hash)).mergeSort fun x y =>
    decide (x.1 < y.1) || x.1 == y.1 && decide (x.2.toNat ≤ y.2.toNat)

/-- `ComputeNextStakeModifier`; `none` when it fails. The second component is
`fGeneratedStakeModifier`. -/
def computeNextStakeModifier (chain : List ModifierBlock) : Option (BitVec 64 × Bool) :=
  match chain with
  | [] => some (0, true)
  | pindexPrev :: _ =>
    if pindexPrev.nHeight = 0 then some (env.literal, true)
    else
      -- the walk back ends at the first block when none has generated a modifier
      match chain.find? (·.generatedStakeModifier) with
      | none => none
      | some p =>
        let nStakeModifier := p.getStakeModifierV1 env.consensus
        let nModifierTime := p.getBlockTime
        if pindexPrev.getBlockTime / MODIFIER_INTERVAL ≤ nModifierTime / MODIFIER_INTERVAL then
          some (nStakeModifier, false)
        else
          let vSortedByTimestamp := sortedByTimestamp (candidates pindexPrev chain)
          (env.selectRounds vSortedByTimestamp nStakeModifier (min 64 vSortedByTimestamp.length)
            (nSelectionIntervalStart pindexPrev) [] 0).map fun r => (r.2, true)

/-! ### One round -/

/-- The block indexes of a chain: they are all in `mapBlockIndex`, and each is one higher than the
one before it. -/
structure OnChain (chain : List ModifierBlock) : Prop where
  present : ∀ b ∈ chain, env.mapBlockIndex b.hash = some b
  height : chain.IsChain fun b p => b.nHeight = p.nHeight + 1

variable {env} {chain selected cands : List ModifierBlock} {stop : ℤ} {prev : BitVec 64}

/-- A round finds a block when there is one that has not been selected, wherever the interval
ends. -/
lemma selectLoop_spec {P : ModifierBlock → Prop} {items : List (ℤ × Uint256)} (v2 : Option Bool)
    (best : Option (Uint256 × ModifierBlock))
    (hitems : ∀ item ∈ items, ∃ b, env.mapBlockIndex item.2 = some b ∧
      ((selected.map (·.hash)).contains b.hash = false → P b))
    (hbest : ∀ x, best = some x → P x.2)
    (hsome : best.isSome = true ∨ ∃ item ∈ items, ∃ b, env.mapBlockIndex item.2 = some b ∧
      (selected.map (·.hash)).contains b.hash = false) :
    ∃ b, env.selectLoop selected stop prev v2 best items = some b ∧ P b := by
  induction items generalizing v2 best with
  | nil =>
    obtain ⟨x, hx⟩ := Option.isSome_iff_exists.mp (hsome.resolve_right (by simp))
    subst hx
    exact ⟨x.2, rfl, hbest x rfl⟩
  | cons item items ih =>
    rw [List.forall_mem_cons] at hitems
    obtain ⟨⟨b, hb, hP⟩, hrest⟩ := hitems
    unfold selectLoop
    rw [hb]
    dsimp only
    by_cases hstop : best.isSome = true ∧ stop < b.getBlockTime
    · obtain ⟨x, hx⟩ := Option.isSome_iff_exists.mp hstop.1
      subst hx
      exact ⟨x.2, if_pos hstop, hbest x rfl⟩
    rw [if_neg hstop]
    by_cases hsel : (selected.map (·.hash)).contains b.hash = true
    · rw [if_pos hsel]
      refine ih _ _ hrest hbest (hsome.imp_right ?_)
      rintro ⟨d, hd, b', hb', hnew⟩
      rcases List.mem_cons.mp hd with rfl | hd
      · obtain rfl := Option.some.inj (hb.symm.trans hb')
        rw [hsel] at hnew
        cases hnew
      · exact ⟨d, hd, b', hb', hnew⟩
    · rw [if_neg hsel]
      refine ih _ _ hrest ?_ (.inl ?_)
      · rintro x hx
        cases best with
        | none =>
          obtain rfl := Option.some.inj hx
          exact hP (Bool.not_eq_true _ ▸ hsel)
        | some y =>
          dsimp only at hx
          split_ifs at hx with hlt
          · obtain rfl := Option.some.inj hx
            exact hP (Bool.not_eq_true _ ▸ hsel)
          · obtain rfl := Option.some.inj hx
            exact hbest y rfl
      · cases best with
        | none => rfl
        | some y =>
          dsimp only
          split_ifs <;> rfl

/-- The list that is selected from has the candidates, by hashes that `mapBlockIndex` knows. -/
structure Lists (env : ModifierEnv) (cands : List ModifierBlock) (items : List (ℤ × Uint256)) :
    Prop where
  nodup : cands.Nodup
  present : ∀ b ∈ cands, env.mapBlockIndex b.hash = some b
  mem_iff : ∀ hash, (∃ item ∈ items, item.2 = hash) ↔ ∃ b ∈ cands, b.hash = hash

lemma Lists.select {items : List (ℤ × Uint256)} (h : Lists env cands items) (stop : ℤ)
    (prev : BitVec 64) (hsub : selected ⊆ cands) (hlen : selected.length < cands.length) :
    ∃ b, env.selectBlockFromCandidates items selected stop prev = some b ∧
      b ∈ cands ∧ b ∉ selected := by
  have hknown : ∀ item ∈ items, ∃ b ∈ cands, env.mapBlockIndex item.2 = some b ∧
      b.hash = item.2 := by
    intro item hitem
    obtain ⟨b, hb, hhash⟩ := (h.mem_iff item.2).mp ⟨item, hitem, rfl⟩
    exact ⟨b, hb, hhash ▸ h.present b hb, hhash⟩
  have hnew : ∀ b ∈ cands, (selected.map (·.hash)).contains b.hash = false ↔ b ∉ selected := by
    intro b hb
    rw [List.contains_eq_mem, decide_eq_false_iff_not, List.mem_map]
    refine not_congr ⟨?_, fun hmem => ⟨b, hmem, rfl⟩⟩
    rintro ⟨d, hd, hhash⟩
    -- a hash belongs to one block index
    have hdb := h.present d (hsub hd)
    rw [hhash, h.present b hb] at hdb
    exact Option.some.inj hdb ▸ hd
  obtain ⟨c, hc, hcs⟩ : ∃ c ∈ cands, c ∉ selected := by
    by_contra hall
    have hsub' : cands ⊆ selected := fun c hc => by_contra fun hcs => hall ⟨c, hc, hcs⟩
    exact absurd (h.nodup.subperm hsub').length_le (by omega)
  refine selectLoop_spec none none ?_ (by simp) (.inr ?_)
  · intro item hitem
    obtain ⟨b, hb, hmap, -⟩ := hknown item hitem
    exact ⟨b, hmap, fun hcontains => ⟨hb, (hnew b hb).mp hcontains⟩⟩
  · obtain ⟨item, hitem, hhash⟩ := (h.mem_iff c.hash).mpr ⟨c, hc, rfl⟩
    exact ⟨item, hitem, c, hhash ▸ h.present c hc, (hnew c hc).mpr hcs⟩

/-! ### All rounds -/

/-- The end of the interval of a round, given the one before the first round. -/
def intervalStop (start : ℤ) : ℕ → ℤ
  | 0 => start + getStakeModifierSelectionIntervalSection 0
  | r + 1 => intervalStop start r + getStakeModifierSelectionIntervalSection (r + 1)

lemma getLsbD_entropy (b : ModifierBlock) (i : ℕ) :
    (b.getStakeEntropyBit.setWidth 64).getLsbD i =
      (decide (i = 0) && b.getStakeEntropyBit.getLsbD 0) := by
  by_cases hi : i = 0
  · subst hi
    simp
  · simp [ModifierBlock.getStakeEntropyBit, hi]

/-- The bits are those of the blocks, in the order in which these were selected. -/
def HasBits (nStakeModifier : BitVec 64) (selected : List ModifierBlock) : Prop :=
  ∀ r, nStakeModifier.getLsbD r =
    ((selected[r]?).map fun b => b.getStakeEntropyBit.getLsbD 0).getD false

lemma HasBits.snoc {new : BitVec 64} (h : HasBits new selected) (hlen : selected.length < 64)
    (b : ModifierBlock) :
    HasBits (new ||| b.getStakeEntropyBit.setWidth 64 <<< selected.length) (selected ++ [b]) := by
  intro r
  rw [BitVec.getLsbD_or, BitVec.getLsbD_shiftLeft, getLsbD_entropy, h r]
  rcases lt_trichotomy r selected.length with hlt | rfl | hgt
  · rw [List.getElem?_append_left hlt]
    simp [hlt]
  · simp [hlen]
  · rw [List.getElem?_eq_none (by omega), List.getElem?_eq_none (by simp; omega)]
    have hne : ¬ r - selected.length = 0 := by omega
    simp [hne]

/-- What there is after some rounds. -/
structure Selection (env : ModifierEnv) (cands : List ModifierBlock) (items : List (ℤ × Uint256))
    (start : ℤ) (prev new : BitVec 64) (selected : List ModifierBlock) : Prop where
  nodup : selected.Nodup
  mem : selected ⊆ cands
  round : ∀ r b, selected[r]? = some b → env.selectBlockFromCandidates items (selected.take r)
    (intervalStop start r) prev = some b
  bits : HasBits new selected

lemma Selection.snoc {items : List (ℤ × Uint256)} {start : ℤ} {new : BitVec 64} {b : ModifierBlock}
    (h : Selection env cands items start prev new selected) (hlen : selected.length < 64)
    (hb : env.selectBlockFromCandidates items selected (intervalStop start selected.length) prev =
      some b) (hmem : b ∈ cands) (hnew : b ∉ selected) :
    Selection env cands items start prev
      (new ||| b.getStakeEntropyBit.setWidth 64 <<< selected.length) (selected ++ [b]) := by
  refine ⟨?_, ?_, ?_, h.bits.snoc hlen b⟩
  · rw [List.nodup_append]
    exact ⟨h.nodup, List.nodup_singleton b, fun c hc d hd heq =>
      hnew (List.mem_singleton.mp hd ▸ heq ▸ hc)⟩
  · exact List.append_subset.mpr ⟨h.mem, List.cons_subset.mpr ⟨hmem, List.nil_subset _⟩⟩
  · intro r c hc
    rcases lt_trichotomy r selected.length with hlt | rfl | hgt
    · rw [List.getElem?_append_left hlt] at hc
      rw [List.take_append_of_le_length hlt.le]
      exact h.round r c hc
    · rw [List.getElem?_concat_length] at hc
      obtain rfl := Option.some.inj hc
      rwa [List.take_left]
    · rw [List.getElem?_eq_none (by simp; omega)] at hc
      cases hc

lemma Lists.selectRounds {items : List (ℤ × Uint256)} (h : Lists env cands items)
    {start : ℤ} (stop : ℤ) {new : BitVec 64} {n : ℕ}
    (hsel : Selection env cands items start prev new selected)
    (hn : selected.length + n ≤ min 64 cands.length)
    (hstop : stop + getStakeModifierSelectionIntervalSection selected.length =
      intervalStop start selected.length) :
    ∃ selected' new', env.selectRounds items prev n stop selected new = some (selected', new') ∧
      Selection env cands items start prev new' selected' ∧
      selected'.length = selected.length + n := by
  induction n generalizing selected stop new with
  | zero => exact ⟨selected, new, rfl, hsel, rfl⟩
  | succ n ih =>
    have hlen : selected.length < 64 := by omega
    obtain ⟨b, hb, hmem, hnew⟩ := h.select (intervalStop start selected.length) prev
      hsel.mem (by omega)
    have hnext : (selected ++ [b]).length = selected.length + 1 := by simp
    obtain ⟨selected', new', hrun, hsel', hlen'⟩ := ih
      (intervalStop start selected.length) (hsel.snoc hlen hb hmem hnew) (by omega)
      (by rw [hnext]; rfl)
    refine ⟨selected', new', ?_, hsel', by omega⟩
    unfold ModifierEnv.selectRounds
    dsimp only
    rw [hstop, hb]
    exact hrun

/-! ### The modifier -/

lemma OnChain.nodup (h : env.OnChain chain) : chain.Nodup := by
  have hdown : (chain.map (·.nHeight)).IsChain (· > ·) := by
    rw [List.isChain_map]
    refine h.height.imp fun b p hbp => ?_
    change p.nHeight < b.nHeight
    omega
  exact List.Nodup.of_map _ ((List.isChain_iff_pairwise.mp hdown).imp fun hgt => hgt.ne')

lemma sortedByTimestamp_perm (cands : List ModifierBlock) :
    (sortedByTimestamp cands).Perm (cands.map fun b => (b.getBlockTime, b.hash)) :=
  List.mergeSort_perm _ _

lemma OnChain.lists (h : env.OnChain chain) (pindexPrev : ModifierBlock) :
    Lists env (candidates pindexPrev chain)
      (sortedByTimestamp (candidates pindexPrev chain)) := by
  have hsub : (candidates pindexPrev chain).Sublist chain := List.takeWhile_sublist _
  refine ⟨hsub.nodup h.nodup, fun b hb => h.present b (hsub.subset hb), fun hash => ?_⟩
  simp only [(sortedByTimestamp_perm _).mem_iff, List.mem_map]
  constructor
  · rintro ⟨_, ⟨b, hb, rfl⟩, rfl⟩
    exact ⟨b, hb, rfl⟩
  · rintro ⟨b, hb, rfl⟩
    exact ⟨_, ⟨b, hb, rfl⟩, rfl⟩

/-- **The stake modifier is always found.** On a chain that has generated a modifier the next one is
computed, and when it is a new one, it has the entropy bits of as many different candidates as there
are, at most 64, each at the place of the round in which it was selected. -/
theorem computeNextStakeModifier_total {pindexPrev : ModifierBlock}
    {ancestors : List ModifierBlock} (h : env.OnChain (pindexPrev :: ancestors))
    (hgen : ∃ b ∈ pindexPrev :: ancestors, b.generatedStakeModifier = true) :
    ∃ nStakeModifier fGeneratedStakeModifier,
      env.computeNextStakeModifier (pindexPrev :: ancestors) =
        some (nStakeModifier, fGeneratedStakeModifier) ∧
      (pindexPrev.nHeight ≠ 0 → fGeneratedStakeModifier = true →
        let cands := candidates pindexPrev (pindexPrev :: ancestors)
        ∃ p selected, (pindexPrev :: ancestors).find? (·.generatedStakeModifier) = some p ∧
          selected.length = min 64 cands.length ∧ selected.Nodup ∧ selected ⊆ cands ∧
          (∀ r b, selected[r]? = some b →
            env.selectBlockFromCandidates (sortedByTimestamp cands) (selected.take r)
              (intervalStop (nSelectionIntervalStart pindexPrev) r)
              (p.getStakeModifierV1 env.consensus) = some b ∧
            nStakeModifier.getLsbD r = b.getStakeEntropyBit.getLsbD 0) ∧
          ∀ r, min 64 cands.length ≤ r → nStakeModifier.getLsbD r = false) := by
  unfold computeNextStakeModifier
  dsimp only
  by_cases hheight : pindexPrev.nHeight = 0
  · rw [if_pos hheight]
    exact ⟨env.literal, true, rfl, fun hne => absurd hheight hne⟩
  rw [if_neg hheight]
  obtain ⟨p, hp⟩ := Option.isSome_iff_exists.mp (List.find?_isSome.mpr hgen)
  rw [hp]
  dsimp only
  split_ifs with htime
  · exact ⟨_, false, rfl, fun _ hfalse => by cases hfalse⟩
  have hlists := h.lists pindexPrev
  have hlen : (sortedByTimestamp (candidates pindexPrev (pindexPrev :: ancestors))).length =
      (candidates pindexPrev (pindexPrev :: ancestors)).length := by
    rw [(sortedByTimestamp_perm _).length_eq, List.length_map]
  have hstart : Selection env (candidates pindexPrev (pindexPrev :: ancestors))
      (sortedByTimestamp (candidates pindexPrev (pindexPrev :: ancestors)))
      (nSelectionIntervalStart pindexPrev) (p.getStakeModifierV1 env.consensus) 0 [] :=
    ⟨List.nodup_nil, List.nil_subset _, fun r b hb => by simp at hb, fun r => by simp⟩
  obtain ⟨selected, new, hrun, hsel, hcount⟩ := hlists.selectRounds
    (nSelectionIntervalStart pindexPrev)
    (n := min 64 (sortedByTimestamp (candidates pindexPrev (pindexPrev :: ancestors))).length)
    hstart (by rw [hlen]; simp) rfl
  rw [hrun]
  rw [hlen, List.length_nil, Nat.zero_add] at hcount
  refine ⟨new, true, rfl, fun _ _ => ⟨p, selected, rfl, hcount, hsel.nodup, hsel.mem,
    fun r b hb => ⟨hsel.round r b hb, ?_⟩, fun r hr => ?_⟩⟩
  · rw [hsel.bits r, hb]
    rfl
  · rw [hsel.bits r, List.getElem?_eq_none (by omega)]
    rfl

end ModifierEnv

namespace Concrete

open ModifierEnv

/-- Two blocks of the last interval on an old one that generated a modifier. -/
def modifierChain : List ModifierBlock :=
  [⟨31, 3, 10000, true, false, some 9⟩, ⟨21, 2, 9990, true, false, some 9⟩,
    ⟨11, 1, 5000, false, true, some 9⟩, ⟨10, 0, 0, false, true, some 0⟩]

def modifierEnv : ModifierEnv where
  consensus := mainParams
  mapBlockIndex := fun hash => modifierChain.find? fun b => b.hash == hash
  hash := fun bytes => BitVec.ofNat 256 bytes.length
  literal := 0

/-- The next modifier has a bit of each of the two blocks. -/
theorem computeNextStakeModifier_total_two :
    ∃ nStakeModifier, modifierEnv.computeNextStakeModifier modifierChain =
      some (nStakeModifier, true) ∧ ∀ r, 2 ≤ r → nStakeModifier.getLsbD r = false := by
  have hchain : modifierEnv.OnChain modifierChain := ⟨by decide, by decide⟩
  obtain ⟨new, fGenerated, hnew, hbits⟩ := computeNextStakeModifier_total hchain
    ⟨⟨11, 1, 5000, false, true, some 9⟩, by decide, rfl⟩
  have hmap : ∃ x : Option (List ModifierBlock × BitVec 64),
      modifierEnv.computeNextStakeModifier modifierChain = x.map fun r => (r.2, true) := ⟨_, rfl⟩
  obtain ⟨x, hx⟩ := hmap
  obtain ⟨r, -, hr⟩ := Option.map_eq_some_iff.mp (hx.symm.trans hnew)
  obtain rfl := (Prod.mk.inj hr).2
  obtain ⟨p, selected, -, -, -, -, -, hhigh⟩ := hbits (by decide) rfl
  exact ⟨new, hnew, hhigh⟩

end Concrete

end Agenor
