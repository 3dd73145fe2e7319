import Agenor.MasternodeRank
import Agenor.StakeInput
import Mathlib.Data.Nat.Bitwise

/-!
The target of a stake kernel (`kernel.cpp`, `pow.cpp`).

The target of a block is multiplied by the value that is staked, in 256 bits. The limit of the
target has 236 bits and the money supply is worth 47, so the product need not fit. Where it does
not, a larger stake may meet a smaller target.
-/

namespace Agenor

/-! ### The target of a block -/

/-- The consensus parameters that `GetNextWorkRequired` reads from the proof-of-stake heights on. -/
structure WorkParams where
  posLimitV1 : Uint256
  posLimitV2 : Uint256
  nTargetTimespan : ℤ
  nTargetTimespanV2 : ℤ
  nTargetSpacing : ℤ

/-- Those of `CMainParams`. -/
def mainWork : WorkParams where
  posLimitV1 := (~~~0 : Uint256) >>> (24 : ℕ)
  posLimitV2 := (~~~0 : Uint256) >>> (20 : ℕ)
  nTargetTimespan := 40 * 60
  nTargetTimespanV2 := 30 * 60
  nTargetSpacing := 2 * 60

def ChainParams.isTimeProtocolV2 (consensus : ChainParams) (nHeight : ℤ) : Bool :=
  consensus.networkUpgradeActive nHeight .UPGRADE_V4_0

def WorkParams.proofOfStakeLimit (w : WorkParams) (fV2 : Bool) : Uint256 :=
  if fV2 then w.posLimitV2 else w.posLimitV1

/-- `GetNextWorkRequired` from the proof-of-stake heights on, outside the regression test network.
The block before has the height, the bits and the time that are given, and its parent has the time
`prevTime`. -/
def getNextStakeWork (consensus : ChainParams) (w : WorkParams) (nHeight : ℤ) (nBits : ℕ)
    (nTime prevTime : ℤ) : ℕ :=
  let fTimeV2 := !consensus.isRegTestNet && consensus.isTimeProtocolV2 (nHeight + 1)
  let bnTargetLimit := w.proofOfStakeLimit fTimeV2
  let nTargetTimespan := if fTimeV2 then w.nTargetTimespanV2 else w.nTargetTimespan
  let nActualSpacing := if nHeight ≠ 0 then nTime - prevTime else 0
  let nActualSpacing := if nActualSpacing < 0 then 1 else nActualSpacing
  let nActualSpacing := if fTimeV2 = true ∧ w.nTargetSpacing * 10 < nActualSpacing then
    w.nTargetSpacing * 10 else nActualSpacing
  let bnNew := setCompact nBits
  let bnNew := if fTimeV2 && !consensus.isTimeProtocolV2 nHeight then bnNew <<< 4 else bnNew
  let nInterval := nTargetTimespan.tdiv w.nTargetSpacing
  -- the factor is taken as 32 bits, the divisor as 64
  let bnNew := bnNew * (BitVec.ofInt 32 ((nInterval - 1) * w.nTargetSpacing + nActualSpacing +
    nActualSpacing)).setWidth 256
  let bnNew := bnNew / (BitVec.ofInt 64 ((nInterval + 1) * w.nTargetSpacing)).setWidth 256
  let bnNew := if bnNew = 0 ∨ bnTargetLimit < bnNew then bnTargetLimit else bnNew
  getCompact bnNew

/-! ### The target of a kernel -/

/-- What `CheckKernelHash` compares the hash with. -/
def weightedTarget (nBits : ℕ) (stakeValue : ℤ) : Uint256 :=
  setCompact nBits * ((BitVec.ofInt 64 stakeValue).setWidth 256 / 100)

lemma checkKernelHash_iff {stake : CAgeStake} {K : KernelEnv} {consensus : ChainParams}
    {pindexPrev : CBlockIndex} {nBits nTime : ℕ} {stakeValue : ℤ} :
    stake.checkKernelHash K consensus pindexPrev nBits nTime stakeValue = true ↔
      (K.hash (stake.kernel K consensus pindexPrev nTime)).toNat <
        (weightedTarget nBits stakeValue).toNat := by
  unfold CAgeStake.checkKernelHash
  rw [decide_eq_true_eq]
  exact BitVec.lt_def

/-- The product that the target is meant to be. -/
def exactTarget (nBits : ℕ) (stakeValue : ℤ) : ℕ :=
  (setCompact nBits).toNat * (stakeValue / 100).toNat

lemma toNat_weight {v : ℤ} (h0 : 0 ≤ v) (hv : v < 2 ^ 63) :
    ((BitVec.ofInt 64 v).setWidth 256 / 100).toNat = (v / 100).toNat := by
  obtain ⟨n, rfl⟩ := Int.eq_ofNat_of_zero_le h0
  have hn : n < 2 ^ 63 := by omega
  rw [BitVec.toNat_udiv, BitVec.toNat_setWidth, BitVec.toNat_ofInt]
  simp
  omega

lemma toNat_weightedTarget {nBits : ℕ} {v : ℤ} (h0 : 0 ≤ v) (hv : v < 2 ^ 63) :
    (weightedTarget nBits v).toNat = exactTarget nBits v % 2 ^ 256 := by
  rw [weightedTarget, BitVec.toNat_mul, toNat_weight h0 hv, exactTarget]

lemma exactTarget_mono (nBits : ℕ) {v v' : ℤ} (h : v ≤ v') :
    exactTarget nBits v ≤ exactTarget nBits v' :=
  Nat.mul_le_mul_left _ (Int.toNat_le_toNat (Int.ediv_le_ediv (by decide) h))

/-- A kernel that is accepted for a coin is accepted for a coin that is worth more. -/
def KeepsAccepting (consensus : ChainParams) (nBits : ℕ) : Prop :=
  ∀ (K : KernelEnv) (stake : CAgeStake) (pindexPrev : CBlockIndex) (nTime : ℕ) (v v' : ℤ),
    0 ≤ v → v ≤ v' → v' ≤ consensus.nMaxMoneyOut →
      stake.checkKernelHash K consensus pindexPrev nBits nTime v = true →
      stake.checkKernelHash K consensus pindexPrev nBits nTime v' = true

/-- A kernel with the hash that is given. -/
def kernelOf (hash : Uint256) : KernelEnv where
  getOldStakeModifier := fun _ => 0
  getStakeModifierV2 := fun _ => 0
  hash := fun _ => hash
  verifyScript := fun _ _ => none
  checkLegacyZAgeStake := fun _ _ => .accepted

section

variable {consensus : ChainParams} {nBits : ℕ}

lemma weightedTarget_eq_iff {v : ℤ} (h0 : 0 ≤ v) (hv : v < 2 ^ 63) :
    (weightedTarget nBits v).toNat = exactTarget nBits v ↔ exactTarget nBits v < 2 ^ 256 := by
  rw [toNat_weightedTarget h0 hv]
  exact Nat.mod_eq_iff_lt (by decide)

lemma keepsAccepting_of_fits (hM : consensus.nMaxMoneyOut < 2 ^ 63)
    (hfits : exactTarget nBits consensus.nMaxMoneyOut < 2 ^ 256) :
    KeepsAccepting consensus nBits := by
  intro K stake pindexPrev nTime v v' h0 hle hmax haccept
  have hv' := (exactTarget_mono nBits hmax).trans_lt hfits
  have hv := (exactTarget_mono nBits hle).trans_lt hv'
  rw [checkKernelHash_iff, (weightedTarget_eq_iff h0 (by omega)).mpr hv] at haccept
  rw [checkKernelHash_iff, (weightedTarget_eq_iff (h0.trans hle) (by omega)).mpr hv']
  exact haccept.trans_le (exactTarget_mono nBits hle)

lemma not_keepsAccepting (hM : consensus.nMaxMoneyOut < 2 ^ 63)
    (hfits : ¬ exactTarget nBits consensus.nMaxMoneyOut < 2 ^ 256) :
    ¬ KeepsAccepting consensus nBits := by
  intro hkeeps
  set T := (setCompact nBits).toNat with hT
  have hTlt : T < 2 ^ 256 := (setCompact nBits).isLt
  set W := (consensus.nMaxMoneyOut / 100).toNat with hW
  have hTW : 2 ^ 256 ≤ T * W := not_lt.mp hfits
  have hTpos : 0 < T := Nat.pos_of_ne_zero fun h => by
    rw [h, Nat.zero_mul] at hTW
    omega
  set w := (2 ^ 256 - 1) / T with hw
  have hlow : T * w ≤ 2 ^ 256 - 1 := Nat.mul_div_le _ _
  have hhigh : 2 ^ 256 - 1 < T * (w + 1) := Nat.lt_mul_div_succ _ hTpos
  have hwW : w + 1 ≤ W := by
    by_contra hlt
    have := Nat.mul_le_mul_left T (show W ≤ w by omega)
    omega
  have hw1 : 1 ≤ w := (Nat.one_le_div_iff hTpos).mpr (by omega)
  have hTw : T ≤ T * w := Nat.le_mul_of_pos_right T hw1
  have hsucc : T * (w + 1) = T * w + T := Nat.mul_succ T w
  have hexact : ∀ n : ℕ, exactTarget nBits (100 * n) = T * n := fun n => by
    rw [exactTarget, Int.mul_ediv_cancel_left _ (by decide), Int.toNat_natCast]
  have hmax : 100 * ((w + 1 : ℕ) : ℤ) ≤ consensus.nMaxMoneyOut := by omega
  have htarget : (weightedTarget nBits (100 * (w : ℤ))).toNat = T * w := by
    rw [toNat_weightedTarget (by omega) (by omega), hexact]
    exact Nat.mod_eq_of_lt (by omega)
  have htarget' : (weightedTarget nBits (100 * ((w + 1 : ℕ) : ℤ))).toNat =
      T * (w + 1) - 2 ^ 256 := by
    rw [toNat_weightedTarget (by omega) (by omega), hexact, Nat.mod_eq_sub_mod (by omega)]
    exact Nat.mod_eq_of_lt (by omega)
  have hhash : (BitVec.ofNat 256 (T * (w + 1) - 2 ^ 256)).toNat = T * (w + 1) - 2 ^ 256 := by
    rw [BitVec.toNat_ofNat]
    exact Nat.mod_eq_of_lt (by omega)
  have haccept := hkeeps (kernelOf (BitVec.ofNat 256 (T * (w + 1) - 2 ^ 256))) ⟨⟨0, [], []⟩, 0,
    ⟨0, 0, 0, none⟩⟩ ⟨0, 0, 0, none⟩ 0 (100 * (w : ℤ)) (100 * ((w + 1 : ℕ) : ℤ)) (by omega)
    (by omega) hmax
  rw [checkKernelHash_iff, checkKernelHash_iff, htarget, htarget'] at haccept
  have hself := haccept (by
    change (BitVec.ofNat 256 _).toNat < _
    rw [hhash]
    omega)
  change (BitVec.ofNat 256 _).toNat < _ at hself
  rw [hhash] at hself
  exact absurd hself (Nat.lt_irrefl _)

/-- **The target of a kernel** is the product that it should be exactly when that fits in 256 bits.
It is so for all values of a coin, and larger values are accepted with smaller ones, exactly when
the product with the money supply fits. -/
theorem weightedTarget_exact_iff (consensus : ChainParams)
    (hM : consensus.nMaxMoneyOut < 2 ^ 63) (nBits : ℕ) :
    (∀ v, consensus.moneyRange v = true →
      ((weightedTarget nBits v).toNat = exactTarget nBits v ↔ exactTarget nBits v < 2 ^ 256)) ∧
    ((∀ v, consensus.moneyRange v = true → (weightedTarget nBits v).toNat = exactTarget nBits v) ↔
      exactTarget nBits consensus.nMaxMoneyOut < 2 ^ 256) ∧
    (KeepsAccepting consensus nBits ↔
      exactTarget nBits consensus.nMaxMoneyOut < 2 ^ 256) := by
  have hrange : ∀ {v}, consensus.moneyRange v = true ↔ 0 ≤ v ∧ v ≤ consensus.nMaxMoneyOut :=
    decide_eq_true_iff
  refine ⟨fun v hv => ?_, ⟨fun hall => ?_, fun hfits v hv => ?_⟩, ?_⟩
  · obtain ⟨h0, hle⟩ := hrange.mp hv
    exact weightedTarget_eq_iff h0 (by omega)
  · by_cases h0 : 0 ≤ consensus.nMaxMoneyOut
    · exact (weightedTarget_eq_iff h0 hM).mp (hall _ (hrange.mpr ⟨h0, le_rfl⟩))
    · rw [exactTarget, Int.toNat_of_nonpos (by omega), Nat.mul_zero]
      decide
  · obtain ⟨h0, hle⟩ := hrange.mp hv
    exact (weightedTarget_eq_iff h0 (by omega)).mpr ((exactTarget_mono nBits hle).trans_lt hfits)
  · exact ⟨fun hkeeps => by_contra fun hfits => not_keepsAccepting hM hfits hkeeps,
      keepsAccepting_of_fits hM⟩

end

namespace Concrete

/-- On the main network the kernels of this difficulty have exact targets. -/
theorem weightedTarget_exact_iff_hard :
    (∀ v, mainParams.moneyRange v = true →
      (weightedTarget 0x1900ffff v).toNat = exactTarget 0x1900ffff v) ∧
    KeepsAccepting mainParams 0x1900ffff := by
  have hM : mainParams.nMaxMoneyOut < 2 ^ 63 := by decide
  obtain ⟨-, hexact, hkeeps⟩ := weightedTarget_exact_iff mainParams hM 0x1900ffff
  exact ⟨hexact.mpr (by decide), hkeeps.mpr (by decide)⟩

/-- At the limit of the target, which is asked for when a block comes late, the product for a
value of 1.048578 coins does not fit, and a kernel that is accepted for 100 less is not accepted
for it. -/
theorem not_weightedTarget_exact :
    getNextStakeWork mainParams mainWork 200000 0x1e0fffff 1200 0 = 0x1e0fffff ∧
    setCompact 0x1e0fffff ≤ mainWork.posLimitV2 ∧
    ¬ (∀ v, mainParams.moneyRange v = true →
      (weightedTarget 0x1e0fffff v).toNat = exactTarget 0x1e0fffff v) ∧
    ¬ KeepsAccepting mainParams 0x1e0fffff := by
  refine ⟨by decide, by decide, fun hall => ?_, fun hkeeps => ?_⟩
  · exact absurd (hall 104857800 (by decide)) (by decide)
  · have haccept := hkeeps (kernelOf (BitVec.ofNat 256 (2 ^ 240))) ⟨⟨0, [], []⟩, 0,
      ⟨0, 0, 0, none⟩⟩ ⟨0, 0, 0, none⟩ 0 104857700 104857800 (by decide) (by decide) (by decide)
    exact absurd (haccept (by decide)) (by decide)

end Concrete

end Agenor
