import Agenor.CompactTarget
import Agenor.SkipList

/-!
The target and the work of a block (`pow.cpp`), in the arithmetic of `BaseUint`.

The target that a block must meet is computed from the one before it: by every proof-of-stake
block, and by every 1440th block before. The work is the number of hashes that it takes to meet the
target, and adds up along a chain.
-/

namespace Agenor

open Lib.Ancestry CompactTarget

/-- The consensus parameters that `GetNextWorkRequired` reads. -/
structure PowParams where
  powLimit : BaseUint 8
  posLimitV1 : BaseUint 8
  posLimitV2 : BaseUint 8
  fPowAllowMinDifficultyBlocks : Bool
  fPowNoRetargeting : Bool
  nTargetTimespan : ℤ
  nTargetTimespanV2 : ℤ
  nTargetSpacing : ℤ
  nPowTargetTimespan : ℤ
  nPowTargetSpacing : ℤ

/-- Those of `CMainParams`. -/
def mainPow : PowParams where
  powLimit := (BaseUint.zero 8).compl.shr 20
  posLimitV1 := (BaseUint.zero 8).compl.shr 24
  posLimitV2 := (BaseUint.zero 8).compl.shr 20
  fPowAllowMinDifficultyBlocks := false
  fPowNoRetargeting := false
  nTargetTimespan := 40 * 60
  nTargetTimespanV2 := 30 * 60
  nTargetSpacing := 2 * 60
  nPowTargetTimespan := 2 * 24 * 60 * 60
  nPowTargetSpacing := 2 * 60

/-- Those of `CTestNetParams`; `CRegTestParams` sets the same ones. -/
def testNetPow : PowParams := { mainPow with fPowAllowMinDifficultyBlocks := true }

/-- The parameters a network runs with. -/
def powOf : Network → PowParams
  | .MAIN => mainPow
  | .TESTNET => testNetPow
  | .REGTEST => testNetPow

namespace PowParams

variable (w : PowParams)

def proofOfStakeLimit (fV2 : Bool) : BaseUint 8 := if fV2 then w.posLimitV2 else w.posLimitV1

def targetTimespan (fV2 : Bool) : ℤ := if fV2 then w.nTargetTimespanV2 else w.nTargetTimespan

def difficultyAdjustmentInterval : ℤ := w.nPowTargetTimespan.tdiv w.nPowTargetSpacing

end PowParams

/-- `mapBlockIndex` with the header fields that the target depends on, and the work. -/
structure HeaderMap (α : Type*) extends BlockMap α where
  nTime : α → BitVec 32
  nBits : α → BitVec 32
  nChainWork : α → BaseUint 8

/-- `GetBlockProof`; `none` when the division throws. -/
def getBlockProof (nBits : BitVec 32) : Option (BaseUint 8) :=
  let bnTarget := Uint256.setCompact nBits
  if bnTarget.pfNegative || bnTarget.pfOverflow || bnTarget.value.isNull then
    some (BaseUint.zero 8)
  else
    (bnTarget.value.compl.div (bnTarget.value.add (BaseUint.ofUint64 8 1))).map fun q =>
      q.add (BaseUint.ofUint64 8 1)

namespace HeaderMap

variable {α : Type*} (s : HeaderMap α)

def getBlockTime (b : α) : ℤ := (s.nTime b).toNat

/-- `CalculateNextWorkRequired`; `none` when it throws or an assertion fails. -/
def calculateNextWorkRequired (params : PowParams) (pindexLast : α) (nFirstBlockTime : ℤ) :
    Option (BitVec 32) :=
  if params.fPowNoRetargeting then some (s.nBits pindexLast)
  else
    let nActualTimespan := s.getBlockTime pindexLast - nFirstBlockTime
    let limUp := (params.nPowTargetTimespan * 100).tdiv 120
    let limDown := params.nPowTargetTimespan * 2
    let nActualTimespan := if nActualTimespan < limUp then limUp else nActualTimespan
    let nActualTimespan := if limDown < nActualTimespan then limDown else nActualTimespan
    let bnNew := (ArithUint256.setCompact (s.nBits pindexLast)).value
    -- the factor is taken as 32 bits, the divisor as 64
    let bnNew := bnNew.mulUint32 (BitVec.ofInt 32 nActualTimespan)
    (bnNew.div (BaseUint.ofUint64 8 (BitVec.ofInt 64 params.nPowTargetTimespan))).bind fun bnNew =>
      let bnNew := if 0 < bnNew.compareTo params.powLimit then params.powLimit else bnNew
      ArithUint256.getCompact bnNew false

/-- The loop that goes back to the last block that is not one of minimal difficulty; it is given as
many passes as there are blocks. -/
def lastNonMinimal (interval : ℤ) (nProofOfWorkLimit : BitVec 32) : ℕ → α → BitVec 32
  | 0, pindex => s.nBits pindex
  | fuel + 1, pindex =>
    match s.pprev pindex with
    | none => s.nBits pindex
    | some pprev =>
      if (s.nHeight pindex : ℤ).tmod interval ≠ 0 ∧ s.nBits pindex = nProofOfWorkLimit then
        lastNonMinimal interval nProofOfWorkLimit fuel pprev
      else s.nBits pindex

/-- `GetNextWorkRequired` from the proof-of-stake heights on. -/
def nextStakeTarget (consensus : ChainParams) (w : PowParams) (pindexLast : α) :
    Option (BitVec 32) :=
  let nHeight : ℤ := s.nHeight pindexLast
  let fTimeV2 := !consensus.isRegTestNet && consensus.isTimeProtocolV2 (nHeight + 1)
  let bnTargetLimit := w.proofOfStakeLimit fTimeV2
  let nTargetTimespan := w.targetTimespan fTimeV2
  (if nHeight ≠ 0 then
    (s.pprev pindexLast).map fun pprev => s.getBlockTime pindexLast - s.getBlockTime pprev
  else some 0).bind fun nActualSpacing =>
  let nActualSpacing := if nActualSpacing < 0 then 1 else nActualSpacing
  let nActualSpacing := if fTimeV2 = true ∧ w.nTargetSpacing * 10 < nActualSpacing then
    w.nTargetSpacing * 10 else nActualSpacing
  let bnNew := (Uint256.setCompact (s.nBits pindexLast)).value
  let bnNew := if fTimeV2 && !consensus.isTimeProtocolV2 nHeight then bnNew.shl 4 else bnNew
  let nInterval := nTargetTimespan.tdiv w.nTargetSpacing
  let bnNew := bnNew.mulUint32 (BitVec.ofInt 32 ((nInterval - 1) * w.nTargetSpacing +
    nActualSpacing + nActualSpacing))
  (bnNew.div (BaseUint.ofUint64 8
    (BitVec.ofInt 64 ((nInterval + 1) * w.nTargetSpacing)))).bind fun bnNew =>
  let bnNew := if bnNew.compareTo (BaseUint.zero 8) ≤ 0 ∨ 0 < bnNew.compareTo bnTargetLimit then
    bnTargetLimit else bnNew
  Uint256.getCompact bnNew false

/-- `GetNextWorkRequired`, for a block of the time that is given; `none` when it throws or an
assertion fails. -/
def getNextWorkRequired (consensus : ChainParams) (w : PowParams) (pindexLast : α)
    (blockTime : ℤ) : Option (BitVec 32) :=
  if consensus.isRegTestNet then some (s.nBits pindexLast)
  else
    (ArithUint256.getCompact w.powLimit false).bind fun nProofOfWorkLimit =>
    let nHeight : ℤ := s.nHeight pindexLast
    if consensus.networkUpgradeActive (nHeight + 1) .UPGRADE_POS then
      s.nextStakeTarget consensus w pindexLast
    else if (nHeight + 1).tmod w.difficultyAdjustmentInterval ≠ 0 then
      if w.fPowAllowMinDifficultyBlocks then
        if s.getBlockTime pindexLast + w.nPowTargetSpacing * 2 < blockTime then
          some nProofOfWorkLimit
        else some (s.lastNonMinimal w.difficultyAdjustmentInterval nProofOfWorkLimit
          (s.nHeight pindexLast + 1) pindexLast)
      else some (s.nBits pindexLast)
    else
      let nHeightFirst := nHeight - (w.difficultyAdjustmentInterval - 1)
      if nHeightFirst < 0 then none
      else
        (s.getAncestor pindexLast nHeightFirst).bind fun pindexFirst =>
        pindexFirst.bind fun pindexFirst =>
          s.calculateNextWorkRequired w pindexLast (s.getBlockTime pindexFirst)

end HeaderMap

/-! ### Bits and targets -/

/-- The bits are decoded to the target, with neither flag set. -/
structure Encodes (nBits : BitVec 32) (target : ℕ) : Prop where
  pfNegative : (Uint256.setCompact nBits).pfNegative = false
  pfOverflow : (Uint256.setCompact nBits).pfOverflow = false
  value : (Uint256.setCompact nBits).value.value = target

/-- The bits are the compact form of the target. -/
def IsCompactOf (nBits : BitVec 32) (target : ℕ) : Prop :=
  ∃ x : BaseUint 8, x.value = target ∧ ArithUint256.getCompact x false = some nBits

lemma IsCompactOf.encodes {nBits : BitVec 32} {target : ℕ} (h : IsCompactOf nBits target)
    (hpos : 0 < target) : ∃ r, Encodes nBits r ∧ 0 < r ∧ r ≤ target := by
  obtain ⟨x, rfl, hx⟩ := h
  obtain ⟨hvalue, hneg, hover⟩ := setCompact_getCompact_spec hx
  refine ⟨_, ⟨hneg, hover, hvalue⟩, ?_, Lib.Truncate.trunc_le 8 3 x.value⟩
  have hdrop := Lib.Truncate.dropped_lt_size (g := 8) (p := 3) (by decide) (by decide) hpos.ne'
  have hlead : 2 ^ (x.value.size - 1) ≤ x.value := Nat.lt_size.mp (by omega)
  exact (Nat.two_pow_pos _).trans_le (Lib.Truncate.two_pow_le_trunc (by omega) hlead)

/-- What a retarget returns: the compact form of the exact product and quotient, but not more than
the limit, which is decoded to a target that is not zero and not above the limit. -/
def Retargets (result : Option (BitVec 32)) (limit target num den : ℕ) : Prop :=
  ∃ nBits, result = some nBits ∧ IsCompactOf nBits (min limit (target * num / den)) ∧
    ∃ r, Encodes nBits r ∧ 0 < r ∧ r ≤ limit

lemma toNat_ofInt {n : ℕ} {x : ℤ} (h0 : 0 ≤ x) (h : x < 2 ^ n) :
    (BitVec.ofInt n x).toNat = x.toNat := by
  rw [BitVec.toNat_ofInt, Int.emod_eq_of_lt h0 (by exact_mod_cast h)]

lemma mul_div_exact (x : BaseUint 8) (num den : ℤ) (hnum : 0 ≤ num) (hnum32 : num < 2 ^ 32)
    (hden : 0 < den) (hden64 : den < 2 ^ 64) (hfits : x.value * num.toNat < 2 ^ 256) :
    ∃ q, (x.mulUint32 (BitVec.ofInt 32 num)).div (BaseUint.ofUint64 8 (BitVec.ofInt 64 den)) =
      some q ∧ q.value = x.value * num.toNat / den.toNat := by
  have hd : (BaseUint.ofUint64 8 (BitVec.ofInt 64 den)).value = den.toNat := by
    rw [BaseUint.value_ofUint64, toNat_ofInt hden.le hden64]
  have hm : (x.mulUint32 (BitVec.ofInt 32 num)).value = x.value * num.toNat := by
    rw [BaseUint.value_mulUint32, toNat_ofInt hnum hnum32, Nat.mod_eq_of_lt hfits]
  obtain ⟨q, hq, hvalue⟩ := (BaseUint.div_eq (x.mulUint32 (BitVec.ofInt 32 num))
    (BaseUint.ofUint64 8 (BitVec.ofInt 64 den))).2 (by omega)
  exact ⟨q, hq, by rw [hvalue, hm, hd]⟩

lemma value_clamp {q limit : BaseUint 8} {c : Prop} [Decidable c]
    (hc : c ↔ limit.value < q.value) :
    (if c then limit else q).value = min limit.value q.value := by
  split_ifs with h
  · exact (Nat.min_eq_left (hc.mp h).le).symm
  · exact (Nat.min_eq_right (Nat.le_of_not_lt fun hlt => h (hc.mpr hlt))).symm

lemma retargets_of_value {y : BaseUint 8} {limit target num den : ℕ}
    (hy : y.value = min limit (target * num / den)) (hlimit : 0 < limit)
    (hpos : 0 < target * num / den) :
    Retargets (ArithUint256.getCompact y false) limit target num den := by
  obtain ⟨nBits, hbits, -⟩ := getCompact_spec y
  have hcompact : IsCompactOf nBits (min limit (target * num / den)) := ⟨y, hy, hbits⟩
  obtain ⟨r, hr, hr0, hle⟩ := hcompact.encodes (Nat.lt_min.mpr ⟨hlimit, hpos⟩)
  exact ⟨nBits, hbits, hcompact, r, hr, hr0, hle.trans (Nat.min_le_left _ _)⟩

/-- The limit that a block of the height has. -/
def limitInForce (consensus : ChainParams) (w : PowParams) (nHeight : ℤ) : BaseUint 8 :=
  if consensus.networkUpgradeActive nHeight .UPGRADE_POS then
    w.proofOfStakeLimit (consensus.isTimeProtocolV2 nHeight)
  else w.powLimit

/-- The spacing that a proof-of-stake target is corrected by. -/
def stakeSpacing (d : ℤ) : ℤ := if d < 0 then 1 else min d 1200

/-- The timespan that a proof-of-work target is corrected by. -/
def powTimespan (d : ℤ) : ℤ := min (max d 144000) 345600

lemma stakeSpacing_mem (d : ℤ) : 0 ≤ stakeSpacing d ∧ stakeSpacing d ≤ 1200 := by
  unfold stakeSpacing
  split_ifs
  · decide
  · omega

lemma powTimespan_mem (d : ℤ) : 144000 ≤ powTimespan d ∧ powTimespan d ≤ 345600 := by
  unfold powTimespan
  omega

section

variable {net : Network} (hnet : net ≠ .REGTEST)
include hnet

lemma isRegTestNet_eq_false : (paramsOf net).isRegTestNet = false := by
  cases net with
  | MAIN => rfl
  | TESTNET => rfl
  | REGTEST => exact absurd rfl hnet

lemma upgrade_pos_eq (nHeight : ℤ) : (paramsOf net).networkUpgradeActive nHeight .UPGRADE_POS =
    (paramsOf net).isTimeProtocolV2 nHeight := by
  cases net with
  | MAIN => rfl
  | TESTNET => rfl
  | REGTEST => exact absurd rfl hnet

end

lemma value_powLimit (net : Network) : (powOf net).powLimit.value = 2 ^ 236 - 1 := by
  cases net <;> decide

lemma value_posLimitV2 (net : Network) : (powOf net).posLimitV2.value = 2 ^ 236 - 1 := by
  cases net <;> decide

lemma value_limitInForce {net : Network} (hnet : net ≠ .REGTEST) (nHeight : ℤ) :
    (limitInForce (paramsOf net) (powOf net) nHeight).value = 2 ^ 236 - 1 := by
  unfold limitInForce PowParams.proofOfStakeLimit
  rw [upgrade_pos_eq hnet]
  by_cases h : (paramsOf net).isTimeProtocolV2 nHeight = true
  · rw [if_pos h, if_pos h, value_posLimitV2]
  · rw [if_neg h, value_powLimit]

namespace HeaderMap

variable {α : Type*} {s : HeaderMap α} {b : α} {t : ℕ} {net : Network}

/-! ### Retargeting -/

/-- The target that a proof-of-stake block starts from: the difficulty falls by a factor of 16 on
the first block of the second time protocol. -/
def stakeStart (consensus : ChainParams) (nHeight : ℤ) (target : ℕ) : ℕ :=
  if consensus.isTimeProtocolV2 nHeight then target else 16 * target

lemma stakeStart_bounds (consensus : ChainParams) (nHeight : ℤ) (h2 : 2 ≤ t)
    (hle : t ≤ 2 ^ 236 - 1) :
    2 ≤ stakeStart consensus nHeight t ∧ stakeStart consensus nHeight t ≤ 16 * (2 ^ 236 - 1) := by
  unfold stakeStart
  split_ifs <;> omega

lemma value_stakeStart (consensus : ChainParams) (nHeight : ℤ) {x : BaseUint 8}
    (hx : x.value = t) (hle : t ≤ 2 ^ 236 - 1) :
    (if (!consensus.isTimeProtocolV2 nHeight) = true then x.shl 4 else x).value =
      stakeStart consensus nHeight t := by
  unfold stakeStart
  cases consensus.isTimeProtocolV2 nHeight
  · rw [if_pos (by decide), if_neg (by decide), BaseUint.value_shl_of_lt (by omega), hx,
      Nat.mul_comm]
    rfl
  · rw [if_neg (by decide), if_pos rfl, hx]

lemma nextStakeTarget_retargets (hnet : net ≠ .REGTEST) {p : α} (hp : s.pprev b = some p)
    (hheight : s.nHeight b ≠ 0) (hpos : (paramsOf net).isTimeProtocolV2 (s.nHeight b + 1) = true)
    (ht : (Uint256.setCompact (s.nBits b)).value.value = t) (h2 : 2 ≤ t) (hle : t ≤ 2 ^ 236 - 1) :
    Retargets (s.nextStakeTarget (paramsOf net) (powOf net) b) (2 ^ 236 - 1)
      (stakeStart (paramsOf net) (s.nHeight b) t)
      (1680 + 2 * (stakeSpacing (s.getBlockTime b - s.getBlockTime p)).toNat) 1920 := by
  obtain ⟨ha0, ha⟩ := stakeSpacing_mem (s.getBlockTime b - s.getBlockTime p)
  have hreg := isRegTestNet_eq_false hnet
  have hspacing : (powOf net).nTargetSpacing = 120 := by cases net <;> rfl
  have htimespan : (powOf net).nTargetTimespanV2 = 1800 := by cases net <;> rfl
  have hheight' : (s.nHeight b : ℤ) ≠ 0 := by exact_mod_cast hheight
  unfold nextStakeTarget PowParams.targetTimespan PowParams.proofOfStakeLimit
  dsimp only
  rw [hreg, hpos, if_pos hheight', hp, Option.map_some, Option.bind_some, hspacing]
  simp only [Bool.not_false, Bool.true_and, if_true, htimespan, true_and]
  generalize s.getBlockTime b - s.getBlockTime p = d at ha0 ha ⊢
  have hclamp : (if 120 * 10 < (if d < 0 then 1 else d) then 120 * 10
      else if d < 0 then 1 else d) = stakeSpacing d := by
    unfold stakeSpacing
    split_ifs <;> omega
  have hstart := value_stakeStart (paramsOf net) (s.nHeight b) ht hle
  obtain ⟨hstart2, hstartle⟩ :=
    stakeStart_bounds (paramsOf net) (s.nHeight b) h2 hle
  generalize (if (!(paramsOf net).isTimeProtocolV2 (s.nHeight b)) = true then
      (Uint256.setCompact (s.nBits b)).value.shl 4
      else (Uint256.setCompact (s.nBits b)).value) = x at hstart ⊢
  generalize stakeStart (paramsOf net) (s.nHeight b) t = t' at hstart hstart2 hstartle ⊢
  have hfactor : (Int.tdiv 1800 120 - 1) * 120 + stakeSpacing d + stakeSpacing d =
      ((1680 + 2 * (stakeSpacing d).toNat : ℕ) : ℤ) := by
    have hdiv : Int.tdiv 1800 120 = 15 := by decide
    rw [hdiv]
    omega
  have hden : (Int.tdiv 1800 120 + 1) * 120 = 1920 := by decide
  rw [hclamp, hfactor, hden]
  set num := 1680 + 2 * (stakeSpacing d).toNat with hnum
  have hmul : x.value * num ≤ 16 * (2 ^ 236 - 1) * 4080 := by
    rw [hstart]
    exact Nat.mul_le_mul hstartle (by omega)
  obtain ⟨q, hq, hqvalue⟩ := mul_div_exact x num 1920 (by omega) (by omega) (by decide) (by decide)
    (by rw [Int.toNat_natCast]; omega)
  have hqvalue : q.value = t' * num / 1920 := by rw [hqvalue, Int.toNat_natCast, hstart]; rfl
  have hqpos : 0 < t' * num / 1920 := by
    refine Nat.div_pos ?_ (by decide)
    calc 1920 ≤ 2 * 1680 := by decide
      _ ≤ t' * num := Nat.mul_le_mul hstart2 (by omega)
  rw [hq, Option.bind_some]
  refine retargets_of_value ?_ (by decide) hqpos
  -- the quotient is not zero
  have hcmp : q.compareTo (BaseUint.zero 8) ≤ 0 ∨ 0 < q.compareTo (powOf net).posLimitV2 ↔
      (powOf net).posLimitV2.value < q.value := by
    rw [BaseUint.compareTo_nonpos_iff, BaseUint.compareTo_pos_iff, BaseUint.value_zero, hqvalue]
    omega
  rw [value_clamp hcmp, value_posLimitV2, hqvalue]

lemma calculateNextWorkRequired_retargets (first : ℤ)
    (ht : (Uint256.setCompact (s.nBits b)).value.value = t) (h2 : 2 ≤ t) (hle : t ≤ 2 ^ 236 - 1) :
    Retargets (s.calculateNextWorkRequired (powOf net) b first) (2 ^ 236 - 1) t
      (powTimespan (s.getBlockTime b - first)).toNat 172800 := by
  obtain ⟨hlow, hhigh⟩ := powTimespan_mem (s.getBlockTime b - first)
  have hno : (powOf net).fPowNoRetargeting = false := by cases net <;> rfl
  have htimespan : (powOf net).nPowTargetTimespan = 172800 := by cases net <;> rfl
  have hup : Int.tdiv (172800 * 100) 120 = 144000 := by decide
  unfold calculateNextWorkRequired
  dsimp only
  rw [hno, htimespan, hup]
  simp only [Bool.false_eq_true, if_false]
  generalize s.getBlockTime b - first = d at hlow hhigh ⊢
  have hclamp : (if 172800 * 2 < (if d < 144000 then 144000 else d) then 172800 * 2
      else if d < 144000 then 144000 else d) = powTimespan d := by
    unfold powTimespan
    split_ifs <;> omega
  rw [hclamp]
  have ht : (ArithUint256.setCompact (s.nBits b)).value.value = t := ht
  generalize (ArithUint256.setCompact (s.nBits b)).value = x at ht ⊢
  have hmul : x.value * (powTimespan d).toNat ≤ (2 ^ 236 - 1) * 345600 := by
    rw [ht]
    exact Nat.mul_le_mul hle (by omega)
  obtain ⟨q, hq, hqvalue⟩ := mul_div_exact x (powTimespan d) 172800 (by omega) (by omega)
    (by decide) (by decide) (by omega)
  have hqvalue : q.value = t * (powTimespan d).toNat / 172800 := by rw [hqvalue, ht]; rfl
  rw [hq, Option.bind_some]
  have hqpos : 0 < t * (powTimespan d).toNat / 172800 := by
    refine Nat.div_pos ?_ (by decide)
    calc 172800 ≤ 2 * 144000 := by decide
      _ ≤ t * (powTimespan d).toNat := Nat.mul_le_mul h2 (by omega)
  refine retargets_of_value ?_ (by decide) hqpos
  have hcmp : 0 < q.compareTo (powOf net).powLimit ↔ (powOf net).powLimit.value < q.value :=
    BaseUint.compareTo_pos_iff
  rw [value_clamp hcmp, value_powLimit, hqvalue]

/-- The search for a block that is not one of minimal difficulty. -/
structure LastNonMinimal (s : HeaderMap α) (limit : BitVec 32) (a b : α) : Prop where
  anc : Anc s.pprev a b
  stops : s.pprev a = none ∨ s.nHeight a % 1440 = 0 ∨ s.nBits a ≠ limit
  passed : ∀ c, Anc s.pprev c b → Anc s.pprev a c → c ≠ a →
    s.nBits c = limit ∧ s.nHeight c % 1440 ≠ 0

lemma tmod_ne_zero_iff (n : ℕ) : (n : ℤ).tmod 1440 ≠ 0 ↔ n % 1440 ≠ 0 := by
  have h : (n : ℤ).tmod 1440 = ((n % 1440 : ℕ) : ℤ) := (Int.ofNat_tmod n 1440).symm
  rw [h]
  omega

lemma lastNonMinimal_spec {S : α → Prop} (hs : BlockMap.Skipped s.toBlockMap S)
    (limit : BitVec 32) (fuel : ℕ) (hb : S b) (hfuel : s.nHeight b < fuel) :
    ∃ a, s.lastNonMinimal 1440 limit fuel b = s.nBits a ∧ LastNonMinimal s limit a b := by
  induction fuel generalizing b with
  | zero => omega
  | succ fuel ih =>
    -- the block itself is where the search stops
    have hself : s.pprev b = none ∨ s.nHeight b % 1440 = 0 ∨ s.nBits b ≠ limit →
        LastNonMinimal s limit b b := fun hstop =>
      ⟨.refl b, hstop, fun c hcb hbc hne => absurd (hs.graded.antisymm hb hcb hbc) hne⟩
    unfold lastNonMinimal
    cases hp : s.pprev b with
    | none => exact ⟨b, rfl, hself (.inl hp)⟩
    | some p =>
      simp only [tmod_ne_zero_iff]
      by_cases hmin : s.nHeight b % 1440 ≠ 0 ∧ s.nBits b = limit
      · have hheight := hs.graded.height hb hp
        obtain ⟨a, ha, hanc, hstops, hpassed⟩ := ih (hs.graded.closed hb hp) (by omega)
        rw [if_pos hmin, ha]
        refine ⟨a, rfl, .step hp hanc, hstops, fun c hcb hac hne => ?_⟩
        rcases hcb.cases_parent with rfl | ⟨q, hq, hcq⟩
        · exact ⟨hmin.2, hmin.1⟩
        · obtain rfl := Option.some.inj (hp.symm.trans hq)
          exact hpassed c hcq hac hne
      · rw [if_neg hmin]
        refine ⟨b, rfl, hself (.inr ?_)⟩
        by_cases h0 : s.nHeight b % 1440 = 0
        · exact .inl h0
        · exact .inr fun heq => hmin ⟨h0, heq⟩

lemma getNextWorkRequired_eq (hnet : net ≠ .REGTEST) (s : HeaderMap α) (b : α)
    {nLimit : BitVec 32}
    (hnLimit : ArithUint256.getCompact (powOf net).powLimit false = some nLimit) (blockTime : ℤ) :
    s.getNextWorkRequired (paramsOf net) (powOf net) b blockTime =
      if (paramsOf net).networkUpgradeActive (s.nHeight b + 1) .UPGRADE_POS then
        s.nextStakeTarget (paramsOf net) (powOf net) b
      else if (s.nHeight b + 1) % 1440 ≠ 0 then
        if (powOf net).fPowAllowMinDifficultyBlocks then
          if s.getBlockTime b + (powOf net).nPowTargetSpacing * 2 < blockTime then some nLimit
          else some (s.lastNonMinimal 1440 nLimit (s.nHeight b + 1) b)
        else some (s.nBits b)
      else
        if (s.nHeight b : ℤ) - (1440 - 1) < 0 then none
        else
          (s.getAncestor b ((s.nHeight b : ℤ) - (1440 - 1))).bind fun pindexFirst =>
          pindexFirst.bind fun pindexFirst =>
            s.calculateNextWorkRequired (powOf net) b (s.getBlockTime pindexFirst) := by
  have hinterval : (powOf net).difficultyAdjustmentInterval = 1440 := by cases net <;> rfl
  have hsucc : (s.nHeight b : ℤ) + 1 = ((s.nHeight b + 1 : ℕ) : ℤ) := by omega
  unfold getNextWorkRequired
  dsimp only
  rw [isRegTestNet_eq_false hnet, if_neg (by decide), hnLimit, Option.bind_some, hinterval]
  simp only [hsucc, tmod_ne_zero_iff]

/-- **Retargeting.** Every proof-of-stake block and every proof-of-work block at a multiple of 1440
gets the exact target; no product or shift loses bits. Between these the main network keeps the
bits, and the test network returns the limit for a late block, and else the bits of the last block
that does not have the minimal difficulty. -/
theorem getNextWorkRequired_exact [DecidableEq α] (hnet : net ≠ .REGTEST) (hs : s.toBlockMap.Built)
    (hb : b ∈ s.mapBlockIndex) (ht : Encodes (s.nBits b) t) (h2 : 2 ≤ t)
    (hle : t ≤ (limitInForce (paramsOf net) (powOf net) (s.nHeight b)).value) (blockTime : ℤ) :
    let result := s.getNextWorkRequired (paramsOf net) (powOf net) b blockTime
    let limit := (limitInForce (paramsOf net) (powOf net) (s.nHeight b + 1)).value
    ((paramsOf net).networkUpgradeActive (s.nHeight b + 1) .UPGRADE_POS = true →
      ∃ p, s.pprev b = some p ∧ Retargets result limit
        (stakeStart (paramsOf net) (s.nHeight b) t)
        (1680 + 2 * (stakeSpacing (s.getBlockTime b - s.getBlockTime p)).toNat) 1920) ∧
    ((paramsOf net).networkUpgradeActive (s.nHeight b + 1) .UPGRADE_POS = false →
      ((s.nHeight b + 1) % 1440 = 0 →
        ∃ first, climb s.pprev 1439 b = some first ∧ Retargets result limit t
          (powTimespan (s.getBlockTime b - s.getBlockTime first)).toNat 172800) ∧
      ((s.nHeight b + 1) % 1440 ≠ 0 →
        (net = .MAIN → result = some (s.nBits b)) ∧
        (net = .TESTNET → ∃ nLimit, IsCompactOf nLimit limit ∧
          (s.getBlockTime b + 240 < blockTime → result = some nLimit) ∧
          (blockTime ≤ s.getBlockTime b + 240 →
            ∃ a, LastNonMinimal s nLimit a b ∧ result = some (s.nBits a))))) := by
  intro result limit
  have hlimit : limit = 2 ^ 236 - 1 := value_limitInForce hnet _
  rw [value_limitInForce hnet] at hle
  obtain ⟨nLimit, hnLimit, -⟩ := getCompact_spec (powOf net).powLimit
  have hcompact : IsCompactOf nLimit limit := ⟨_, (value_powLimit net).trans hlimit.symm, hnLimit⟩
  have hresult : result = _ := getNextWorkRequired_eq hnet s b hnLimit blockTime
  refine ⟨fun hpos => ?_, fun hpow => ⟨fun hmod => ?_, fun hmod => ⟨fun hmain => ?_,
    fun htest => ⟨nLimit, hcompact, fun hlate => ?_, fun hearly => ?_⟩⟩⟩⟩
  · -- the genesis block is not the last one here
    have hheight : s.nHeight b ≠ 0 := by
      intro h0
      rw [h0] at hpos
      cases net with
      | MAIN => exact absurd hpos (by decide)
      | TESTNET => exact absurd hpos (by decide)
      | REGTEST => exact hnet rfl
    obtain ⟨p, hp⟩ : ∃ p, s.pprev b = some p :=
      Option.ne_none_iff_exists'.mp fun hnone => hheight (hs.skipped.root b hb hnone)
    refine ⟨p, hp, ?_⟩
    rw [hresult, if_pos hpos, hlimit]
    rw [upgrade_pos_eq hnet] at hpos
    exact nextStakeTarget_retargets hnet hp hheight hpos ht.value h2 hle
  · have hsmall : 1439 ≤ s.nHeight b := by omega
    have hfirst : (s.nHeight b : ℤ) - (1440 - 1) = ((s.nHeight b - 1439 : ℕ) : ℤ) := by omega
    obtain ⟨first, hget, hclimb⟩ := (BlockMap.getAncestor_eq_climb hs hb).1
      (s.nHeight b - 1439) (by omega)
    have hsteps : s.nHeight b - (s.nHeight b - 1439) = 1439 := by omega
    have hclimb : climb s.pprev 1439 b = some first := hsteps ▸ hclimb
    refine ⟨first, hclimb, ?_⟩
    rw [hresult, hpow, if_neg (by decide), if_neg (not_not.mpr hmod), if_neg (by omega), hfirst,
      hget, Option.bind_some, Option.bind_some, hlimit]
    exact calculateNextWorkRequired_retargets _ ht.value h2 hle
  · rw [hresult, hpow, if_neg (by decide), if_pos hmod, hmain]
    rfl
  · rw [hresult, hpow, if_neg (by decide), if_pos hmod, htest, if_pos (by decide)]
    exact if_pos hlate
  · obtain ⟨a, ha, hlast⟩ := lastNonMinimal_spec hs.skipped nLimit (s.nHeight b + 1) hb (by omega)
    refine ⟨a, hlast, ?_⟩
    rw [hresult, hpow, if_neg (by decide), if_pos hmod, htest, if_pos (by decide), ← ha]
    exact if_neg (not_lt.mpr hearly)

/-! ### The first retarget -/

/-- The main network from its genesis block on, with a block every minute up to the first one that
retargets. -/
structure FirstRetarget (s : HeaderMap ℕ) : Prop where
  built : s.toBlockMap.Built
  mem : ∀ i ≤ 1440, i ∈ s.mapBlockIndex
  pprev : ∀ i < 1440, s.pprev (i + 1) = some i
  height : ∀ i ≤ 1440, s.nHeight i = i
  time : ∀ i ≤ 1440, s.getBlockTime i = 1617457006 + 60 * i
  bits : ∀ i < 1440, s.nBits i = 0x1e0ffff0
  retargeted : s.nBits 1440 = 0x1e0d5548

namespace FirstRetarget

lemma exists_headers : ∃ s : HeaderMap ℕ, FirstRetarget s := by
  obtain ⟨t, hbuilt, hmap, -, hprev, hheight⟩ :=
    BlockMap.exists_line (fun i : ℕ => i) 1440 fun _ _ _ _ h => h
  refine ⟨⟨t, fun i => BitVec.ofNat 32 (1617457006 + 60 * i),
    fun i => if i < 1440 then 0x1e0ffff0 else 0x1e0d5548, fun _ => BaseUint.zero 8⟩, hbuilt,
    fun i hi => ?_, hprev, hheight, fun i hi => ?_, fun i hi => if_pos hi, rfl⟩
  · rw [hmap, List.map_id']
    exact List.mem_range.mpr (by omega)
  · rw [getBlockTime, BitVec.toNat_ofNat, Nat.mod_eq_of_lt (by omega)]
    push_cast
    rfl

variable {s : HeaderMap ℕ} (hs : FirstRetarget s)
include hs

lemma climb_line {k i : ℕ} (hi : i ≤ 1440) (hk : k ≤ i) : climb s.pprev k i = some (i - k) := by
  induction k generalizing i with
  | zero => rfl
  | succ k ih =>
    obtain ⟨j, rfl⟩ : ∃ j, i = j + 1 := ⟨i - 1, by omega⟩
    rw [climb, hs.pprev j (by omega), Option.bind_some, ih (by omega) (by omega)]
    congr 1
    omega

end FirstRetarget

lemma encodes_genesis : Encodes 0x1e0ffff0 (0x0ffff0 * 2 ^ 216) :=
  ⟨by decide, by decide, by decide⟩

lemma encodes_retargeted : Encodes 0x1e0d5548 (0x0d5548 * 2 ^ 216) :=
  ⟨by decide, by decide, by decide⟩

/-- After a day of blocks that come too fast, the target falls by a sixth. -/
theorem getNextWorkRequired_first_retarget : ∃ s : HeaderMap ℕ, FirstRetarget s ∧
    s.getNextWorkRequired mainParams mainPow 1439 1617543406 = some 0x1e0d5548 := by
  obtain ⟨s, hs⟩ := FirstRetarget.exists_headers
  refine ⟨s, hs, ?_⟩
  have hheight : s.nHeight 1439 = 1439 := hs.height 1439 (by decide)
  have hbits : Encodes (s.nBits 1439) (0x0ffff0 * 2 ^ 216) := by
    rw [hs.bits 1439 (by decide)]
    exact encodes_genesis
  obtain ⟨-, hpow⟩ := getNextWorkRequired_exact (show Network.MAIN ≠ .REGTEST by decide) hs.built
    (hs.mem 1439 (by decide)) hbits (by decide) (by rw [hheight]; decide) 1617543406
  obtain ⟨first, hfirst, nBits, hresult, ⟨x, hx, hcompact⟩, -⟩ :=
    (hpow (by rw [hheight]; decide)).1 (by rw [hheight])
  rw [hs.climb_line (by decide) (by decide)] at hfirst
  obtain rfl := Option.some.inj hfirst
  rw [hs.time 1439 (by decide), hs.time (1439 - 1439) (by decide), hheight] at hx
  have hx : x.value = 0x0d5548 * 2 ^ 216 := hx.trans (by decide)
  obtain rfl := BaseUint.eq_of_value (hx.trans encodes_retargeted.value.symm)
  have hform : ArithUint256.getCompact (Uint256.setCompact 0x1e0d5548).value false =
      some 0x1e0d5548 := by decide
  exact hresult.trans (hcompact.symm.trans hform)

/-- The block after that is not retargeted, although its blocks came as fast: its bits stay what
they are. -/
theorem not_retargets_between : ∃ s : HeaderMap ℕ, FirstRetarget s ∧
    Encodes (s.nBits 1440) (0x0d5548 * 2 ^ 216) ∧
    0x0d5548 * 2 ^ 216 ≤ (limitInForce mainParams mainPow 1440).value ∧
    s.getNextWorkRequired mainParams mainPow 1440 1617543466 = some 0x1e0d5548 ∧
    climb s.pprev 1439 1440 = some 1 ∧
    ¬ Retargets (s.getNextWorkRequired mainParams mainPow 1440 1617543466)
      (limitInForce mainParams mainPow 1441).value (0x0d5548 * 2 ^ 216)
      (powTimespan (s.getBlockTime 1440 - s.getBlockTime 1)).toNat 172800 := by
  obtain ⟨s, hs⟩ := FirstRetarget.exists_headers
  have hheight : s.nHeight 1440 = 1440 := hs.height 1440 le_rfl
  have hresult : s.getNextWorkRequired mainParams mainPow 1440 1617543466 = some 0x1e0d5548 := by
    obtain ⟨nLimit, hnLimit, -⟩ := getCompact_spec (powOf .MAIN).powLimit
    have heq := getNextWorkRequired_eq (show Network.MAIN ≠ .REGTEST by decide) s 1440 hnLimit
      1617543466
    rwa [hheight, if_neg (by decide), if_pos (by decide), if_neg (by decide),
      hs.retargeted] at heq
  refine ⟨s, hs, hs.retargeted ▸ encodes_retargeted, by decide, hresult,
    hs.climb_line (by decide) (by decide), ?_⟩
  rintro ⟨nBits, hbits, hform, -⟩
  obtain rfl := Option.some.inj (hbits.symm.trans hresult)
  rw [hs.time 1440 (by decide), hs.time 1 (by decide)] at hform
  obtain ⟨r, hr, -, hle⟩ := hform.encodes (by decide)
  have hvalue := hr.value.symm.trans encodes_retargeted.value
  rw [hvalue] at hle
  revert hle
  decide

/-! ### The bit vectors -/

lemma toUint256_shl (x : BaseUint 8) (k : ℕ) : toUint256 (x.shl k) = toUint256 x <<< k := by
  refine BitVec.eq_of_toNat_eq ?_
  rw [toNat_toUint256, BaseUint.value_shl, BitVec.toNat_shiftLeft, toNat_toUint256,
    Nat.shiftLeft_eq]

lemma toUint256_mulUint32 (x : BaseUint 8) (m : BitVec 32) :
    toUint256 (x.mulUint32 m) = toUint256 x * m.setWidth 256 := by
  have hm := m.isLt
  refine BitVec.eq_of_toNat_eq ?_
  rw [toNat_toUint256, BaseUint.value_mulUint32, BitVec.toNat_mul, toNat_toUint256,
    BitVec.toNat_setWidth, Nat.mod_eq_of_lt (by omega : m.toNat < 2 ^ 256)]

lemma toUint256_ofUint64 (d : BitVec 64) :
    toUint256 (BaseUint.ofUint64 8 d) = d.setWidth 256 := by
  have hd := d.isLt
  refine BitVec.eq_of_toNat_eq ?_
  rw [toNat_toUint256, BaseUint.value_ofUint64, BitVec.toNat_setWidth]
  omega

lemma toUint256_div {x y q : BaseUint 8} (h : x.div y = some q) :
    toUint256 q = toUint256 x / toUint256 y := by
  refine BitVec.eq_of_toNat_eq ?_
  rw [BitVec.toNat_udiv, toNat_toUint256, toNat_toUint256, toNat_toUint256]
  by_cases hy : y.value = 0
  · exact absurd ((BaseUint.div_eq x y).1 hy ▸ h) (by simp)
  · obtain ⟨q', hq', hvalue⟩ := (BaseUint.div_eq x y).2 hy
    obtain rfl := Option.some.inj (h.symm.trans hq')
    exact hvalue

lemma toUint256_lt_iff (x y : BaseUint 8) :
    toUint256 x < toUint256 y ↔ 0 < y.compareTo x := by
  rw [BitVec.lt_def, toNat_toUint256, toNat_toUint256, BaseUint.compareTo_pos_iff]

lemma toUint256_eq_zero_iff (x : BaseUint 8) :
    toUint256 x = 0 ↔ x.compareTo (BaseUint.zero 8) ≤ 0 := by
  have hzero : (0 : Uint256).toNat = 0 := rfl
  rw [← BitVec.toNat_inj, toNat_toUint256, BaseUint.compareTo_nonpos_iff, BaseUint.value_zero,
    hzero, Nat.le_zero]

lemma toUint256_limit (fV2 : Bool) :
    toUint256 (mainPow.proofOfStakeLimit fV2) = mainWork.proofOfStakeLimit fV2 := by
  cases fV2 <;> decide

/-- **The two models of the proof-of-stake target** agree: the one on words is the one on bit
vectors. -/
theorem nextStakeTarget_eq (consensus : ChainParams) {p : α} (hp : s.pprev b = some p) :
    ∃ m, s.nextStakeTarget consensus mainPow b = some m ∧
      m.toNat = getNextStakeWork consensus mainWork (s.nHeight b) (s.nBits b).toNat
        (s.getBlockTime b) (s.getBlockTime p) := by
  unfold nextStakeTarget getNextStakeWork
  dsimp only
  have hspacing : (if (s.nHeight b : ℤ) ≠ 0 then
      (s.pprev b).map fun pprev => s.getBlockTime b - s.getBlockTime pprev else some 0) =
      some (if (s.nHeight b : ℤ) ≠ 0 then s.getBlockTime b - s.getBlockTime p else 0) := by
    rw [hp]
    split_ifs <;> rfl
  have htimespan : ∀ fV2 : Bool, mainPow.targetTimespan fV2 =
      if fV2 = true then mainWork.nTargetTimespanV2 else mainWork.nTargetTimespan := fun _ => rfl
  have hsame : mainPow.nTargetSpacing = mainWork.nTargetSpacing := rfl
  rw [hspacing, Option.bind_some, hsame, htimespan]
  generalize (!consensus.isRegTestNet && consensus.isTimeProtocolV2 (s.nHeight b + 1)) = fTimeV2
  generalize (if (s.nHeight b : ℤ) ≠ 0 then s.getBlockTime b - s.getBlockTime p else 0) = d
  generalize (if fTimeV2 = true ∧ mainWork.nTargetSpacing * 10 < (if d < 0 then 1 else d) then
    mainWork.nTargetSpacing * 10 else if d < 0 then 1 else d) = a
  -- the divisor is not zero
  have hden : (BaseUint.ofUint64 8 (BitVec.ofInt 64 ((((if fTimeV2 = true then
      mainWork.nTargetTimespanV2 else mainWork.nTargetTimespan).tdiv mainWork.nTargetSpacing) + 1) *
      mainWork.nTargetSpacing))).value ≠ 0 := by
    rw [BaseUint.value_ofUint64]
    cases fTimeV2 <;> decide
  generalize (if fTimeV2 = true then mainWork.nTargetTimespanV2
    else mainWork.nTargetTimespan).tdiv mainWork.nTargetSpacing = nInterval at hden ⊢
  have hstart : toUint256 (if (fTimeV2 && !consensus.isTimeProtocolV2 (s.nHeight b)) = true then
      (Uint256.setCompact (s.nBits b)).value.shl 4 else (Uint256.setCompact (s.nBits b)).value) =
      if (fTimeV2 && !consensus.isTimeProtocolV2 (s.nHeight b)) = true then
        setCompact (s.nBits b).toNat <<< 4 else setCompact (s.nBits b).toNat := by
    have hdecode : toUint256 (Uint256.setCompact (s.nBits b)).value =
        setCompact (s.nBits b).toNat := toUint256_setCompact _
    split_ifs
    · rw [toUint256_shl, hdecode]
    · exact hdecode
  rw [← hstart]
  generalize (if (fTimeV2 && !consensus.isTimeProtocolV2 (s.nHeight b)) = true then
      (Uint256.setCompact (s.nBits b)).value.shl 4 else
      (Uint256.setCompact (s.nBits b)).value) = x
  obtain ⟨q, hq, -⟩ := (BaseUint.div_eq (x.mulUint32 (BitVec.ofInt 32
    ((nInterval - 1) * mainWork.nTargetSpacing + a + a))) _).2 hden
  rw [hq, Option.bind_some, ← toUint256_mulUint32, ← toUint256_ofUint64, ← toUint256_div hq,
    ← toUint256_limit]
  obtain ⟨m, hm, hval⟩ := getCompact_toUint256
    (if q.compareTo (BaseUint.zero 8) ≤ 0 ∨ 0 < q.compareTo (mainPow.proofOfStakeLimit fTimeV2) then
      mainPow.proofOfStakeLimit fTimeV2 else q)
  refine ⟨m, hm, hval.trans (congrArg getCompact ?_)⟩
  rw [apply_ite toUint256]
  refine if_congr ?_ rfl rfl
  rw [toUint256_eq_zero_iff, toUint256_lt_iff]

end HeaderMap

end Agenor
