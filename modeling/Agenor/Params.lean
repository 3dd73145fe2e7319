import Agenor.Transaction
import Mathlib.Tactic.NormNum

/-!
Consensus parameters (`consensus/params.h`, `consensus/upgrades.cpp`), the tables of the three
networks (`chainparams.cpp`) and the block reward (`main.cpp`).
-/

namespace Agenor

open Lib.Wrap

inductive UpgradeIndex
  | BASE_NETWORK | UPGRADE_POS | UPGRADE_POS_V2 | UPGRADE_ZC | UPGRADE_ZC_V2 | UPGRADE_BIP65
  | UPGRADE_ZC_PUBLIC | UPGRADE_V3_4 | UPGRADE_V4_0 | UPGRADE_V5_DUMMY | UPGRADE_TESTDUMMY
  deriving DecidableEq, Repr

inductive Network | MAIN | TESTNET | REGTEST
  deriving DecidableEq, Repr

/-- The consensus parameters that the modelled functions read. -/
structure ChainParams where
  networkID : Network
  hashGenesisBlock : Uint256
  nSubsidyHalvingInterval : ℤ
  nBudgetCycleBlocks : ℤ
  nCoinbaseMaturity : ℤ
  nMaxMoneyOut : ℤ
  nStakeMinAge : ℕ
  nStakeMinDepth : ℤ
  height_last_ZC_AccumCheckpoint : ℤ
  height_last_ZC_WrappedSerials : ℤ
  height_start_InvalidUTXOsCheck : ℤ
  height_start_ZC_SerialRangeCheck : ℤ
  height_ZC_RecalcAccumulators : ℤ
  ZC_MaxPublicSpendsPerTx : ℕ
  ZC_MaxSpendsPerTx : ℕ
  ZC_MinStakeDepth : ℤ
  ZC_TimeStart : ℤ
  ZC_WrappedSerialsSupply : ℤ
  /-- `vUpgrades[idx].nActivationHeight`. -/
  nActivationHeight : UpgradeIndex → ℤ
  /-- The height of the last checkpoint, `Checkpoints::GetTotalBlocksEstimate()`. -/
  totalBlocksEstimate : ℤ

namespace ChainParams

def ALWAYS_ACTIVE : ℤ := 0
def NO_ACTIVATION_HEIGHT : ℤ := -1

/-- `std::numeric_limits<int>::max()`. -/
def INT_MAX : ℤ := 2147483647

variable (consensus : ChainParams)

def isRegTestNet : Bool := consensus.networkID == .REGTEST

def networkUpgradeActive (nHeight : ℤ) (idx : UpgradeIndex) : Bool :=
  consensus.nActivationHeight idx != NO_ACTIVATION_HEIGHT &&
    decide (consensus.nActivationHeight idx ≤ nHeight)

lemma networkUpgradeActive_eq_false {consensus : ChainParams} {nHeight : ℤ} {idx : UpgradeIndex} :
    consensus.networkUpgradeActive nHeight idx = false ↔
      consensus.nActivationHeight idx = -1 ∨ nHeight < consensus.nActivationHeight idx := by
  rw [networkUpgradeActive, Bool.and_eq_false_iff, bne_eq_false_iff_eq, decide_eq_false_iff_not,
    not_le]
  rfl

def moneyRange (nValue : ℤ) : Bool := decide (0 ≤ nValue ∧ nValue ≤ consensus.nMaxMoneyOut)

/-- `HasStakeMinAgeOrDepth`. The sum of the times is unsigned and 32 bits wide. -/
def hasStakeMinAgeOrDepth (contextHeight : ℤ) (contextTime : ℕ) (utxoFromBlockHeight : ℤ)
    (utxoFromBlockTime : ℕ) : Bool :=
  if !consensus.networkUpgradeActive contextHeight .UPGRADE_V3_4 then
    decide ((utxoFromBlockTime + consensus.nStakeMinAge) % 2 ^ 32 ≤ contextTime)
  else decide (consensus.nStakeMinDepth ≤ contextHeight - utxoFromBlockHeight)

def getBlockValue (nHeight : ℤ) : ℤ :=
  if consensus.isRegTestNet then 250 * COIN
  else if nHeight = 1 then 5000000 * COIN
  else
    let halvings := nHeight.tdiv consensus.nSubsidyHalvingInterval
    if 64 ≤ halvings then 0 else 50 * COIN / 2 ^ halvings.toNat

end ChainParams

/-- `GetMasternodePayment`. The source multiplies by `0.8` in double precision and truncates;
for the amounts the reward schedule can give this is four fifths, rounded down. -/
def getMasternodePayment (blockValue : ℤ) : ℤ := blockValue * 4 / 5

/-- `CMainParams`. -/
def mainParams : ChainParams where
  networkID := .MAIN
  hashGenesisBlock := 0x000003ad9e32acaab69b76e8e443c19bfa0e0a66be7b19f6796eab08837953d6
  nSubsidyHalvingInterval := 250000
  nBudgetCycleBlocks := 43200
  nCoinbaseMaturity := 100
  nMaxMoneyOut := 100000000 * COIN
  nStakeMinAge := 60 * 60
  nStakeMinDepth := 600
  height_last_ZC_AccumCheckpoint := ChainParams.INT_MAX
  height_last_ZC_WrappedSerials := ChainParams.INT_MAX
  height_start_InvalidUTXOsCheck := ChainParams.INT_MAX
  height_start_ZC_SerialRangeCheck := ChainParams.INT_MAX
  height_ZC_RecalcAccumulators := ChainParams.INT_MAX
  ZC_MaxPublicSpendsPerTx := 637
  ZC_MaxSpendsPerTx := 7
  ZC_MinStakeDepth := 200
  ZC_TimeStart := ChainParams.INT_MAX
  ZC_WrappedSerialsSupply := 0
  nActivationHeight
    | .BASE_NETWORK => ChainParams.ALWAYS_ACTIVE
    | .UPGRADE_TESTDUMMY => ChainParams.NO_ACTIVATION_HEIGHT
    | .UPGRADE_POS => 100001
    | .UPGRADE_POS_V2 => 100001
    | .UPGRADE_ZC => 999999999
    | .UPGRADE_ZC_V2 => 999999999
    | .UPGRADE_BIP65 => 100001
    | .UPGRADE_ZC_PUBLIC => 999999999
    | .UPGRADE_V3_4 => 100001
    | .UPGRADE_V4_0 => 100001
    | .UPGRADE_V5_DUMMY => ChainParams.NO_ACTIVATION_HEIGHT
  totalBlocksEstimate := 0

/-- `CTestNetParams`. -/
def testNetParams : ChainParams where
  networkID := .TESTNET
  hashGenesisBlock := 0x000005b2b5fab7db9178f60928ec353fbdf11a457b3afe38100378ba9e630605
  nSubsidyHalvingInterval := 250000
  nBudgetCycleBlocks := 144
  nCoinbaseMaturity := 15
  nMaxMoneyOut := 43199500 * COIN
  nStakeMinAge := 60 * 60
  nStakeMinDepth := 100
  height_last_ZC_AccumCheckpoint := 1106090
  height_last_ZC_WrappedSerials := -1
  height_start_InvalidUTXOsCheck := 999999999
  height_start_ZC_SerialRangeCheck := 1
  height_ZC_RecalcAccumulators := 999999999
  ZC_MaxPublicSpendsPerTx := 637
  ZC_MaxSpendsPerTx := 7
  ZC_MinStakeDepth := 200
  ZC_TimeStart := ChainParams.INT_MAX
  ZC_WrappedSerialsSupply := 0
  nActivationHeight
    | .BASE_NETWORK => ChainParams.ALWAYS_ACTIVE
    | .UPGRADE_TESTDUMMY => ChainParams.NO_ACTIVATION_HEIGHT
    | .UPGRADE_POS => 1001
    | .UPGRADE_POS_V2 => 1001
    | .UPGRADE_ZC => 999999999
    | .UPGRADE_ZC_V2 => 999999999
    | .UPGRADE_BIP65 => 1001
    | .UPGRADE_ZC_PUBLIC => 999999999
    | .UPGRADE_V3_4 => 1001
    | .UPGRADE_V4_0 => 1001
    | .UPGRADE_V5_DUMMY => ChainParams.NO_ACTIVATION_HEIGHT
  totalBlocksEstimate := 0

/-- `CRegTestParams`. -/
def regTestParams : ChainParams where
  networkID := .REGTEST
  hashGenesisBlock := 0x00000747b3b1e76c2865a69055a6c8cedfd185a2a5fa4250edb1f1fe7a161e39
  nSubsidyHalvingInterval := 250000
  nBudgetCycleBlocks := 144
  nCoinbaseMaturity := 100
  nMaxMoneyOut := 43199500 * COIN
  nStakeMinAge := 0
  nStakeMinDepth := 2
  height_last_ZC_AccumCheckpoint := 310
  height_last_ZC_WrappedSerials := -1
  height_start_InvalidUTXOsCheck := 999999999
  height_start_ZC_SerialRangeCheck := 300
  height_ZC_RecalcAccumulators := 999999999
  ZC_MaxPublicSpendsPerTx := 637
  ZC_MaxSpendsPerTx := 7
  ZC_MinStakeDepth := 10
  ZC_TimeStart := 0
  ZC_WrappedSerialsSupply := 0
  nActivationHeight
    | .BASE_NETWORK => ChainParams.ALWAYS_ACTIVE
    | .UPGRADE_TESTDUMMY => ChainParams.NO_ACTIVATION_HEIGHT
    | .UPGRADE_POS => 251
    | .UPGRADE_POS_V2 => 251
    | .UPGRADE_ZC => 300
    | .UPGRADE_ZC_V2 => 300
    | .UPGRADE_BIP65 => ChainParams.ALWAYS_ACTIVE
    | .UPGRADE_ZC_PUBLIC => 400
    | .UPGRADE_V3_4 => 251
    | .UPGRADE_V4_0 => ChainParams.ALWAYS_ACTIVE
    | .UPGRADE_V5_DUMMY => 300
  totalBlocksEstimate := 0

/-- The parameters a network runs with. -/
def paramsOf : Network → ChainParams
  | .MAIN => mainParams
  | .TESTNET => testNetParams
  | .REGTEST => regTestParams

namespace ChainParams

lemma getBlockValue_nonneg (consensus : ChainParams) (nHeight : ℤ) :
    0 ≤ consensus.getBlockValue nHeight := by
  unfold getBlockValue COIN
  split_ifs
  · norm_num
  · norm_num
  · dsimp only
    split_ifs
    · rfl
    · exact Int.ediv_nonneg (by norm_num) (by positivity)

lemma getBlockValue_le (consensus : ChainParams) (nHeight : ℤ) :
    consensus.getBlockValue nHeight ≤ 5000000 * COIN := by
  unfold getBlockValue COIN
  split_ifs
  · norm_num
  · norm_num
  · dsimp only
    split_ifs
    · norm_num
    · have hp : (1 : ℤ) ≤ 2 ^ (nHeight.tdiv consensus.nSubsidyHalvingInterval).toNat :=
        one_le_pow₀ (by norm_num)
      have := Int.ediv_le_self (2 ^ (nHeight.tdiv consensus.nSubsidyHalvingInterval).toNat)
        (a := 50 * 100000000) (by norm_num)
      exact this.trans (by norm_num)

end ChainParams

lemma getMasternodePayment_nonneg (consensus : ChainParams) (nHeight : ℤ) :
    0 ≤ getMasternodePayment (consensus.getBlockValue nHeight) := by
  have hv := consensus.getBlockValue_nonneg nHeight
  unfold getMasternodePayment
  omega

lemma getMasternodePayment_le (consensus : ChainParams) (nHeight : ℤ) :
    getMasternodePayment (consensus.getBlockValue nHeight) ≤ consensus.getBlockValue nHeight := by
  have hv := consensus.getBlockValue_nonneg nHeight
  unfold getMasternodePayment
  omega

/-- The money limit is not negative and far below the limit of a machine integer. -/
structure ChainParams.MoneyOk (consensus : ChainParams) : Prop where
  nonneg : 0 ≤ consensus.nMaxMoneyOut
  le : consensus.nMaxMoneyOut ≤ 10 ^ 16

lemma paramsOf_moneyOk (net : Network) : (paramsOf net).MoneyOk := by
  cases net <;> exact ⟨by decide, by decide⟩

end Agenor
