import Agenor.Node

/-!
The proof of stake of a block (`kernel.cpp`, `stakeinput.cpp`).

The check of the age or depth of a staked coin stands behind the activation of public zerocoin
spends, one block ahead. In the tables of the main and the test network that height is out of
reach, so fresh coins can be staked.
-/

namespace Agenor

def setCompact (nCompact : ℕ) : Uint256 :=
  let nSize := nCompact / 2 ^ 24
  let nWord := nCompact % 2 ^ 23
  if nSize ≤ 3 then BitVec.ofNat 256 (nWord / 2 ^ (8 * (3 - nSize)))
  else BitVec.ofNat 256 nWord <<< (8 * (nSize - 3))

/-- `CAgeStake`: the output that is staked and the block it is in. -/
structure CAgeStake where
  txFrom : CTransaction
  nPosition : ℕ
  pindexFrom : CBlockIndex

/-- The end of `CheckProofOfStake`; it has no defined one when an output is read that the
transaction does not have. -/
inductive StakeResult
  | accepted
  | refused (strError : String)
  | outOfRange
  deriving DecidableEq, Repr

/-- What the kernel of a stake depends on besides the chain. -/
structure KernelEnv where
  /-- `GetOldStakeModifier`, zero when it fails. -/
  getOldStakeModifier : CAgeStake → ℕ
  getStakeModifierV2 : CBlockIndex → Uint256
  /-- `Hash`. -/
  hash : List UInt8 → Uint256
  /-- `VerifyScript` with the standard flags, on the first input; `none` when it passes, else the
  text of the error. -/
  verifyScript : CTransaction → CTxOut → Option String
  /-- The stakes of the old zerocoins (`CLegacyZAgeStake`). -/
  checkLegacyZAgeStake : CBlock → CBlockIndex → StakeResult

namespace CAgeStake

def initFromTxIn (node : Node) (txin : CTxIn) : Option CAgeStake := do
  if txin.isZerocoinSpend then failure
  let (txPrev, hashBlock) ← node.getTransaction txin.prevout.hash
  let pindex ← node.mapBlockIndex hashBlock
  if node.contains pindex then return ⟨txPrev, txin.prevout.n, pindex⟩ else failure

variable (stake : CAgeStake)

def getTxOutFrom : Option CTxOut := stake.txFrom.vout[stake.nPosition]?

def getUniqueness : List UInt8 := bytesLE 4 stake.nPosition ++ bytesLE 32 stake.txFrom.hash.toNat

def contextCheck (consensus : ChainParams) (nHeight : ℤ) (nTime : ℕ) : Bool :=
  !(consensus.networkUpgradeActive (nHeight + 1) .UPGRADE_ZC_PUBLIC &&
    !consensus.hasStakeMinAgeOrDepth nHeight nTime stake.pindexFrom.nHeight stake.pindexFrom.nTime)

/-- `CStakeKernel`: the bytes that are hashed. -/
def kernel (K : KernelEnv) (consensus : ChainParams) (pindexPrev : CBlockIndex) (nTime : ℕ) :
    List UInt8 :=
  let stakeModifier :=
    if !consensus.networkUpgradeActive (pindexPrev.nHeight + 1) .UPGRADE_V3_4 then
      bytesLE 8 (K.getOldStakeModifier stake)
    else bytesLE 32 (K.getStakeModifierV2 pindexPrev).toNat
  stakeModifier ++ bytesLE 4 stake.pindexFrom.nTime ++ stake.getUniqueness ++ bytesLE 4 nTime

/-- `CStakeKernel::CheckKernelHash`, for an output of the given value. -/
def checkKernelHash (K : KernelEnv) (consensus : ChainParams) (pindexPrev : CBlockIndex)
    (nBits nTime : ℕ) (stakeValue : ℤ) : Bool :=
  let bnTarget := setCompact nBits * ((BitVec.ofInt 64 stakeValue).setWidth 256 / 100)
  decide (K.hash (stake.kernel K consensus pindexPrev nTime) < bnTarget)

end CAgeStake

/-- `CheckProofOfStake` from the stake input on, for an ordinary coin. -/
def checkAgeStake (K : KernelEnv) (node : Node) (block : CBlock) (tx : CTransaction) (txin : CTxIn)
    (pindexPrev : CBlockIndex) : StakeResult :=
  match CAgeStake.initFromTxIn node txin with
  | none => .refused "stake input initialization failed"
  | some stake =>
    if !stake.contextCheck node.params (pindexPrev.nHeight + 1) block.nTime then
      .refused "stake input failing contextual checks"
    else match stake.getTxOutFrom with
      -- the kernel reads the value before the position is checked, so the check comes too late
      | none => .outOfRange
      | some stakePrevout =>
        if !stake.checkKernelHash K node.params pindexPrev block.nBits block.nTime
            stakePrevout.nValue then .refused "kernel hash check fails"
        else match K.verifyScript tx stakePrevout with
          | some serror => .refused ("signature fails: " ++ serror)
          | none => .accepted

def checkProofOfStake (K : KernelEnv) (node : Node) (block : CBlock) (pindexPrev : CBlockIndex) :
    StakeResult :=
  match block.vtx with
  | _ :: tx :: _ =>
    match tx.vin with
    | txin :: _ =>
      if block.hashPrevBlock ≠ pindexPrev.hash then .refused "stake input initialization failed"
      else if !block.isProofOfStake then .refused "stake input initialization failed"
      else if txin.isZerocoinSpend then K.checkLegacyZAgeStake block pindexPrev
      else checkAgeStake K node block tx txin pindexPrev
    | [] => .refused "stake input initialization failed"
  | _ => .refused "stake input initialization failed"

/-! ### The age or depth of the staked coin -/

/-- Every block that stakes an ordinary coin at this height and is accepted has a coin that is old
or deep enough. -/
def StakesMature (consensus : ChainParams) (nHeight : ℤ) : Prop :=
  ∀ K node block pindexPrev tx₀ tx txs txin vin stake, node.params = consensus →
    pindexPrev.nHeight + 1 = nHeight → block.vtx = tx₀ :: tx :: txs → tx.vin = txin :: vin →
    txin.isZerocoinSpend = false → CAgeStake.initFromTxIn node txin = some stake →
    checkProofOfStake K node block pindexPrev = .accepted →
    consensus.hasStakeMinAgeOrDepth nHeight block.nTime stake.pindexFrom.nHeight
      stake.pindexFrom.nTime = true

lemma contextCheck_of_accepted {K : KernelEnv} {node : Node} {block : CBlock}
    {pindexPrev : CBlockIndex} {tx₀ tx : CTransaction} {txs : List CTransaction} {txin : CTxIn}
    {vin : List CTxIn} {stake : CAgeStake} (hvtx : block.vtx = tx₀ :: tx :: txs)
    (hvin : tx.vin = txin :: vin) (hzc : txin.isZerocoinSpend = false)
    (hinit : CAgeStake.initFromTxIn node txin = some stake)
    (h : checkProofOfStake K node block pindexPrev = .accepted) :
    stake.contextCheck node.params (pindexPrev.nHeight + 1) block.nTime = true := by
  unfold checkProofOfStake at h
  simp only [hvtx, hvin, hzc, Bool.false_eq_true, if_false] at h
  split_ifs at h
  unfold checkAgeStake at h
  rw [hinit] at h
  by_contra hc
  rw [Bool.not_eq_true] at hc
  simp [hc] at h

lemma CAgeStake.initFromTxIn_eq_some {node : Node} {txin : CTxIn} {txPrev : CTransaction}
    {hashBlock : Uint256} {pindex : CBlockIndex} (hzc : txin.isZerocoinSpend = false)
    (htx : node.getTransaction txin.prevout.hash = some (txPrev, hashBlock))
    (hindex : node.mapBlockIndex hashBlock = some pindex) (hin : node.contains pindex = true) :
    CAgeStake.initFromTxIn node txin = some ⟨txPrev, txin.prevout.n, pindex⟩ := by
  simp [CAgeStake.initFromTxIn, hzc, htx, hindex, hin]

lemma checkProofOfStake_accepted {K : KernelEnv} {node : Node} {block : CBlock}
    {pindexPrev : CBlockIndex} {tx₀ tx : CTransaction} {txs : List CTransaction} {txin : CTxIn}
    {vin : List CTxIn} {stake : CAgeStake} {out : CTxOut} (hvtx : block.vtx = tx₀ :: tx :: txs)
    (hvin : tx.vin = txin :: vin) (hprev : block.hashPrevBlock = pindexPrev.hash)
    (hpos : block.isProofOfStake = true) (hzc : txin.isZerocoinSpend = false)
    (hinit : CAgeStake.initFromTxIn node txin = some stake)
    (hctx : stake.contextCheck node.params (pindexPrev.nHeight + 1) block.nTime = true)
    (hout : stake.getTxOutFrom = some out)
    (hkernel : stake.checkKernelHash K node.params pindexPrev block.nBits block.nTime out.nValue =
      true)
    (hscript : K.verifyScript tx out = none) :
    checkProofOfStake K node block pindexPrev = .accepted := by
  unfold checkProofOfStake checkAgeStake
  simp [hvtx, hvin, hprev, hpos, hzc, hinit, hctx, hout, hkernel, hscript]

lemma stakesMature_of_active {consensus : ChainParams} {nHeight : ℤ}
    (h : consensus.networkUpgradeActive (nHeight + 1) .UPGRADE_ZC_PUBLIC = true) :
    StakesMature consensus nHeight := by
  rintro K node block pindexPrev tx₀ tx txs txin vin stake rfl rfl hvtx hvin hzc hinit hacc
  have hctx := contextCheck_of_accepted hvtx hvin hzc hinit hacc
  simpa [CAgeStake.contextCheck, h] using hctx

/-! ### A chain whose last coin is staked -/

namespace Concrete

/-- The block at a height of a chain in which all blocks have the same time. -/
def chainIndex : ℕ → CBlockIndex
  | 0 => ⟨1, 0, 1600000000, none⟩
  | n + 1 => ⟨BitVec.ofNat 256 (n + 2), n + 1, 1600000000, some (chainIndex n)⟩

lemma chainIndex_nHeight (n : ℕ) : (chainIndex n).nHeight = n := by
  cases n with
  | zero => rfl
  | succ n => simp [chainIndex]

lemma chainIndex_nTime (n : ℕ) : (chainIndex n).nTime = 1600000000 := by cases n <;> rfl

lemma chainIndex_hash (n : ℕ) : (chainIndex n).hash = BitVec.ofNat 256 (n + 1) := by
  cases n <;> rfl

def freshCoin : CTransaction := ⟨50, [], [⟨100 * COIN, [Script.OP_1]⟩]⟩

/-- A node whose chain ends at height `n`, with the coin in the last block. -/
def stakingNode (consensus : ChainParams) (n : ℕ) : Node :=
  { Node.idle consensus (.simple 0) ((List.range (n + 1)).map chainIndex) with
    mapBlockIndex := fun h =>
      if 1 ≤ h.toNat ∧ h.toNat ≤ n + 1 then some (chainIndex (h.toNat - 1)) else none
    getTransaction := fun h => if h = 50 then some (freshCoin, (chainIndex n).hash) else none }

/-- The coin is staked in the next block. -/
def freshStake (n : ℕ) : CBlock where
  hash := 90
  hashPrevBlock := (chainIndex n).hash
  hashMerkleRoot := 0
  nTime := 1600000000
  nBits := 0x1e0fffff
  vtx := [⟨91, [], []⟩, ⟨92, [⟨⟨50, 0⟩, [], 0⟩], [⟨0, []⟩, ⟨101 * COIN, [Script.OP_1]⟩]⟩]
  vchBlockSig := []
  fChecked := false

/-- Every signature is good, and every hash is low. -/
def kernelEnv : KernelEnv where
  getOldStakeModifier := fun _ => 0
  getStakeModifierV2 := fun _ => 0
  hash := fun _ => 0
  verifyScript := fun _ _ => none
  checkLegacyZAgeStake := fun _ _ => .refused "stake input initialization failed"

lemma stakingNode_mapBlockIndex (consensus : ChainParams) {n : ℕ} (hn : n < 10 ^ 9) :
    (stakingNode consensus n).mapBlockIndex (chainIndex n).hash = some (chainIndex n) := by
  have hnat : (chainIndex n).hash.toNat = n + 1 := by
    rw [chainIndex_hash, BitVec.toNat_ofNat]
    omega
  change (if 1 ≤ (chainIndex n).hash.toNat ∧ (chainIndex n).hash.toNat ≤ n + 1 then
    some (chainIndex ((chainIndex n).hash.toNat - 1)) else none) = _
  rw [hnat, if_pos ⟨by omega, le_rfl⟩]
  rfl

lemma stakingNode_contains (consensus : ChainParams) (n : ℕ) :
    (stakingNode consensus n).contains (chainIndex n) = true := by
  simp [Node.contains, stakingNode, Node.idle, chainIndex_nHeight]

lemma stakingNode_init (consensus : ChainParams) {n : ℕ} (hn : n < 10 ^ 9) :
    CAgeStake.initFromTxIn (stakingNode consensus n) ⟨⟨50, 0⟩, [], 0⟩ =
      some ⟨freshCoin, 0, chainIndex n⟩ :=
  CAgeStake.initFromTxIn_eq_some (by decide) rfl (stakingNode_mapBlockIndex consensus hn)
    (stakingNode_contains consensus n)

lemma freshStake_accepted (consensus : ChainParams) {n : ℕ} (hn : n < 10 ^ 9)
    (h : consensus.networkUpgradeActive (n + 2) .UPGRADE_ZC_PUBLIC = false) :
    checkProofOfStake kernelEnv (stakingNode consensus n) (freshStake n) (chainIndex n) =
      .accepted := by
  have hctx : CAgeStake.contextCheck ⟨freshCoin, 0, chainIndex n⟩ consensus
      ((chainIndex n).nHeight + 1) 1600000000 = true := by
    have hh : ((chainIndex n).nHeight + 1 + 1 : ℤ) = n + 2 := by
      rw [chainIndex_nHeight]
      omega
    rw [CAgeStake.contextCheck, hh, h]
    rfl
  have htarget : (0 : Uint256) < setCompact 0x1e0fffff *
      ((BitVec.ofInt 64 (100 * COIN)).setWidth 256 / 100) := by decide
  exact checkProofOfStake_accepted rfl rfl rfl rfl (by decide) (stakingNode_init consensus hn) hctx
    rfl (decide_eq_true htarget) rfl

lemma freshStake_immature {net : Network} (hnet : net ≠ .REGTEST) (n : ℕ) :
    (paramsOf net).hasStakeMinAgeOrDepth (n + 1) 1600000000 n 1600000000 = false := by
  unfold ChainParams.hasStakeMinAgeOrDepth
  cases net with
  | REGTEST => exact absurd rfl hnet
  | MAIN =>
    split_ifs
    · decide
    · simp [paramsOf, mainParams]
  | TESTNET =>
    split_ifs
    · decide
    · simp [paramsOf, testNetParams]

end Concrete

open Concrete in
/-- **Stake maturity.** On the main and the test network the age or depth of a staked coin is
enforced at a height just when public zerocoin spends are active one block later. -/
theorem stakesMature_iff {net : Network} (hnet : net ≠ .REGTEST) {nHeight : ℤ} (h : 1 ≤ nHeight) :
    StakesMature (paramsOf net) nHeight ↔ 999999999 ≤ nHeight + 1 := by
  have hpub : (paramsOf net).nActivationHeight .UPGRADE_ZC_PUBLIC = 999999999 := by
    cases net with
    | MAIN => rfl
    | TESTNET => rfl
    | REGTEST => exact absurd rfl hnet
  constructor
  · intro hmature
    by_contra hlow
    obtain ⟨n, rfl⟩ : ∃ n : ℕ, nHeight = n + 1 := ⟨(nHeight - 1).toNat, by omega⟩
    have hoff : (paramsOf net).networkUpgradeActive (n + 2) .UPGRADE_ZC_PUBLIC = false := by
      rw [ChainParams.networkUpgradeActive_eq_false, hpub]
      omega
    have hn : n < 10 ^ 9 := by omega
    have hold := hmature kernelEnv (stakingNode (paramsOf net) n) (freshStake n) (chainIndex n) _ _
      _ _ _ _ rfl (by rw [chainIndex_nHeight]) rfl rfl (by decide) (stakingNode_init _ hn)
      (freshStake_accepted _ hn hoff)
    have hfresh := freshStake_immature hnet n
    simp only [chainIndex_nHeight, chainIndex_nTime] at hold
    exact absurd (hold.symm.trans hfresh) (by decide)
  · intro hhigh
    refine stakesMature_of_active ?_
    rw [← Bool.not_eq_false, ChainParams.networkUpgradeActive_eq_false, hpub]
    omega

/-- The first height at which the main network would enforce it. -/
theorem stakesMature_at_999999998 : StakesMature mainParams 999999998 :=
  (@stakesMature_iff .MAIN (by decide) 999999998 (by decide)).mpr (by decide)

open Concrete in
/-- **A fresh coin is staked.** On the main network a block at height 200000 is accepted that
stakes a coin of the block before it; a depth of 600 is required there. -/
theorem fresh_coin_is_staked :
    checkProofOfStake kernelEnv (stakingNode mainParams 199999) (freshStake 199999)
        (chainIndex 199999) = .accepted ∧
      CAgeStake.initFromTxIn (stakingNode mainParams 199999) ⟨⟨50, 0⟩, [], 0⟩ =
        some ⟨freshCoin, 0, chainIndex 199999⟩ ∧
      mainParams.networkUpgradeActive 200000 .UPGRADE_V3_4 = true ∧
      mainParams.hasStakeMinAgeOrDepth 200000 1600000000 199999 1600000000 = false ∧
      ¬ StakesMature mainParams 200000 := by
  have hacc := freshStake_accepted mainParams (n := 199999) (by decide) (by decide)
  have hinit := stakingNode_init mainParams (n := 199999) (by decide)
  have hfresh : mainParams.hasStakeMinAgeOrDepth 200000 1600000000 199999 1600000000 = false := by
    decide
  refine ⟨hacc, hinit, by decide, hfresh, fun hmature => ?_⟩
  have hold := hmature kernelEnv (stakingNode mainParams 199999) (freshStake 199999)
    (chainIndex 199999) _ _ _ _ _ _ rfl (by rw [chainIndex_nHeight]; rfl) rfl rfl (by decide) hinit
    hacc
  simp only [chainIndex_nHeight, chainIndex_nTime] at hold
  exact absurd (hold.symm.trans hfresh) (by decide)

end Agenor
