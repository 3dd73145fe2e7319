import Agenor.CheckBlock
import Agenor.ConnectBlock
import Agenor.StakeInput

/-!
How a new block gets into the block index (`ProcessNewBlock`, `AcceptBlock`, `AcceptBlockHeader`
and `AddToBlockIndex` in `main.cpp`, `blocksignature.cpp`).

From `UPGRADE_V3_4` on the stake modifier of a block is computed from the first input of its second
transaction, which is read without a look at how many there are. Nothing that runs before turns a
mined block away, so one with a coinbase alone is read past its end.
-/

namespace Agenor

open Lib.Fallible

/-- The header of a block, with its hash. -/
structure CBlockHeader where
  hash : Uint256
  hashPrevBlock : Uint256
  hashMerkleRoot : Uint256
  nTime : ℕ
  nBits : ℕ
  deriving DecidableEq, Repr

def CBlock.getBlockHeader (block : CBlock) : CBlockHeader :=
  ⟨block.hash, block.hashPrevBlock, block.hashMerkleRoot, block.nTime, block.nBits⟩

/-- The block that a header makes with a coinbase alone. -/
def CBlockHeader.over (header : CBlockHeader) (coinbase : CTransaction) : CBlock :=
  ⟨header.hash, header.hashPrevBlock, header.hashMerkleRoot, header.nTime, header.nBits,
    [coinbase], [], false⟩

/-- What `AddToBlockIndex` takes the stake modifier of a block from. -/
inductive StakeModifierRead
  /-- There is no parent, and no modifier. -/
  | noParent
  /-- The modifier of the first version, from the chain. -/
  | v1
  /-- The modifier of the second version, from the hash of the coin that is staked. -/
  | v2 (prevoutId : Uint256)
  /-- A vector is read past its end. -/
  | outOfRange
  deriving DecidableEq, Repr

/-- What the acceptance of a block reads besides the node. -/
structure IndexEnv where
  node : Node
  kernel : KernelEnv
  getNextWorkRequired : CBlockIndex → CBlockHeader → ℕ
  /-- Whether two targets are as close as `CheckWork` wants them before the fork. -/
  nearBits : ℕ → ℕ → Bool
  nAgenorCoinBadBlockTime : ℕ
  nAgenorCoinBadBlockBits : ℕ
  /-- `CheckBlockSignature` of a staked block with a signature. -/
  checkStakeSignature : CBlock → Bool → Bool
  /-- Whether a block of the index has failed. -/
  failed : CBlockIndex → Bool
  contextualCheckBlockHeader : CBlockHeader → Option CBlockIndex → Bool

namespace IndexEnv

variable (env : IndexEnv) (block : CBlock)

/-- The end of `AddToBlockIndex`. -/
def newStakeModifier : StakeModifierRead :=
  match env.node.mapBlockIndex block.hashPrevBlock with
  | none => .noParent
  | some pprev =>
    if !env.node.params.networkUpgradeActive (pprev.nHeight + 1) .UPGRADE_V3_4 then .v1
    else match block.vtx[1]? with
      | none => .outOfRange
      | some tx =>
        match tx.vin[0]? with
        | none => .outOfRange
        | some txin => .v2 txin.prevout.hash

/-- `AddToBlockIndex`; `none` when the block is in the index already. -/
def addToBlockIndex : Option StakeModifierRead :=
  if (env.node.mapBlockIndex block.hash).isSome then none else some (env.newStakeModifier block)

/-- The parent of a block, which only the genesis block may be without; `none` when it is unknown
or has failed. -/
def findPrev : Option (Option CBlockIndex) :=
  if block.hash = env.node.params.hashGenesisBlock then some none
  else match env.node.mapBlockIndex block.hashPrevBlock with
    | none => none
    | some pindexPrev => if env.failed pindexPrev then none else some (some pindexPrev)

/-- The height up to which `CheckWork` is lenient. -/
def DGW_FORK_HEIGHT : ℤ := 68589

def checkWork (pindexPrev : CBlockIndex) : Bool :=
  let nBitsRequired := env.getNextWorkRequired pindexPrev block.getBlockHeader
  if !env.node.params.isRegTestNet && block.isProofOfWork &&
      decide (pindexPrev.nHeight + 1 ≤ DGW_FORK_HEIGHT) then env.nearBits block.nBits nBitsRequired
  else block.nBits == nBitsRequired || block.nTime == env.nAgenorCoinBadBlockTime &&
    block.nBits == env.nAgenorCoinBadBlockBits

/-- `AcceptBlockHeader`; `none` when the block does not get into the index. -/
def acceptBlockHeader : Option StakeModifierRead := do
  let pindexPrev ← env.findPrev block
  if env.contextualCheckBlockHeader block.getBlockHeader pindexPrev then env.addToBlockIndex block
  else none

/-- `AcceptBlock` up to the index. -/
def acceptBlock : Option StakeModifierRead := do
  match ← env.findPrev block with
  | none => env.acceptBlockHeader block
  | some pindexPrev =>
    if !env.checkWork block pindexPrev then none
    else if block.isProofOfStake &&
        checkProofOfStake env.kernel env.node block pindexPrev != .accepted then none
    else env.acceptBlockHeader block

def checkBlockSignature (enableP2PKH : Bool) : Bool :=
  if block.isProofOfWork then block.vchBlockSig.isEmpty
  else !block.vchBlockSig.isEmpty && env.checkStakeSignature block enableP2PKH

/-- `ProcessNewBlock` up to the index. -/
def processNewBlock : Option StakeModifierRead :=
  match checkBlock env.node block true true true with
  | .error _ => none
  | .ok _ =>
    let enableP2PKH :=
      env.node.params.networkUpgradeActive (env.node.height + 1) .UPGRADE_V5_DUMMY
    if env.checkBlockSignature block enableP2PKH then env.acceptBlock block else none

/-! ### The read of the coinstake -/

variable {env : IndexEnv} {block : CBlock} {read : StakeModifierRead}

lemma read_of_acceptBlock (h : env.acceptBlock block = some read) :
    read = env.newStakeModifier block := by
  have hheader : ∀ {r}, env.acceptBlockHeader block = some r → r = env.newStakeModifier block := by
    intro r hr
    simp only [acceptBlockHeader, Option.bind_eq_bind, Option.bind_eq_some_iff] at hr
    obtain ⟨prev, -, hr⟩ := hr
    split_ifs at hr
    rw [addToBlockIndex] at hr
    split_ifs at hr
    exact (Option.some.inj hr).symm
  simp only [acceptBlock, Option.bind_eq_bind, Option.bind_eq_some_iff] at h
  obtain ⟨prev, -, h⟩ := h
  cases prev with
  | none => exact hheader h
  | some pindexPrev =>
    dsimp only at h
    split_ifs at h
    exact hheader h

lemma checked_of_processNewBlock (hfresh : block.fChecked = false)
    (h : env.processNewBlock block = some read) :
    block.vtx ≠ [] ∧ (∀ tx ∈ block.vtx, tx.vin ≠ []) ∧ read = env.newStakeModifier block := by
  unfold processNewBlock at h
  cases hcheck : checkBlock env.node block true true true with
  | error f =>
    rw [hcheck] at h
    cases h
  | ok block' =>
    rw [hcheck] at h
    dsimp only at h
    split_ifs at h
    simp only [checkBlock, hfresh, Bool.false_eq_true, if_false, if_true, bind_eq_ok] at hcheck
    obtain ⟨_, _, _, _, _, hshape, _, _, cold, _, l, hloop, _⟩ := hcheck
    obtain ⟨⟨cb, rest, hvtx, -⟩, -⟩ := checkBlockShape_eq_ok hshape
    refine ⟨by simp [hvtx], fun tx htx => ?_, read_of_acceptBlock h⟩
    have htx := checkBlockTxs_eq_ok hloop tx htx
    simp only [checkTransaction, bind_eq_ok, failIf_eq_ok, List.isEmpty_eq_false_iff] at htx
    exact htx.choose_spec.1

lemma findPrev_eq_some {pindexPrev : CBlockIndex} :
    env.findPrev block = some (some pindexPrev) ↔
      block.hash ≠ env.node.params.hashGenesisBlock ∧
      env.node.mapBlockIndex block.hashPrevBlock = some pindexPrev ∧
      env.failed pindexPrev = false := by
  unfold findPrev
  split_ifs with hgen
  · simp [hgen]
  · cases hprev : env.node.mapBlockIndex block.hashPrevBlock with
    | none => simp
    | some p =>
      cases hf : env.failed p <;> grind

lemma inRange_of_length {pindexPrev : CBlockIndex} (hfresh : block.fChecked = false)
    (hprev : env.findPrev block = some (some pindexPrev))
    (hactive : env.node.params.networkUpgradeActive (pindexPrev.nHeight + 1) .UPGRADE_V3_4 = true)
    (h : env.processNewBlock block = some read) (hlen : 1 < block.vtx.length) :
    ∃ tx txin, block.vtx[1]? = some tx ∧ tx.vin[0]? = some txin ∧
      read = .v2 txin.prevout.hash := by
  obtain ⟨-, hvin, hread⟩ := checked_of_processNewBlock hfresh h
  have htx : block.vtx[1]? = some block.vtx[1] := List.getElem?_eq_getElem hlen
  have hin : 0 < (block.vtx[1]).vin.length :=
    List.length_pos_iff.mpr (hvin _ (List.getElem_mem hlen))
  have htxin : (block.vtx[1]).vin[0]? = some (block.vtx[1]).vin[0] :=
    List.getElem?_eq_getElem hin
  refine ⟨_, _, htx, htxin, ?_⟩
  rw [hread, newStakeModifier, (findPrev_eq_some.mp hprev).2.1]
  simp [hactive, htx, htxin]

/-! ### What a miner can put on a parent -/

/-- The rules for a transaction that is a block's only one: those of a coinbase, of the size of the
block, of what it pays to masternodes and of its signature operations. -/
structure CoinBaseAlone (node : Node) (header : CBlockHeader) (coinbase : CTransaction) :
    Prop where
  root : node.blockMerkleRoot [coinbase] = (header.hashMerkleRoot, false)
  size : (header.over coinbase).serializeSize ≤ MAX_BLOCK_SIZE_CURRENT
  coinBase : coinbase.isCoinBase = true
  checked : ∃ cold, checkPayments node (header.over coinbase) = .ok cold ∧
    checkTransaction node coinbase (decide (node.params.ZC_TimeStart < header.nTime)) cold = .ok ()
  sigOps : getLegacySigOpCount coinbase ≤
    if node.params.ZC_TimeStart < header.nTime then MAX_BLOCK_SIGOPS_CURRENT
    else MAX_BLOCK_SIGOPS_LEGACY

variable (env) in
/-- A header that a miner can put on a block: it has its proof of work, the bits that are asked for
there and a time that is right, and is not known yet. -/
structure MinedOn (pindexPrev : CBlockIndex) (header : CBlockHeader) (coinbase : CTransaction) :
    Prop where
  prev : env.node.mapBlockIndex header.hashPrevBlock = some pindexPrev
  new : header.hash ≠ env.node.params.hashGenesisBlock ∧
    env.node.mapBlockIndex header.hash = none
  pow : env.node.checkProofOfWork header.hash header.nBits = true
  bits : env.checkWork (header.over coinbase) pindexPrev = true
  context : env.contextualCheckBlockHeader header (some pindexPrev) = true

section Alone

variable {header : CBlockHeader} {coinbase : CTransaction} {pindexPrev : CBlockIndex}

lemma isProofOfStake_over : (header.over coinbase).isProofOfStake = false := rfl

lemma checkLockedInputs_over (hcb : coinbase.isCoinBase = true) :
    checkLockedInputs env.node (header.over coinbase) = .ok () := by
  simp [checkLockedInputs, CBlockHeader.over, hcb, failIf]

lemma checkBlockShape_over :
    checkBlockShape (header.over coinbase) = .ok () ↔
      (header.over coinbase).serializeSize ≤ MAX_BLOCK_SIZE_CURRENT ∧
        coinbase.isCoinBase = true := by
  have hvtx : (header.over coinbase).vtx = [coinbase] := rfl
  have hone : ¬ MAX_BLOCK_SIZE_CURRENT < 1 := by decide
  simp [checkBlockShape, isProofOfStake_over, hvtx, hone]

lemma checkBlockTx_over (hcb : coinbase.isCoinBase = true) {zc cold : Bool} :
    (∃ l, loop (checkBlockTx env.node zc cold) [] [coinbase] = .ok l) ↔
      checkTransaction env.node coinbase zc cold = .ok () := by
  have hspend : coinbase.hasZerocoinSpendInputs = false := by
    unfold CTransaction.isCoinBase at hcb
    split at hcb
    · simp only [CTransaction.containsZerocoins, Bool.and_eq_true, Bool.not_eq_true',
        Bool.or_eq_false_iff] at hcb
      exact hcb.2.1
    · cases hcb
  constructor
  · rintro ⟨l, hl⟩
    exact checkBlockTxs_eq_ok hl _ (List.mem_singleton_self _)
  · intro h
    refine ⟨[], ?_⟩
    simp [checkBlockTx, h, hspend]

lemma checkBlock_over :
    (∃ b, checkBlock env.node (header.over coinbase) true true true = .ok b) ↔
      env.node.checkProofOfWork header.hash header.nBits = true ∧
        CoinBaseAlone env.node header coinbase := by
  have hfields : (header.over coinbase).vtx = [coinbase] ∧
      (header.over coinbase).fChecked = false ∧ (header.over coinbase).nTime = header.nTime ∧
      (header.over coinbase).hash = header.hash ∧ (header.over coinbase).nBits = header.nBits ∧
      (header.over coinbase).hashMerkleRoot = header.hashMerkleRoot :=
    ⟨rfl, rfl, rfl, rfl, rfl, rfl⟩
  obtain ⟨hvtx, hfresh, htime, hhash, hbits, hmerkle⟩ := hfields
  simp only [checkBlock, hfresh, isProofOfStake_over, hvtx, htime, hhash, hbits, Bool.false_eq_true,
    if_false, if_true, bind_eq_ok, failIf_eq_ok, Bool.not_false, Bool.true_and,
    Bool.not_eq_false', checkMerkleRoot, hmerkle, bne_eq_false_iff_eq, List.map_cons,
    List.map_nil, List.sum_cons, List.sum_nil, add_zero, decide_eq_true_eq,
    decide_eq_false_iff_not, not_lt]
  constructor
  · rintro ⟨b, _, hpow, _, ⟨_, hr, hm⟩, _, hshape, _, -, cold, hpay, l, hloop, -, hsig, -⟩
    obtain ⟨hsize, hcb⟩ := checkBlockShape_over.mp hshape
    exact ⟨hpow, Prod.ext hr.symm hm, hsize, hcb,
      ⟨cold, hpay, (checkBlockTx_over hcb).mp ⟨l, hloop⟩⟩, hsig⟩
  · rintro ⟨hpow, hroot, hsize, hcb, ⟨cold, hpay, htx⟩, hsig⟩
    obtain ⟨l, hloop⟩ := (checkBlockTx_over hcb).mpr htx
    exact ⟨_, (), hpow, (), ⟨(), by simp [hroot], by simp [hroot]⟩, (),
      checkBlockShape_over.mpr ⟨hsize, hcb⟩, (), checkLockedInputs_over hcb, cold, hpay, l, hloop,
      (), hsig, rfl⟩

lemma processNewBlock_over
    (hactive : env.node.params.networkUpgradeActive (pindexPrev.nHeight + 1) .UPGRADE_V3_4 = true)
    (hfailed : env.failed pindexPrev = false) (hmined : env.MinedOn pindexPrev header coinbase)
    (hcb : CoinBaseAlone env.node header coinbase) :
    env.processNewBlock (header.over coinbase) = some .outOfRange := by
  obtain ⟨b, hb⟩ := checkBlock_over.mpr ⟨hmined.pow, hcb⟩
  have hsig : ∀ p2pkh, env.checkBlockSignature (header.over coinbase) p2pkh = true := fun _ => rfl
  have hprev : env.findPrev (header.over coinbase) = some (some pindexPrev) :=
    findPrev_eq_some.mpr ⟨hmined.new.1, hmined.prev, hfailed⟩
  have hcontext : env.contextualCheckBlockHeader (header.over coinbase).getBlockHeader
      (some pindexPrev) = true := hmined.context
  have hread : env.newStakeModifier (header.over coinbase) = .outOfRange := by
    have hmap : env.node.mapBlockIndex (header.over coinbase).hashPrevBlock = some pindexPrev :=
      hmined.prev
    simp only [newStakeModifier, hmap, hactive, Bool.not_true, Bool.false_eq_true, if_false]
    rfl
  have hnew : env.node.mapBlockIndex (header.over coinbase).hash = none := hmined.new.2
  simp [processNewBlock, hb, hsig, acceptBlock, hprev, hmined.bits, isProofOfStake_over,
    acceptBlockHeader, hcontext, addToBlockIndex, hnew, hread]

lemma mined_of_processNewBlock (hfresh : block.fChecked = false)
    (hprev : env.findPrev block = some (some pindexPrev))
    (h : env.processNewBlock block = some read) (hlen : ¬ 1 < block.vtx.length) :
    ∃ coinbase, env.MinedOn pindexPrev block.getBlockHeader coinbase ∧
      CoinBaseAlone env.node block.getBlockHeader coinbase := by
  obtain ⟨hgen, hmap, hfailed⟩ := findPrev_eq_some.mp hprev
  obtain ⟨hne, -, -⟩ := checked_of_processNewBlock hfresh h
  obtain ⟨coinbase, hvtx⟩ : ∃ tx, block.vtx = [tx] :=
    List.length_eq_one_iff.mp (by have := List.length_pos_iff.mpr hne; omega)
  have hpos : block.isProofOfStake = false := by simp [CBlock.isProofOfStake, hvtx]
  unfold processNewBlock at h
  split at h
  · cases h
  next b hb =>
  dsimp only at h
  split_ifs at h with hsig
  have hempty : block.vchBlockSig = [] := by
    simpa [checkBlockSignature, CBlock.isProofOfWork, hpos] using hsig
  have hover : block = block.getBlockHeader.over coinbase := by
    obtain ⟨hash, prev, root, time, bits, vtx, sig, checked⟩ := block
    simp only at hvtx hempty hfresh
    subst hvtx hempty hfresh
    rfl
  obtain ⟨hpow, hcb⟩ := checkBlock_over.mp ⟨b, hover ▸ hb⟩
  simp only [acceptBlock, hprev, Option.bind_eq_bind, Option.bind_some] at h
  split_ifs at h with hwork hstake
  simp only [acceptBlockHeader, hprev, Option.bind_eq_bind, Option.bind_some] at h
  split_ifs at h with hcontext
  rw [addToBlockIndex] at h
  split_ifs at h with hnew
  have hnew : env.node.mapBlockIndex block.hash = none := by simpa using hnew
  refine ⟨coinbase, ⟨hmap, ⟨hgen, hnew⟩, hpow, ?_, hcontext⟩, hcb⟩
  rw [← hover]
  simpa using hwork

end Alone

end IndexEnv

/-! ### A block on top of a chain -/

namespace Concrete

/-- A regression test node just below the height at which the second version begins. -/
def indexNode : Node :=
  { Node.idle regTestParams (.simple 0) (chainTo 251) with
    mapBlockIndex := fun h => if h = 252 then some (indexAt 251) else none }

def indexEnv : IndexEnv where
  node := indexNode
  kernel := kernelEnv
  getNextWorkRequired := fun _ _ => 0x207fffff
  nearBits := fun _ _ => true
  nAgenorCoinBadBlockTime := 0
  nAgenorCoinBadBlockBits := 0
  checkStakeSignature := fun _ _ => true
  failed := fun _ => false
  contextualCheckBlockHeader := fun _ _ => true

/-- The same node, where no hash is small enough. -/
def noWorkEnv : IndexEnv :=
  { indexEnv with node := { indexNode with checkProofOfWork := fun _ _ => false } }

def minedBlock (vtx : List CTransaction) : CBlock :=
  ⟨300, 252, 0, 1500015120, 0x207fffff, vtx, [], false⟩

end Concrete

namespace IndexEnv

open Concrete

end IndexEnv

end Agenor
