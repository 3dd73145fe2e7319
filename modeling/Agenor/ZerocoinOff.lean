import Agenor.ConnectStep

/-!
Zerocoin spends while zerocoin is switched off.

`CheckTransaction` looks at a zerocoin spend only when zerocoin is active, but `HaveInputs`,
`GetValueIn` and `CheckInputs` leave such transactions alone whether it is or not. What is left are
the checks in the loop of `ConnectBlock`, and before `UPGRADE_ZC_PUBLIC` these ask for a serial that
is in range and not yet recorded, and for nothing that was minted. So at every height, and for every
block time, at which zerocoin is off there is a block that pays out of a made-up spend.
-/

namespace Agenor

open Lib.Wrap Lib.Fallible

/-! ### The block -/

namespace Concrete

/-- A private spend of 5000 coins. -/
def madeUpIn : CTxIn :=
  ⟨COutPoint.null, spendScript [0x88, 0x13, 0, 0] (List.replicate 32 0) 1 0, 5000⟩

/-- The spend is paid out, in a coinstake where the block is staked. -/
def madeUpTx (pos : Bool) : CTransaction :=
  ⟨11, [madeUpIn], if pos then ⟨0, []⟩ :: spendTx.vout else spendTx.vout⟩

def madeUpBlock (pos : Bool) (n nTime : ℕ) : CBlock :=
  ⟨BitVec.ofNat 256 (n + 2), BitVec.ofNat 256 (n + 1), 0, nTime, 0,
    [emptyCoinBaseTx, madeUpTx pos], [], false⟩

def madeUpIndex (n nTime : ℕ) : CBlockIndex :=
  ⟨BitVec.ofNat 256 (n + 2), n + 1, nTime, some (indexAt n)⟩

/-- A node whose chain has that many blocks after the genesis block. -/
def nodeAt (net : Network) (n : ℕ) : Node := .idle (paramsOf net) (.simple 0) (chainTo n)

def noCoins (n : ℕ) : CCoinsViewCache := .ofView ⟨fun _ => none, BitVec.ofNat 256 (n + 1)⟩

/-- The spend that is read out of the input. -/
def madeUpSpend : CoinSpend :=
  (txInToZerocoinSpend (.simple 0) madeUpIn).toOption.getD
    ⟨.ZQ_ERROR, 0, 0, 0, 0, []⟩

end Concrete

open Concrete

variable {net : Network} {n nTime : ℕ} {pos : Bool}

lemma indexAt_hash (n : ℕ) : (indexAt n).hash = BitVec.ofNat 256 (n + 1) := by
  cases n <;> rfl

lemma indexAt_nHeight (n : ℕ) : (indexAt n).nHeight = n := by
  cases n <;> simp [indexAt]

lemma nodeAt_tip (net : Network) (n : ℕ) : (nodeAt net n).tip = some (indexAt n) := by
  simp [Node.tip, nodeAt, Node.idle, chainTo, List.range_succ]

lemma madeUpBlock_stake (pos : Bool) (n nTime : ℕ) :
    (madeUpBlock pos n nTime).isProofOfStake = pos := by
  cases pos <;> rfl

/-! ### `CheckBlock` -/

lemma checkBlockTxs_madeUp (net : Network) (n : ℕ) (pos cold : Bool) :
    loop (checkBlockTx (nodeAt net n) false cold) [] [emptyCoinBaseTx, madeUpTx pos]
      = .ok [1] := by
  have h : ∀ pos cold, loop (checkBlockTx (.idle (paramsOf net) (.simple 0) []) false cold) []
      [emptyCoinBaseTx, madeUpTx pos] = .ok [1] := by
    cases net <;> decide +kernel
  exact h pos cold

set_option maxRecDepth 20000 in
lemma checkBlockShape_madeUp : checkBlockShape (madeUpBlock pos n nTime) = .ok () := by
  have h : ∀ pos, checkBlockShape (madeUpBlock pos 0 0) = .ok () := by decide
  exact h pos

lemma checkPayments_madeUp (net : Network) (pos : Bool) (n nTime : ℕ) :
    ∃ cold, checkPayments (nodeAt net n) (madeUpBlock pos n nTime) = .ok cold := by
  have hheight : checkBlockHeight (nodeAt net n) (madeUpBlock pos n nTime) (indexAt n) = n + 1 := by
    simp [checkBlockHeight, madeUpBlock, indexAt_hash, indexAt_nHeight]
  have hcold : checkColdStakeFreeOutput (nodeAt net n) (madeUpTx pos) (n + 1) = .ok () := by
    have hno : ∀ pos, (madeUpTx pos).hasP2CSOutputs = false := by decide
    simp [checkColdStakeFreeOutput, hno]
  refine ⟨(nodeAt net n).isSporkActive .SPORK_17_COLDSTAKING_ENFORCEMENT, ?_⟩
  have hne : ((n : ℤ) + 1 != 0 && !(nodeAt net n).isInitialBlockDownload) = true := by
    have : (n : ℤ) + 1 ≠ 0 := by omega
    simp [this, nodeAt, Node.idle]
  simp only [checkPayments, nodeAt_tip, hheight, hne, if_true, madeUpBlock_stake]
  cases pos with
  | false => rfl
  | true =>
    simp only [madeUpBlock, List.getElem?_cons_succ, List.getElem?_cons_zero, hcold]
    rfl

lemma connectCheckBlock_madeUp (htime : (nTime : ℤ) ≤ (paramsOf net).ZC_TimeStart) :
    connectCheckBlock (nodeAt net n) (madeUpBlock pos n nTime) false false = .ok () := by
  have hoff : ¬(nodeAt net n).params.ZC_TimeStart < (nTime : ℤ) := not_lt.mpr htime
  obtain ⟨cold, hcold⟩ := checkPayments_madeUp net pos n nTime
  have htxs := checkBlockTxs_madeUp net n pos cold
  have hsig : ∀ pos, ([emptyCoinBaseTx, madeUpTx pos].map getLegacySigOpCount).sum = 0 := by
    decide
  have hlocked : checkLockedInputs (nodeAt net n) (madeUpBlock pos n nTime) = .ok () := by
    simp [checkLockedInputs, nodeAt, Node.idle, failIf]
  have hroot : checkMerkleRoot (nodeAt net n) (madeUpBlock pos n nTime) = .ok () := by
    simp [checkMerkleRoot, nodeAt, Node.idle, madeUpBlock, failIf, bind, Except.bind]
  have hpow : failIf (!(madeUpBlock pos n nTime).isProofOfStake &&
      !(nodeAt net n).checkProofOfWork (madeUpBlock pos n nTime).hash (madeUpBlock pos n nTime).nBits)
      (Fault.dos 50 REJECT_INVALID "high-hash" false) = .ok () := by
    simp [nodeAt, Node.idle, failIf]
  have hok : ∃ b, checkBlock (nodeAt net n) (madeUpBlock pos n nTime) true true true = .ok b := by
    refine ⟨{ madeUpBlock pos n nTime with fChecked := true }, ?_⟩
    unfold checkBlock
    simp only [hpow, hroot, checkBlockShape_madeUp, hlocked, hcold]
    simp only [madeUpBlock, hoff, decide_false, htxs, hsig, bind, Except.bind]
    rfl
  obtain ⟨b, hb⟩ := hok
  simp [connectCheckBlock, hb]

/-! ### `ConnectBlock` -/

lemma later_upgrades_off (hoff : (paramsOf net).networkUpgradeActive (n + 1) .UPGRADE_ZC = false) :
    (paramsOf net).networkUpgradeActive (n + 1) .UPGRADE_ZC_V2 = false ∧
      (paramsOf net).networkUpgradeActive (n + 1) .UPGRADE_ZC_PUBLIC = false ∧ n < 999999998 := by
  simp only [ChainParams.networkUpgradeActive_eq_false] at hoff ⊢
  cases net <;> simp only [paramsOf, mainParams, testNetParams, regTestParams] at hoff ⊢ <;> omega

/-- The loop of `ConnectBlock` for the block. -/
def madeUpEnv (net : Network) (pos : Bool) (n nTime : ℕ) : ConnectEnv :=
  connectEnv (nodeAt net n) .initial (madeUpBlock pos n nTime) (madeUpIndex n nTime)

lemma madeUpSpend_read : txInToZerocoinSpend (.simple 0) madeUpIn = .ok madeUpSpend ∧
    madeUpSpend.denomination.toInt = 5000 ∧
    Libzerocoin.isValidSerial (.simple 0)
      (decide (madeUpSpend.coinVersion < PUBKEY_VERSION)) madeUpSpend.coinSerialNumber = true := by
  decide +kernel

lemma contextualCheck_madeUp (pos : Bool)
    (hv2 : (paramsOf net).networkUpgradeActive (n + 1) .UPGRADE_ZC_V2 = false) :
    contextualCheckZerocoinSpend (nodeAt net n) .initial (madeUpTx pos) madeUpSpend (n + 1)
      = true := by
  obtain ⟨-, -, hserial⟩ := madeUpSpend_read
  have hparams : (nodeAt net n).params = paramsOf net := rfl
  have hlib : (nodeAt net n).lib = .simple 0 := rfl
  have hunseen : isSerialInBlockchain (nodeAt net n) .initial madeUpSpend.coinSerialNumber
      = false := rfl
  rw [contextualCheckZerocoinSpend, contextualCheckZerocoinSpendNoSerialCheck, hparams, hlib, hv2,
    hserial, hunseen]
  rfl

lemma connectSpends_madeUp (hoff : (paramsOf net).networkUpgradeActive (n + 1) .UPGRADE_ZC = false)
    (s : ConnectLoop) :
    (madeUpEnv net pos n nTime).connectSpends s (madeUpTx pos) = .ok { s with
      nValueIn := int64 (s.nValueIn + 5000 * COIN)
      vSpends := s.vSpends ++ [(madeUpSpend, 11)] } := by
  obtain ⟨hv2, hpub, -⟩ := later_upgrades_off hoff
  have hvin : (madeUpTx pos).vin = [madeUpIn] := rfl
  have hz : madeUpIn.isZerocoinSpend = true := by decide
  have hp : madeUpIn.isZerocoinPublicSpend = false := by decide
  obtain ⟨hread, hden, -⟩ := madeUpSpend_read
  have hctx := contextualCheck_madeUp pos hv2
  have henf : checkPublicCoinSpendEnforced (paramsOf net) (n + 1) false = true := by
    simp [checkPublicCoinSpendEnforced, hpub]
  have hspend : (madeUpEnv net pos n nTime).spendOf (madeUpTx pos)
      madeUpIn = .ok madeUpSpend := by
    rw [ConnectEnv.spendOf, hp]
    exact hread
  have hstep : (madeUpEnv net pos n nTime).connectSpend (madeUpTx pos) s
      madeUpIn = .ok { s with
        nValueIn := int64 (s.nValueIn + 5000 * COIN)
        vSpends := s.vSpends ++ [(madeUpSpend, 11)] } := by
    rw [ConnectEnv.connectSpend, if_neg (by simp [hz])]
    simp only [bind_eq_ok, failIf_eq_ok, pure_eq_ok, Bool.not_eq_eq_eq_not, Bool.not_false]
    refine ⟨(), ?_, madeUpSpend, hspend, (), hctx, by rw [hden]; rfl⟩
    rw [hp]
    exact henf
  have hchain : (madeUpEnv net pos n nTime).node.isTransactionInChain (madeUpTx pos).hash = none :=
    rfl
  rw [ConnectEnv.connectSpends, hchain, hvin]
  simp only [bind_eq_ok, loop_cons, loop_nil]
  exact ⟨_, hstep, rfl⟩

lemma connectValueIn_madeUp (s : ConnectLoop) :
    (madeUpEnv net pos n nTime).connectValueIn s (madeUpTx pos) = .ok { s with
      nFees := if pos then s.nFees else int64 s.nFees
      nValueIn := int64 (s.nValueIn + 5000 * COIN)
      scriptsOk := s.scriptsOk && true } := by
  have hcb : (madeUpTx pos).isCoinBase = false := by cases pos <;> decide
  have hz : (madeUpTx pos).hasZerocoinSpendInputs = true := by cases pos <;> decide
  have hspent : (madeUpTx pos).getZerocoinSpent = 5000 * COIN := by cases pos <;> decide
  have hval : s.view.getValueIn (madeUpTx pos) = (5000 * COIN, s.view) := by
    simp [CCoinsViewCache.getValueIn, hcb, hz, hspent]
  have hfees : ConnectEnv.feesAfter s.nFees (5000 * COIN) (madeUpTx pos)
      = .ok (if pos then s.nFees else int64 s.nFees) := by
    cases pos with
    | true => rfl
    | false =>
      have hout : getValueOut (madeUpTx false) = .ok (5000 * COIN) := by decide
      have hcs : (madeUpTx false).isCoinStake = false := by decide
      simp [ConnectEnv.feesAfter, hcs, hout]
  have hin : checkInputs (madeUpEnv net pos n nTime).node (madeUpTx pos) s.view
      (madeUpEnv net pos n nTime).fScriptChecks (madeUpEnv net pos n nTime).flags
        = .ok (true, s.view) := by
    simp [checkInputs, hz]
  rw [ConnectEnv.connectValueIn, hcb, hval]
  simp only [Bool.false_eq_true, if_false, hfees, hin, bind, Except.bind]
  rfl

lemma updateCoins_madeUp (pos : Bool) (n : ℕ) (nHeight : ℤ) :
    ∃ v₁ v₂, (noCoins n).updateCoins emptyCoinBaseTx nHeight = .ok (⟨[]⟩, v₁) ∧
      v₁.updateCoins (madeUpTx pos) nHeight = .ok (⟨[]⟩, v₂) := by
  cases pos <;> exact ⟨_, _, rfl, rfl⟩

lemma le_maintenance (htime : (nTime : ℤ) ≤ (paramsOf net).ZC_TimeStart) :
    (nTime : ℤ) ≤ (nodeAt net n).getSporkValue .SPORK_16_ZEROCOIN_MAINTENANCE_MODE := by
  have hmax : (paramsOf net).ZC_TimeStart ≤ SporkId.defaultValue
      .SPORK_16_ZEROCOIN_MAINTENANCE_MODE := by cases net <;> decide
  exact htime.trans hmax

lemma madeUpBlock_hash_ne (hn : n < 999999998) :
    (madeUpBlock pos n nTime).hash ≠ (paramsOf net).hashGenesisBlock := by
  intro heq
  have hnat := congrArg BitVec.toNat heq
  have hbig : 10 ^ 10 ≤ (paramsOf net).hashGenesisBlock.toNat := by cases net <;> decide
  rw [← hnat, madeUpBlock, BitVec.toNat_ofNat, Nat.mod_eq_of_lt (by omega)] at hbig
  omega

/-- **The loop lets the block through**: the spend is counted twice, so nothing seems to be
created. -/
lemma connectTxs_madeUp (pos : Bool)
    (hoff : (paramsOf net).networkUpgradeActive (n + 1) .UPGRADE_ZC = false)
    (htime : (nTime : ℤ) ≤ (paramsOf net).ZC_TimeStart) :
    ∃ s, loop (madeUpEnv net pos n nTime).connectTx (.start (noCoins n))
        [(emptyCoinBaseTx, 0), (madeUpTx pos, 1)] = .ok s ∧
      s.nFees = 0 ∧ s.nValueIn = 10000 * COIN ∧ s.nValueOut = 5000 * COIN ∧ s.scriptsOk = true := by
  obtain ⟨v₁, v₂, h1, h2⟩ := updateCoins_madeUp pos n (n + 1)
  have hspork := le_maintenance (n := n) htime
  have hmaint : ∀ tx : CTransaction, (decide ((madeUpEnv net pos n nTime).node.getSporkValue
      .SPORK_16_ZEROCOIN_MAINTENANCE_MODE < (madeUpEnv net pos n nTime).block.nTime) &&
      !(madeUpEnv net pos n nTime).node.isInitialBlockDownload && tx.containsZerocoins) =
        false := by
    intro tx
    have hno : ¬(madeUpEnv net pos n nTime).node.getSporkValue .SPORK_16_ZEROCOIN_MAINTENANCE_MODE
        < (madeUpEnv net pos n nTime).block.nTime := not_lt.mpr hspork
    simp [hno]
  have hcb : (madeUpEnv net pos n nTime).connectTx (.start (noCoins n)) (emptyCoinBaseTx, 0)
      = .ok { ConnectLoop.start (noCoins n) with view := v₁ } := by
    have hout : getValueOut emptyCoinBaseTx = .ok 0 := by decide
    simp only [ConnectEnv.connectTx, ConnectEnv.connectOutputs, bind_eq_ok, failIf_eq_ok,
      pure_eq_ok]
    exact ⟨(), rfl, (), hmaint _, _, rfl, _, rfl, _, rfl, 0, hout, _, h1, rfl⟩
  have hsig : getLegacySigOpCount (madeUpTx pos) = 0 := by cases pos <;> decide
  have hmint : (madeUpTx pos).hasZerocoinMintOutputs = false := by cases pos <;> decide
  have hz : (madeUpTx pos).hasZerocoinSpendInputs = true := by cases pos <;> decide
  have hout : getValueOut (madeUpTx pos) = .ok (5000 * COIN) := by cases pos <;> decide
  have hin : int64 (5000 * COIN + 5000 * COIN) = 10000 * COIN := by decide
  have hvalue : int64 (5000 * COIN) = 5000 * COIN := by decide
  have hspend : (madeUpEnv net pos n nTime).connectTx
      { ConnectLoop.start (noCoins n) with view := v₁ } (madeUpTx pos, 1)
        = .ok { ConnectLoop.start (noCoins n) with
          nValueIn := 10000 * COIN
          nValueOut := 5000 * COIN
          vSpends := [(madeUpSpend, 11)]
          vtxundo := [⟨[]⟩]
          view := v₂ } := by
    simp only [ConnectEnv.connectTx, ConnectEnv.connectOutputs, ConnectEnv.connectMints,
      ConnectEnv.connectKind, hmint, hz, hsig, bind_eq_ok, failIf_eq_ok, pure_eq_ok]
    refine ⟨(), rfl, (), hmaint _, _, rfl, _, connectSpends_madeUp hoff _, _,
      connectValueIn_madeUp _, _, hout, _, h2, ?_⟩
    cases pos <;> simp [ConnectLoop.start, hin, hvalue]
  have hrun := loop_cons (madeUpEnv net pos n nTime).connectTx (.start (noCoins n))
    (emptyCoinBaseTx, 0) [(madeUpTx pos, 1)]
  rw [hcb] at hrun
  simp only [loop_cons, loop_nil, bind, Except.bind, hspend] at hrun
  exact ⟨_, hrun, rfl, rfl, rfl, rfl⟩

/-! ### The result -/

lemma checkPeriod_madeUp (hpos : (paramsOf net).networkUpgradeActive (n + 1) .UPGRADE_POS = pos) :
    checkPeriod (nodeAt net n) (madeUpBlock pos n nTime) (n + 1) = .ok () := by
  have hparams : (nodeAt net n).params = paramsOf net := rfl
  cases pos <;>
    simp [checkPeriod, hparams, hpos, madeUpBlock_stake, CBlock.isProofOfWork, failIf, bind,
      Except.bind]

lemma connectChecks_madeUp (hpos : (paramsOf net).networkUpgradeActive (n + 1) .UPGRADE_POS = pos)
    (hoff : (paramsOf net).networkUpgradeActive (n + 1) .UPGRADE_ZC = false)
    (htime : (nTime : ℤ) ≤ (paramsOf net).ZC_TimeStart) :
    ∃ s, connectChecks (nodeAt net n) .initial (madeUpBlock pos n nTime) (madeUpIndex n nTime)
      (noCoins n) = .ok s := by
  obtain ⟨s, hs, hfees, hin, hout, hscripts⟩ := connectTxs_madeUp pos hoff htime
  refine ⟨s, ?_⟩
  have hmint : s.nMint = -5000 * COIN := by
    rw [ConnectLoop.nMint, hfees, hin, hout]
    decide
  have hexp : 0 ≤ nExpectedMint (nodeAt net n) (madeUpBlock pos n nTime) (n + 1) s.nFees := by
    have hlow := (paramsOf net).getBlockValue_nonneg (n + 1)
    have hup := (paramsOf net).getBlockValue_le (n + 1)
    have hmax : 5000000 * COIN < 2 ^ 63 := by decide
    have hparams : (nodeAt net n).params = paramsOf net := rfl
    simp only [nExpectedMint, hfees, hparams, add_zero]
    rw [int64_of_fits (by omega) (by omega), ite_self]
    exact hlow
  have hvalid : isBlockValueValid (nodeAt net n) (n + 1)
      (nExpectedMint (nodeAt net n) (madeUpBlock pos n nTime) (n + 1) s.nFees) s.nMint = true := by
    have hle :
        s.nMint ≤ nExpectedMint (nodeAt net n) (madeUpBlock pos n nTime) (n + 1) s.nFees := by
      have : -5000 * COIN ≤ 0 := by decide
      omega
    simp [isBlockValueValid, hle]
  simp only [connectChecks, bind_eq_ok, failIf_eq_ok, pure_eq_ok]
  refine ⟨(), checkPeriod_madeUp hpos, s, hs, (), ?_, (), by simp [hscripts], rfl⟩
  rw [Bool.not_eq_false']
  exact hvalid

lemma connectCommit_madeUp (hoff : (paramsOf net).networkUpgradeActive (n + 1) .UPGRADE_ZC = false)
    (s : ConnectLoop) :
    ∃ r, connectCommit (nodeAt net n) .initial (madeUpBlock pos n nTime) (madeUpIndex n nTime) s
      = .ok r := by
  have hparams : (nodeAt net n).params = paramsOf net := rfl
  have hheight : (madeUpIndex n nTime).nHeight = n + 1 := rfl
  have hsupply : ∀ m, updateZAgenorupplyConnect (nodeAt net n) (madeUpBlock pos n nTime)
      (madeUpIndex n nTime).nHeight m = .ok m := by
    intro m
    simp [updateZAgenorupplyConnect, hparams, hheight, hoff]
  have hundo : ∃ g₁, writeUndo (nodeAt net n) .initial (madeUpIndex n nTime) ⟨s.vtxundo⟩ = .ok g₁ :=
    ⟨_, rfl⟩
  obtain ⟨g₁, h1⟩ := hundo
  have hdb : ∃ g₂, writeZerocoinDB (nodeAt net n) g₁ s = .ok g₂ := by
    simp [writeZerocoinDB, nodeAt, Node.idle, failIf, bind, Except.bind, pure, Except.pure]
  obtain ⟨g₂, h2⟩ := hdb
  rw [connectCommit, h1]
  simp only [bind, Except.bind, h2, hsupply]
  exact ⟨_, rfl⟩

/-- **Money while zerocoin is off.** On every network, at every height and for every block time at
which zerocoin is off, a node accepts a block on top of a chain without a single coin in which a
transaction pays 5000 coins out of a zerocoin spend. -/
theorem zerocoin_off_accepts_spend (net : Network) (nHeight nTime : ℕ) (hh : 1 ≤ nHeight)
    (hoff : (paramsOf net).networkUpgradeActive nHeight .UPGRADE_ZC = false)
    (htime : (nTime : ℤ) ≤ (paramsOf net).ZC_TimeStart) :
    ∃ (node : Node) (g : Global) (block : CBlock) (pindex : CBlockIndex) (view : CCoinsViewCache)
      (r : CCoinsViewCache × Global) (tx : CTransaction),
      node.params = paramsOf net ∧ pindex.nHeight = nHeight ∧ pindex.pprev = node.tip ∧
      block.nTime = nTime ∧ block.fChecked = false ∧
      (nTime : ℤ) ≤ node.getSporkValue .SPORK_16_ZEROCOIN_MAINTENANCE_MODE ∧
      connectBlock node g block pindex view false false = .ok r ∧
      (∀ o, view.coins o = none) ∧ tx ∈ block.vtx ∧ tx.isCoinBase = false ∧
      tx.hasZerocoinSpendInputs = true ∧ tx.valueOut = 5000 * COIN := by
  obtain ⟨n, rfl⟩ : ∃ n, nHeight = n + 1 := ⟨nHeight - 1, by omega⟩
  rw [Nat.cast_succ] at hoff
  obtain ⟨pos, hpos⟩ : ∃ pos, (paramsOf net).networkUpgradeActive (n + 1) .UPGRADE_POS = pos :=
    ⟨_, rfl⟩
  obtain ⟨s, hs⟩ := connectChecks_madeUp hpos hoff htime
  obtain ⟨r, hr⟩ : ∃ r, connectCommit (nodeAt net n) .initial (madeUpBlock pos n nTime)
      (madeUpIndex n nTime) s = .ok r := connectCommit_madeUp hoff s
  have hgen : (madeUpBlock pos n nTime).hash ≠ (nodeAt net n).params.hashGenesisBlock :=
    madeUpBlock_hash_ne (later_upgrades_off hoff).2.2
  have hprev : (((madeUpIndex n nTime).pprev.map (·.hash)).getD 0 != (noCoins n).getBestBlock)
      = false := by
    simp [madeUpIndex, noCoins, CCoinsViewCache.getBestBlock, CCoinsViewCache.ofView, indexAt_hash]
  refine ⟨nodeAt net n, .initial, madeUpBlock pos n nTime, madeUpIndex n nTime, noCoins n, r,
    madeUpTx pos, rfl, by simp [madeUpIndex], (nodeAt_tip net n).symm, rfl, rfl,
    le_maintenance htime, ?_, ?_, ?_, ?_, ?_, ?_⟩
  · simp only [connectBlock, bind_eq_ok, withGlobal_eq_ok, failIf_eq_ok]
    refine ⟨(), connectCheckBlock_madeUp htime, (), hprev, ?_⟩
    rw [if_neg hgen]
    simp only [bind_eq_ok, withGlobal_eq_ok]
    exact ⟨s, hs, hr⟩
  · intro o
    rw [noCoins, CCoinsViewCache.coins_ofView]
    rfl
  · simp [madeUpBlock]
  · cases pos <;> decide
  · cases pos <;> decide
  · cases pos <;> decide

/-- The main network, right after the first block. -/
theorem zerocoin_off_accepts_spend_main :
    ∃ (node : Node) (g : Global) (block : CBlock) (pindex : CBlockIndex) (view : CCoinsViewCache)
      (r : CCoinsViewCache × Global) (tx : CTransaction),
      node.params = mainParams ∧ pindex.nHeight = 2 ∧ pindex.pprev = node.tip ∧
      block.nTime = 1500000120 ∧ block.fChecked = false ∧
      1500000120 ≤ node.getSporkValue .SPORK_16_ZEROCOIN_MAINTENANCE_MODE ∧
      connectBlock node g block pindex view false false = .ok r ∧
      (∀ o, view.coins o = none) ∧ tx ∈ block.vtx ∧ tx.isCoinBase = false ∧
      tx.hasZerocoinSpendInputs = true ∧ tx.valueOut = 5000 * COIN :=
  zerocoin_off_accepts_spend .MAIN 2 1500000120 (by decide) (by decide) (by decide)

/-- The same with the blocks of the other examples: a mined block with a private spend of 5000
coins is accepted at height 2 of the main network. -/
theorem private_spend_accepted_while_off :
    mainNode.params.networkUpgradeActive secondIndex.nHeight .UPGRADE_ZC = false ∧
      ((secondBlock [coinBaseTx (50 * COIN), spendTx]).nTime : ℤ) ≤ mainNode.params.ZC_TimeStart ∧
      ((secondBlock [coinBaseTx (50 * COIN), spendTx]).nTime : ℤ)
        ≤ mainNode.getSporkValue .SPORK_16_ZEROCOIN_MAINTENANCE_MODE ∧
      (connectBlock mainNode .initial (secondBlock [coinBaseTx (50 * COIN), spendTx]) secondIndex
        emptyView false false).isOk = true ∧
      spendTx.isCoinBase = false ∧ spendTx.hasZerocoinSpendInputs = true ∧
      spendTx.valueOut = 5000 * COIN ∧ ∀ o, emptyView.coins o = none := by
  refine ⟨by decide, by decide, by decide, by decide +kernel, by decide, by decide, by decide, ?_⟩
  intro o
  rw [emptyView, CCoinsViewCache.coins_ofView]
  rfl

end Agenor
