import Agenor.MasternodePings
import Agenor.MempoolAccept
import Agenor.ConnectStep

/-!
Who owns the collateral of a new masternode.

Three checks look at the collateral of a broadcast. `IsInputAssociatedWithPubkey` looks for an
output of the right value that pays to the key among all outputs of the transaction;
`AcceptableInputs` sees whether the output itself could be spent, for a little less than the
collateral, without a look at its script; and the output must be deep enough in the chain. The index
of the output is in none of the checks of the key, nor in what the key has signed. So the owner of
one output of a transaction can announce another one that is worth enough.
-/

namespace Agenor

open Lib.Fallible

/-- `GetMasterNodeCollateral`, which is the same at all heights. -/
def getMasterNodeCollateral (_nHeight : ℤ) : ℤ := 10000

namespace Script

/-- `GetScriptForDestination` of a key. -/
def forKeyID (keyID : CKeyID) : CScript :=
  [OP_DUP, OP_HASH160, 20] ++ bytesLE 20 keyID.toNat ++ [OP_EQUALVERIFY, OP_CHECKSIG]

/-- A key of at most 65 bytes and `OP_CHECKSIG`. -/
def forRawPubKey (pubKey : CPubKey) : CScript :=
  UInt8.ofNat pubKey.length :: pubKey ++ [OP_CHECKSIG]

end Script

/-- What the announcement of a masternode reads from the chain and the memory pool. -/
structure CollateralEnv where
  signer : Signer
  /-- The clock, the network, the locks and the masternode that the node runs itself. -/
  host : MnEnv
  accept : AcceptEnv
  mempool : CTxMemPool
  /-- `GetHash` of a transaction with one input and one output. -/
  txHash : CTxIn → CTxOut → Uint256
  /-- The rules of `AcceptableInputs` about fees, given the fee. -/
  feeRules : CTransaction → ℤ → Check Unit

namespace CollateralEnv

variable (env : CollateralEnv)

/-! ### The checks -/

def node : Node := env.accept.node

/-- The collateral in the smallest unit. -/
def collateral : ℤ := getMasterNodeCollateral env.node.height * COIN

def isInputAssociatedWithPubkey (vin : CTxIn) (pubKeyCollateralAddress : CPubKey) : Bool :=
  let payee := Script.forKeyID (env.signer.getID pubKeyCollateralAddress)
  match env.node.getTransaction vin.prevout.hash with
  | none => false
  | some (txVin, _) =>
    txVin.vout.any fun out => out.nValue == env.collateral && out.scriptPubKey == payee

/-- `AcceptableInputs`, for `fLimitFree` and `isDSTX` off. -/
def acceptableInputsOf (tx : CTransaction) : Check Unit := do
  checkTransaction env.node tx (env.node.params.networkUpgradeActive env.node.height .UPGRADE_ZC)
    false
  failIf tx.isCoinBase (.dos 100 REJECT_INVALID "coinbase" false)
  failIf (env.mempool.has tx.hash) .fail
  failIf (tx.vin.any fun i => (env.node.mapLockedInputs i.prevout).any (· != tx.hash))
    (.dos 0 REJECT_INVALID "tx-lock-conflict" false)
  failIf (!tx.hasZerocoinSpendInputs &&
    tx.vin.any fun i => decide (i.prevout ∈ env.mempool.mapNextTx)) .fail
  let view ← loop (AcceptEnv.acceptNew tx) (.ofView (env.mempool.coinsView env.accept.coinsTip))
    (List.range tx.vout.length)
  let view ← loop env.accept.acceptInput view tx.vin
  let (nValueIn, view) := view.getValueIn tx
  let (nP2SH, view) := getP2SHSigOpCount view tx
  failIf (decide (MAX_TX_SIGOPS_CURRENT < getLegacySigOpCount tx + nP2SH))
    (.dos 0 REJECT_NONSTANDARD "bad-txns-too-many-sigops" false)
  let nValueOut ← getValueOut tx
  env.feeRules tx (int64 (nValueIn - nValueOut))
  -- without script checks the flags make no difference
  let _ ← checkInputs env.node tx view false ⟨true, true⟩
  return ()

/-- The transaction of `CheckInputsAndAdd` that spends the collateral: a hundredth of a coin is left
for the fee. -/
def collateralTx (vin : CTxIn) (pubKeyCollateralAddress : CPubKey) : CTransaction :=
  let vout : CTxOut := ⟨env.collateral - COIN / 100, Script.forRawPubKey pubKeyCollateralAddress⟩
  ⟨env.txHash vin vout, [vin], [vout]⟩

def acceptableInputs (vin : CTxIn) (pubKeyCollateralAddress : CPubKey) : Bool :=
  (env.acceptableInputsOf (env.collateralTx vin pubKeyCollateralAddress)).isOk

/-- `pcoinsTip->GetCoinDepthAtHeight`, at the height of the tip. -/
def getCoinDepth (output : COutPoint) : ℤ :=
  match env.accept.coinsTip.getCoin output with
  | some coin => if !coin.isSpent then env.node.height - coin.nHeight + 1 else -1
  | none => -1

/-- The time of the block in which the transaction got its last confirmation. -/
def confirmedAt (output : COutPoint) : Option ℤ := do
  let (_, hashBlock) ← env.node.getTransaction output.hash
  let pMNIndex ← env.node.mapBlockIndex hashBlock
  let pConfIndex ←
    env.node.chainActive[(pMNIndex.nHeight + MASTERNODE_MIN_CONFIRMATIONS - 1).toNat]?
  return pConfIndex.nTime

/-- What the handlers of the masternode list read. -/
def mnEnv : MnEnv :=
  { env.host with
    acceptableInputs := env.acceptableInputs
    isInputAssociatedWithPubkey := env.isInputAssociatedWithPubkey
    getCoinDepth := env.getCoinDepth
    confirmedAt := env.confirmedAt }

/-! ### New entries -/

variable {env} {s : CMasternodeMan} {mnb : CMasternodeBroadcast}

/-- A broadcast is accepted as a new entry. -/
def Registers (env : CollateralEnv) (s : CMasternodeMan) (mnb : CMasternodeBroadcast) : Prop :=
  s.find mnb.vin = none ∧
    ((s.processBroadcast env.signer env.mnEnv mnb).1.find mnb.vin).isSome = true

/-- The coin is unspent, has the value of the collateral and pays to the key. -/
def IsCollateral (env : CollateralEnv) (pubKeyCollateralAddress : CPubKey) (output : COutPoint) :
    Prop :=
  ∃ coin, env.accept.coinsTip.getCoin output = some coin ∧ coin.isSpent = false ∧
    coin.out = ⟨env.collateral, Script.forKeyID (env.signer.getID pubKeyCollateralAddress)⟩

/-- The checks of a broadcast that do not look at the index of the output: it is new, signed and
timely. -/
def Announces (env : CollateralEnv) (s : CMasternodeMan) (mnb : CMasternodeBroadcast) : Prop :=
  CMasternodeMan.listens env.mnEnv = true ∧
  s.mapSeenMasternodeBroadcast (mnb.getHash env.signer) = none ∧
  s.passesChecks env.signer env.mnEnv mnb = true ∧
  env.host.lockMain = true ∧
  ∀ t, env.confirmedAt mnb.vin.prevout = some t → t ≤ mnb.sigTime

/-- The checks of the output itself: it is not in the list, could be spent for the collateral less
the fee, and has its confirmations. -/
def Spendable (env : CollateralEnv) (s : CMasternodeMan) (mnb : CMasternodeBroadcast) : Prop :=
  s.find mnb.vin = none ∧
  env.host.isActiveMasternode mnb.vin.prevout mnb.pubKeyMasternode = false ∧
  env.acceptableInputs mnb.vin mnb.pubKeyCollateralAddress = true ∧
  MASTERNODE_MIN_CONFIRMATIONS ≤ env.getCoinDepth mnb.vin.prevout

lemma checkInputsAndAdd_isSome_iff {S : Signer} {e : MnEnv} (hnew : s.find mnb.vin = none)
    (hpass : s.passesChecks S e mnb = true) :
    ((s.checkInputsAndAdd S e mnb).1.find mnb.vin).isSome = true ↔
      e.lockMain = true ∧ e.isActiveMasternode mnb.vin.prevout mnb.pubKeyMasternode = false ∧
        e.acceptableInputs mnb.vin mnb.pubKeyCollateralAddress = true ∧
        MASTERNODE_MIN_CONFIRMATIONS ≤ e.getCoinDepth mnb.vin.prevout ∧
        ∀ t, e.confirmedAt mnb.vin.prevout = some t → t ≤ mnb.sigTime := by
  have hping : (mnb.lastPing.isNull || !s.checkSigTime S e mnb.lastPing) = false := by
    simp only [CMasternodeMan.passesChecks, Bool.and_eq_true] at hpass
    obtain ⟨⟨⟨⟨⟨-, hnull, hsig⟩, -⟩, -⟩, -⟩, -⟩ := hpass
    rw [Bool.or_eq_false_iff, hsig]
    exact ⟨by simpa using hnull, rfl⟩
  have hadd : ((s.add mnb.toMasternode).find mnb.vin).isSome = true := by
    have hvin : mnb.toMasternode.vin = mnb.vin := rfl
    have hen : mnb.toMasternode.isEnabled = true := rfl
    rw [CMasternodeMan.add, hen, hvin, hnew]
    simp [CMasternodeMan.find, hvin]
  have hforget : (s.forget S mnb).find mnb.vin = none := hnew
  have htime : ((e.confirmedAt mnb.vin.prevout).any fun t => decide (mnb.sigTime < t)) = true ↔
      ¬ ∀ t, e.confirmedAt mnb.vin.prevout = some t → t ≤ mnb.sigTime := by
    simp [Option.any_eq_true]
  unfold CMasternodeMan.checkInputsAndAdd
  rw [hping, hnew]
  simp only [Option.any_none, Bool.false_eq_true, if_false]
  split_ifs with hown hlock hacc hdepth hlate
  · simp [hown, hnew]
  · simp [hforget, show e.lockMain = false by simpa using hlock]
  · simp [hnew, show e.acceptableInputs mnb.vin mnb.pubKeyCollateralAddress = false by
      simpa using hacc]
  · simp [hforget, not_le.mpr hdepth]
  · rw [htime] at hlate
    simp [hnew, hlate]
  · rw [htime, not_not] at hlate
    simp only [hadd, true_iff]
    exact ⟨by simpa using hlock, by simpa using hown, by simpa using hacc, not_lt.mp hdepth, hlate⟩

lemma registers_iff : Registers env s mnb ↔ Announces env s mnb ∧ Spendable env s mnb ∧
    env.isInputAssociatedWithPubkey mnb.vin mnb.pubKeyCollateralAddress = true := by
  -- a broadcast that is seen does not change the entries
  have hseen : ∀ vin, (s.seeBroadcast env.signer mnb).find vin = s.find vin := fun _ => rfl
  have hpass : (s.seeBroadcast env.signer mnb).passesChecks env.signer env.mnEnv mnb =
      s.passesChecks env.signer env.mnEnv mnb := rfl
  by_cases hnew : s.find mnb.vin = none
  · have hnone : (s.find mnb.vin).isSome = false := by simp [hnew]
    have hnone' : ((s.seeBroadcast env.signer mnb).find mnb.vin).isSome = false := hnone
    unfold Registers CMasternodeMan.processBroadcast Announces
    by_cases hlisten : CMasternodeMan.listens env.mnEnv = true
    · cases hold : s.mapSeenMasternodeBroadcast (mnb.getHash env.signer) with
      | some m => simp [hlisten, hnone]
      | none =>
        by_cases hp : s.passesChecks env.signer env.mnEnv mnb = true
        · have hcheck : (s.seeBroadcast env.signer mnb).checkAndUpdate env.signer env.mnEnv mnb =
              (s.seeBroadcast env.signer mnb, true, false) := by
            simp [CMasternodeMan.checkAndUpdate, hpass, hp, hseen, hnew]
          by_cases hin : env.isInputAssociatedWithPubkey mnb.vin mnb.pubKeyCollateralAddress = true
          · have hin' : env.mnEnv.isInputAssociatedWithPubkey mnb.vin
                mnb.pubKeyCollateralAddress = true := hin
            have hadd : _ ↔ _ ∧ _ := checkInputsAndAdd_isSome_iff
              (s := s.seeBroadcast env.signer mnb) hnew hp
            have hlock : env.mnEnv.lockMain = env.host.lockMain := rfl
            simp only [hlisten, hcheck, hin', hnew, hp, hin, Bool.not_true, Bool.false_eq_true,
              if_false, Option.isSome_none, true_and, and_true, hadd, hlock, Spendable]
            constructor
            · rintro ⟨h1, h2, h3, h4, h5⟩
              exact ⟨⟨h1, h5⟩, h2, h3, h4⟩
            · rintro ⟨⟨h1, h5⟩, h2, h3, h4⟩
              exact ⟨h1, h2, h3, h4, h5⟩
          · have hin' : env.mnEnv.isInputAssociatedWithPubkey mnb.vin
                mnb.pubKeyCollateralAddress = false := Bool.eq_false_iff.mpr hin
            simp [hlisten, hcheck, hin', hin, hnone']
        · have hcheck : (s.seeBroadcast env.signer mnb).checkAndUpdate env.signer env.mnEnv mnb =
              (s.seeBroadcast env.signer mnb, false, false) := by
            simp [CMasternodeMan.checkAndUpdate, hpass, hp]
          simp [hlisten, hcheck, hp, hnone']
    · simp [hlisten, hnone]
  · simp [Registers, Spendable, hnew]

/-! ### Transactions whose outputs have one owner -/

/-- The output that is the collateral of a key. -/
def collateralOut (S : Signer) (pubKeyCollateralAddress : CPubKey) : CTxOut :=
  ⟨getMasterNodeCollateral 0 * COIN, Script.forKeyID (S.getID pubKeyCollateralAddress)⟩

/-- What the transaction of `CheckInputsAndAdd` pays: a hundredth of a coin less. -/
def leastCollateral : ℤ := getMasterNodeCollateral 0 * COIN - COIN / 100

/-- When the transaction pays the collateral to the key, it has no other output that could be spent
for as much. -/
def CollateralsAreHers (S : Signer) (pubKeyCollateralAddress : CPubKey) (tx : CTransaction) :
    Prop :=
  collateralOut S pubKeyCollateralAddress ∈ tx.vout →
    ∀ out ∈ tx.vout, Script.isUnspendable out.scriptPubKey = false →
      leastCollateral ≤ out.nValue → out = collateralOut S pubKeyCollateralAddress

/-- The node has the transaction in its chain, and in its coins and its pool nothing else under the
hash. -/
structure Knows (env : CollateralEnv) (tx : CTransaction) : Prop where
  params : ∃ net, env.node.params = paramsOf net
  getTransaction : ∃ hashBlock, env.node.getTransaction tx.hash = some (tx, hashBlock)
  coinsTip : ∀ n coin, env.accept.coinsTip.getCoin ⟨tx.hash, n⟩ = some coin → coin.isSpent = false →
    tx.vout[n]? = some coin.out ∧ Script.isUnspendable coin.out.scriptPubKey = false
  mempool : ∀ entry, env.mempool.mapTx.lookup tx.hash = some entry → entry.tx = tx

section

variable (env) {vin : CTxIn} (pubKey : CPubKey)

lemma collateralTx_spends (hsig : vin.scriptSig = []) :
    (env.collateralTx vin pubKey).hasZerocoinSpendInputs = false := by
  simp [collateralTx, CTransaction.hasZerocoinSpendInputs, CTxIn.isAnyZerocoinSpend,
    CTxIn.isZerocoinSpend, CTxIn.isZerocoinPublicSpend, Script.isZerocoinSpend,
    Script.isZerocoinPublicSpend, Script.startsWithOpcode, hsig]

lemma collateralTx_isCoinBase (hnull : vin.prevout.isNull = false) :
    (env.collateralTx vin pubKey).isCoinBase = false := by
  simp [CTransaction.isCoinBase, collateralTx, hnull]

lemma collateralTx_isCoinStake : (env.collateralTx vin pubKey).isCoinStake = false := by
  simp only [CTransaction.isCoinStake, collateralTx]
  split <;> rfl

end

lemma loop_reads {α : Type} {f : CCoinsViewCache → α → Check CCoinsViewCache} {l : List α}
    {v v' : CCoinsViewCache} (h : loop f v l = .ok v')
    (hstep : ∀ a t t', f t a = .ok t' → CCoinsViewCache.Reads t t') :
    CCoinsViewCache.Reads v v' :=
  loop_inv (P := CCoinsViewCache.Reads v) h (.refl v) fun a _ t t' ht hf =>
    ht.trans (hstep a t t' hf)

lemma le_value_of_acceptableInputs {vin : CTxIn} {pubKey : CPubKey}
    (hm : env.node.params.MoneyOk) (hsig : vin.scriptSig = [])
    (h : env.acceptableInputs vin pubKey = true) :
    leastCollateral ≤ UtxoSet.value
      (CCoinsMap.liveOf (env.mempool.coinsView env.accept.coinsTip).getCoin) vin.prevout := by
  unfold acceptableInputs Except.isOk Except.toBool at h
  split at h
  · next u hu =>
    simp only [acceptableInputsOf, bind_eq_ok, failIf_eq_ok] at hu
    obtain ⟨_, hcheck, _, hcb, -, -, -, -, -, -, v, hnew, v', hin, -, -, nOut, -, -, -, r, hr, -⟩ :=
      hu
    -- the view has only been read before the inputs are checked
    have hread := loop_reads hnew fun a t t' ht => by
      simp only [AcceptEnv.acceptNew, bind_eq_ok, pure_eq_ok] at ht
      obtain ⟨-, -, rfl⟩ := ht
      exact CCoinsViewCache.reads_haveCoin t _
    have hread' := loop_reads hin fun a t t' ht => by
      simp only [AcceptEnv.acceptInput, bind_eq_ok, pure_eq_ok] at ht
      obtain ⟨-, -, -, -, rfl⟩ := ht
      exact CCoinsViewCache.reads_haveCoin t _
    have hreads := ((hread.trans hread').trans (CCoinsViewCache.reads_getValueIn v'
      (env.collateralTx vin pubKey))).trans (ConnectEnv.reads_getP2SHSigOpCount _
      (env.collateralTx vin pubKey))
    obtain ⟨-, hvalue⟩ := ConnectEnv.checkInputs_eq_ok hm (checkTransaction_eq_ok hm hcheck) hr
    obtain ⟨-, -, hle⟩ := hvalue hcb (collateralTx_spends env pubKey hsig)
    have hle := hle (collateralTx_isCoinStake env pubKey)
    rw [hreads.coins, CCoinsViewCache.coins_ofView] at hle
    simp only [collateralTx, CTransaction.valueOut, UtxoSet.valueOf, List.map_cons, List.map_nil,
      List.sum_cons, List.sum_nil, add_zero] at hle
    exact hle
  · cases h

lemma exists_coin_of_registers {tx : CTransaction} (hknows : Knows env tx)
    (hhash : mnb.vin.prevout.hash = tx.hash) (hreg : Registers env s mnb) :
    collateralOut env.signer mnb.pubKeyCollateralAddress ∈ tx.vout ∧
      ∃ coin, env.accept.coinsTip.getCoin mnb.vin.prevout = some coin ∧ coin.isSpent = false ∧
        coin.out ∈ tx.vout ∧ Script.isUnspendable coin.out.scriptPubKey = false ∧
        leastCollateral ≤ coin.out.nValue := by
  obtain ⟨hann, ⟨-, -, hacc, hdepth⟩, hin⟩ := registers_iff.mp hreg
  obtain ⟨⟨⟨h, n⟩, sig, seq⟩, hvin⟩ : ∃ vin, mnb.vin = vin := ⟨_, rfl⟩
  rw [hvin] at hhash hacc hdepth hin
  obtain rfl : h = tx.hash := hhash
  obtain ⟨net, hnet⟩ := hknows.params
  obtain ⟨hashBlock, hget⟩ := hknows.getTransaction
  -- the key owns an output
  have hmem : collateralOut env.signer mnb.pubKeyCollateralAddress ∈ tx.vout := by
    simp only [isInputAssociatedWithPubkey, hget, List.any_eq_true, Bool.and_eq_true,
      beq_iff_eq] at hin
    obtain ⟨out, hout, hvalue, hscript⟩ := hin
    have heq : out = collateralOut env.signer mnb.pubKeyCollateralAddress := by
      obtain ⟨nValue, scriptPubKey⟩ := out
      obtain rfl : nValue = env.collateral := hvalue
      obtain rfl : scriptPubKey = _ := hscript
      rfl
    exact heq ▸ hout
  refine ⟨hmem, ?_⟩
  -- the depth shows that the coin is there and unspent
  unfold getCoinDepth at hdepth
  split at hdepth
  · next coin hcoin =>
    split at hdepth
    · next hunspent =>
      have hunspent : coin.isSpent = false := by simpa using hunspent
      obtain ⟨hout, hspendable⟩ := hknows.coinsTip n coin hcoin hunspent
      refine ⟨coin, hvin ▸ hcoin, hunspent, List.mem_of_getElem? hout, hspendable, ?_⟩
      have hempty : sig = [] := by
        have hpass := hann.2.2.1
        simp only [CMasternodeMan.passesChecks, hvin, Bool.and_eq_true, List.isEmpty_iff] at hpass
        exact hpass.1.1.2
      have hle := le_value_of_acceptableInputs (hnet ▸ paramsOf_moneyOk net) hempty hacc
      -- the pool shows the same output
      suffices hvalue : UtxoSet.value
          (CCoinsMap.liveOf (env.mempool.coinsView env.accept.coinsTip).getCoin) ⟨tx.hash, n⟩ =
          coin.out.nValue from hvalue ▸ hle
      have hlive : ∀ height, (⟨coin.out, height, false, false⟩ : Coin).live =
          some ⟨coin.out, height, false, false⟩ := fun _ => Coin.live_of_unspent hunspent
      cases hentry : env.mempool.mapTx.lookup tx.hash with
      | some entry =>
        simp [UtxoSet.value, CCoinsMap.liveOf, CTxMemPool.coinsView, hentry,
          hknows.mempool entry hentry, hout, hlive]
      | none =>
        simp [UtxoSet.value, CCoinsMap.liveOf, CTxMemPool.coinsView, hentry, hcoin, hunspent,
          Coin.live_of_unspent hunspent, Option.filter]
    · cases hdepth
  · cases hdepth

/-! ### A node that lets the other outputs be announced -/

/-- A node on which the outputs of a transaction are unspent, with a hundred blocks on top of them,
and with an empty memory pool. -/
def confirmedEnv (S : Signer) (tx : CTransaction) : CollateralEnv where
  signer := S
  host := Concrete.mnEnv 10000
  accept :=
    { node :=
        { Node.idle (paramsOf .MAIN) (.simple 0) (List.replicate 101 ⟨1, 0, 1000, none⟩) with
          getTransaction := fun h => if h = tx.hash then some (tx, 1) else none }
      global := Global.initial
      coinsTip := ⟨fun o => if o.hash = tx.hash then
        (tx.vout[o.n]?.filter (!Script.isUnspendable ·.scriptPubKey)).map
          fun out => ⟨out, 1, false, false⟩ else none, 1⟩
      mu := ⟨fun _ => 100, 48, 300, 100, 100, 0⟩
      getTime := 10000
      checkFinalTx := fun _ => true
      isStandardTx := fun _ => none
      areInputsStandard := fun _ _ => true
      feePolicy := fun _ _ _ => .ok ()
      checkStandardInputs := fun _ _ _ => .ok ()
      limits := ⟨some 25, some 101000, some 25, some 101000⟩
      maxmempool := 300000000
      mempoolexpiry := 72 * 60 * 60
      worst := fun _ => none }
  mempool := CTxMemPool.empty
  txHash := fun _ _ => tx.hash + 1
  feeRules := fun _ _ => .ok ()

lemma confirmedEnv_knows (S : Signer) (tx : CTransaction) : Knows (confirmedEnv S tx) tx where
  params := ⟨.MAIN, rfl⟩
  getTransaction := ⟨1, if_pos rfl⟩
  coinsTip n coin hcoin _ := by
    simp only [confirmedEnv, if_true, Option.map_eq_some_iff, Option.filter_eq_some_iff] at hcoin
    obtain ⟨out, ⟨hout, hspendable⟩, rfl⟩ := hcoin
    exact ⟨hout, by simpa using hspendable⟩
  mempool entry hentry := by
    cases hentry

/-- The announcement of an output by the owner of a key, who also runs the masternode. -/
def announcement (pubKey : CPubKey) (vchSig : List UInt8) (output : COutPoint) :
    CMasternodeBroadcast :=
  { Concrete.mnBroadcast { Concrete.mnPing 10000 [] with vin := ⟨output, [], 0⟩ } with
    vin := ⟨output, [], 0⟩
    pubKeyCollateralAddress := pubKey
    pubKeyMasternode := pubKey
    vchSig := vchSig }

section

variable {S : Signer} {tx : CTransaction} {pubKey : CPubKey} {n : ℕ} {out : CTxOut}

lemma checkTransaction_collateralTx (S : Signer) (tx : CTransaction)
    (hkey : pubKey.length = 33 ∨ pubKey.length = 65) {vin : CTxIn} (hsig : vin.scriptSig = [])
    (hnull : vin.prevout.isNull = false) :
    checkTransaction (confirmedEnv S tx).node ((confirmedEnv S tx).collateralTx vin pubKey) false
      false = .ok () := by
  have hlen : (Script.forRawPubKey pubKey).length = pubKey.length + 2 := by
    simp [Script.forRawPubKey]
  have hcold : Script.isPayToColdStaking (Script.forRawPubKey pubKey) = false := by
    rw [Script.isPayToColdStaking, hlen]
    rcases hkey with h | h <;> simp [h]
  have hsize : ((confirmedEnv S tx).collateralTx vin pubKey).serializeSize ≤
      MAX_ZEROCOIN_TX_SIZE := by
    have hscript : sizeOfBytes (Script.forRawPubKey pubKey) ≤ 68 := by
      rw [sizeOfBytes, hlen]
      rcases hkey with h | h <;> simp [h, sizeOfCompactSize]
    have hin : sizeOfBytes vin.scriptSig = 1 := by rw [hsig]; rfl
    simp only [CTransaction.serializeSize, collateralTx, List.length_singleton, List.map_cons,
      List.map_nil, List.sum_cons, List.sum_nil, hin, sizeOfCompactSize, MAX_ZEROCOIN_TX_SIZE]
    norm_num
    omega
  have hout : checkTxOut (confirmedEnv S tx).node.params
      ((confirmedEnv S tx).collateralTx vin pubKey) false 0
      ⟨leastCollateral, Script.forRawPubKey pubKey⟩ = .ok leastCollateral := by
    simp only [checkTxOut, hcold]
    rfl
  have hin : checkTxIn ([], 0) vin = .ok ([vin.prevout], 0) := by
    simp [checkTxIn, CTxIn.isZerocoinSpend, Script.isZerocoinSpend, Script.startsWithOpcode, hsig]
    rfl
  have hcb := collateralTx_isCoinBase (confirmedEnv S tx) pubKey hnull
  simp only [checkTransaction, bind_eq_ok, failIf_eq_ok]
  refine ⟨(), rfl, (), rfl, (), by simpa using hsize, leastCollateral, ?_, ([vin.prevout], 0), ?_,
    ?_⟩
  · exact bind_eq_ok.mpr ⟨_, hout, rfl⟩
  · exact bind_eq_ok.mpr ⟨_, hin, rfl⟩
  · simp [checkInputShape, hcb]

lemma checkInputs_collateralTx (S : Signer) (tx : CTransaction) (pubKey : CPubKey) {vin : CTxIn}
    {w : CCoinsViewCache} (hsig : vin.scriptSig = []) (hnull : vin.prevout.isNull = false)
    (hcoin : w.coins vin.prevout = some ⟨out, 1, false, false⟩) (hbest : w.getBestBlock = 1)
    (hle : leastCollateral ≤ out.nValue) (hrange : mainParams.moneyRange out.nValue = true) :
    ∃ r, checkInputs (confirmedEnv S tx).node ((confirmedEnv S tx).collateralTx vin pubKey) w false
      ⟨true, true⟩ = .ok r := by
  have hmax := (paramsOf_moneyOk .MAIN).le
  have hbounds : 0 ≤ out.nValue ∧ out.nValue ≤ mainParams.nMaxMoneyOut := by
    simpa [ChainParams.moneyRange] using hrange
  have hmain : mainParams.nMaxMoneyOut ≤ 10 ^ 16 := hmax
  have hleast : (0 : ℤ) ≤ leastCollateral := by decide
  have hheight : getSpendHeight (confirmedEnv S tx).node w = .ok 1 := by
    rw [getSpendHeight, hbest]
    rfl
  have hz := collateralTx_spends (confirmedEnv S tx) pubKey hsig
  have hcb := collateralTx_isCoinBase (confirmedEnv S tx) pubKey hnull
  -- the coin is there
  obtain ⟨hhave, hreads⟩ := CCoinsViewCache.haveAll_spec w [vin]
  have hall : (w.haveAll [vin]).1 = true := by simp [hhave, hcoin]
  have haccess : ((w.haveAll [vin]).2.accessCoin vin.prevout).1 = ⟨out, 1, false, false⟩ := by
    have hlive := CCoinsViewCache.accessCoin_live (w.haveAll [vin]).2 vin.prevout
    rw [hreads.coins, hcoin] at hlive
    exact (Coin.eq_of_live_eq_some hlive).1
  have hspent : (⟨out, 1, false, false⟩ : Coin).isSpent = false := by
    simp only [Coin.isSpent, CTxOut.isNull, beq_eq_false_iff_ne]
    omega
  have hfits : int64 out.nValue = out.nValue := int64_of_fits (by omega) (by omega)
  have hin : loop (checkTxInput mainParams 1) (0, (w.haveAll [vin]).2) [vin] =
      .ok (out.nValue, ((w.haveAll [vin]).2.accessCoin vin.prevout).2) := by
    simp [checkTxInput, haccess, hspent, hfits, hrange]
  have hvalue : getValueOut ((confirmedEnv S tx).collateralTx vin pubKey) =
      .ok leastCollateral := rfl
  have hfee : int64 (out.nValue - leastCollateral) = out.nValue - leastCollateral :=
    int64_of_fits (by omega) (by omega)
  have hfeeRange : mainParams.moneyRange (out.nValue - leastCollateral) = true := by
    simp only [ChainParams.moneyRange, decide_eq_true_eq]
    omega
  refine ⟨(true, ((w.haveAll [vin]).2.accessCoin vin.prevout).2), ?_⟩
  simp only [checkInputs, hcb, hz, Bool.not_false, Bool.and_self, if_true, bind_eq_ok]
  refine ⟨1, hheight, ((w.haveAll [vin]).2.accessCoin vin.prevout).2, ?_, rfl⟩
  simp only [checkTxInputs, CCoinsViewCache.haveInputs, hcb, hz, Bool.not_false, Bool.and_self,
    if_true, bind_eq_ok, failIf_eq_ok]
  refine ⟨(), by simpa [collateralTx] using hall, (out.nValue, _), hin, ?_⟩
  simp only [collateralTx_isCoinStake, Bool.not_false, if_true, bind_eq_ok, failIf_eq_ok, hvalue]
  refine ⟨leastCollateral, rfl, (), by simpa using hle, (), ?_, (), ?_, rfl⟩
  · rw [hfee]
    simpa using hle
  · rw [hfee]
    simpa using (show (confirmedEnv S tx).node.params.moneyRange _ = true from hfeeRange)

-- the only signature operations are those of the script that pays to the key
lemma sigOps_collateralTx (S : Signer) (tx : CTransaction)
    (hkey : pubKey.length = 33 ∨ pubKey.length = 65) {vin : CTxIn} (hsig : vin.scriptSig = [])
    (hnull : vin.prevout.isNull = false) (w : CCoinsViewCache) :
    getLegacySigOpCount ((confirmedEnv S tx).collateralTx vin pubKey) +
      (getP2SHSigOpCount w ((confirmedEnv S tx).collateralTx vin pubKey)).1 ≤
        MAX_TX_SIGOPS_CURRENT := by
  obtain ⟨prevout, scriptSig, nSequence⟩ := vin
  obtain rfl : scriptSig = [] := hsig
  set vin : CTxIn := ⟨prevout, [], nSequence⟩
  have hlegacy : getLegacySigOpCount ((confirmedEnv S tx).collateralTx vin pubKey) ≤
      20 * (pubKey.length + 2) := by
    have hs : Script.getSigOpCount (Script.forRawPubKey pubKey) false ≤
        20 * (Script.forRawPubKey pubKey).length := Script.sigOpCountFrom_le _ _ _
    have hlen : (Script.forRawPubKey pubKey).length = pubKey.length + 2 := by
      simp [Script.forRawPubKey]
    have heq : getLegacySigOpCount ((confirmedEnv S tx).collateralTx vin pubKey) =
        0 + 0 + (Script.getSigOpCount (Script.forRawPubKey pubKey) false + 0) := rfl
    omega
  have hp2sh : (getP2SHSigOpCount w ((confirmedEnv S tx).collateralTx vin pubKey)).1 = 0 := by
    rw [getP2SHSigOpCount, collateralTx_isCoinBase _ pubKey hnull, collateralTx_spends _ pubKey rfl]
    simp only [Bool.or_self, Bool.false_eq_true, if_false, collateralTx, p2shSigOpsFrom]
    split_ifs with hp
    · rw [Script.getSigOpCountWith, hp]
      rfl
    · rfl
  have hmax : MAX_TX_SIGOPS_CURRENT = 8000 := rfl
  omega

lemma acceptableInputs_confirmedEnv (hkey : pubKey.length = 33 ∨ pubKey.length = 65)
    (hout : tx.vout[n]? = some out) (hspendable : Script.isUnspendable out.scriptPubKey = false)
    (hle : leastCollateral ≤ out.nValue) (hrange : mainParams.moneyRange out.nValue = true)
    (hnull : (⟨tx.hash, n⟩ : COutPoint).isNull = false) :
    (confirmedEnv S tx).acceptableInputs ⟨⟨tx.hash, n⟩, [], 0⟩ pubKey = true := by
  set vin : CTxIn := ⟨⟨tx.hash, n⟩, [], 0⟩
  have hsig : vin.scriptSig = [] := rfl
  have hnull : vin.prevout.isNull = false := hnull
  have hcheck := checkTransaction_collateralTx S tx hkey hsig hnull
  -- the coins of the node, seen through its empty pool
  set v : CCoinsViewCache :=
    .ofView ((confirmedEnv S tx).mempool.coinsView (confirmedEnv S tx).accept.coinsTip)
  have hspent : (⟨out, 1, false, false⟩ : Coin).isSpent = false := by
    have hleast : (0 : ℤ) ≤ leastCollateral := by decide
    simp only [Coin.isSpent, CTxOut.isNull, beq_eq_false_iff_ne]
    omega
  have hview : ∀ o, v.coins o =
      (((confirmedEnv S tx).accept.coinsTip.getCoin o).filter (!·.isSpent)).bind Coin.live :=
    fun o => by rw [CCoinsViewCache.coins_ofView]; rfl
  have hcoin : v.coins ⟨tx.hash, n⟩ = some ⟨out, 1, false, false⟩ := by
    simp [hview, confirmedEnv, hout, hspendable, Option.filter, hspent, Coin.live_of_unspent hspent]
  have hnone : v.coins ⟨tx.hash + 1, 0⟩ = none := by
    simp [hview, confirmedEnv]
  suffices h : ∃ u, (confirmedEnv S tx).acceptableInputsOf
      ((confirmedEnv S tx).collateralTx vin pubKey) = .ok u by
    obtain ⟨u, hu⟩ := h
    rw [acceptableInputs, hu]
    rfl
  -- the new output is not there, the input is
  have hr₁ := CCoinsViewCache.reads_haveCoin v ⟨tx.hash + 1, 0⟩
  set v₁ := (v.haveCoin ⟨tx.hash + 1, 0⟩).2
  have hr₂ := CCoinsViewCache.reads_haveCoin v₁ ⟨tx.hash, n⟩
  set v₂ := (v₁.haveCoin ⟨tx.hash, n⟩).2
  have hnew : loop (AcceptEnv.acceptNew ((confirmedEnv S tx).collateralTx vin pubKey)) v
      (List.range 1) = .ok v₁ := by
    have hhave : (v.haveCoin ⟨tx.hash + 1, 0⟩).1 = false := by
      rw [CCoinsViewCache.haveCoin_eq, hnone]
      rfl
    simp only [List.range_one, loop_cons, loop_nil, bind_eq_ok]
    refine ⟨v₁, bind_eq_ok.mpr ⟨(), ?_, rfl⟩, rfl⟩
    exact failIf_eq_ok.mpr hhave
  have hin : loop (confirmedEnv S tx).accept.acceptInput v₁ [vin] = .ok v₂ := by
    have hhave : (v₁.haveCoin ⟨tx.hash, n⟩).1 = true := by
      rw [CCoinsViewCache.haveCoin_eq, hr₁.coins, hcoin]
      rfl
    simp only [loop_cons, loop_nil, bind_eq_ok]
    refine ⟨v₂, bind_eq_ok.mpr ⟨(), ?_, bind_eq_ok.mpr ⟨(), ?_, rfl⟩⟩, rfl⟩
    · exact failIf_eq_ok.mpr (congrArg (! ·) hhave)
    · exact failIf_eq_ok.mpr rfl
  have hz := collateralTx_spends (confirmedEnv S tx) pubKey hsig
  have hcb := collateralTx_isCoinBase (confirmedEnv S tx) pubKey hnull
  have hr₃ := CCoinsViewCache.reads_getValueIn v₂ ((confirmedEnv S tx).collateralTx vin pubKey)
  set v₃ := (v₂.getValueIn ((confirmedEnv S tx).collateralTx vin pubKey)).2
  have hr₄ := ConnectEnv.reads_getP2SHSigOpCount v₃ ((confirmedEnv S tx).collateralTx vin pubKey)
  have hreads := ((hr₁.trans hr₂).trans hr₃).trans hr₄
  have hops := sigOps_collateralTx S tx hkey hsig hnull v₃
  have hbest := hreads.getBestBlock.trans (b := v.getBestBlock) rfl
  obtain ⟨r, hr⟩ := checkInputs_collateralTx S tx pubKey hsig hnull
    ((congrFun hreads.coins vin.prevout).trans hcoin) hbest hle hrange
  have hnext : (!((confirmedEnv S tx).collateralTx vin pubKey).hasZerocoinSpendInputs &&
      ((confirmedEnv S tx).collateralTx vin pubKey).vin.any fun i =>
        decide (i.prevout ∈ (confirmedEnv S tx).mempool.mapNextTx)) = false := by
    rw [hz]
    exact List.any_eq_false.mpr fun _ _ hmem => Finmap.notMem_empty (of_decide_eq_true hmem)
  simp only [acceptableInputsOf, bind_eq_ok, failIf_eq_ok]
  exact ⟨(), (), hcheck, (), hcb, (), rfl, (), rfl, (), hnext, v₁, hnew, v₂, hin, (),
    decide_eq_false (not_lt.mpr hops), leastCollateral, rfl, (), rfl, r, hr, rfl⟩

lemma registers_announcement (vchSig : List UInt8)
    (hkey : pubKey.length = 33 ∨ pubKey.length = 65)
    (hmem : collateralOut S pubKey ∈ tx.vout) (hout : tx.vout[n]? = some out)
    (hspendable : Script.isUnspendable out.scriptPubKey = false)
    (hle : leastCollateral ≤ out.nValue) (hrange : mainParams.moneyRange out.nValue = true)
    (hnull : (⟨tx.hash, n⟩ : COutPoint).isNull = false)
    (hsign : (announcement pubKey vchSig ⟨tx.hash, n⟩).checkSignature S = true) :
    Registers (confirmedEnv S tx) .initial (announcement pubKey vchSig ⟨tx.hash, n⟩) := by
  have hget : (confirmedEnv S tx).node.getTransaction tx.hash = some (tx, 1) := if_pos rfl
  rw [registers_iff]
  refine ⟨⟨rfl, rfl, ?_, rfl, ?_⟩, ⟨rfl, rfl, ?_, ?_⟩, ?_⟩
  · change CMasternodeMan.passesChecks S (confirmedEnv S tx).mnEnv .initial _ = true
    simp only [CMasternodeMan.passesChecks, hsign, Bool.and_true]
    simp [announcement, Concrete.mnBroadcast, Concrete.mnPing, CMasternodePing.isNull, hnull,
      CMasternodeMan.checkSigTime, CMasternodeMan.isTimely, CMasternodeMan.find,
      CMasternodeMan.initial, mnEnv, confirmedEnv, Concrete.mnEnv]
  · intro t ht
    simp only [announcement, confirmedAt, hget] at ht
    obtain rfl : (1000 : ℤ) = t := Option.some.inj ht
    exact show (1000 : ℤ) ≤ 10000 by decide
  · exact acceptableInputs_confirmedEnv hkey hout hspendable hle hrange hnull
  · have hspent : (⟨out, 1, false, false⟩ : Coin).isSpent = false := by
      have hleast : (0 : ℤ) ≤ leastCollateral := by decide
      simp only [Coin.isSpent, CTxOut.isNull, beq_eq_false_iff_ne]
      omega
    have hcoin : (confirmedEnv S tx).accept.coinsTip.getCoin ⟨tx.hash, n⟩ =
        some ⟨out, 1, false, false⟩ := by
      simp [confirmedEnv, hout, hspendable, Option.filter]
    simp only [announcement, getCoinDepth, hcoin, hspent]
    exact show (15 : ℤ) ≤ 100 - 1 + 1 by decide
  · simp only [announcement, isInputAssociatedWithPubkey, hget, List.any_eq_true, Bool.and_eq_true,
      beq_iff_eq]
    exact ⟨_, hmem, rfl, rfl⟩

end

/-- **Who owns the collateral.** The outputs of a transaction that broadcasts register for a key, on
nodes that know the transaction, are collaterals of the key just when the transaction has no output
that is one, or no other output that could be spent for as much. The owner of the key can sign, and
the outputs of the transaction are in range. -/
theorem registered_isCollateral_iff (S : Signer) (pubKey : CPubKey) (tx : CTransaction)
    (hkey : pubKey.length = 33 ∨ pubKey.length = 65)
    (hsign : ∀ hash, ∃ vchSig, S.recoverCompact hash vchSig = some (S.getID pubKey))
    (hrange : ∀ out ∈ tx.vout, mainParams.moneyRange out.nValue = true)
    (hlen : tx.vout.length < 2 ^ 32) :
    (∀ env s mnb, Knows env tx → env.signer = S → mnb.vin.prevout.hash = tx.hash →
      mnb.pubKeyCollateralAddress = pubKey → Registers env s mnb →
      IsCollateral env pubKey mnb.vin.prevout) ↔ CollateralsAreHers S pubKey tx := by
  constructor
  · intro h hmem out hout hspendable hle
    obtain ⟨n, hn⟩ := List.mem_iff_getElem?.mp hout
    have hnull : (⟨tx.hash, n⟩ : COutPoint).isNull = false := by
      have hlt := (List.getElem?_eq_some_iff.mp hn).1
      have hne : n ≠ COutPoint.NULL_INDEX := by
        have : COutPoint.NULL_INDEX = 2 ^ 32 - 1 := rfl
        omega
      simp [COutPoint.isNull, hne]
    -- the signature does not cover the output
    obtain ⟨vchSig, hsig⟩ := hsign
      (S.getMessageHash (S.getHex ((announcement pubKey [] ⟨tx.hash, n⟩).getSignatureHash S)))
    have hsigned : (announcement pubKey vchSig ⟨tx.hash, n⟩).checkSignature S = true :=
      beq_iff_eq.mpr hsig
    have hreg := registers_announcement vchSig hkey hmem hn hspendable hle
      (hrange out hout) hnull hsigned
    obtain ⟨coin, hcoin, hunspent, heq⟩ := h _ _ _ (confirmedEnv_knows S tx) rfl rfl rfl hreg
    obtain ⟨hn', -⟩ := (confirmedEnv_knows S tx).coinsTip n coin hcoin hunspent
    rw [hn] at hn'
    exact (Option.some.inj hn').trans heq
  · rintro hhers env s mnb hknows rfl hhash rfl hreg
    obtain ⟨hmem, coin, hcoin, hunspent, hout, hspendable, hle⟩ :=
      exists_coin_of_registers hknows hhash hreg
    exact ⟨coin, hcoin, hunspent, hhers hmem coin.out hout hspendable hle⟩

end CollateralEnv

/-! ### Another party's output -/

namespace Concrete

/-- The compressed key whose first byte names it for `plainSigner`. -/
def keyOf (b : UInt8) : CPubKey := b :: List.replicate 32 0

/-- A transaction that pays the collateral to key 2 and something to key 3. -/
def payTwo (nValue : ℤ) : CTransaction :=
  ⟨7, [⟨⟨2, 0⟩, [], 0⟩], [CollateralEnv.collateralOut plainSigner (keyOf 2),
    ⟨nValue, Script.forKeyID (plainSigner.getID (keyOf 3))⟩]⟩

lemma plainSigner_signs (pubKey : CPubKey) (hash : Uint256) :
    ∃ vchSig, plainSigner.recoverCompact hash vchSig = some (plainSigner.getID pubKey) :=
  ⟨[pubKey.headD 0, UInt8.ofNat hash.toNat], if_pos rfl⟩

end Concrete

namespace CollateralEnv

open Concrete

/-- A collateral with 15 coins of change: it can be registered, and the change cannot. -/
theorem registered_isCollateral_change :
    Registers (confirmedEnv plainSigner (payTwo (15 * COIN))) .initial
        (announcement (keyOf 2) [2, 4] ⟨7, 0⟩) ∧
      IsCollateral (confirmedEnv plainSigner (payTwo (15 * COIN))) (keyOf 2) ⟨7, 0⟩ ∧
      ¬ Registers (confirmedEnv plainSigner (payTwo (15 * COIN))) .initial
        (announcement (keyOf 2) [2, 4] ⟨7, 1⟩) := by
  have hers := (registered_isCollateral_iff plainSigner (keyOf 2) (payTwo (15 * COIN)) (.inl rfl)
    (plainSigner_signs (keyOf 2)) (by decide) (by decide)).mpr fun _ => by decide
  have hknows := confirmedEnv_knows plainSigner (payTwo (15 * COIN))
  have hreg : Registers (confirmedEnv plainSigner (payTwo (15 * COIN))) .initial
      (announcement (keyOf 2) [2, 4] ⟨7, 0⟩) := ⟨rfl, by decide +kernel⟩
  refine ⟨hreg, hers _ _ _ hknows rfl rfl rfl hreg, fun hchange => ?_⟩
  obtain ⟨coin, hcoin, -, hout⟩ := hers _ _ _ hknows rfl rfl rfl hchange
  obtain rfl : (⟨⟨15 * COIN, Script.forKeyID (plainSigner.getID (keyOf 3))⟩, 1, false, false⟩ :
    Coin) = coin := Option.some.inj hcoin
  revert hout
  decide

/-- **Another party's output.** The owner of key 2 registers the output of 12000 coins that belongs
to key 3. -/
theorem registers_foreign_output :
    Registers (confirmedEnv plainSigner (payTwo (12000 * COIN))) .initial
      (announcement (keyOf 2) [2, 4] ⟨7, 1⟩) ∧
    (payTwo (12000 * COIN)).vout[1]? =
      some ⟨12000 * COIN, Script.forKeyID (plainSigner.getID (keyOf 3))⟩ ∧
    ¬ IsCollateral (confirmedEnv plainSigner (payTwo (12000 * COIN))) (keyOf 2) ⟨7, 1⟩ := by
  refine ⟨⟨rfl, by decide +kernel⟩, rfl, ?_⟩
  rintro ⟨coin, hcoin, -, hout⟩
  obtain rfl : (⟨⟨12000 * COIN, Script.forKeyID (plainSigner.getID (keyOf 3))⟩, 1, false, false⟩ :
    Coin) = coin := Option.some.inj hcoin
  revert hout
  decide

end CollateralEnv

end Agenor
