import Agenor.Lib.DependencyQueue
import Agenor.MempoolAccept
import Mathlib.Order.Basic

/-!
How transactions are chosen for a new block (`CreateNewBlock` in `miner.cpp`).

A transaction with inputs from the pool waits until all of these transactions are in the block. What
does not wait is on a heap, from which the best is taken, first by priority and later by fee.
Priorities are doubles; their type and arithmetic are parameters. What lies on top of the heap is
one of the best entries, whichever.
-/

namespace Agenor

open Lib Lib.Wrap Lib.Fallible

/-- What stays as it is while the block is put together. -/
structure MinerEnv (D : Type) where
  node : Node
  mempool : CTxMemPool
  nHeight : ℤ
  /-- `IsFinalTx` at that height. -/
  isFinalTx : CTransaction → Bool
  /-- The priority and the fee that are added for a transaction. -/
  mapDeltas : Uint256 → Option (D × ℤ)
  minRelayTxFee : ℤ
  /-- `-blockmaxsize`, `-blockprioritysize` and `-blockminsize`. -/
  blockMaxSize : ℕ
  blockPrioritySize : ℕ
  blockMinSize : ℕ
  zero : D
  add : D → D → D
  /-- `double_safe_addition` of a value times the number of confirmations. -/
  addInput : D → ℤ → ℤ → D
  /-- `ComputePriority`. -/
  computePriority : CTransaction → D → ℕ → D
  allowFree : D → Bool

structure TxPriority (D : Type) where
  dPriority : D
  feeRate : ℤ
  tx : CTransaction

/-- `TxPriorityCompare`. -/
def TxPriority.less {D : Type} [LinearOrder D] (byFee : Bool) (a b : TxPriority D) : Bool :=
  if byFee then
    if a.feeRate = b.feeRate then decide (a.dPriority < b.dPriority)
    else decide (a.feeRate < b.feeRate)
  else
    if a.dPriority = b.dPriority then decide (a.feeRate < b.feeRate)
    else decide (a.dPriority < b.dPriority)

structure COrphan (D : Type) where
  ptx : CTransaction
  setDependsOn : Finset Uint256
  feeRate : ℤ
  dPriority : D

/-- `CFeeRate`, the satoshis for 1000 bytes. The quotient is an unsigned number of 64 bits. -/
def cFeeRate (nFeePaid : ℤ) (nSize : ℕ) : ℤ :=
  if 0 < nSize then int64 ((nFeePaid * 1000 % 2 ^ 64) / nSize) else 0

/-- A pointer to an orphan, which may have been taken off the list. -/
def follow {D : Type} (vOrphan : ℕ → Option (COrphan D)) (porphan : ℕ) : Check (COrphan D) :=
  match vOrphan porphan with
  | some orphan => .ok orphan
  | none => .error (.outOfRange .orphan)

lemma follow_some {D : Type} {vOrphan : ℕ → Option (COrphan D)} {porphan : ℕ} {o : COrphan D}
    (h : vOrphan porphan = some o) : follow vOrphan porphan = .ok o := by
  rw [follow, h]

/-- What looking through the pool builds up. The orphans are in a list whose elements have
addresses, each of which is used once. -/
structure MinerScan (D : Type) where
  vOrphan : ℕ → Option (COrphan D)
  next : ℕ
  mapDependers : Uint256 → List ℕ
  vecPriority : List (TxPriority D)
  view : CCoinsViewCache

/-- The same, and what is known of the transaction whose inputs are being read. -/
structure TxScan (D : Type) where
  scan : MinerScan D
  porphan : Option ℕ
  dPriority : D
  nTotalIn : ℤ
  fMissingInputs : Bool

/-- What choosing the transactions changes. -/
structure Assembly (D : Type) where
  vOrphan : ℕ → Option (COrphan D)
  mapDependers : Uint256 → List ℕ
  vecPriority : List (TxPriority D)
  view : CCoinsViewCache
  vBlockSerials : List ℤ
  fSortedByFee : Bool
  nBlockSize : ℕ
  nBlockTx : ℕ
  nBlockSigOps : ℕ
  nFees : ℤ
  /-- `pblock->vtx`, `vTxFees` and `vTxSigOps` without their first elements. -/
  vtx : List CTransaction
  vTxFees : List ℤ
  vTxSigOps : List ℕ

/-- One input in `CheckForDuplicatedSerials`: the serials, and `fDoubleSerial`. The source reads the
spend after the block in which it was declared; it is taken to be still there. -/
def checkSerial (node : Node) (tx : CTransaction) (s : List ℤ × Bool) (txin : CTxIn) :
    Check (List ℤ × Bool) := do
  if s.2 || !(txin.isZerocoinSpend || txin.isZerocoinPublicSpend) then return s
  let spend ←
    if txin.isZerocoinPublicSpend then
      match parseZerocoinPublicSpend node txin tx with
      | .ok spend => .ok spend
      | .error f => .error (if f.isReturn then .throws "Invalid public spend parse" else f)
    else txInToZerocoinSpend node.lib txin
  let fUseV1Params := decide (spend.coinVersion < PUBKEY_VERSION)
  if !node.lib.isValidSerial fUseV1Params spend.coinSerialNumber ||
      s.1.contains spend.coinSerialNumber then
    return (s.1, true)
  else return (s.1 ++ [spend.coinSerialNumber], false)

/-- `CheckForDuplicatedSerials`: whether there is none, and the serials of the block. -/
def checkForDuplicatedSerials (node : Node) (tx : CTransaction) (vBlockSerials : List ℤ) :
    Check (Bool × List ℤ) := do
  if !tx.hasZerocoinSpendInputs then return (true, vBlockSerials)
  else if (node.isTransactionInChain tx.hash).isSome then return (false, vBlockSerials)
  else
    let r ← loop (checkSerial node tx) (vBlockSerials, false) tx.vin
    return (!r.2, r.1)

namespace MinerEnv

variable {D : Type} (env : MinerEnv D)

def applyDeltas (hash : Uint256) (dPriorityDelta : D) (nFeeDelta : ℤ) : D × ℤ :=
  match env.mapDeltas hash with
  | none => (dPriorityDelta, nFeeDelta)
  | some deltas => (env.add dPriorityDelta deltas.1, int64 (nFeeDelta + deltas.2))

def nBlockMaxSize : ℕ := max 1000 (min (MAX_BLOCK_SIZE_CURRENT - 1000) env.blockMaxSize)

def nBlockPrioritySize : ℕ := min env.nBlockMaxSize env.blockPrioritySize

def nBlockMinSize : ℕ := min env.nBlockMaxSize env.blockMinSize

/-! ### Looking through the pool -/

/-- What is passed over. -/
def skips (tx : CTransaction) : Bool :=
  tx.isCoinBase || tx.isCoinStake || !env.isFinalTx tx ||
    (env.node.isSporkActive .SPORK_16_ZEROCOIN_MAINTENANCE_MODE && tx.containsZerocoins)

def waitFor (hash : Uint256) (s : MinerScan D) (porphan : ℕ) : Check (MinerScan D) := do
  let orphan ← follow s.vOrphan porphan
  return { s with
    vOrphan := Function.update s.vOrphan porphan
      (some { orphan with setDependsOn := insert hash orphan.setDependsOn })
    mapDependers := Function.update s.mapDependers hash (s.mapDependers hash ++ [porphan]) }

/-- The transaction becomes an orphan, if it is not one already. -/
def orphaned (tx : CTransaction) (s : TxScan D) : ℕ × MinerScan D :=
  match s.porphan with
  | some porphan => (porphan, s.scan)
  | none => (s.scan.next, { s.scan with
    vOrphan := Function.update s.scan.vOrphan s.scan.next (some ⟨tx, ∅, 0, env.zero⟩)
    next := s.scan.next + 1 })

def scanInput (tx : CTransaction) (s : TxScan D) (txin : CTxIn) : Check (TxScan D) :=
  if s.fMissingInputs then .ok s
  else
    let r := s.scan.view.haveCoin txin.prevout
    let s := { s with scan := { s.scan with view := r.2 } }
    if r.1 then do
      let (coin, view) := s.scan.view.accessCoin txin.prevout
      failIf (!tx.hasZerocoinSpendInputs && coin.isSpent) .assertion
      return { s with
        scan := { s.scan with view }
        nTotalIn := int64 (s.nTotalIn + coin.out.nValue)
        dPriority := env.addInput s.dPriority coin.out.nValue (env.nHeight - coin.nHeight) }
    else match env.mempool.mapTx.lookup txin.prevout.hash with
      | none =>
        -- a pointer to the orphan that is taken off again stays in `mapDependers`
        let vOrphan := match s.porphan with
          | some p => Function.update s.scan.vOrphan p none
          | none => s.scan.vOrphan
        .ok { s with scan := { s.scan with vOrphan }, fMissingInputs := true }
      | some e => do
        let (porphan, scan) := env.orphaned tx s
        let scan ← waitFor txin.prevout.hash scan porphan
        match e.tx.vout[txin.prevout.n]? with
        | none => .error (.outOfRange .outputIndex)
        | some out =>
          return { s with
            scan
            porphan := some porphan
            nTotalIn := int64 (s.nTotalIn + out.nValue) }

def scanTx (s : MinerScan D) (tx : CTransaction) : Check (MinerScan D) :=
  if env.skips tx then .ok s
  else do
    let nTotalIn := if tx.hasZerocoinSpendInputs then tx.getZerocoinSpent else 0
    let t ← loop (env.scanInput tx) ⟨s, none, env.zero, nTotalIn, false⟩ tx.vin
    if t.fMissingInputs then return t.scan
    else
      let nTxSize := tx.serializeSize
      let (dPriority, nTotalIn) :=
        env.applyDeltas tx.hash (env.computePriority tx t.dPriority nTxSize) t.nTotalIn
      let nValueOut ← getValueOut tx
      let feeRate := cFeeRate (int64 (nTotalIn - nValueOut)) nTxSize
      match t.porphan with
      | some porphan => do
        let o ← follow t.scan.vOrphan porphan
        return { t.scan with
          vOrphan := Function.update t.scan.vOrphan porphan (some { o with dPriority, feeRate }) }
      | none => return { t.scan with
          vecPriority := t.scan.vecPriority ++ [⟨dPriority, feeRate, tx⟩] }

/-- The loop over the pool, in the order of its index. -/
def scan (view : CCoinsViewCache) (mapTx : List CTransaction) : Check (MinerScan D) :=
  loop env.scanTx ⟨fun _ => none, 0, fun _ => [], [], view⟩ mapTx

/-! ### Choosing -/

def start (s : MinerScan D) : Assembly D where
  vOrphan := s.vOrphan
  mapDependers := s.mapDependers
  vecPriority := s.vecPriority
  view := s.view
  vBlockSerials := []
  fSortedByFee := decide (env.nBlockPrioritySize = 0)
  nBlockSize := 1000
  nBlockTx := 0
  nBlockSigOps := 100
  nFees := 0
  vtx := []
  vTxFees := []
  vTxSigOps := []

/-- One orphan that depends on a transaction which has been added. -/
def releaseOne (hash : Uint256) (s : Assembly D) (porphan : ℕ) : Check (Assembly D) := do
  let o ← follow s.vOrphan porphan
  if o.setDependsOn = ∅ then return s
  else
    let setDependsOn := o.setDependsOn.erase hash
    let s := { s with
      vOrphan := Function.update s.vOrphan porphan (some { o with setDependsOn }) }
    if setDependsOn = ∅ then
      return { s with vecPriority := s.vecPriority ++ [⟨o.dPriority, o.feeRate, o.ptx⟩] }
    else return s

/-- The orphans that depend on a transaction which has been added. -/
def release (hash : Uint256) (s : Assembly D) : Check (Assembly D) :=
  loop (releaseOne hash) s (s.mapDependers hash)

/-- `CheckInputs` as it is called here. The scripts are run at once. -/
def checkInputs (tx : CTransaction) (view : CCoinsViewCache) : Check (Bool × CCoinsViewCache) :=
  Agenor.checkInputs { env.node with nScriptCheckThreads := 0 } tx view true ⟨false, false⟩

def addTx (s : Assembly D) (tx : CTransaction) (nTxFees : ℤ) (nTxSigOps : ℕ)
    (view : CCoinsViewCache) : Assembly D :=
  { s with
    view
    nBlockSize := s.nBlockSize + tx.serializeSize
    nBlockTx := s.nBlockTx + 1
    nBlockSigOps := s.nBlockSigOps + nTxSigOps
    nFees := int64 (s.nFees + nTxFees)
    vtx := s.vtx ++ [tx]
    vTxFees := s.vTxFees ++ [nTxFees]
    vTxSigOps := s.vTxSigOps ++ [nTxSigOps] }

variable [LinearOrder D]

/-- The checks that are made before the coins are looked at. -/
def fits (s : Assembly D) (p : TxPriority D) : Bool :=
  let nTxSize := p.tx.serializeSize
  let deltas := env.applyDeltas p.tx.hash env.zero 0
  decide (s.nBlockSize + nTxSize < env.nBlockMaxSize) &&
    decide (s.nBlockSigOps + getLegacySigOpCount p.tx < MAX_BLOCK_SIGOPS_CURRENT) &&
    !(!p.tx.hasZerocoinSpendInputs && s.fSortedByFee && decide (deltas.1 ≤ env.zero) &&
      decide (deltas.2 ≤ 0) && decide (p.feeRate < env.minRelayTxFee) &&
      decide (env.nBlockMinSize ≤ s.nBlockSize + nTxSize))

/-- The checks that read the coins, and the new block if they pass. -/
def tryTx (s : Assembly D) (tx : CTransaction) : Check (Assembly D) := do
  let r := s.view.haveInputs tx
  let s := { s with view := r.2 }
  if !r.1 then return s
  else
    let (single, vBlockSerials) ← checkForDuplicatedSerials env.node tx s.vBlockSerials
    let s := { s with vBlockSerials }
    if !single then return s
    else
      let (nValueIn, view) := s.view.getValueIn tx
      let nValueOut ← getValueOut tx
      let nTxFees := int64 (nValueIn - nValueOut)
      let (n, view) := getP2SHSigOpCount view tx
      let nTxSigOps := getLegacySigOpCount tx + n
      let s := { s with view }
      if MAX_BLOCK_SIGOPS_CURRENT ≤ s.nBlockSigOps + nTxSigOps then return s
      else match env.checkInputs tx s.view with
        | .error f => if f.isReturn then return s else .error f
        | .ok (_, view) =>
          let (_, view) ← view.updateCoins tx env.nHeight
          release tx.hash (addTx s tx nTxFees nTxSigOps view)

/-- The body of the loop, after an entry has been taken from the heap. -/
def body (s : Assembly D) (p : TxPriority D) (vecPriority : List (TxPriority D)) :
    Check (Assembly D) :=
  let s := { s with vecPriority }
  if env.fits s p then
    env.tryTx { s with
      fSortedByFee := s.fSortedByFee ||
        decide (env.nBlockPrioritySize ≤ s.nBlockSize + p.tx.serializeSize) ||
        !env.allowFree p.dPriority } p.tx
  else .ok s

/-- What is taken from the heap, one entry after the other. -/
inductive Run (start : Assembly D) : List (TxPriority D) → Assembly D → Prop
  | nil : Run start [] start
  | snoc {log : List (TxPriority D)} {s s' : Assembly D} {p : TxPriority D}
      {rest : List (TxPriority D)} (h : Run start log s) (hperm : s.vecPriority.Perm (p :: rest))
      (hbest : ∀ q ∈ s.vecPriority, TxPriority.less s.fSortedByFee p q = false)
      (hs : env.body s p rest = .ok s') : Run start (log ++ [p]) s'

/-! ### What the pool has to offer -/

omit [LinearOrder D]

/-- The transactions that inputs without a coin refer to. -/
def needsOf (coins : UtxoSet) (vin : List CTxIn) : Finset Uint256 :=
  ((vin.filter fun i => (coins i.prevout).isNone).map (·.prevout.hash)).toFinset

def needs (coins : UtxoSet) (tx : CTransaction) : Finset Uint256 := needsOf coins tx.vin

/-- The transactions that are considered. -/
def candidates (mapTx : List CTransaction) : List CTransaction :=
  mapTx.filter fun tx => !env.skips tx

/-- The outpoint is an output of a transaction of the pool. -/
def InPool (o : COutPoint) : Prop :=
  ∃ e, env.mempool.mapTx.lookup o.hash = some e ∧ o.n < e.tx.vout.length

/-- The pool goes with the coins: each input of a candidate is an unspent coin or an output of a
transaction of the pool, and none of its own outputs is there. -/
structure PoolOk (coins : UtxoSet) (mapTx : List CTransaction) : Prop where
  hashes : (mapTx.map (·.hash)).Nodup
  checked : ∀ tx ∈ env.candidates mapTx, CheckedTx env.node.params tx
  fresh : ∀ tx ∈ env.candidates mapTx, ∀ n < tx.vout.length, coins ⟨tx.hash, n⟩ = none
  inputs : ∀ tx ∈ env.candidates mapTx, ∀ txin ∈ tx.vin, (coins txin.prevout).isNone →
    env.InPool txin.prevout

/-- The orphans are the transactions of a list that wait for others, without those for which they
wait no longer. -/
structure Waiting (f : CTransaction → Finset Uint256) (l : List CTransaction) (A : Finset Uint256)
    (vOrphan : ℕ → Option (COrphan D)) (mapDependers : Uint256 → List ℕ) : Prop where
  orphan : ∀ tx ∈ l, f tx ≠ ∅ → ∃ p o, vOrphan p = some o ∧ o.ptx = tx
  known : ∀ p o, vOrphan p = some o → o.ptx ∈ l ∧ f o.ptx ≠ ∅ ∧ o.setDependsOn = f o.ptx \ A
  once : ∀ p q o o', vOrphan p = some o → vOrphan q = some o' → o.ptx = o'.ptx → p = q
  dependers : ∀ h p, p ∈ mapDependers h ↔ ∃ o, vOrphan p = some o ∧ h ∈ f o.ptx

/-- What has been found out about the transactions that were looked at. -/
structure Scanned (f : CTransaction → Finset Uint256) (l : List CTransaction)
    (s : MinerScan D) : Prop where
  ready : s.vecPriority.map (·.tx) = l.filter fun tx => decide (f tx = ∅)
  waiting : Waiting f l ∅ s.vOrphan s.mapDependers
  fresh : ∀ p, s.next ≤ p → s.vOrphan p = none

/-- While the inputs of a transaction are being read: it is an orphan, or it is not yet noted. -/
structure Reading (v : CCoinsViewCache) (l : List CTransaction) (tx : CTransaction)
    (vin : List CTxIn) (s : TxScan D) : Prop where
  missing : s.fMissingInputs = false
  view : CCoinsViewCache.Reads v s.scan.view
  noted : match s.porphan with
    | none => needsOf v.coins vin = ∅ ∧ Scanned (needs v.coins) l s.scan
    | some p => (∃ o, s.scan.vOrphan p = some o ∧ o.ptx = tx) ∧
        Scanned (Function.update (needs v.coins) tx (needsOf v.coins vin)) (l ++ [tx]) s.scan

variable {env} {coins : UtxoSet} {v : CCoinsViewCache} {l : List CTransaction}
  {tx : CTransaction} {vin : List CTxIn} {s : TxScan D} {txin : CTxIn}

lemma needsOf_coin (h : (coins txin.prevout).isSome) :
    needsOf coins (vin ++ [txin]) = needsOf coins vin := by
  simp [needsOf, List.filter_append, Option.isNone_iff_eq_none, Option.isSome_iff_ne_none.mp h]

lemma needsOf_pool (h : (coins txin.prevout).isNone) :
    needsOf coins (vin ++ [txin]) = insert txin.prevout.hash (needsOf coins vin) := by
  ext x
  simp [needsOf, List.filter_append, h]

/-! ### One input -/

lemma scanInput_coin (env : MinerEnv D) (tx : CTransaction) (hmissing : s.fMissingInputs = false)
    (hc : (s.scan.view.coins txin.prevout).isSome) :
    ∃ view nTotalIn dPriority, CCoinsViewCache.Reads s.scan.view view ∧
      env.scanInput tx s txin
        = .ok { s with scan := { s.scan with view }, nTotalIn, dPriority } := by
  have hr := CCoinsViewCache.reads_haveCoin s.scan.view txin.prevout
  have hr' := hr.trans (CCoinsViewCache.reads_accessCoin _ txin.prevout)
  obtain ⟨r, hread⟩ : ∃ r, (s.scan.view.haveCoin txin.prevout).2.accessCoin txin.prevout = r :=
    ⟨_, rfl⟩
  have hunspent : r.1.isSpent = false := by
    rw [← Bool.not_eq_true, ← Coin.live_eq_none, ← hread, CCoinsViewCache.accessCoin_live, hr.coins]
    exact Option.isSome_iff_ne_none.mp hc
  rw [hread] at hr'
  refine ⟨r.2, int64 (s.nTotalIn + r.1.out.nValue),
    env.addInput s.dPriority r.1.out.nValue (env.nHeight - r.1.nHeight), hr', ?_⟩
  rw [scanInput, if_neg (by simp [hmissing])]
  simp only [CCoinsViewCache.haveCoin_eq, hc, if_true, hread, hunspent, Bool.and_false, bind_eq_ok,
    failIf_eq_ok, pure_eq_ok]
  exact ⟨(), trivial, trivial⟩

lemma scanInput_pool (env : MinerEnv D) (tx : CTransaction) {e : CTxMemPoolEntry} {porphan : ℕ}
    {scan scan' : MinerScan D} (hmissing : s.fMissingInputs = false)
    (hc : (s.scan.view.coins txin.prevout).isNone)
    (he : env.mempool.mapTx.lookup txin.prevout.hash = some e)
    (hn : txin.prevout.n < e.tx.vout.length)
    (hporphan : env.orphaned tx { s with
      scan := { s.scan with view := (s.scan.view.haveCoin txin.prevout).2 } } = (porphan, scan))
    (hwait : waitFor txin.prevout.hash scan porphan = .ok scan') :
    ∃ nTotalIn, env.scanInput tx s txin
      = .ok { s with scan := scan', porphan := some porphan, nTotalIn } := by
  have hno : (s.scan.view.coins txin.prevout).isSome = false := by simpa using hc
  refine ⟨int64 (s.nTotalIn + (e.tx.vout.get ⟨txin.prevout.n, hn⟩).nValue), ?_⟩
  rw [scanInput, if_neg (by simp [hmissing])]
  simp only [CCoinsViewCache.haveCoin_eq, hno, Bool.false_eq_true, if_false, he, hporphan, hwait,
    bind, Except.bind, List.getElem?_eq_getElem hn]
  rfl

section Bookkeeping

variable {f g : CTransaction → Finset Uint256} {A : Finset Uint256} {p : ℕ} {hash : Uint256}
  {o : COrphan D} {vOrphan : ℕ → Option (COrphan D)} {mapDependers : Uint256 → List ℕ}
  {m : MinerScan D}

lemma mem_noted {x : Uint256} {q : ℕ} :
    q ∈ Function.update mapDependers hash (mapDependers hash ++ [p]) x ↔
      q ∈ mapDependers x ∨ x = hash ∧ q = p := by
  by_cases hx : x = hash
  · simp [hx]
  · simp [hx]

lemma Waiting.wait (h : Waiting f l ∅ vOrphan mapDependers) (htx : tx ∉ l)
    (hp : vOrphan p = none) {fee : ℤ} {d : D} :
    Waiting (Function.update f tx {hash}) (l ++ [tx]) ∅
      (Function.update vOrphan p (some ⟨tx, {hash}, fee, d⟩))
      (Function.update mapDependers hash (mapDependers hash ++ [p])) := by
  have hknown := h.known
  refine ⟨?_, ?_, ?_, ?_⟩
  · intro t ht hne
    by_cases htt : t = tx
    · exact ⟨p, _, Function.update_self .., htt.symm⟩
    · rw [Function.update_of_ne htt] at hne
      obtain ⟨q, o, ho, hptx⟩ := h.orphan t (by simpa [htt] using ht) hne
      exact ⟨q, o, by grind [Function.update_apply], hptx⟩
  · intro q o ho
    by_cases hq : q = p
    · subst hq
      rw [Function.update_self, Option.some.injEq] at ho
      subst ho
      simp
    · rw [Function.update_of_ne hq] at ho
      obtain ⟨hmem, hne, hdep⟩ := hknown q o ho
      have htt : o.ptx ≠ tx := fun heq => htx (heq ▸ hmem)
      rw [Function.update_of_ne htt]
      exact ⟨by simp [hmem], hne, hdep⟩
  · intro q r o o' ho ho' hptx
    have honce := h.once q r o o'
    grind [Function.update_apply]
  · intro x q
    rw [mem_noted, h.dependers x q]
    by_cases hq : q = p
    · subst hq
      simp [hp]
    · simp only [hq, and_false, or_false, Function.update_of_ne hq]
      refine exists_congr fun o => and_congr_right fun ho => ?_
      have hne : o.ptx ≠ tx := fun heq => htx (heq ▸ (hknown q o ho).1)
      rw [Function.update_of_ne hne]

lemma Waiting.waitMore (h : Waiting f l ∅ vOrphan mapDependers) (ho : vOrphan p = some o) :
    Waiting (Function.update f o.ptx (insert hash (f o.ptx))) l ∅
      (Function.update vOrphan p (some { o with setDependsOn := insert hash o.setDependsOn }))
      (Function.update mapDependers hash (mapDependers hash ++ [p])) := by
  obtain ⟨hin, hne, hdep⟩ := h.known p o ho
  have hother : ∀ q o', vOrphan q = some o' → q ≠ p → o'.ptx ≠ o.ptx := fun q o' ho' hq hptx =>
    hq (h.once q p o' o ho' ho hptx)
  refine ⟨?_, ?_, ?_, ?_⟩
  · intro t ht hne'
    by_cases htt : t = o.ptx
    · exact ⟨p, _, Function.update_self .., htt.symm⟩
    · rw [Function.update_of_ne htt] at hne'
      obtain ⟨q, o', ho', hptx⟩ := h.orphan t ht hne'
      exact ⟨q, o', by grind [Function.update_apply], hptx⟩
  · intro q o' ho'
    by_cases hq : q = p
    · subst hq
      rw [Function.update_self, Option.some.injEq] at ho'
      subst ho'
      simp only [Function.update_self, hin, true_and, ne_eq, Finset.insert_ne_empty,
        not_false_eq_true]
      rw [hdep, Finset.sdiff_empty, Finset.sdiff_empty]
    · rw [Function.update_of_ne hq] at ho'
      rw [Function.update_of_ne (hother q o' ho' hq)]
      exact h.known q o' ho'
  · intro q r o₁ o₂ ho₁ ho₂ hptx
    have honce := h.once q r
    grind [Function.update_apply]
  · intro x q
    rw [mem_noted, h.dependers x q]
    by_cases hq : q = p
    · subst hq
      simp only [ho, and_true, Function.update_self, Option.some.injEq, exists_eq_left',
        Finset.mem_insert]
      exact or_comm
    · simp only [hq, and_false, or_false, Function.update_of_ne hq]
      refine exists_congr fun o' => and_congr_right fun ho' => ?_
      rw [Function.update_of_ne (hother q o' ho' hq)]

lemma Waiting.pass (h : Waiting f l A vOrphan mapDependers) (hf : f tx = ∅) :
    Waiting f (l ++ [tx]) A vOrphan mapDependers := by
  refine ⟨?_, ?_, h.once, h.dependers⟩
  · intro t ht hne
    rcases List.mem_append.mp ht with ht | ht
    · exact h.orphan t ht hne
    · obtain rfl := List.mem_singleton.mp ht
      exact absurd hf hne
  · intro p o ho
    obtain ⟨hmem, hknown⟩ := h.known p o ho
    exact ⟨List.mem_append_left _ hmem, hknown⟩

lemma Waiting.change (h : Waiting f l A vOrphan mapDependers) {A' : Finset Uint256}
    {vOrphan' : ℕ → Option (COrphan D)}
    (hback : ∀ q o', vOrphan' q = some o' → ∃ o, vOrphan q = some o ∧ o.ptx = o'.ptx ∧
      o'.setDependsOn = f o.ptx \ A')
    (hforth : ∀ q o, vOrphan q = some o → ∃ o', vOrphan' q = some o' ∧ o'.ptx = o.ptx) :
    Waiting f l A' vOrphan' mapDependers := by
  refine ⟨?_, ?_, ?_, ?_⟩
  · intro t ht hne
    obtain ⟨q, o, ho, hptx⟩ := h.orphan t ht hne
    obtain ⟨o', ho', hptx'⟩ := hforth q o ho
    exact ⟨q, o', ho', hptx'.trans hptx⟩
  · intro q o' ho'
    obtain ⟨o, ho, hptx, hdeps⟩ := hback q o' ho'
    obtain ⟨hmem, hne, -⟩ := h.known q o ho
    rw [← hptx]
    exact ⟨hmem, hne, hdeps⟩
  · intro q r o₁ o₂ ho₁ ho₂ hptx
    obtain ⟨o₁', ho₁', hptx₁, -⟩ := hback q o₁ ho₁
    obtain ⟨o₂', ho₂', hptx₂, -⟩ := hback r o₂ ho₂
    exact h.once q r o₁' o₂' ho₁' ho₂' (hptx₁.trans (hptx.trans hptx₂.symm))
  · intro x q
    rw [h.dependers x q]
    constructor
    · rintro ⟨o, ho, hx⟩
      obtain ⟨o', ho', hptx⟩ := hforth q o ho
      exact ⟨o', ho', hptx ▸ hx⟩
    · rintro ⟨o', ho', hx⟩
      obtain ⟨o, ho, hptx, -⟩ := hback q o' ho'
      exact ⟨o, ho, hptx ▸ hx⟩

lemma Waiting.rated (h : Waiting f l A vOrphan mapDependers) (ho : vOrphan p = some o)
    (dPriority : D) (feeRate : ℤ) :
    Waiting f l A (Function.update vOrphan p (some { o with dPriority, feeRate }))
      mapDependers := by
  refine h.change ?_ ?_
  · intro q o' ho'
    by_cases hq : q = p
    · subst hq
      rw [Function.update_self, Option.some.injEq] at ho'
      subst ho'
      exact ⟨o, ho, rfl, (h.known q o ho).2.2⟩
    · rw [Function.update_of_ne hq] at ho'
      exact ⟨o', ho', rfl, (h.known q o' ho').2.2⟩
  · intro q o' ho'
    by_cases hq : q = p
    · subst hq
      rw [ho, Option.some.injEq] at ho'
      subst ho'
      exact ⟨_, Function.update_self .., rfl⟩
    · exact ⟨o', by rw [Function.update_of_ne hq, ho'], rfl⟩

lemma Scanned.wait (h : Scanned f l m) (htx : tx ∉ l) {fee : ℤ} {d : D} :
    Scanned (Function.update f tx {hash}) (l ++ [tx]) { m with
      vOrphan := Function.update m.vOrphan m.next (some ⟨tx, {hash}, fee, d⟩)
      next := m.next + 1
      mapDependers := Function.update m.mapDependers hash (m.mapDependers hash ++ [m.next]) } := by
  refine ⟨?_, h.waiting.wait htx (h.fresh _ le_rfl), ?_⟩
  · have hl : (l.filter fun t => decide (Function.update f tx {hash} t = ∅)) =
        l.filter fun t => decide (f t = ∅) := by
      refine List.filter_congr fun t ht => ?_
      have hne : t ≠ tx := fun heq => htx (heq ▸ ht)
      rw [Function.update_of_ne hne]
    simp [h.ready, hl]
  · intro q (hq : m.next + 1 ≤ q)
    exact (Function.update_of_ne (by omega) _ _).trans (h.fresh q (by omega))

lemma Scanned.waitMore (h : Scanned f l m) (ho : m.vOrphan p = some o) (hash : Uint256) :
    Scanned (Function.update f o.ptx (insert hash (f o.ptx))) l { m with
      vOrphan := Function.update m.vOrphan p
        (some { o with setDependsOn := insert hash o.setDependsOn })
      mapDependers := Function.update m.mapDependers hash (m.mapDependers hash ++ [p]) } := by
  refine ⟨?_, h.waiting.waitMore ho, ?_⟩
  · have hne := (h.waiting.known p o ho).2.1
    rw [h.ready]
    refine List.filter_congr fun t _ => ?_
    by_cases htt : t = o.ptx
    · subst htt
      simp [hne]
    · rw [Function.update_of_ne htt]
  · intro q hq
    have hqp : q ≠ p := by
      rintro rfl
      rw [h.fresh q hq] at ho
      cases ho
    exact (Function.update_of_ne hqp _ _).trans (h.fresh q hq)

lemma Scanned.view (h : Scanned f l m) (v : CCoinsViewCache) :
    Scanned f l { m with view := v } :=
  ⟨h.ready, h.waiting, h.fresh⟩

end Bookkeeping

/-! ### One transaction -/

lemma Reading.step (h : Reading v l tx vin s) (htx : tx ∉ l)
    (hpool : (v.coins txin.prevout).isNone → env.InPool txin.prevout) :
    ∃ s', env.scanInput tx s txin = .ok s' ∧ Reading v l tx (vin ++ [txin]) s' := by
  obtain ⟨hmissing, hview, hnoted⟩ := h
  by_cases hc : (v.coins txin.prevout).isSome
  · obtain ⟨view, nTotalIn, dPriority, hr, hs⟩ :=
      scanInput_coin env tx hmissing (by rwa [hview.coins])
    refine ⟨_, hs, hmissing, hview.trans hr, ?_⟩
    rw [needsOf_coin hc]
    cases hp : s.porphan with
    | none =>
      rw [hp] at hnoted
      exact ⟨hnoted.1, hnoted.2.view view⟩
    | some p =>
      rw [hp] at hnoted
      exact ⟨hnoted.1, hnoted.2.view view⟩
  · have hnone : (v.coins txin.prevout).isNone := by simpa using hc
    obtain ⟨e, he, hn⟩ := hpool hnone
    have hr := CCoinsViewCache.reads_haveCoin s.scan.view txin.prevout
    cases hp : s.porphan with
    | none =>
      rw [hp] at hnoted
      obtain ⟨hneeds, hscan⟩ := hnoted
      obtain ⟨nTotalIn, hs⟩ := scanInput_pool env tx hmissing
        (by rwa [hview.coins]) he hn (by rw [orphaned, hp])
        (by rw [waitFor, follow_some (Function.update_self ..), ok_bind]; rfl)
      refine ⟨_, hs, hmissing, hview.trans hr, ?_⟩
      rw [needsOf_pool hnone, hneeds, insert_empty_eq]
      simp only [Function.update_idem]
      exact ⟨⟨_, Function.update_self .., rfl⟩, (hscan.wait htx).view _⟩
    | some p =>
      rw [hp] at hnoted
      obtain ⟨⟨o, ho, rfl⟩, hscan⟩ := hnoted
      have hmore := hscan.waitMore ho txin.prevout.hash
      rw [Function.update_self, Function.update_idem] at hmore
      obtain ⟨nTotalIn, hs⟩ := scanInput_pool env o.ptx hmissing
        (by rwa [hview.coins]) he hn (by rw [orphaned, hp])
        (by rw [waitFor, follow_some ho, ok_bind]; rfl)
      refine ⟨_, hs, hmissing, hview.trans hr, ?_⟩
      rw [needsOf_pool hnone]
      exact ⟨⟨_, Function.update_self .., rfl⟩, hmore.view _⟩

lemma Reading.run {vin' : List CTxIn} (h : Reading v l tx vin s) (htx : tx ∉ l)
    (hpool : ∀ txin ∈ vin', (v.coins txin.prevout).isNone → env.InPool txin.prevout) :
    ∃ s', loop (env.scanInput tx) s vin' = .ok s' ∧ Reading v l tx (vin ++ vin') s' := by
  induction vin' generalizing vin s with
  | nil => exact ⟨s, rfl, by simpa using h⟩
  | cons txin vin' ih =>
    obtain ⟨s₁, h1, hread⟩ := h.step htx (hpool txin (by simp))
    obtain ⟨s₂, h2, hread₂⟩ := ih hread fun t ht => hpool t (List.mem_cons_of_mem _ ht)
    refine ⟨s₂, ?_, by simpa using hread₂⟩
    rw [loop_cons, h1, ok_bind, h2]

lemma scanTx_scanned {m : MinerScan D} (hm : env.node.params.MoneyOk)
    (h : Scanned (needs v.coins) l m) (hview : CCoinsViewCache.Reads v m.view) (htx : tx ∉ l)
    (hskip : env.skips tx = false) (hc : CheckedTx env.node.params tx)
    (hpool : ∀ txin ∈ tx.vin, (v.coins txin.prevout).isNone → env.InPool txin.prevout) :
    ∃ m', env.scanTx m tx = .ok m' ∧ Scanned (needs v.coins) (l ++ [tx]) m' ∧
      CCoinsViewCache.Reads v m'.view := by
  have h0 : Reading v l tx [] ⟨m, none, env.zero,
      if tx.hasZerocoinSpendInputs then tx.getZerocoinSpent else 0, false⟩ :=
    ⟨rfl, hview, rfl, h⟩
  obtain ⟨t, hloop, hmissing, hreads, hnoted⟩ := h0.run htx hpool
  rw [List.nil_append] at hnoted
  have hout : getValueOut tx = .ok tx.valueOut := by rw [getValueOut, hc.getValueOut hm]
  rw [scanTx, if_neg (by simp [hskip])]
  simp only [hloop, ok_bind, hmissing, Bool.false_eq_true, if_false, hout]
  cases hp : t.porphan with
  | none =>
    rw [hp] at hnoted
    obtain ⟨hneeds, hready, hwait, hfresh⟩ := hnoted
    refine ⟨_, rfl, ⟨?_, ?_, hfresh⟩, hreads⟩
    · simp [hready, needs, hneeds]
    · exact hwait.pass hneeds
  | some p =>
    rw [hp] at hnoted
    obtain ⟨⟨o, ho, rfl⟩, hready, hwait, hfresh⟩ := hnoted
    have hsame : Function.update (needs v.coins) o.ptx (needsOf v.coins o.ptx.vin)
        = needs v.coins := Function.update_eq_self _ _
    rw [hsame] at hready hwait
    simp only [follow_some ho, ok_bind]
    refine ⟨_, rfl, ⟨hready, hwait.rated ho _ _, ?_⟩, hreads⟩
    intro q hq
    have hqp : q ≠ p := by
      rintro rfl
      rw [hfresh q hq] at ho
      cases ho
    exact (Function.update_of_ne hqp _ _).trans (hfresh q hq)

lemma scan_run {rest : List CTransaction} {m : MinerScan D} (hm : env.node.params.MoneyOk)
    (h : Scanned (needs v.coins) l m) (hview : CCoinsViewCache.Reads v m.view)
    (hnodup : (l ++ env.candidates rest).Nodup)
    (hc : ∀ tx ∈ env.candidates rest, CheckedTx env.node.params tx)
    (hpool : ∀ tx ∈ env.candidates rest, ∀ txin ∈ tx.vin, (v.coins txin.prevout).isNone →
      env.InPool txin.prevout) :
    ∃ m', loop env.scanTx m rest = .ok m' ∧
      Scanned (needs v.coins) (l ++ env.candidates rest) m' ∧ CCoinsViewCache.Reads v m'.view := by
  induction rest generalizing l m with
  | nil => exact ⟨m, rfl, by simpa [candidates] using h, hview⟩
  | cons tx rest ih =>
    cases hskip : env.skips tx with
    | true =>
      have hcand : env.candidates (tx :: rest) = env.candidates rest := by
        simp [candidates, hskip]
      rw [hcand] at hnodup hc hpool ⊢
      rw [loop_cons, scanTx, if_pos hskip, ok_bind]
      exact ih h hview hnodup hc hpool
    | false =>
      have hcand : env.candidates (tx :: rest) = tx :: env.candidates rest := by
        simp [candidates, hskip]
      rw [hcand] at hnodup hc hpool ⊢
      have htx : tx ∉ l := by
        intro hmem
        exact (List.nodup_append.mp hnodup).2.2 tx hmem tx List.mem_cons_self rfl
      obtain ⟨m₁, h1, h₁, hview₁⟩ :=
        scanTx_scanned hm h hview htx hskip (hc tx (by simp)) (hpool tx (by simp))
      rw [List.append_cons] at hnodup ⊢
      rw [loop_cons, h1, ok_bind]
      exact ih h₁ hview₁ hnodup (fun t ht => hc t (List.mem_cons_of_mem _ ht))
        fun t ht => hpool t (List.mem_cons_of_mem _ ht)

/-- **Looking through the pool** comes to its end, and finds out what each transaction needs. No
orphan is taken off, so the pointers all lead to one. -/
theorem scan_scanned {mapTx : List CTransaction} (hm : env.node.params.MoneyOk)
    (hpool : env.PoolOk v.coins mapTx) :
    ∃ m, env.scan v mapTx = .ok m ∧ Scanned (needs v.coins) (env.candidates mapTx) m ∧
      CCoinsViewCache.Reads v m.view := by
  have hnodup : (env.candidates mapTx).Nodup := (List.Nodup.of_map _ hpool.hashes).filter _
  have h0 : Scanned (D := D) (needs v.coins) [] ⟨fun _ => none, 0, fun _ => [], [], v⟩ :=
    ⟨rfl, ⟨by simp, by simp, by simp, by simp⟩, fun _ _ => rfl⟩
  exact scan_run hm h0 (.refl v) (by simpa using hnodup) hpool.checked hpool.inputs

end MinerEnv

end Agenor
