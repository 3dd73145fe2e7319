import Agenor.ConnectStep
import Agenor.DisconnectBlock

/-!
What the hashes in a chain stand for.

Transactions and blocks are named by their hashes, and the code relies on hashes that do not
collide: `Hashes` gives the transaction and the list of transactions behind a hash. A coin is
genuine when it is the output behind its outpoint. As long as all coins are genuine, what the inputs
of a transaction are worth is a fact about the transaction alone, whatever view it is connected to
or undone on.
-/

namespace Agenor

open Lib.Wrap Lib.Fallible

/-- The script is one of a zerocoin spend, wherever the outpoint points. -/
def CTxIn.hasSpendScript (txin : CTxIn) : Bool :=
  Script.isZerocoinSpend txin.scriptSig || txin.isZerocoinPublicSpend

/-- A stray spend: the script is one of a private spend, but the outpoint is that of an ordinary
output, so that no check takes the input for a zerocoin spend. -/
def CTxIn.isStraySpend (txin : CTxIn) : Bool :=
  Script.isZerocoinSpend txin.scriptSig && !txin.isZerocoinSpend

/-- The denomination that the script of a private spend states, in the smallest units. -/
def statedDenomination (lib : Libzerocoin) (txin : CTxIn) : ℤ :=
  match txInToZerocoinSpend lib txin with
  | .ok spend => spend.denomination.toInt * COIN
  | .error _ => 0

structure Hashes where
  txOf : Uint256 → CTransaction
  vtxOf : Uint256 → List CTransaction

namespace Hashes

variable (H : Hashes)

/-- The output behind an outpoint. -/
def outputAt (o : COutPoint) : Option CTxOut := (H.txOf o.hash).vout[o.n]?

/-- An unspent coin is the output behind its outpoint, and not one that can never be spent. -/
def Genuine (o : COutPoint) (c : Coin) : Prop :=
  c.isSpent = false →
    H.outputAt o = some c.out ∧ Script.isUnspendable c.out.scriptPubKey = false

/-- The block and its transactions are those behind their hashes. -/
structure Holds (block : CBlock) : Prop where
  vtx : H.vtxOf block.hash = block.vtx
  txs : ∀ tx ∈ block.vtx, H.txOf tx.hash = tx

/-- A node of the network that finds transactions by their hashes. -/
structure Hosts (net : Network) (lib : Libzerocoin) (node : Node) : Prop where
  params : node.params = paramsOf net
  lib : node.lib = lib
  txs : ∀ h tx b, node.getTransaction h = some (tx, b) → tx = H.txOf h

/-- The undo record of a transaction holds the outputs that it spends. -/
def FitsTx (tx : CTransaction) (txundo : CTxUndo) : Prop :=
  ∀ p ∈ tx.vin.zip txundo.vprevout, H.Genuine p.1.prevout p.2

/-- The undo data of a block hold the outputs that its transactions spend. -/
def Fits (vtx : List CTransaction) (blockUndo : CBlockUndo) : Prop :=
  List.Forall₂ H.FitsTx vtx.tail blockUndo.vtxundo

lemma genuine_empty (o : COutPoint) : H.Genuine o Coin.empty := by
  intro h
  cases h

variable {H} {v v' : CCoinsViewCache} {tx : CTransaction}

/-! ### Values -/

variable (H) in
/-- What the output behind an outpoint is worth. -/
def valueAt (o : COutPoint) : ℤ := ((H.outputAt o).map (·.nValue)).getD 0

variable (H) in
/-- What the outputs behind some inputs are worth. -/
def inputValue (vin : List CTxIn) : ℤ := (vin.map fun i => H.valueAt i.prevout).sum

lemma valueOf_genuine (hv : v.Every H.Genuine) {vin : List CTxIn}
    (hin : ∀ txin ∈ vin, (v.coins txin.prevout).isSome) :
    v.coins.valueOf vin = H.inputValue vin := by
  unfold UtxoSet.valueOf inputValue
  congr 1
  apply List.map_congr_left
  intro txin htxin
  obtain ⟨c, hc⟩ := Option.isSome_iff_exists.mp (hin txin htxin)
  obtain ⟨hgen, hs⟩ := hv.coins hc
  simp [UtxoSet.value, hc, valueAt, (hgen hs).1]

/-! ### Updating -/

lemma genuine_output (htx : H.txOf tx.hash = tx) {nHeight : ℤ} :
    ∀ p ∈ tx.vout.zipIdx, p.1.isNull = false → Script.isUnspendable p.1.scriptPubKey = false →
      H.Genuine ⟨tx.hash, p.2⟩ ⟨p.1, nHeight, tx.isCoinBase, tx.isCoinStake⟩ := by
  rintro ⟨out, n⟩ hp - hu -
  refine ⟨?_, hu⟩
  simpa [outputAt, htx] using List.mem_zipIdx_iff_getElem?.mp hp

lemma genuine_updateCoins (hv : v.Every H.Genuine) (htx : H.txOf tx.hash = tx) {nHeight : ℤ}
    {txundo : CTxUndo} (hu : v.updateCoins tx nHeight = .ok (txundo, v')) :
    H.FitsTx tx txundo ∧ v'.Every H.Genuine :=
  hv.updateCoins H.genuine_empty (genuine_output htx) hu

variable {env : ConnectEnv} {s s' : ConnectLoop}

lemma genuine_connected {i : ℕ} (hs : env.Connected s tx i s') (hv : s.view.Every H.Genuine)
    (htx : H.txOf tx.hash = tx) :
    s'.view.Every H.Genuine ∧ ∃ txundo, H.FitsTx tx txundo ∧
      s'.vtxundo = if i = 0 then s.vtxundo else s.vtxundo ++ [txundo] := by
  obtain ⟨v, txundo, hr, hu, hvtx⟩ := hs.update
  obtain ⟨hfit, hv'⟩ := genuine_updateCoins (hr.every _ hv) htx hu
  exact ⟨hv', txundo, hfit, hvtx⟩

lemma genuine_connectRest {l : List CTransaction} {n : ℕ} (hn : n ≠ 0)
    (hm : env.node.params.MoneyOk) (hc : ∀ tx ∈ l, CheckedTx env.node.params tx)
    (hl : loop env.connectTx s (l.zipIdx n) = .ok s') (hv : s.view.Every H.Genuine)
    (htx : ∀ tx ∈ l, H.txOf tx.hash = tx) :
    s'.view.Every H.Genuine ∧
      ∃ new, List.Forall₂ H.FitsTx l new ∧ s'.vtxundo = s.vtxundo ++ new := by
  induction l generalizing s n with
  | nil =>
    simp only [List.zipIdx_nil, loop_nil, Except.ok.injEq] at hl
    exact ⟨hl ▸ hv, [], .nil, by simp [hl]⟩
  | cons tx l ih =>
    simp only [List.zipIdx_cons, loop_cons, bind_eq_ok] at hl
    obtain ⟨s₁, h1, hl⟩ := hl
    obtain ⟨hv₁, txundo, hfit, hundo⟩ := genuine_connected
      (ConnectEnv.connectTx_eq_ok hm (hc tx (by simp)) h1) hv (htx tx (by simp))
    obtain ⟨hv', new, hall, hnew⟩ := ih (by omega) (fun t ht => hc t (by simp [ht])) hl hv₁
      fun t ht => htx t (by simp [ht])
    rw [if_neg hn] at hundo
    exact ⟨hv', txundo :: new, .cons hfit hall, by simp [hnew, hundo]⟩

theorem genuine_connectTxs {l : List CTransaction} (hm : env.node.params.MoneyOk)
    (hc : ∀ tx ∈ l, CheckedTx env.node.params tx)
    (hl : loop env.connectTx (.start v) l.zipIdx = .ok s') (hv : v.Every H.Genuine)
    (htx : ∀ tx ∈ l, H.txOf tx.hash = tx) :
    s'.view.Every H.Genuine ∧ H.Fits l ⟨s'.vtxundo⟩ := by
  cases l with
  | nil =>
    simp only [List.zipIdx_nil, loop_nil, Except.ok.injEq] at hl
    subst hl
    exact ⟨hv, .nil⟩
  | cons tx l =>
    simp only [List.zipIdx_cons, loop_cons, bind_eq_ok] at hl
    obtain ⟨s₁, h1, hl⟩ := hl
    obtain ⟨hv₁, txundo, -, hundo⟩ := genuine_connected
      (ConnectEnv.connectTx_eq_ok hm (hc tx (by simp)) h1) hv (htx tx (by simp))
    obtain ⟨hv', new, hall, hnew⟩ := genuine_connectRest (by omega) hm
      (fun t ht => hc t (by simp [ht])) hl hv₁ fun t ht => htx t (by simp [ht])
    refine ⟨hv', ?_⟩
    have hnil : s₁.vtxundo = [] := by simpa [ConnectLoop.start] using hundo
    rw [hnil, List.nil_append] at hnew
    simpa [Fits, hnew] using hall

/-! ### The amounts that are counted -/

variable (H) in
/-- The denomination that an input redeems, in the smallest units. -/
def denominationAt (lib : Libzerocoin) (txin : CTxIn) : ℤ :=
  if txin.isZerocoinPublicSpend then
    match H.outputAt txin.prevout with
    | some out => (CoinDenomination.ofAmount out.nValue).toInt * COIN
    | none => 0
  else statedDenomination lib txin

variable (H) in
/-- What `ConnectBlock` adds to `nValueIn` for a transaction. -/
def connectedIn (lib : Libzerocoin) (tx : CTransaction) : ℤ :=
  if tx.isCoinBase then 0
  else if tx.hasZerocoinSpendInputs then
    ((tx.vin.filter (·.isAnyZerocoinSpend)).map (H.denominationAt lib)).sum + tx.getZerocoinSpent
  else H.inputValue tx.vin

variable (H) in
/-- What `DisconnectBlock` adds to `nValueIn` for a transaction. The script alone tells whether an
input is a private spend. -/
def disconnectedIn (lib : Libzerocoin) (tx : CTransaction) : ℤ :=
  if tx.isCoinBase then 0
  else if tx.hasZerocoinSpendInputs then
    ((tx.vin.filter (·.hasSpendScript)).map (H.denominationAt lib)).sum
  else H.inputValue tx.vin

variable {net : Network} {lib : Libzerocoin}

lemma getOutput_hosted {node : Node} (hn : H.Hosts net lib node) {o : COutPoint} {out : CTxOut}
    (h : node.getOutput o.hash o.n = .ok out) : H.outputAt o = some out := by
  unfold Node.getOutput at h
  split at h
  · cases h
  · next txPrev b ht =>
    split at h
    · cases h
    · split at h
      · next out' hout =>
        cases h
        rw [outputAt, ← hn.txs _ _ _ ht]
        exact hout
      · cases h

lemma parse_hosted {node : Node} (hn : H.Hosts net lib node) {txin : CTxIn} {spend : CoinSpend}
    (h : parseZerocoinPublicSpend node txin tx = .ok spend) :
    ∃ out, H.outputAt txin.prevout = some out ∧
      spend.denomination = CoinDenomination.ofAmount out.nValue := by
  unfold parseZerocoinPublicSpend at h
  cases ho : node.getOutput txin.prevout.hash txin.prevout.n with
  | error f => simp [ho] at h
  | ok prevOut =>
    refine ⟨prevOut, getOutput_hosted hn ho, ?_⟩
    simp only [ho] at h
    cases hp : parseCoinSpend node txin tx prevOut with
    | error f => simp [hp] at h
    | ok r =>
      simp only [hp, Except.ok.injEq] at h
      subst h
      simp only [parseCoinSpend, bind_eq_ok] at hp
      obtain ⟨-, -, data, -, hp⟩ := hp
      split at hp
      · cases hp
      · split at hp
        · cases hp
        · cases hp
        · next pubCoin hpub =>
          simp only [txOutToPublicCoin, bind_eq_ok, pure_eq_ok] at hpub
          obtain ⟨_, _, _, _, rfl⟩ := hpub
          cases hp
          rfl

lemma denominationAt_of_public {node : Node} (hn : H.Hosts net lib node) {txin : CTxIn}
    {spend : CoinSpend} (hp : txin.isZerocoinPublicSpend = true)
    (h : parseZerocoinPublicSpend node txin tx = .ok spend) :
    H.denominationAt lib txin = spend.denomination.toInt * COIN := by
  obtain ⟨out, hout, hd⟩ := parse_hosted hn h
  simp [denominationAt, hp, hout, hd]

lemma denominationAt_of_private {txin : CTxIn} {spend : CoinSpend}
    (hp : txin.isZerocoinPublicSpend = false) (h : txInToZerocoinSpend lib txin = .ok spend) :
    H.denominationAt lib txin = spend.denomination.toInt * COIN := by
  simp [denominationAt, statedDenomination, hp, h]

lemma denominationOf_hosted (hn : H.Hosts net lib env.node) {txin : CTxIn} {spend : CoinSpend}
    (h : env.spendOf tx txin = .ok spend) :
    env.denominationOf tx txin = H.denominationAt lib txin := by
  rw [ConnectEnv.denominationOf, h]
  unfold ConnectEnv.spendOf at h
  split at h
  · next hp => exact (denominationAt_of_public hn hp h).symm
  · next hp =>
    rw [hn.lib] at h
    exact (denominationAt_of_private (by simpa using hp) h).symm

lemma countedIn_hosted {i : ℕ} (hn : H.Hosts net lib env.node) (hs : env.Connected s tx i s')
    (hv : s.view.Every H.Genuine) : env.countedIn s.view tx = H.connectedIn lib tx := by
  unfold ConnectEnv.countedIn connectedIn
  split_ifs with hcb hz
  · rfl
  · congr 1
    unfold ConnectEnv.redeemed
    congr 1
    apply List.map_congr_left
    intro txin htxin
    obtain ⟨hmem, hany⟩ := List.mem_filter.mp htxin
    obtain ⟨⟨spend, hsp⟩, -⟩ := hs.spends hz txin hmem hany
    exact denominationOf_hosted hn hsp
  · exact valueOf_genuine hv (hs.inputs (by simpa using hcb) (by simpa using hz)).1

/-- **What a connected block adds up to**, whatever the view. -/
theorem sums_connected {l : List (CTransaction × ℕ)} (hn : H.Hosts net lib env.node)
    (hc : ∀ p ∈ l, CheckedTx env.node.params p.1) (hl : loop env.connectTx s l = .ok s')
    (hv : s.view.Every H.Genuine) (htx : ∀ p ∈ l, H.txOf p.1.hash = p.1) :
    int64 s'.nValueOut = int64 (s.nValueOut + (l.map fun p => p.1.valueOut).sum) ∧
      int64 s'.nValueIn = int64 (s.nValueIn + (l.map fun p => H.connectedIn lib p.1).sum) := by
  have hm : env.node.params.MoneyOk := hn.params ▸ paramsOf_moneyOk net
  induction l generalizing s with
  | nil =>
    simp only [loop_nil, Except.ok.injEq] at hl
    simp [hl]
  | cons p l ih =>
    simp only [loop_cons, bind_eq_ok] at hl
    obtain ⟨s₁, h1, hl⟩ := hl
    have hs := ConnectEnv.connectTx_eq_ok hm (hc p (by simp)) h1
    obtain ⟨hv₁, -⟩ := genuine_connected hs hv (htx p (by simp))
    obtain ⟨i1, i2⟩ := ih (fun q hq => hc q (by simp [hq])) hl hv₁ fun q hq => htx q (by simp [hq])
    simp only [List.map_cons, List.sum_cons]
    refine ⟨?_, ?_⟩
    · rw [i1, hs.nValueOut, int64_int64_add, add_assoc]
    · rw [i2, ← int64_int64_add, hs.nValueIn, countedIn_hosted hn hs hv, int64_int64_add,
        add_assoc]

end Hashes

end Agenor
