import Agenor.DisconnectStep
import Agenor.ChainState

/-!
The counter `nMoneySupply` along the connects and disconnects of a node.

`ConnectBlock` adds what a block creates and `DisconnectBlock` takes it away again, but the two
count the zerocoin inputs differently. Connecting counts a private spend once by its denomination
and once by its sequence number; undoing counts it once, and counts stray spends too. The counter
follows the active chain exactly when these differences cancel in every block.
-/

namespace Agenor

open Lib.Wrap Lib.Fallible

variable {H : Hashes} {net : Network} {lib : Libzerocoin} {node : Node} {g g' : Global}
  {block : CBlock} {pindex : CBlockIndex} {v v' : CCoinsViewCache} {fAlreadyChecked : Bool}

/-! ### What a block is worth -/

/-- What `ConnectBlock` adds to the money supply. -/
def Hashes.connectedMoney (H : Hashes) (lib : Libzerocoin) (vtx : List CTransaction) : ℤ :=
  (vtx.map (·.valueOut)).sum - (vtx.map (H.connectedIn lib)).sum

/-- What `DisconnectBlock` takes away. -/
def Hashes.disconnectedMoney (H : Hashes) (lib : Libzerocoin) (vtx : List CTransaction) : ℤ :=
  (vtx.map (·.valueOut)).sum - (vtx.map (H.disconnectedIn lib)).sum

/-- The sequence numbers of the private spends of a block, as amounts. -/
def privateSequences (vtx : List CTransaction) : ℤ :=
  ((vtx.filter (·.hasZerocoinSpendInputs)).map (·.getZerocoinSpent)).sum

/-- The denominations of the stray spends of a block, in transactions with zerocoin spends. -/
def strayDenominations (lib : Libzerocoin) (vtx : List CTransaction) : ℤ :=
  ((vtx.filter (·.hasZerocoinSpendInputs)).map fun tx =>
    ((tx.vin.filter (·.isStraySpend)).map (statedDenomination lib)).sum).sum

lemma Hashes.sum_spendScripts (vin : List CTxIn) :
    ((vin.filter (·.hasSpendScript)).map (H.denominationAt lib)).sum
      = ((vin.filter (·.isAnyZerocoinSpend)).map (H.denominationAt lib)).sum
        + ((vin.filter (·.isStraySpend)).map (statedDenomination lib)).sum := by
  induction vin with
  | nil => rfl
  | cons txin vin ih =>
    by_cases hpub : txin.isZerocoinPublicSpend = true
    · have hno := Script.not_spend_of_publicSpend hpub
      have h1 : txin.hasSpendScript = true := by simp [CTxIn.hasSpendScript, hpub]
      have h2 : txin.isAnyZerocoinSpend = true := by simp [CTxIn.isAnyZerocoinSpend, hpub]
      have h3 : txin.isStraySpend = false := by simp [CTxIn.isStraySpend, hno]
      simp [h1, h2, h3, ih, add_assoc]
    simp only [Bool.not_eq_true] at hpub
    have hden : H.denominationAt lib txin = statedDenomination lib txin := by
      simp [Hashes.denominationAt, hpub]
    have h1 : txin.hasSpendScript = Script.isZerocoinSpend txin.scriptSig := by
      simp [CTxIn.hasSpendScript, hpub]
    have h2 : txin.isAnyZerocoinSpend = txin.isZerocoinSpend := by
      simp [CTxIn.isAnyZerocoinSpend, hpub]
    cases hs : Script.isZerocoinSpend txin.scriptSig with
    | false =>
      have hp : txin.isZerocoinSpend = false := by simp [CTxIn.isZerocoinSpend, hs]
      have h3 : txin.isStraySpend = false := by simp [CTxIn.isStraySpend, hs]
      simp [h1, h2, h3, hs, hp, ih]
    | true =>
      cases hp : txin.isZerocoinSpend with
      | true =>
        have h3 : txin.isStraySpend = false := by simp [CTxIn.isStraySpend, hp]
        simp [h1, h2, h3, hs, hp, ih, add_assoc]
      | false =>
        have h3 : txin.isStraySpend = true := by simp [CTxIn.isStraySpend, hs, hp]
        simp [h1, h2, h3, hs, hp, ih, hden, add_left_comm]

lemma Hashes.disconnectedMoney_eq (vtx : List CTransaction) :
    H.disconnectedMoney lib vtx
      = H.connectedMoney lib vtx + (privateSequences vtx - strayDenominations lib vtx) := by
  have key : (vtx.map (H.disconnectedIn lib)).sum + privateSequences vtx
      = (vtx.map (H.connectedIn lib)).sum + strayDenominations lib vtx := by
    induction vtx with
    | nil => rfl
    | cons tx vtx ih =>
      by_cases hz : tx.hasZerocoinSpendInputs = true
      · have hcb := CTransaction.not_coinBase_of_spend hz
        simp only [privateSequences, strayDenominations, List.map_cons, List.sum_cons,
          List.filter_cons, hz, if_true, Hashes.disconnectedIn, Hashes.connectedIn, hcb,
          Bool.false_eq_true, if_false, Hashes.sum_spendScripts] at ih ⊢
        omega
      · have heq : H.disconnectedIn lib tx = H.connectedIn lib tx := by
          simp [Hashes.disconnectedIn, Hashes.connectedIn, hz]
        simp only [privateSequences, strayDenominations, List.map_cons, List.sum_cons,
          List.filter_cons, hz, Bool.false_eq_true, if_false, heq] at ih ⊢
        omega
  unfold Hashes.disconnectedMoney Hashes.connectedMoney
  omega

/-! ### One block -/

/-- The heights of the main network at which `ConnectBlock` corrects the money supply. -/
def correctsMoney (consensus : ChainParams) (nHeight : ℤ) : Bool :=
  isWrappedSerialsHeight consensus nHeight ||
    (consensus.networkID == .MAIN && decide (nHeight = consensus.height_ZC_RecalcAccumulators))

/-- What a call may do to the undo data on disk: write fitting data for its block. -/
def UndoKept (H : Hashes) (block : CBlock) (pindex : CBlockIndex) (g g' : Global) : Prop :=
  ∀ h blockUndo, g'.undo h = some blockUndo →
    g.undo h = some blockUndo ∨ h = pindex.hash ∧ H.Fits block.vtx blockUndo

lemma UndoKept.refl (g : Global) : UndoKept H block pindex g g := fun _ _ h => .inl h

lemma writeUndo_eq_ok {blockUndo : CBlockUndo} (hfit : H.Fits block.vtx blockUndo)
    (h : writeUndo node g pindex blockUndo = .ok g') :
    g'.nMoneySupply = g.nMoneySupply ∧ UndoKept H block pindex g g' := by
  unfold writeUndo at h
  split at h
  · cases h
    exact ⟨rfl, .refl g⟩
  · simp only [bind_eq_ok, pure_eq_ok] at h
    obtain ⟨_, -, _, -, rfl⟩ := h
    refine ⟨rfl, ?_⟩
    intro hash bu hbu
    by_cases heq : hash = pindex.hash
    · subst heq
      simp only [Function.update_self, Option.some.injEq] at hbu
      exact .inr ⟨rfl, hbu ▸ hfit⟩
    · simp only [Function.update_of_ne heq] at hbu
      exact .inl hbu

lemma writeUndo_eq_error {blockUndo : CBlockUndo} {f : Fault}
    (h : writeUndo node g pindex blockUndo = .error (f, g')) : g' = g := by
  unfold writeUndo at h
  split at h
  · cases h
  · simp only [bind_eq_error, failIf_eq_error, Prod.mk.injEq] at h
    rcases h with ⟨-, -, rfl⟩ | ⟨-, -, ⟨-, -, rfl⟩ | ⟨-, -, h⟩⟩
    · rfl
    · rfl
    · cases h

lemma writeZerocoinDB_frame {s : ConnectLoop} :
    (∀ g', writeZerocoinDB node g s = .ok g' →
      g'.nMoneySupply = g.nMoneySupply ∧ g'.undo = g.undo) ∧
    ∀ f g', writeZerocoinDB node g s = .error (f, g') →
      g'.nMoneySupply = g.nMoneySupply ∧ g'.undo = g.undo := by
  refine ⟨?_, ?_⟩
  · intro g' h
    simp only [writeZerocoinDB, bind_eq_ok, pure_eq_ok] at h
    obtain ⟨_, -, _, -, _, -, rfl⟩ := h
    exact ⟨rfl, rfl⟩
  · intro f g' h
    simp only [writeZerocoinDB, bind_eq_error, failIf_eq_error, Prod.mk.injEq] at h
    rcases h with ⟨-, -, rfl⟩ | ⟨-, -, ⟨-, -, rfl⟩ | ⟨-, -, ⟨-, -, rfl⟩ | ⟨-, -, h⟩⟩⟩
    · exact ⟨rfl, rfl⟩
    · exact ⟨rfl, rfl⟩
    · exact ⟨rfl, rfl⟩
    · cases h

lemma connectMoney_eq {nHeight out in' : ℤ} (hc : correctsMoney node.params nHeight = false) :
    connectMoney node g nHeight out in'
      = { g with nMoneySupply := int64 (g.nMoneySupply + (out - in')) } := by
  simp only [correctsMoney, Bool.or_eq_false_iff] at hc
  simp [connectMoney, hc.1, hc.2]

lemma connectCommit_eq_ok {s : ConnectLoop} (hc : correctsMoney node.params pindex.nHeight = false)
    (hfit : H.Fits block.vtx ⟨s.vtxundo⟩)
    (h : connectCommit node g block pindex s = .ok (v', g')) :
    g'.nMoneySupply = int64 (g.nMoneySupply + (s.nValueOut - s.nValueIn)) ∧
      UndoKept H block pindex g g' ∧ v' = s.view.setBestBlock pindex.hash := by
  simp only [connectCommit, bind_eq_ok] at h
  obtain ⟨g₁, h1, g₂, h2, h⟩ := h
  obtain ⟨hm₁, hu₁⟩ := writeUndo_eq_ok hfit h1
  obtain ⟨hm₂, hu₂⟩ := writeZerocoinDB_frame.1 g₂ h2
  split at h
  · cases h
  · cases h
    rw [connectMoney_eq hc]
    refine ⟨by simp [hm₁, hm₂], ?_, rfl⟩
    intro hash bu hbu
    exact hu₁ hash bu (by simpa [hu₂] using hbu)

lemma connectCommit_eq_error {s : ConnectLoop} {f : Fault} (hfit : H.Fits block.vtx ⟨s.vtxundo⟩)
    (h : connectCommit node g block pindex s = .error (f, g')) :
    g'.nMoneySupply = g.nMoneySupply ∧ UndoKept H block pindex g g' := by
  simp only [connectCommit, bind_eq_error] at h
  rcases h with h | ⟨g₁, h1, h | ⟨g₂, h2, h⟩⟩
  · obtain rfl := writeUndo_eq_error h
    exact ⟨rfl, .refl g'⟩
  · obtain ⟨hm₁, hu₁⟩ := writeUndo_eq_ok hfit h1
    obtain ⟨hm₂, hu₂⟩ := writeZerocoinDB_frame.2 f g' h
    exact ⟨hm₂.trans hm₁, fun hash bu hbu => hu₁ hash bu (hu₂ ▸ hbu)⟩
  · obtain ⟨hm₁, hu₁⟩ := writeUndo_eq_ok hfit h1
    obtain ⟨hm₂, hu₂⟩ := writeZerocoinDB_frame.1 g₂ h2
    split at h
    · cases h
      exact ⟨hm₂.trans hm₁, fun hash bu hbu => hu₁ hash bu (hu₂ ▸ hbu)⟩
    · cases h

lemma connectChecks_money (hn : H.Hosts net lib node) (hb : H.Holds block)
    (hck : CheckedBlock node.params block) (hview : v.Every H.Genuine) {s : ConnectLoop}
    (h : connectChecks node g block pindex v = .ok s) :
    s.view.Every H.Genuine ∧ H.Fits block.vtx ⟨s.vtxundo⟩ ∧
      int64 (s.nValueOut - s.nValueIn) = int64 (H.connectedMoney lib block.vtx) := by
  obtain ⟨-, hl, -, -⟩ := connectChecks_eq_ok h
  have hm : node.params.MoneyOk := hn.params ▸ paramsOf_moneyOk net
  obtain ⟨h1, h2⟩ := Hashes.genuine_connectTxs hm hck.txs hl hview hb.txs
  have hmem : ∀ p ∈ block.vtx.zipIdx, p.1 ∈ block.vtx := fun p hp => List.fst_mem_of_mem_zipIdx hp
  obtain ⟨hout, hin⟩ := Hashes.sums_connected hn (fun p hp => hck.txs p.1 (hmem p hp)) hl hview
    fun p hp => hb.txs p.1 (hmem p hp)
  rw [ConnectEnv.map_fst_zipIdx_sum] at hout hin
  refine ⟨h1, h2, ?_⟩
  simp only [ConnectLoop.start_nValueOut, ConnectLoop.start_nValueIn, zero_add] at hout hin
  exact int64_sub_congr hout hin

/-- **A connected block.** -/
theorem connectBlock_money (hn : H.Hosts net lib node) (hb : H.Holds block)
    (hgen : block.hash ≠ node.params.hashGenesisBlock) (hv : Vouched node block fAlreadyChecked)
    (hview : v.Every H.Genuine) (hc : correctsMoney node.params pindex.nHeight = false)
    (h : connectBlock node g block pindex v false fAlreadyChecked = .ok (v', g')) :
    g'.nMoneySupply = int64 (g.nMoneySupply + H.connectedMoney lib block.vtx) ∧
      v'.Every H.Genuine ∧ UndoKept H block pindex g g' := by
  have hm : node.params.MoneyOk := hn.params ▸ paramsOf_moneyOk net
  obtain ⟨hcheck, -, s, hs, hcommit⟩ := connectBlock_eq_ok hgen h
  have hck := connectCheckBlock_eq_ok hm hv hcheck
  obtain ⟨hsv, hfit, hval⟩ := connectChecks_money hn hb hck hview hs
  simp only [Bool.false_eq_true, false_and, false_or, true_and] at hcommit
  obtain ⟨hmoney, hundo, rfl⟩ := connectCommit_eq_ok hc hfit hcommit
  refine ⟨?_, hsv, hundo⟩
  rw [hmoney]
  exact int64_add_congr rfl hval

/-- **A refused block.** -/
theorem connectBlock_refused (hn : H.Hosts net lib node) (hb : H.Holds block)
    (hv : Vouched node block fAlreadyChecked) (hview : v.Every H.Genuine) {f : Fault}
    (h : connectBlock node g block pindex v false fAlreadyChecked = .error (f, g')) :
    g'.nMoneySupply = g.nMoneySupply ∧ UndoKept H block pindex g g' := by
  have hm : node.params.MoneyOk := hn.params ▸ paramsOf_moneyOk net
  simp only [connectBlock, bind_eq_error, withGlobal_eq_ok, failIf_eq_error, failIf_eq_ok] at h
  rcases h with h | ⟨_, hcheck, ⟨-, h⟩ | ⟨_, -, h⟩⟩
  · obtain ⟨-, rfl⟩ := withGlobal_eq_error h
    exact ⟨rfl, .refl g'⟩
  · cases h
    exact ⟨rfl, .refl g⟩
  · split at h
    · cases h
    · simp only [bind_eq_error, withGlobal_eq_ok, Bool.false_eq_true, if_false] at h
      rcases h with h | ⟨s, hs, h⟩
      · obtain ⟨-, rfl⟩ := withGlobal_eq_error h
        exact ⟨rfl, .refl g'⟩
      · have hck := connectCheckBlock_eq_ok hm hv hcheck
        obtain ⟨-, hfit, -⟩ := connectChecks_money hn hb hck hview hs
        exact connectCommit_eq_error hfit h

/-- **An undone block.** -/
theorem disconnectBlock_money (hn : H.Hosts net lib node)
    (hview : v.Every H.Genuine)
    (hfit : ∀ blockUndo, g.undo pindex.hash = some blockUndo → H.Fits block.vtx blockUndo)
    {clean : Bool} (h : disconnectBlock node g block pindex v = .ok (clean, v', g')) :
    g'.nMoneySupply = int64 (g.nMoneySupply - H.disconnectedMoney lib block.vtx) ∧
      v'.Every H.Genuine ∧ g'.undo = g.undo := by
  simp only [disconnectBlock, bind_eq_ok, withGlobal_eq_ok] at h
  obtain ⟨_, -, blockUndo, hread, h⟩ := h
  have hbu : g.undo pindex.hash = some blockUndo := by
    unfold readUndo at hread
    split at hread
    · cases hread
    · next bu hg =>
      simp only [bind_eq_ok, pure_eq_ok] at hread
      obtain ⟨_, -, _, -, rfl⟩ := hread
      exact hg
  split at h
  · cases h
  · split at h
    · cases h
    · next s hl =>
      have hmem : ∀ p ∈ block.vtx.zipIdx.reverse, p ∈ block.vtx.zipIdx := by simp
      obtain ⟨h1, hout, hin⟩ := disconnectTxs_eq_ok hn hview
        (fun p hp txundo hu => fitsTx_of_fits (hfit _ hbu) (hmem p hp) hu) hl
      split at h
      · cases h
      · cases h
        refine ⟨?_, h1, rfl⟩
        simp only [List.map_reverse, List.sum_reverse, zero_add] at hout hin
        rw [ConnectEnv.map_fst_zipIdx_sum] at hout hin
        exact int64_sub_congr rfl (int64_sub_congr hout hin)

/-- **A block that cannot be undone.** -/
theorem disconnectBlock_refused {f : Fault} (hf : f.isReturn = true)
    (h : disconnectBlock node g block pindex v = .error (f, g')) :
    g'.nMoneySupply = g.nMoneySupply ∧ g'.undo = g.undo := by
  simp only [disconnectBlock, bind_eq_error, failIf_eq_error, Prod.mk.injEq] at h
  rcases h with ⟨-, -, rfl⟩ | ⟨_, -, h | ⟨blockUndo, -, h⟩⟩
  · exact ⟨rfl, rfl⟩
  · obtain ⟨-, rfl⟩ := withGlobal_eq_error h
    exact ⟨rfl, rfl⟩
  · split at h
    · cases h
      exact ⟨rfl, rfl⟩
    · split at h
      · cases h
        exact ⟨rfl, rfl⟩
      · split at h
        · cases h
          cases hf
        · cases h

/-! ### Runs -/

namespace ChainState

/-- The condition on a block: the sequence numbers of its private spends add up to the
denominations of its stray spends, as machine integers, and its height is not one at which the
supply is corrected. A block with neither kind of spend meets the first part. -/
structure Reversible (net : Network) (lib : Libzerocoin) (H : Hashes) (pindex : CBlockIndex) :
    Prop where
  balanced : int64 (privateSequences (H.vtxOf pindex.hash))
    = int64 (strayDenominations lib (H.vtxOf pindex.hash))
  uncorrected : correctsMoney (paramsOf net) pindex.nHeight = false

/-- A step that, if it connects a block, connects one that meets the condition. -/
def ReversibleStep (net : Network) (lib : Libzerocoin) (H : Hashes) (s t : ChainState) : Prop :=
  Step net lib H s t ∧ ∀ pindex, t.chain = pindex :: s.chain → Reversible net lib H pindex

/-- What the blocks of a chain are worth. -/
def chainMoney (lib : Libzerocoin) (H : Hashes) (hashes : List Uint256) : ℤ :=
  (hashes.map fun h => H.disconnectedMoney lib (H.vtxOf h)).sum

/-- The money supply less what the blocks of the active chain are worth. -/
def surplus (lib : Libzerocoin) (H : Hashes) (s : ChainState) : ℤ :=
  s.global.nMoneySupply - chainMoney lib H (s.chain.map (·.hash))

variable {s t s₀ : ChainState}

lemma connected_eq_disconnected (h : Reversible net lib H pindex) :
    int64 (H.connectedMoney lib (H.vtxOf pindex.hash))
      = int64 (H.disconnectedMoney lib (H.vtxOf pindex.hash)) := by
  have hzero : int64 (privateSequences (H.vtxOf pindex.hash)
      - strayDenominations lib (H.vtxOf pindex.hash)) = int64 0 := by
    rw [← sub_self (strayDenominations lib (H.vtxOf pindex.hash))]
    exact int64_sub_congr h.balanced rfl
  rw [Hashes.disconnectedMoney_eq, ← int64_add_int64, hzero, int64_add_int64, add_zero]

lemma Sound.of_undoKept (hs : s.Sound H) {coins : CoinsStack} {best : Uint256}
    {chain : List CBlockIndex} (hcoins : coins.Every H.Genuine) (hindex : pindex.hash = block.hash)
    (hb : H.Holds block) (hu : UndoKept H block pindex s.global g)
    (hm : int64 g.nMoneySupply = g.nMoneySupply) : Sound H ⟨coins, best, g, chain⟩ where
  coins := hcoins
  undo := by
    intro h bu hbu
    rcases hu h bu hbu with hold | ⟨rfl, hfit⟩
    · exact hs.undo h bu hold
    · rwa [hindex, hb.vtx]
  money := hm

/-- **What a step preserves.** -/
theorem surplus_step (hs : s.Sound H) (h : ReversibleStep net lib H s t) :
    t.Sound H ∧ int64 (t.surplus lib H) = int64 (s.surplus lib H) := by
  obtain ⟨hstep, hrev⟩ := h
  cases hstep with
  | connect hnode hblock hindex hgen hvouched hconnect hflush =>
    have hr := hrev _ rfl
    have hc := hr.uncorrected
    rw [← hnode.params] at hc
    obtain ⟨hm, hv, hu⟩ := connectBlock_money hnode hblock hgen hvouched hs.view hc hconnect
    refine ⟨hs.of_undoKept (hs.flush hv hflush) hindex hblock hu (by simp [hm]), ?_⟩
    have hmoney := connected_eq_disconnected hr
    rw [hindex, hblock.vtx] at hmoney
    simp only [surplus, chainMoney, hm, List.map_cons, List.sum_cons, hindex, hblock.vtx]
    rw [int64_int64_sub, ← int64_int64_sub, int64_add_congr rfl hmoney, int64_int64_sub]
    congr 1
    omega
  | connectFailed hnode hblock hindex hvouched hconnect hreturn =>
    obtain ⟨hm, hu⟩ := connectBlock_refused hnode hblock hvouched hs.view hconnect
    refine ⟨hs.of_undoKept hs.coins hindex hblock hu (by rw [hm]; exact hs.money), ?_⟩
    simp [surplus, hm]
  | disconnect hnode hblock hindex hchain hdisconnect hflush =>
    obtain ⟨hm, hv, hu⟩ :=
      disconnectBlock_money hnode hs.view (hs.fits hindex hblock) hdisconnect
    refine ⟨⟨hs.flush hv hflush, by rw [hu]; exact hs.undo, by simp [hm]⟩, ?_⟩
    simp only [surplus, chainMoney, hm, hchain, List.map_cons, List.sum_cons, hindex, hblock.vtx,
      int64_int64_sub]
    congr 1
    omega
  | disconnectFailed hnode hblock hindex hdisconnect hreturn =>
    obtain ⟨hm, hu⟩ := disconnectBlock_refused hreturn hdisconnect
    refine ⟨⟨hs.coins, by rw [hu]; exact hs.undo, by rw [hm]; exact hs.money⟩, ?_⟩
    simp [surplus, hm]
  | upkeep hop hst => exact ⟨⟨hs.coins.step hop hst, hs.undo, hs.money⟩, rfl⟩

/-- **What a run preserves.** -/
theorem surplus_run (hs : s₀.Sound H)
    (h : Relation.ReflTransGen (ReversibleStep net lib H) s₀ s) :
    s.Sound H ∧ int64 (s.surplus lib H) = int64 (s₀.surplus lib H) := by
  induction h with
  | refl => exact ⟨hs, rfl⟩
  | tail _ hstep ih =>
    obtain ⟨h1, h2⟩ := surplus_step ih.1 hstep
    exact ⟨h1, h2.trans ih.2⟩

end ChainState

/-! ### Concrete runs -/

namespace Concrete

/-- The empty coins view after the first block, as a chain state. -/
def startState : ChainState where
  coins := ⟨[∅], ⟨fun _ => none, by simp⟩⟩
  bestBlock := 2
  global := .initial
  chain := [firstIndex, genesisIndex]

/-- The mined block with nothing but its reward, and its coinbase. -/
def rewardHashes : Hashes where
  txOf := fun _ => coinBaseTx (50 * COIN)
  vtxOf := fun _ => [coinBaseTx (50 * COIN)]

/-- Connect a block on top of a state, and undo it. -/
def reorg (s : ChainState) (block : CBlock) : Option (ChainState × ChainState) := do
  let (v, g) ← (connectBlock mainNode s.global block secondIndex s.view false false).toOption
  let coins ← (s.flush v).toOption
  let t : ChainState := ⟨coins, v.getBestBlock, g, secondIndex :: s.chain⟩
  let (clean, v, g) ← (disconnectBlock mainNode t.global block secondIndex t.view).toOption
  if clean then
    let coins ← (t.flush v).toOption
    return (t, ⟨coins, v.getBestBlock, g, s.chain⟩)
  else none

lemma toOption_eq_some {ε α : Type} {x : Except ε α} {a : α} : x.toOption = some a ↔ x = .ok a := by
  cases x <;> simp [Except.toOption]

lemma reorg_steps {lib : Libzerocoin} {H : Hashes} {s t u : ChainState} {block : CBlock}
    (hn : H.Hosts .MAIN lib mainNode) (hb : H.Holds block) (hindex : secondIndex.hash = block.hash)
    (hgen : block.hash ≠ mainNode.params.hashGenesisBlock) (hf : block.fChecked = false)
    (h : reorg s block = some (t, u)) :
    ChainState.Step .MAIN lib H s t ∧ ChainState.Step .MAIN lib H t u ∧
      t.chain = secondIndex :: s.chain ∧ u.chain = s.chain := by
  simp only [reorg, Option.bind_eq_bind, Option.bind_eq_some_iff, toOption_eq_some,
    Prod.exists] at h
  obtain ⟨v, g, h1, coins, h2, clean, v', g', h3, h⟩ := h
  split at h
  · next hclean =>
    subst hclean
    simp only [Option.bind_eq_some_iff, toOption_eq_some] at h
    obtain ⟨coins', h4, h⟩ := h
    cases h
    refine ⟨.connect hn hb hindex hgen ?_ h1 h2, .disconnect hn hb hindex rfl h3 h4, rfl, rfl⟩
    intro hvouched
    simp [hf] at hvouched
  · cases h

end Concrete

/-! ### The money supply and the chain -/

namespace ChainState

variable {s t s₀ : ChainState}

/-- **The money supply follows the active chain.** In every run whose connected blocks all meet
the condition, two states with the same active chain have the same money supply; in particular a
block that is connected and undone again leaves no trace in it. -/
theorem nMoneySupply_of_active_chain (hs : s₀.Sound H)
    (h : Relation.ReflTransGen (ReversibleStep net lib H) s₀ s)
    (h' : Relation.ReflTransGen (ReversibleStep net lib H) s₀ t)
    (hchain : s.chain.map (·.hash) = t.chain.map (·.hash)) :
    s.global.nMoneySupply = t.global.nMoneySupply := by
  obtain ⟨hsound, hsur⟩ := surplus_run hs h
  obtain ⟨hsound', hsur'⟩ := surplus_run hs h'
  have heq := hsur.trans hsur'.symm
  rw [surplus, surplus, hchain] at heq
  rw [← hsound.money, ← hsound'.money]
  simpa using int64_add_congr heq
    (rfl : int64 (chainMoney lib H (t.chain.map (·.hash))) = int64 _)

open Concrete in
/-- A block with nothing but its reward is connected and undone. -/
theorem nMoneySupply_of_active_chain_reward :
    ∃ s t, ReversibleStep .MAIN mainNode.lib rewardHashes startState s ∧
      ReversibleStep .MAIN mainNode.lib rewardHashes s t ∧ s.chain ≠ startState.chain ∧
      t.chain = startState.chain ∧
      t.global.nMoneySupply = startState.global.nMoneySupply := by
  have hok : (reorg startState (secondBlock [coinBaseTx (50 * COIN)])).isSome = true := by
    decide
  obtain ⟨⟨s, t⟩, hst⟩ := Option.isSome_iff_exists.mp hok
  have hn : rewardHashes.Hosts .MAIN mainNode.lib mainNode :=
    ⟨rfl, rfl, fun _ _ _ h => by simp [mainNode, Node.idle] at h⟩
  have hb : rewardHashes.Holds (secondBlock [coinBaseTx (50 * COIN)]) :=
    ⟨rfl, by simp [secondBlock, rewardHashes]⟩
  obtain ⟨h1, h2, hs, ht⟩ := reorg_steps hn hb rfl (by decide) rfl hst
  have hsound : startState.Sound rewardHashes :=
    ⟨⟨by simp [startState, CCoinsMap.every_empty], by simp [startState]⟩,
      by simp [startState, Global.initial], by decide⟩
  have hr1 : ReversibleStep .MAIN mainNode.lib rewardHashes startState s := by
    refine ⟨h1, ?_⟩
    intro pindex hp
    rw [hs] at hp
    cases hp
    exact ⟨by decide, by decide⟩
  have hr2 : ReversibleStep .MAIN mainNode.lib rewardHashes s t := by
    refine ⟨h2, ?_⟩
    intro pindex hp
    have hlen := congrArg List.length hp
    simp only [hs, ht, List.length_cons] at hlen
    omega
  exact ⟨s, t, hr1, hr2, by simp [hs], ht,
    nMoneySupply_of_active_chain hsound (.tail (.single hr1) hr2) .refl (by rw [ht])⟩

end ChainState

open Concrete in
/-- A private spend of 5000 coins: connecting counts it twice and undoing once, so the money supply
is 5000 coins short afterwards. -/
theorem undone_private_spend_changes_supply :
    ∃ v g v' g', connectBlock mainNode .initial
        (secondBlock [coinBaseTx (50 * COIN), spendTx]) secondIndex emptyView false false
        = .ok (v, g) ∧
      disconnectBlock mainNode g (secondBlock [coinBaseTx (50 * COIN), spendTx]) secondIndex v
        = .ok (true, v', g') ∧
      g'.nMoneySupply = Global.initial.nMoneySupply - 5000 * COIN := by
  have hok : ((connectBlock mainNode .initial
      (secondBlock [coinBaseTx (50 * COIN), spendTx])
      secondIndex emptyView false false).toOption.bind
      fun r => (disconnectBlock mainNode r.2 (secondBlock [coinBaseTx (50 * COIN), spendTx])
        secondIndex r.1).toOption.map fun q => (q.1, q.2.2.nMoneySupply))
      = some (true, Global.initial.nMoneySupply - 5000 * COIN) := by
    decide +kernel
  simp only [Option.bind_eq_some_iff, Option.map_eq_some_iff, toOption_eq_some, Prod.exists,
    Prod.mk.injEq] at hok
  obtain ⟨v, g, h1, clean, v', g', h2, rfl, hm⟩ := hok
  exact ⟨v, g, v', g', h1, h2, hm⟩

end Agenor
