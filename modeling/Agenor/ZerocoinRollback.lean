import Agenor.ZerocoinSupply
import Agenor.ConnectStep

/-!
What a block that `ConnectBlock` refuses leaves behind in the zerocoin state.

Most refusals come before anything is written. The last check, of the supply counters, comes after
the batches of the zerocoin database, and it has already changed the counters when it fails. A write
that fails leaves behind what the writes before it have recorded.
-/

namespace Agenor

open Lib.Wrap Lib.Fallible

namespace ZerocoinSupply

variable {m m' : ZerocoinSupply} {node : Node} {block : CBlock} {nHeight : ℤ} {f : Fault}

/-! ### Blocks that can be read -/

/-- The mints and the spends of the transactions can be read. -/
structure Readable (node : Node) (vtx : List CTransaction) : Prop where
  mints : ∃ l, mintDenoms node vtx = .ok l
  spends : ∃ l, spendDenoms node vtx = .ok l

lemma mintDenomsOuts_isOk (node : Node) (txHash : Uint256) {outs : List (CTxOut × ℕ)}
    (h : ∀ p ∈ outs, p.1.isZerocoinMint = true → ∃ coin, txOutToPublicCoin p.1 = .ok coin) :
    ∃ l, mintDenomsOuts node txHash outs = .ok (l, true) := by
  induction outs with
  | nil => exact ⟨[], rfl⟩
  | cons p outs ih =>
    obtain ⟨l, hl⟩ := ih fun q hq => h q (List.mem_cons_of_mem _ hq)
    unfold mintDenomsOuts
    split
    · exact ⟨[], rfl⟩
    · by_cases hmint : p.1.isZerocoinMint = true
      · obtain ⟨coin, hcoin⟩ := h p List.mem_cons_self hmint
        simp only [hmint, hcoin, hl, Bool.not_true, Bool.false_eq_true, if_false]
        exact ⟨_, rfl⟩
      · exact ⟨l, by simp [hmint, hl]⟩

lemma mintDenoms_isOk {vtx : List CTransaction}
    (h : ∀ tx ∈ vtx, tx.hasZerocoinMintOutputs = true → ∀ out ∈ tx.vout,
      out.isZerocoinMint = true → ∃ coin, txOutToPublicCoin out = .ok coin) :
    ∃ l, mintDenoms node vtx = .ok l := by
  induction vtx with
  | nil => exact ⟨[], rfl⟩
  | cons tx vtx ih =>
    obtain ⟨l, hl⟩ := ih fun t ht => h t (List.mem_cons_of_mem _ ht)
    unfold mintDenoms
    split
    · exact ⟨l, hl⟩
    · next hmint =>
      simp only [Bool.or_eq_true, not_or, Bool.not_eq_eq_eq_not, Bool.not_true,
        Bool.not_eq_false] at hmint
      have houts : ∀ p ∈ tx.vout.zipIdx, p.1.isZerocoinMint = true →
          ∃ coin, txOutToPublicCoin p.1 = .ok coin := fun p hp =>
        h tx List.mem_cons_self hmint.1 p.1 (List.fst_mem_of_mem_zipIdx hp)
      obtain ⟨l₁, hl₁⟩ := mintDenomsOuts_isOk node tx.hash houts
      rw [hl₁, hl]
      exact ⟨l₁ ++ l, rfl⟩

lemma spendDenomsIns_isOk {vin : List CTxIn}
    (h : ∀ txin ∈ vin, txin.isAnyZerocoinSpend = true → txin.isZerocoinPublicSpend = false →
      ∃ spend, txInToZerocoinSpend node.lib txin = .ok spend) :
    ∃ l, spendDenomsIns node vin = .ok l := by
  induction vin with
  | nil => exact ⟨[], rfl⟩
  | cons txin vin ih =>
    obtain ⟨l, hl⟩ := ih fun i hi => h i (List.mem_cons_of_mem _ hi)
    unfold spendDenomsIns
    split
    · exact ⟨l, hl⟩
    · next hz =>
      have hany : txin.isAnyZerocoinSpend = true := by
        cases hs : txin.isZerocoinSpend <;> cases hp : txin.isZerocoinPublicSpend <;>
          simp_all [CTxIn.isAnyZerocoinSpend]
      have hfilter : ∃ b, hasInvalidSerial node txin = .ok b := by
        unfold hasInvalidSerial
        cases hp : txin.isZerocoinPublicSpend with
        | true => exact ⟨false, rfl⟩
        | false =>
          obtain ⟨spend, hs⟩ := h txin List.mem_cons_self hany hp
          rw [hs]
          exact ⟨_, rfl⟩
      obtain ⟨b, hb⟩ := hfilter
      rw [hb, hl]
      exact ⟨_, rfl⟩

lemma spendDenoms_isOk {vtx : List CTransaction}
    (h : ∀ tx ∈ vtx, tx.hasZerocoinSpendInputs = true → ∀ txin ∈ tx.vin,
      txin.isAnyZerocoinSpend = true → txin.isZerocoinPublicSpend = false →
      ∃ spend, txInToZerocoinSpend node.lib txin = .ok spend) :
    ∃ l, spendDenoms node vtx = .ok l := by
  induction vtx with
  | nil => exact ⟨[], rfl⟩
  | cons tx vtx ih =>
    obtain ⟨l, hl⟩ := ih fun t ht => h t (List.mem_cons_of_mem _ ht)
    unfold spendDenoms
    split
    · exact ⟨l, hl⟩
    · next hz =>
      obtain ⟨l₁, hl₁⟩ := spendDenomsIns_isOk (h tx List.mem_cons_self (by simpa using hz))
      rw [hl₁, hl]
      exact ⟨l₁ ++ l, rfl⟩

lemma addLoop_not_return {α : Type} (key : α → CoinDenomination) (amount : α → ℤ) {l : List α}
    (h : loop (fun m a => addSupply (amount a) m (key a)) m l = .error (f, m')) :
    f.isReturn = false := by
  induction l generalizing m with
  | nil => cases h
  | cons a l ih =>
    simp only [loop_cons, bind_eq_error] at h
    rcases h with h | ⟨m₁, -, h⟩
    · unfold addSupply at h
      split at h <;> cases h
      rfl
    · exact ih h

/-! ### The failsafe -/

/-- In some denomination the block spends more coins than there are and than it mints. -/
def Overdraws (node : Node) (block : CBlock) (nHeight : ℤ) (m : ZerocoinSupply) : Prop :=
  (∀ d ∈ minted node block nHeight, (m d).isSome) ∧
    Overdrawn (shift m (counts (minted node block nHeight))) (spent node block)

lemma Sane.nonneg_minted (hm : Sane m) (hb : block.serializeSize ≤ MAX_BLOCK_SIZE_CURRENT) :
    Nonneg (shift m (counts (minted node block nHeight))) := by
  intro d x hx
  obtain ⟨n, hn, rfl⟩ := Option.map_eq_some_iff.mp hx
  rw [hm.add_minted hb hn]
  have := (hm d n hn).1
  have := counts_nonneg (minted node block nHeight) d
  omega

lemma connectMintSupply_cases (nHeight : ℤ) (hm : Sane m) (hread : Readable node block.vtx) :
    (∀ d ∈ minted node block nHeight, (m d).isSome) ∧
        connectMintSupply node block nHeight m =
          .ok (shift m (counts (minted node block nHeight))) ∨
      ∃ f m', connectMintSupply node block nHeight m = .error (f, m') ∧ f.isReturn = false ∧
        ¬ ∀ d ∈ minted node block nHeight, (m d).isSome := by
  cases h : connectMintSupply node block nHeight m with
  | ok m₁ =>
    obtain ⟨hsome, rfl⟩ := connectMintSupply_eq_ok hm.inRange h
    exact .inl ⟨hsome, rfl⟩
  | error e =>
    obtain ⟨f, m'⟩ := e
    refine .inr ⟨f, m', rfl, ?_⟩
    obtain ⟨mints, hmints⟩ := hread.mints
    unfold connectMintSupply at h
    split at h
    · next hlt =>
      rw [hmints] at h
      have hloop : loop (addSupply 1) m mints = .error (f, m') := h
      refine ⟨addLoop_not_return id (fun _ => 1) hloop, fun hsome => ?_⟩
      have hminted : minted node block nHeight = mints := by
        simp [minted, hlt, hmints, Except.toOption]
      rw [hminted] at hsome
      rw [(addSupplies_eq_ok hm.inRange).mpr ⟨hsome, rfl⟩] at hloop
      cases hloop
    · cases h

lemma updateConnect_fails_iff {f : Fault}
    (hact : node.params.networkUpgradeActive nHeight .UPGRADE_ZC = true) (hm : Sane m)
    (hread : Readable node block.vtx) (hf : f.isReturn = true) :
    updateZAgenorupplyConnect node block nHeight m = .error (f, m') ↔
      (∀ d ∈ minted node block nHeight, (m d).isSome) ∧
        loop takeSupply (shift m (counts (minted node block nHeight))) (spent node block) =
          .error (f, m') := by
  obtain ⟨spends, hspends⟩ := hread.spends
  rw [spent_eq hspends]
  unfold updateZAgenorupplyConnect
  rw [hact, hspends]
  rcases connectMintSupply_cases nHeight hm hread with
    ⟨hsome, hok⟩ | ⟨f', m'', herr, hf', hnone⟩
  · rw [hok, and_iff_right hsome]
    simp only [Bool.not_true, Bool.false_eq_true, if_false, ok_bind, withSupply, bind_eq_error]
    refine ⟨fun h => h.resolve_right ?_, .inl⟩
    rintro ⟨m₂, -, h⟩
    unfold correctSupply at h
    split at h
    · rw [addLoop_not_return id _ h] at hf
      cases hf
    · cases h
  · rw [herr]
    refine iff_of_false (fun h => ?_) fun h => hnone h.1
    cases h
    rw [hf'] at hf
    cases hf

/-- **The failsafe.** The update answers `false` just when the block overdraws the counters, which
have changed by then. -/
theorem connect_failsafe (hact : node.params.networkUpgradeActive nHeight .UPGRADE_ZC = true)
    (hb : block.serializeSize ≤ MAX_BLOCK_SIZE_CURRENT) (hm : Sane m)
    (hread : Readable node block.vtx) :
    ((∃ f m', f.isReturn = true ∧
      updateZAgenorupplyConnect node block nHeight m = .error (f, m')) ↔
        Overdraws node block nHeight m) ∧
    ∀ f m', f.isReturn = true →
      updateZAgenorupplyConnect node block nHeight m = .error (f, m') → m' ≠ m := by
  constructor
  · rw [Overdraws, ← takeSupplies_fail_iff (inRange_shift m _) (hm.nonneg_minted hb)]
    constructor
    · rintro ⟨f, m', hf, h⟩
      obtain ⟨hsome, hloop⟩ := (updateConnect_fails_iff hact hm hread hf).mp h
      exact ⟨hsome, f, m', hloop, hf⟩
    · rintro ⟨hsome, f, m', hloop, hf⟩
      exact ⟨f, m', hf, (updateConnect_fails_iff hact hm hread hf).mpr ⟨hsome, hloop⟩⟩
  · rintro f m' hf h rfl
    obtain ⟨-, hloop⟩ := (updateConnect_fails_iff hact hm hread hf).mp h
    rcases takeSupplies_eq_error hloop with hno | ⟨d, n, hd, hneg⟩
    · rw [hno] at hf
      cases hf
    · have := (hm d n hd).1
      omega

end ZerocoinSupply

/-! ### What the loop collects -/

namespace CBlock

def hasZerocoinSpends (block : CBlock) : Bool := block.vtx.any (·.hasZerocoinSpendInputs)
def hasZerocoinMints (block : CBlock) : Bool := block.vtx.any (·.hasZerocoinMintOutputs)

end CBlock

namespace ConnectEnv

variable {env : ConnectEnv} {s s' : ConnectLoop} {tx : CTransaction} {g' : Global}

lemma connectSpendLoop_vSpends {vin : List CTxIn} (h : loop (env.connectSpend tx) s vin = .ok s') :
    s'.vSpends = [] ↔ s.vSpends = [] ∧ vin.any (·.isAnyZerocoinSpend) = false := by
  induction vin generalizing s with
  | nil =>
    simp only [loop_nil, Except.ok.injEq] at h
    simp [h]
  | cons txin vin ih =>
    simp only [loop_cons, bind_eq_ok] at h
    obtain ⟨s₁, h1, h⟩ := h
    rw [ih h, List.any_cons]
    rcases connectSpend_eq_ok h1 with ⟨hz, rfl⟩ | ⟨spend, hz, -, -, rfl⟩
    · simp [hz]
    · simp [hz]

lemma connectMintLoop_vMints {vMints vMints' : List (PublicCoin × Uint256)} {vout : List CTxOut}
    (h : loop (connectMint tx) vMints vout = .ok vMints') :
    vMints' = [] ↔ vMints = [] ∧ vout.any (·.isZerocoinMint) = false := by
  induction vout generalizing vMints with
  | nil =>
    simp only [loop_nil, Except.ok.injEq] at h
    simp [h]
  | cons out vout ih =>
    simp only [loop_cons, bind_eq_ok] at h
    obtain ⟨l, h1, h⟩ := h
    rw [ih h, List.any_cons]
    unfold connectMint at h1
    split at h1
    · next hno =>
      cases h1
      simp_all
    · next hyes =>
      split at h1
      · cases h1
      · cases h1
        simp_all

lemma connectTx_records {i : ℕ} (hm : env.node.params.MoneyOk) (hc : CheckedTx env.node.params tx)
    (h : env.connectTx s (tx, i) = .ok s') :
    (s'.vSpends = [] ↔ s.vSpends = [] ∧ tx.hasZerocoinSpendInputs = false) ∧
      (s'.vMints = [] ↔ s.vMints = [] ∧ tx.hasZerocoinMintOutputs = false) := by
  simp only [connectTx, bind_eq_ok] at h
  obtain ⟨-, -, -, -, s₁, h1, s₂, h2, s₃, h3, h4⟩ := h
  obtain ⟨⟨nFees, nValueIn, ok, v, -, rfl, -⟩, -⟩ := connectValueIn_eq_ok hm hc h3
  obtain ⟨txundo, view, -, rfl⟩ := connectOutputs_eq_ok hm hc h4
  have hmints : s₁.vSpends = s.vSpends ∧
      (s₁.vMints = [] ↔ s.vMints = [] ∧ tx.hasZerocoinMintOutputs = false) := by
    unfold connectMints at h1
    split at h1
    · simp only [bind_eq_ok, pure_eq_ok] at h1
      obtain ⟨-, -, vMints, hl, rfl⟩ := h1
      exact ⟨rfl, connectMintLoop_vMints hl⟩
    · next hno =>
      cases h1
      exact ⟨rfl, by simp [hno]⟩
  have hspends : s₂.vMints = s₁.vMints ∧
      (s₂.vSpends = [] ↔ s₁.vSpends = [] ∧ tx.hasZerocoinSpendInputs = false) := by
    refine ⟨?_, ?_⟩
    · obtain ⟨⟨nSigOps, v₂, vSpends, nValueIn₂, -, rfl, -⟩, -⟩ := connectKind_eq_ok h2
      rfl
    · unfold connectKind at h2
      split at h2
      · exact connectSpendLoop_vSpends (connectSpends_eq_ok h2)
      · next hz =>
        have hz : tx.hasZerocoinSpendInputs = false := by simpa using hz
        split at h2
        · next hcb =>
          obtain ⟨-, nSigOps, view, -, rfl⟩ := connectOrdinary_eq_ok (by simpa using hcb) hz h2
          simp [hz]
        · cases h2
          simp [hz]
  exact ⟨hmints.1 ▸ hspends.2, hspends.1 ▸ hmints.2⟩

lemma connectTxs_records {l : List (CTransaction × ℕ)} (hm : env.node.params.MoneyOk)
    (hc : ∀ p ∈ l, CheckedTx env.node.params p.1) (hl : loop env.connectTx s l = .ok s') :
    (s'.vSpends = [] ↔ s.vSpends = [] ∧ l.any (·.1.hasZerocoinSpendInputs) = false) ∧
      (s'.vMints = [] ↔ s.vMints = [] ∧ l.any (·.1.hasZerocoinMintOutputs) = false) := by
  induction l generalizing s with
  | nil =>
    simp only [loop_nil, Except.ok.injEq] at hl
    simp [hl]
  | cons p l ih =>
    simp only [loop_cons, bind_eq_ok] at hl
    obtain ⟨s₁, h1, hl⟩ := hl
    obtain ⟨i1, i2⟩ := ih (fun q hq => hc q (List.mem_cons_of_mem _ hq)) hl
    obtain ⟨p1, p2⟩ := connectTx_records hm (hc p List.mem_cons_self) h1
    rw [i1, i2, p1, p2]
    simp [and_assoc]

lemma readable_of_connectTxs {vtx : List CTransaction} (hm : env.node.params.MoneyOk)
    (hc : ∀ tx ∈ vtx, CheckedTx env.node.params tx)
    (hl : loop env.connectTx s vtx.zipIdx = .ok s') :
    ZerocoinSupply.Readable env.node vtx := by
  have hconn : ∀ tx ∈ vtx, ∃ s i s', env.Connected s tx i s' := by
    intro tx htx
    obtain ⟨i, hi⟩ := List.mem_iff_getElem?.mp htx
    obtain ⟨t, t', hstep⟩ := loop_forall hl
      ((List.mem_zipIdx_iff_getElem? (x := (tx, i))).mpr hi)
    exact ⟨t, i, t', connectTx_eq_ok hm (hc tx htx) hstep⟩
  constructor
  · refine ZerocoinSupply.mintDenoms_isOk fun tx htx => ?_
    obtain ⟨_, _, _, hconn⟩ := hconn tx htx
    exact hconn.mints
  · refine ZerocoinSupply.spendDenoms_isOk fun tx htx hz txin hin hany hpub => ?_
    obtain ⟨_, _, _, hconn⟩ := hconn tx htx
    obtain ⟨⟨spend, hspend⟩, -⟩ := hconn.spends hz txin hin hany
    rw [spendOf, hpub] at hspend
    exact ⟨spend, hspend⟩

/-! ### Another database -/

lemma connectTx_withGlobal (hnone : ∀ n, isSerialInBlockchain env.node g' n = false)
    {p : CTransaction × ℕ} (h : env.connectTx s p = .ok s') :
    connectTx { env with global := g' } s p = .ok s' := by
  have hspend : ∀ tx s txin s', env.connectSpend tx s txin = .ok s' →
      connectSpend { env with global := g' } tx s txin = .ok s' := by
    intro tx s txin s' h
    unfold connectSpend at h ⊢
    split
    · next hz =>
      rw [if_pos hz] at h
      exact h
    · next hz =>
      rw [if_neg hz] at h
      simp only [bind_eq_ok, failIf_eq_ok, pure_eq_ok, Bool.not_eq_eq_eq_not, Bool.not_false,
        contextualCheckZerocoinSpend, Bool.and_eq_true] at h ⊢
      obtain ⟨u, henf, spend, hs, u', ⟨hcheck, -⟩, rfl⟩ := h
      exact ⟨u, henf, spend, hs, u', ⟨hcheck, by simp [hnone]⟩, rfl⟩
  have hloop : ∀ tx (vin : List CTxIn) s s', loop (env.connectSpend tx) s vin = .ok s' →
      loop (connectSpend { env with global := g' } tx) s vin = .ok s' := by
    intro tx vin
    induction vin with
    | nil => exact fun _ _ => id
    | cons txin vin ih =>
      intro s s' h
      simp only [loop_cons, bind_eq_ok] at h ⊢
      obtain ⟨s₁, h1, h⟩ := h
      exact ⟨s₁, hspend _ _ _ _ h1, ih _ _ h⟩
  simp only [connectTx, bind_eq_ok] at h ⊢
  obtain ⟨u, h1, u', h2, s₁, h3, s₂, h4, s₃, h5, h6⟩ := h
  refine ⟨u, h1, u', h2, s₁, h3, s₂, ?_, s₃, h5, h6⟩
  unfold connectKind at h4 ⊢
  split
  · next hz =>
    rw [if_pos hz] at h4
    unfold connectSpends at h4 ⊢
    split
    · next n hn =>
      simp only [hn, bind_eq_ok] at h4 ⊢
      obtain ⟨v, h4, h5⟩ := h4
      exact ⟨v, h4, hloop _ _ _ _ h5⟩
    · next hn =>
      simp only [hn] at h4 ⊢
      exact hloop _ _ _ _ h4
  · next hz =>
    rw [if_neg hz] at h4
    exact h4

end ConnectEnv

/-! ### The writes -/

/-- The zerocoin database and the supply counters are the same. -/
def SameZerocoinState (g g' : Global) : Prop :=
  g'.zerocoinDB = g.zerocoinDB ∧ g'.mapZerocoinSupply = g.mapZerocoinSupply

/-- Whether the writes of the zerocoin database and the transaction index that the block needs
succeed. -/
structure AllWritten (node : Node) (block : CBlock) : Prop where
  spends : block.hasZerocoinSpends = true → node.writeCoinSpendBatch = true
  mints : block.hasZerocoinMints = true → node.writeCoinMintBatch = true
  index : node.fTxIndex = true → node.writeTxIndex = true

/-- A write fails after another one has recorded spends or mints. -/
def AbortsBetweenWrites (node : Node) (block : CBlock) : Prop :=
  block.hasZerocoinSpends = true ∧ node.writeCoinSpendBatch = true ∧
      block.hasZerocoinMints = true ∧ node.writeCoinMintBatch = false ∨
    (block.hasZerocoinSpends = true ∨ block.hasZerocoinMints = true) ∧
      (block.hasZerocoinSpends = true → node.writeCoinSpendBatch = true) ∧
      (block.hasZerocoinMints = true → node.writeCoinMintBatch = true) ∧
      node.fTxIndex = true ∧ node.writeTxIndex = false

variable {net : Network} {node : Node} {g g' : Global} {block : CBlock} {pindex : CBlockIndex}
  {view v' : CCoinsViewCache} {fAlreadyChecked : Bool} {f : Fault} {s : ConnectLoop}

lemma AbortsBetweenWrites.not_allWritten (h : AbortsBetweenWrites node block) :
    ¬ AllWritten node block := by
  intro hall
  rcases h with ⟨-, -, hmints, hfail⟩ | ⟨-, -, -, hindex, hfail⟩
  · simp [hall.mints hmints] at hfail
  · simp [hall.index hindex] at hfail

/-- The undo data are there or can be written. -/
def undoWritten (node : Node) (g : Global) (pindex : CBlockIndex) : Bool :=
  (g.undo pindex.hash).isSome || node.findUndoPos && node.undoWriteToDisk

lemma writeUndo_zerocoin {blockundo : CBlockUndo} (h : writeUndo node g pindex blockundo = .ok g') :
    SameZerocoinState g g' ∧ undoWritten node g pindex = true := by
  unfold writeUndo at h
  split at h
  · next hu =>
    cases h
    exact ⟨⟨rfl, rfl⟩, by simp [undoWritten, hu]⟩
  · simp only [bind_eq_ok, pure_eq_ok, failIf_eq_ok, Bool.not_eq_eq_eq_not, Bool.not_false] at h
    obtain ⟨_, h1, _, h2, rfl⟩ := h
    exact ⟨⟨rfl, rfl⟩, by simp [undoWritten, h1, h2]⟩

lemma writeUndo_refused {blockundo : CBlockUndo}
    (h : writeUndo node g pindex blockundo = .error (f, g')) : g' = g := by
  unfold writeUndo at h
  split at h
  · cases h
  · simp only [bind_eq_error, failIf_eq_error, Prod.mk.injEq] at h
    rcases h with ⟨-, -, rfl⟩ | ⟨-, -, ⟨-, -, rfl⟩ | ⟨-, -, h⟩⟩
    · rfl
    · rfl
    · cases h

lemma writeUndo_isOk (blockundo : CBlockUndo) (h : undoWritten node g pindex = true) :
    ∃ g', writeUndo node g pindex blockundo = .ok g' := by
  unfold writeUndo
  by_cases hu : (g.undo pindex.hash).isSome = true
  · exact ⟨g, if_pos hu⟩
  · simp only [undoWritten, hu, Bool.false_or, Bool.and_eq_true] at h
    simp [hu, h, failIf, bind, Except.bind, pure, Except.pure]

lemma isReturn_redos (f : Fault) (level code : ℕ) (reason : String) :
    (f.redos level code reason).isReturn = f.isReturn := by
  cases f <;> rfl

lemma foldl_update_ne_none {α : Type} (key value : α → Uint256) {l : List α} (hl : l ≠ [])
    (m : Uint256 → Option Uint256) :
    (l.foldl (fun m p => Function.update m (key p) (some (value p))) m) ≠ fun _ => none := by
  obtain ⟨l, p, rfl⟩ := (List.eq_nil_or_concat l).resolve_left hl
  intro h
  have := congrFun h (key p)
  simp at this

lemma writeSpends_nil (db : CZerocoinDB) (lib : Libzerocoin) : db.writeSpends lib [] = db := rfl

lemma writeMints_nil (db : CZerocoinDB) (lib : Libzerocoin) : db.writeMints lib [] = db := rfl

/-- A block has collected its spends and its mints. -/
structure CollectedFrom (block : CBlock) (s : ConnectLoop) : Prop where
  spends : s.vSpends = [] ↔ block.hasZerocoinSpends = false
  mints : s.vMints = [] ↔ block.hasZerocoinMints = false

/-- The database after both batches. -/
def batchesWritten (node : Node) (g : Global) (s : ConnectLoop) : Global :=
  { g with
    zerocoinDB := (g.zerocoinDB.writeSpends node.lib s.vSpends).writeMints node.lib s.vMints }

lemma batchesWritten_ne (hs : CollectedFrom block s)
    (hany : block.hasZerocoinSpends = true ∨ block.hasZerocoinMints = true)
    (hdb : g.zerocoinDB = ⟨fun _ => none, fun _ => none⟩) :
    (batchesWritten node g s).zerocoinDB ≠ g.zerocoinDB := by
  rw [hdb]
  intro heq
  rcases hany with h | h
  · have hne : s.vSpends ≠ [] := fun hnil => by simp [hs.spends.mp hnil] at h
    exact foldl_update_ne_none _ _ hne _ (congrArg CZerocoinDB.spends heq)
  · have hne : s.vMints ≠ [] := fun hnil => by simp [hs.mints.mp hnil] at h
    exact foldl_update_ne_none _ _ hne _ (congrArg CZerocoinDB.mints heq)

lemma CollectedFrom.spends_isEmpty (hs : CollectedFrom block s) :
    s.vSpends.isEmpty = !block.hasZerocoinSpends := by
  rw [Bool.eq_iff_iff, List.isEmpty_iff, hs.spends, Bool.not_eq_true']

lemma CollectedFrom.mints_isEmpty (hs : CollectedFrom block s) :
    s.vMints.isEmpty = !block.hasZerocoinMints := by
  rw [Bool.eq_iff_iff, List.isEmpty_iff, hs.mints, Bool.not_eq_true']

lemma writeZerocoinDB_eq_ok (hs : CollectedFrom block s) :
    writeZerocoinDB node g s = .ok g' ↔ AllWritten node block ∧ g' = batchesWritten node g s := by
  simp only [writeZerocoinDB, hs.spends_isEmpty, hs.mints_isEmpty, bind_eq_ok, failIf_eq_ok,
    pure_eq_ok, Bool.not_not, Bool.and_eq_false_imp, Bool.not_eq_eq_eq_not, Bool.not_false]
  constructor
  · rintro ⟨_, h1, _, h2, _, h3, rfl⟩
    exact ⟨⟨h1, h2, h3⟩, rfl⟩
  · rintro ⟨⟨h1, h2, h3⟩, rfl⟩
    exact ⟨(), h1, (), h2, (), h3, rfl⟩

lemma writeZerocoinDB_eq_error (hs : CollectedFrom block s)
    (h : writeZerocoinDB node g s = .error (f, g')) :
    f.isReturn = true ∧ g'.mapZerocoinSupply = g.mapZerocoinSupply ∧
      (¬ AbortsBetweenWrites node block ∧ g'.zerocoinDB = g.zerocoinDB ∨
        AbortsBetweenWrites node block ∧
          (g.zerocoinDB = ⟨fun _ => none, fun _ => none⟩ → g'.zerocoinDB ≠ g.zerocoinDB)) := by
  simp only [writeZerocoinDB, hs.spends_isEmpty, hs.mints_isEmpty, bind_eq_error, failIf_eq_error,
    failIf_eq_ok, Bool.not_not, Bool.and_eq_false_imp, Bool.and_eq_true, Bool.not_eq_eq_eq_not,
    Bool.not_true, Bool.not_false, Prod.mk.injEq] at h
  rcases h with ⟨⟨hsp, hfail⟩, rfl, rfl⟩ | ⟨_, hspends, ⟨⟨hmi, hfail⟩, rfl, rfl⟩ |
    ⟨_, hmints, ⟨⟨hidx, hfail⟩, rfl, rfl⟩ | ⟨_, -, h⟩⟩⟩
  · -- the first write: nothing has been recorded
    refine ⟨rfl, rfl, .inl ⟨?_, rfl⟩⟩
    rintro (⟨-, hok, -⟩ | ⟨-, hok, -⟩)
    · simp [hfail] at hok
    · simp [hfail] at hok
      simp [hok] at hsp
  · -- the second one: the spends have been recorded
    refine ⟨rfl, rfl, ?_⟩
    by_cases hsp : block.hasZerocoinSpends = true
    · refine .inr ⟨.inl ⟨hsp, hspends hsp, hmi, hfail⟩, fun hdb heq => ?_⟩
      have hne : s.vSpends ≠ [] := fun hnil => by simp [hs.spends.mp hnil] at hsp
      exact foldl_update_ne_none _ _ hne _
        ((congrArg CZerocoinDB.spends heq).trans (congrArg CZerocoinDB.spends hdb))
    · have hnil : s.vSpends = [] := hs.spends.mpr (by simpa using hsp)
      refine .inl ⟨?_, by simp [hnil, writeSpends_nil]⟩
      rintro (⟨hyes, -⟩ | ⟨-, -, hok, -⟩)
      · exact hsp hyes
      · simp [hok hmi] at hfail
  · -- the index: the spends and the mints have been recorded
    refine ⟨rfl, rfl, ?_⟩
    by_cases hany : block.hasZerocoinSpends = true ∨ block.hasZerocoinMints = true
    · exact .inr ⟨.inr ⟨hany, hspends, hmints, hidx, hfail⟩, batchesWritten_ne hs hany⟩
    · have hno := hany
      rw [not_or, Bool.not_eq_true, Bool.not_eq_true] at hno
      refine .inl ⟨?_, by simp [hs.spends.mpr hno.1, hs.mints.mpr hno.2, writeSpends_nil,
        writeMints_nil]⟩
      rintro (⟨hyes, -⟩ | ⟨hyes, -⟩)
      · exact hany (.inl hyes)
      · exact hany hyes
  · cases h
/-! ### Concrete runs -/

namespace Concrete

/-- The hash of a transaction that has only the outputs of `stakeTx`. -/
def stakeOutsHash : Uint256 := 0x495dce69496663281ed36615dcad32c384662d2a87299db385d6bb3e5deb658b

/-- A coinstake that spends one private coin of denomination 1. -/
def stakeTx : CTransaction :=
  ⟨21, [⟨COutPoint.null, spendScript [1, 0, 0, 0]
      [139, 101, 235, 93, 62, 187, 214, 133, 179, 157, 41, 135, 42, 45, 102, 132, 195, 50, 173, 220,
        21, 102, 211, 30, 40, 99, 102, 73, 105, 206, 93, 73] 1 1, 1⟩],
    [⟨0, []⟩, ⟨COIN, [Script.OP_1]⟩]⟩

/-- A staked block of the regression test network at height 300, the first with zerocoin. -/
def stakeBlock : CBlock :=
  ⟨301, 300, 0, 1500018000, 0, [emptyCoinBaseTx, stakeTx], [], false⟩

def stakeNode : Node := .idle regTestParams (.simple stakeOutsHash) (chainTo 299)

/-- So many coins of denomination 1 are in circulation. -/
def supplyOfOnes (n : ℤ) : Global :=
  { Global.initial with
    mapZerocoinSupply := fun d =>
      if d = .ZQ_ERROR then none else if d = .ZQ_ONE then some n else some 0 }

/-- `ConnectBlock` on the staked block, with no coins and so many of denomination 1 in
circulation. -/
def connectStake (n : ℤ) : Except (Fault × Global) (CCoinsViewCache × Global) :=
  connectBlock stakeNode (supplyOfOnes n) stakeBlock (indexAt 300) (.ofView ⟨fun _ => none, 300⟩)
    false false

lemma sane_supplyOfOnes {n : ℤ} (h0 : 0 ≤ n) (h1 : n < 2 ^ 62) :
    ZerocoinSupply.Sane (supplyOfOnes n).mapZerocoinSupply := by
  intro d k hk
  simp only [supplyOfOnes] at hk
  split_ifs at hk
  · cases hk
    exact ⟨h0, h1⟩
  · cases hk
    exact ⟨le_rfl, by norm_num⟩

end Concrete

/-! ### The zerocoin state -/

/-- On some chain the block gets as far as the zerocoin writes: there are coins and a database with
which it passes the checks and has its undo data written. -/
def Connectable (node : Node) (block : CBlock) (pindex : CBlockIndex) (fAlreadyChecked : Bool) :
    Prop :=
  connectCheckBlock node block false fAlreadyChecked = .ok () ∧
    ∃ g view s, (pindex.pprev.map (·.hash)).getD 0 = view.getBestBlock ∧
      connectChecks node g block pindex view = .ok s ∧ undoWritten node g pindex = true

lemma any_zipIdx (l : List CTransaction) (P : CTransaction → Bool) :
    l.zipIdx.any (fun p => P p.1) = l.any P := by
  conv_rhs => rw [← List.zipIdx_map_fst 0 l, List.any_map]
  rfl

open ConnectEnv in
lemma collected_of_connectChecks (hm : node.params.MoneyOk) (hb : CheckedBlock node.params block)
    (hs : connectChecks node g block pindex view = .ok s) :
    CollectedFrom block s ∧ ZerocoinSupply.Readable node block.vtx := by
  have hl := (connectChecks_eq_ok hs).2.1
  have hc : ∀ p ∈ block.vtx.zipIdx, CheckedTx node.params p.1 :=
    fun p hp => hb.txs p.1 (List.fst_mem_of_mem_zipIdx hp)
  obtain ⟨hspends, hmints⟩ := connectTxs_records hm hc hl
  rw [any_zipIdx] at hspends hmints
  exact ⟨⟨hspends.trans (and_iff_right rfl), hmints.trans (and_iff_right rfl)⟩,
    readable_of_connectTxs hm hb.txs hl⟩

lemma connectChecks_withGlobal (hdb : g'.zerocoinDB = ⟨fun _ => none, fun _ => none⟩)
    (hs : connectChecks node g block pindex view = .ok s) :
    connectChecks node g' block pindex view = .ok s := by
  have hnone : ∀ n, isSerialInBlockchain node g' n = false := fun n => by
    simp [isSerialInBlockchain, CZerocoinDB.readCoinSpend, hdb]
  have hloop : ∀ (l : List (CTransaction × ℕ)) s s',
      loop (connectEnv node g block pindex).connectTx s l = .ok s' →
      loop (connectEnv node g' block pindex).connectTx s l = .ok s' := by
    intro l
    induction l with
    | nil => exact fun _ _ => id
    | cons p l ih =>
      intro s s' h
      simp only [loop_cons, bind_eq_ok] at h ⊢
      obtain ⟨s₁, h1, h⟩ := h
      exact ⟨s₁, ConnectEnv.connectTx_withGlobal hnone h1, ih _ _ h⟩
  simp only [connectChecks, bind_eq_ok] at hs ⊢
  obtain ⟨u, hp, s', hl, hrest⟩ := hs
  exact ⟨u, hp, s', hloop _ _ _ hl, hrest⟩

lemma connectBlock_eq_commit (hgen : block.hash ≠ node.params.hashGenesisBlock)
    (hcheck : connectCheckBlock node block false fAlreadyChecked = .ok ())
    (hbest : (pindex.pprev.map (·.hash)).getD 0 = view.getBestBlock)
    (hs : connectChecks node g block pindex view = .ok s) :
    connectBlock node g block pindex view false fAlreadyChecked =
      connectCommit node g block pindex s := by
  have hbest' : ((pindex.pprev.map (·.hash)).getD 0 != view.getBestBlock) = false := by
    rw [hbest, bne_self_eq_false]
  simp only [connectBlock, hcheck, hbest', hs, withGlobal, ok_bind]
  rw [if_neg hgen]
  rfl

lemma connectBlock_fails (hgen : block.hash ≠ node.params.hashGenesisBlock)
    (h : connectBlock node g block pindex view false fAlreadyChecked = .error (f, g'))
    (hf : f.isReturn = true) :
    g' = g ∨ connectCheckBlock node block false fAlreadyChecked = .ok () ∧
      (pindex.pprev.map (·.hash)).getD 0 = view.getBestBlock ∧
      ∃ s, connectChecks node g block pindex view = .ok s ∧
        connectCommit node g block pindex s = .error (f, g') := by
  simp only [connectBlock, bind_eq_error, withGlobal_eq_ok, failIf_eq_error, failIf_eq_ok,
    bne_eq_false_iff_eq] at h
  rcases h with h | ⟨_, hcheck, ⟨-, h⟩ | ⟨_, hbest, h⟩⟩
  · exact .inl (withGlobal_eq_error h).2
  · cases h
    cases hf
  · rw [if_neg hgen] at h
    simp only [bind_eq_error, withGlobal_eq_ok, Bool.false_eq_true, if_false] at h
    rcases h with h | ⟨s, hs, h⟩
    · exact .inl (withGlobal_eq_error h).2
    · exact .inr ⟨hcheck, hbest, s, hs, h⟩

lemma sameZerocoinState_of_refused (hm : node.params.MoneyOk)
    (hact : node.params.networkUpgradeActive pindex.nHeight .UPGRADE_ZC = true)
    (hgen : block.hash ≠ node.params.hashGenesisBlock)
    (hv : Vouched node block fAlreadyChecked)
    (hsane : ZerocoinSupply.Sane g.mapZerocoinSupply)
    (hcond : Connectable node block pindex fAlreadyChecked → ¬ AbortsBetweenWrites node block ∧
      (AllWritten node block →
        ¬ ZerocoinSupply.Overdraws node block pindex.nHeight g.mapZerocoinSupply))
    (h : connectBlock node g block pindex view false fAlreadyChecked = .error (f, g'))
    (hf : f.isReturn = true) : SameZerocoinState g g' := by
  rcases connectBlock_fails hgen h hf with rfl | ⟨hcheck, hbest, s, hs, h⟩
  · exact ⟨rfl, rfl⟩
  · have hb := connectCheckBlock_eq_ok hm hv hcheck
    obtain ⟨hcol, hread⟩ := collected_of_connectChecks hm hb hs
    simp only [connectCommit, bind_eq_error] at h
    rcases h with h | ⟨g₁, hg₁, h⟩
    · obtain rfl := writeUndo_refused h
      exact ⟨rfl, rfl⟩
    · obtain ⟨⟨hdb₁, hsup₁⟩, hundo⟩ := writeUndo_zerocoin hg₁
      obtain ⟨hnot, hcover⟩ := hcond ⟨hcheck, g, view, s, hbest, hs, hundo⟩
      rcases h with h | ⟨g₂, hw, h⟩
      · obtain ⟨-, hsup, ⟨-, hdb⟩ | ⟨htorn, -⟩⟩ := writeZerocoinDB_eq_error hcol h
        · exact ⟨hdb.trans hdb₁, hsup.trans hsup₁⟩
        · exact absurd htorn hnot
      · obtain ⟨hall, rfl⟩ := (writeZerocoinDB_eq_ok hcol).mp hw
        have hsup₂ : (batchesWritten node g₁ s).mapZerocoinSupply = g.mapZerocoinSupply := hsup₁
        rw [hsup₂] at h
        split at h
        · next f₀ m' hup =>
          cases h
          rw [isReturn_redos] at hf
          exact absurd ((ZerocoinSupply.connect_failsafe hact hb.size hsane hread).1.mp
            ⟨f₀, m', hf, hup⟩) (hcover hall)
        · cases h

lemma disconnect_of_connectBlock (hm : node.params.MoneyOk)
    (hgen : block.hash ≠ node.params.hashGenesisBlock)
    (hv : Vouched node block fAlreadyChecked)
    (hsane : ZerocoinSupply.Sane g.mapZerocoinSupply) {r : CCoinsViewCache × Global}
    (h : connectBlock node g block pindex view false fAlreadyChecked = .ok r) :
    ∃ m', updateZAgenorupplyConnect node block pindex.nHeight g.mapZerocoinSupply = .ok m' ∧
      updateZAgenorupplyDisconnect node block pindex.nHeight m' = .ok g.mapZerocoinSupply := by
  obtain ⟨hcheck, -, s, hs, hcommit⟩ := connectBlock_eq_ok hgen h
  have hb := connectCheckBlock_eq_ok hm hv hcheck
  obtain ⟨hcol, -⟩ := collected_of_connectChecks hm hb hs
  simp only [Bool.false_eq_true, false_and, false_or, true_and, connectCommit, bind_eq_ok]
    at hcommit
  obtain ⟨g₁, h1, g₂, h2, hcommit⟩ := hcommit
  obtain ⟨⟨-, hsup₁⟩, -⟩ := writeUndo_zerocoin h1
  obtain ⟨-, rfl⟩ := (writeZerocoinDB_eq_ok hcol).mp h2
  have hsup₂ : (batchesWritten node g₁ s).mapZerocoinSupply = g.mapZerocoinSupply := hsup₁
  rw [hsup₂] at hcommit
  split at hcommit
  · cases hcommit
  · next m' hup => exact ⟨m', hup, ZerocoinSupply.disconnect_connect hb.size hsane hup⟩

end Agenor
