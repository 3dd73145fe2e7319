import Agenor.Bloom
import Agenor.ConnectBlock

/-!
Scripts that are read at a fixed offset.

A mint is recognised by its first byte and read from its seventh on, a spend is recognised by its
first byte and read from its 45th on, and nothing looks at the length of the script. In
`ConnectBlock` and in the filters of light clients the range lies inside the script just when the
script is long enough for its kind.
-/

namespace Agenor

open Lib.Fallible

/-! ### Mints in `ConnectBlock` -/

/-- The failure of a mint that is read past its end. -/
def shortMint : Fault := .outOfRange .scriptOffset

variable {site : SliceSite}

lemma Fault.redos_ne {f : Fault} {level code : ℕ} {reason : String} (h : f ≠ .outOfRange site) :
    f.redos level code reason ≠ .outOfRange site := by
  cases f with
  | dos => simp [Fault.redos]
  | fail => simp [Fault.redos]
  | abortNode => simp [Fault.redos]
  | throws => simp [Fault.redos]
  | assertion => simp [Fault.redos]
  | outOfRange => exact h

lemma txOutToPublicCoin_avoids {out : CTxOut}
    (h : site = .scriptOffset → 6 ≤ out.scriptPubKey.length) :
    Avoids (.outOfRange site) (txOutToPublicCoin out) := by
  refine Avoids.bind ?_ fun _ _ => .guard (by simp) fun _ => .pure _ _
  by_cases hs : site = .scriptOffset
  · exact sliceFrom_avoids (h hs)
  · exact .ite (fun _ => .error (by simpa using Ne.symm hs)) fun _ => .ok _ _

lemma scriptSigToSerializedSpend_avoids (hs : site ≠ .spendBody) (scriptSig : CScript) :
    Avoids (.outOfRange site) (scriptSigToSerializedSpend scriptSig) := by
  unfold scriptSigToSerializedSpend
  split
  · exact .error (by simpa using hs.symm)
  · exact .ite (fun _ => .error (by simpa using hs.symm)) fun _ => .ok _ _

lemma txInToZerocoinSpend_avoids (hs : site ≠ .spendBody) (lib : Libzerocoin) (txin : CTxIn) :
    Avoids (.outOfRange site) (txInToZerocoinSpend lib txin) := by
  refine (scriptSigToSerializedSpend_avoids hs _).bind fun data _ => ?_
  split
  · exact .pure _ _
  · exact .error (by simp)

/-- The mints a node can come across are long enough: those of the block and those of older
transactions. -/
structure LongMints (node : Node) (vtx : List CTransaction) : Prop where
  block : ∀ tx ∈ vtx, ∀ out ∈ tx.vout, out.isZerocoinMint = true → 6 ≤ out.scriptPubKey.length
  older : ∀ h tx hashBlock, node.getTransaction h = some (tx, hashBlock) →
    ∀ out ∈ tx.vout, out.isZerocoinMint = true → 6 ≤ out.scriptPubKey.length

variable {node : Node} {vtx : List CTransaction} {env : ConnectEnv} {tx : CTransaction}

lemma parseCoinSpend_avoids {txin : CTxIn} {prevOut : CTxOut} (hs : site ≠ .spendBody)
    (h : site = .scriptOffset → prevOut.isZerocoinMint = true →
      6 ≤ prevOut.scriptPubKey.length) :
    Avoids (.outOfRange site) (parseCoinSpend node txin tx prevOut) := by
  unfold parseCoinSpend
  refine .guard (by simp) fun hkind => ?_
  have hmint : prevOut.isZerocoinMint = true := by
    simp only [Bool.or_eq_false_iff, Bool.not_eq_eq_eq_not, Bool.not_false] at hkind
    exact hkind.2
  refine (scriptSigToSerializedSpend_avoids hs _).bind fun data _ => ?_
  split
  · exact .error (by simp)
  · split
    · next site' hsite =>
      refine .error fun he => txOutToPublicCoin_avoids (fun h' => h h' hmint) ?_
      rw [hsite, ← he]
    · exact .error (by simp)
    · exact .pure _ _

lemma getOutput_mem {hash : Uint256} {index : ℕ} {out : CTxOut}
    (h : node.getOutput hash index = .ok out) :
    ∃ tx hashBlock, node.getTransaction hash = some (tx, hashBlock) ∧ out ∈ tx.vout := by
  unfold Node.getOutput at h
  split at h
  · cases h
  · next txPrev hashBlock htx =>
    split at h
    · cases h
    · split at h
      · next o ho =>
        cases h
        exact ⟨txPrev, hashBlock, htx, List.mem_of_getElem? ho⟩
      · cases h

lemma getOutput_avoids (hs : site ≠ .outputIndex) (hash : Uint256) (index : ℕ) :
    Avoids (.outOfRange site) (node.getOutput hash index) := by
  unfold Node.getOutput
  split
  · exact .error (by simp)
  · refine .ite (fun _ => .error (by simp)) fun _ => ?_
    split
    · exact .ok _ _
    · exact .error (by simpa using hs.symm)

lemma parseZerocoinPublicSpend_avoids {txin : CTxIn} (hs : site ≠ .spendBody)
    (hs' : site ≠ .outputIndex) (h : site = .scriptOffset → LongMints node vtx) :
    Avoids (.outOfRange site) (parseZerocoinPublicSpend node txin tx) := by
  unfold parseZerocoinPublicSpend
  split
  · next f hf =>
    exact .error (Fault.redos_ne fun he => getOutput_avoids hs' _ _ (hf.trans (he ▸ rfl)))
  · next prevOut hout =>
    obtain ⟨txPrev, hashBlock, htx, hmem⟩ := getOutput_mem hout
    split
    · next f hf =>
      refine .error (Fault.redos_ne fun he => ?_)
      exact parseCoinSpend_avoids hs (fun h' => (h h').older _ _ _ htx prevOut hmem)
        (hf.trans (he ▸ rfl))
    · exact .ok _ _

/-! ### The loop over the transactions -/

namespace ConnectEnv

variable {s : ConnectLoop}

lemma connectMint_avoids {vMints : List (PublicCoin × Uint256)} {out : CTxOut}
    (h : out.isZerocoinMint = true → 6 ≤ out.scriptPubKey.length) :
    Avoids shortMint (connectMint tx vMints out) := by
  refine .ite (fun _ => .ok _ _) fun hm => ?_
  rw [Bool.not_eq_true', Bool.not_eq_false] at hm
  split
  · next f hf =>
    have hne : f ≠ shortMint := by
      rintro rfl
      exact txOutToPublicCoin_avoids (fun _ => h hm) hf
    exact .error (Fault.redos_ne hne)
  · exact .ok _ _

lemma connectMints_avoids
    (h : ∀ out ∈ tx.vout, out.isZerocoinMint = true → 6 ≤ out.scriptPubKey.length) :
    Avoids shortMint (env.connectMints s tx) := by
  refine .ite (fun _ => .guard (by simp [shortMint]) fun _ => ?_) fun _ => .ok _ _
  exact (Avoids.loop _ fun out hout _ => connectMint_avoids (h out hout)).bind fun _ _ => .pure _ _

lemma connectSpend_avoids {txin : CTxIn} (h : LongMints env.node vtx) :
    Avoids shortMint (env.connectSpend tx s txin) := by
  refine .ite (fun _ => .pure _ _) fun _ => .guard (by simp [shortMint]) fun _ => ?_
  refine Avoids.bind ?_ fun spend _ => .guard (by simp [shortMint]) fun _ => .pure _ _
  exact .ite (fun _ => parseZerocoinPublicSpend_avoids (by decide) (by decide) fun _ => h)
    fun _ => txInToZerocoinSpend_avoids (by decide) _ _

lemma connectKind_avoids (h : LongMints env.node vtx) :
    Avoids shortMint (env.connectKind s tx) := by
  refine .ite (fun _ => ?_) fun _ => .ite (fun _ => ?_) fun _ => .ok _ _
  · have hloop : Avoids shortMint (loop (env.connectSpend tx) s tx.vin) :=
      .loop _ fun txin _ _ => connectSpend_avoids h
    unfold connectSpends
    split
    · exact .guard (by simp [shortMint]) fun _ => hloop
    · exact (Avoids.pure _ ()).bind fun _ _ => hloop
  · refine .guard (by simp [shortMint]) fun _ => .guard (by simp [shortMint]) fun _ => ?_
    exact .guard (by simp [shortMint]) fun _ => .pure _ _

lemma getValueOut_avoids : Avoids (.outOfRange site) (getValueOut tx) := by
  unfold getValueOut
  split
  · exact .ok _ _
  · exact .error (by simp)

lemma checkTxInputs_avoids {v : CCoinsViewCache} {nSpendHeight : ℤ} :
    Avoids (.outOfRange site) (checkTxInputs node tx v nSpendHeight) := by
  refine .guard (by simp) fun _ =>
      Avoids.bind (.loop _ fun txin _ t => ?_) fun r _ => ?_
  · refine .guard (by simp) fun _ => .guard (by simp) fun _ => ?_
    exact .guard (by simp) fun _ => .pure _ _
  · refine .ite (fun _ => getValueOut_avoids.bind fun _ _ => ?_) fun _ => .pure _ _
    refine .guard (by simp) fun _ => .guard (by simp) fun _ => ?_
    exact .guard (by simp) fun _ => .pure _ _

lemma checkInputs_avoids {v : CCoinsViewCache} {fScriptChecks : Bool} {flags : ScriptFlags} :
    Avoids (.outOfRange site) (checkInputs node tx v fScriptChecks flags) := by
  refine .ite (fun _ => Avoids.bind ?_ fun _ _ => checkTxInputs_avoids.bind fun v _ => ?_)
    fun _ => .pure _ _
  · unfold getSpendHeight
    split
    · exact .ok _ _
    · exact .error (by simp)
  · refine .ite (fun _ => .loop _ fun p _ t => ?_) fun _ => .pure _ _
    refine .guard (by simp) fun _ => .ite (fun _ => .pure _ _) fun _ => ?_
    split
    · exact .pure _ _
    · exact .guard (by simp) fun _ => .error (by simp)

lemma connectValueIn_avoids : Avoids shortMint (env.connectValueIn s tx) := by
  refine .ite (fun _ => .ok _ _) fun _ => Avoids.bind ?_ fun nFees _ => ?_
  · exact .ite (fun _ => getValueOut_avoids.bind fun _ _ => .pure _ _) fun _ => .ok _ _
  · exact checkInputs_avoids.bind fun _ _ => .pure _ _

lemma updateCoins_avoids {v : CCoinsViewCache} {nHeight : ℤ} :
    Avoids (.outOfRange site) (v.updateCoins tx nHeight) := by
  refine Avoids.bind (.loop _ fun p _ t => Avoids.bind ?_ fun m _ => .pure _ _) fun _ _ => .pure _ _
  refine .guard (by simp) fun _ => .ite (fun _ => .pure _ _) fun _ => ?_
  exact .guard (by simp) fun _ => .pure _ _

lemma connectOutputs_avoids {i : ℕ} : Avoids shortMint (env.connectOutputs s tx i) :=
  getValueOut_avoids.bind fun _ _ => updateCoins_avoids.bind fun _ _ => .pure _ _

lemma connectTx_avoids {p : CTransaction × ℕ} (h : LongMints env.node vtx) (hp : p.1 ∈ vtx) :
    Avoids shortMint (env.connectTx s p) := by
  refine .guard (by simp [shortMint]) fun _ => .guard (by simp [shortMint]) fun _ => ?_
  refine (connectMints_avoids (h.block p.1 hp)).bind fun _ _ => ?_
  refine (connectKind_avoids h).bind fun _ _ => connectValueIn_avoids.bind fun _ _ => ?_
  exact connectOutputs_avoids

end ConnectEnv

/-! ### The rest of `ConnectBlock` -/

variable {block : CBlock} {g g' : Global} {pindex : CBlockIndex} {view : CCoinsViewCache}

lemma connectChecks_avoids (h : LongMints node block.vtx) :
    Avoids shortMint (connectChecks node g block pindex view) := by
  refine Avoids.bind ?_ fun _ _ => Avoids.bind ?_ fun s _ => ?_
  · exact .guard (by simp [shortMint]) fun _ => .stop (by simp [shortMint])
  · exact .loop _ fun p hp t => ConnectEnv.connectTx_avoids h (List.fst_mem_of_mem_zipIdx hp)
  · refine .guard (by simp [shortMint]) fun _ => ?_
    exact .guard (by simp [shortMint]) fun _ => .pure _ _

lemma mintDenomsOuts_avoids {hash : Uint256} {l : List (CTxOut × ℕ)}
    (h : ∀ p ∈ l, p.1.isZerocoinMint = true → 6 ≤ p.1.scriptPubKey.length) :
    Avoids shortMint (mintDenomsOuts node hash l) := by
  induction l with
  | nil => exact .ok _ _
  | cons p l ih =>
    unfold mintDenomsOuts
    have hl := ih fun q hq => h q (List.mem_cons_of_mem _ hq)
    refine .ite (fun _ => .ok _ _) fun _ => .ite (fun _ => hl) fun hm => ?_
    rw [Bool.not_eq_true', Bool.not_eq_false] at hm
    split
    · next site hsite =>
      refine .error fun he => ?_
      rw [he] at hsite
      exact txOutToPublicCoin_avoids (fun _ => h p (by simp) hm) hsite
    · exact .ok _ _
    · exact hl.bind fun _ _ => .pure _ _

lemma mintDenoms_avoids
    (h : ∀ tx ∈ vtx, ∀ out ∈ tx.vout, out.isZerocoinMint = true → 6 ≤ out.scriptPubKey.length) :
    Avoids shortMint (mintDenoms node vtx) := by
  induction vtx with
  | nil => exact .ok _ _
  | cons tx vtx ih =>
    have hl := ih fun q hq => h q (List.mem_cons_of_mem _ hq)
    refine .ite (fun _ => hl) fun _ => Avoids.bind ?_ fun r _ => ?_
    · exact mintDenomsOuts_avoids fun p hp => h tx (by simp) p.1 (List.fst_mem_of_mem_zipIdx hp)
    · exact .ite (fun _ => hl.bind fun _ _ => .pure _ _) fun _ => .pure _ _

lemma spendDenomsIns_avoids {vin : List CTxIn} : Avoids shortMint (spendDenomsIns node vin) := by
  induction vin with
  | nil => exact .ok _ _
  | cons txin vin ih =>
    refine .ite (fun _ => ih) fun _ => Avoids.bind ?_ fun _ _ => ih.bind fun _ _ => .pure _ _
    exact .ite (fun _ => .ok _ _) fun _ =>
      (txInToZerocoinSpend_avoids (by decide) _ _).bind fun _ _ => .pure _ _

lemma spendDenoms_avoids : Avoids shortMint (spendDenoms node vtx) := by
  induction vtx with
  | nil => exact .ok _ _
  | cons tx vtx ih =>
    refine .ite (fun _ => ih) fun _ => ?_
    exact spendDenomsIns_avoids.bind fun _ _ => ih.bind fun _ _ => .pure _ _

section Supply

variable {m m' : ZerocoinSupply}

lemma withSupply_avoids {α : Type} {c : Check α} (h : Avoids shortMint c) :
    Avoids (shortMint, m') (withSupply m c) := by
  unfold withSupply
  split
  · exact .ok _ _
  · next f hf => exact .error fun he => h (by rw [(Prod.mk.inj he).1])

lemma addSupply_avoids {k : ℤ} {d : CoinDenomination} :
    Avoids (shortMint, m') (addSupply k m d) := by
  unfold addSupply
  split
  · exact .ok _ _
  · exact .error (by simp [shortMint])

lemma takeSupply_avoids {d : CoinDenomination} : Avoids (shortMint, m') (takeSupply m d) :=
  addSupply_avoids.bind fun _ _ => .ite (fun _ => .error (by simp [shortMint])) fun _ => .ok _ _

lemma updateZAgenorupplyConnect_avoids {nHeight : ℤ} (h : LongMints node block.vtx) :
    Avoids (shortMint, m') (updateZAgenorupplyConnect node block nHeight m) := by
  refine .ite (fun _ => .ok _ _) fun _ => Avoids.bind ?_ fun m _ => ?_
  · refine .ite (fun _ => ?_) fun _ => .ok _ _
    exact (withSupply_avoids (mintDenoms_avoids h.block)).bind fun _ _ =>
      .loop _ fun _ _ _ => addSupply_avoids
  · refine (withSupply_avoids spendDenoms_avoids).bind fun _ _ => Avoids.bind ?_ fun _ _ => ?_
    · exact .loop _ fun _ _ _ => takeSupply_avoids
    · exact .ite (fun _ => .loop _ fun _ _ _ => addSupply_avoids) fun _ => .ok _ _

end Supply

lemma connectCommit_avoids {s : ConnectLoop} (h : LongMints node block.vtx) :
    Avoids (shortMint, g') (connectCommit node g block pindex s) := by
  refine Avoids.bind ?_ fun g₁ _ => Avoids.bind ?_ fun g₂ _ => ?_
  · refine .ite (fun _ => .pure _ _) fun _ => .guard (by simp [shortMint]) fun _ => ?_
    exact .guard (by simp [shortMint]) fun _ => .pure _ _
  · refine .guard (by simp [shortMint]) fun _ => .guard (by simp [shortMint]) fun _ => ?_
    exact .guard (by simp [shortMint]) fun _ => .pure _ _
  · split
    · next f m hf =>
      refine .error fun he => Fault.redos_ne (fun hs => ?_) (Prod.mk.inj he).1
      subst hs
      exact updateZAgenorupplyConnect_avoids h hf
    · exact .pure _ _

/-- The block passes everything that comes before the loop over the transactions. -/
def ReachesLoop (node : Node) (block : CBlock) (pindex : CBlockIndex) (view : CCoinsViewCache)
    (fJustCheck fAlreadyChecked : Bool) : Prop :=
  connectCheckBlock node block fJustCheck fAlreadyChecked = .ok () ∧
    (pindex.pprev.map (·.hash)).getD 0 = view.getBestBlock ∧
    block.hash ≠ node.params.hashGenesisBlock ∧ checkPeriod node block pindex.nHeight = .ok ()

lemma connectBlock_of_loop_error {fJustCheck fAlreadyChecked : Bool} {f : Fault}
    (hr : ReachesLoop node block pindex view fJustCheck fAlreadyChecked)
    (hl : loop (connectEnv node g block pindex).connectTx (.start view) block.vtx.zipIdx =
      .error f) :
    connectBlock node g block pindex view fJustCheck fAlreadyChecked = .error (f, g) := by
  obtain ⟨hcheck, hprev, hgenesis, hperiod⟩ := hr
  have hchecks : connectChecks node g block pindex view = .error f := by
    simp [connectChecks, hperiod, hl, bind, Except.bind]
  unfold connectBlock
  rw [hcheck, hchecks, hprev]
  dsimp only
  rw [bne_self_eq_false, if_neg hgenesis]
  rfl

lemma connectBlock_avoids {fJustCheck fAlreadyChecked : Bool} (h : LongMints node block.vtx)
    (hr : ReachesLoop node block pindex view fJustCheck fAlreadyChecked) :
    Avoids (shortMint, g') (connectBlock node g block pindex view fJustCheck fAlreadyChecked) := by
  refine Avoids.bind ?_ fun _ _ => .guard (by simp [shortMint]) fun _ => ?_
  · rw [hr.1]
    exact .ok _ _
  · refine .ite (fun _ => .pure _ _) fun _ => Avoids.bind ?_ fun s _ => ?_
    · unfold withGlobal
      split
      · exact .ok _ _
      · next f hf =>
        refine .error fun he => ?_
        obtain ⟨rfl, -⟩ := Prod.mk.inj he
        exact connectChecks_avoids h hf
    · exact .ite (fun _ => .pure _ _) fun _ => connectCommit_avoids h

/-! ### Short mints in `ConnectBlock` -/

namespace Concrete

/-- A transaction that mints a coin with a given script. -/
def mintTx (s : CScript) : CTransaction :=
  ⟨30, [⟨⟨29, 0⟩, [], 0⟩], [⟨10 * COIN, s⟩]⟩

lemma mintTx_sigOps {s : CScript} (h : s.length < 6) : getLegacySigOpCount (mintTx s) ≤ 100 := by
  have hs : Script.getSigOpCount s false ≤ 20 * s.length := Script.sigOpCountFrom_le _ _ _
  have heq : getLegacySigOpCount (mintTx s) = 0 + 0 + (Script.getSigOpCount s false + 0) := rfl
  omega

end Concrete

lemma txOutToPublicCoin_short {out : CTxOut} (h : out.scriptPubKey.length < 6) :
    txOutToPublicCoin out = .error shortMint := by
  have hslice : sliceFrom out.scriptPubKey SCRIPT_OFFSET .scriptOffset = .error shortMint :=
    sliceFrom_isOk.mpr h
  simp [txOutToPublicCoin, hslice, bind, Except.bind]

lemma ConnectEnv.connectTx_shortMint {s : ConnectLoop} {out : CTxOut} {outs : List CTxOut} {i : ℕ}
    (hvout : tx.vout = out :: outs) (hm : out.isZerocoinMint = true)
    (h : out.scriptPubKey.length < 6)
    (hops : ¬ MAX_BLOCK_SIGOPS_CURRENT < s.nSigOps + getLegacySigOpCount tx)
    (hspork : ¬ env.node.getSporkValue .SPORK_16_ZEROCOIN_MAINTENANCE_MODE < env.block.nTime)
    (hpublic : env.node.params.networkUpgradeActive env.pindex.nHeight .UPGRADE_ZC_PUBLIC = false) :
    env.connectTx s (tx, i) = .error shortMint := by
  have hmints : tx.hasZerocoinMintOutputs = true := by
    rw [CTransaction.hasZerocoinMintOutputs, hvout, List.any_cons, hm, Bool.true_or]
  have hfirst : ∀ vMints, connectMint tx vMints out = .error shortMint := by
    intro vMints
    simp [connectMint, hm, txOutToPublicCoin_short h, Fault.redos, shortMint]
  have hconnect : ∀ s, env.connectMints s tx = .error shortMint := by
    intro s
    simp [connectMints, hmints, hpublic, hvout, hfirst, failIf, bind, Except.bind]
  simp [connectTx, hops, hspork, hconnect, failIf, bind, Except.bind]

open Concrete in
lemma connectBlock_shortMint {s : CScript} (hm : Script.isZerocoinMint s = true)
    (h : s.length < 6) :
    ReachesLoop mainNode (secondBlock [mintTx s]) secondIndex emptyView true true ∧
    connectBlock mainNode .initial (secondBlock [mintTx s]) secondIndex emptyView true true =
      .error (shortMint, .initial) := by
  have hops : ¬ MAX_BLOCK_SIGOPS_CURRENT < 0 + getLegacySigOpCount (mintTx s) := by
    have := mintTx_sigOps h
    have : 100 ≤ MAX_BLOCK_SIGOPS_CURRENT := by decide
    omega
  have htx : (connectEnv mainNode .initial (secondBlock [mintTx s]) secondIndex).connectTx
      (.start emptyView) (mintTx s, 0) = .error shortMint :=
    ConnectEnv.connectTx_shortMint rfl hm h hops (by decide : ¬ (4070908800 : ℤ) < 1500000120) rfl
  have hhash : (3 : Uint256) ≠ mainParams.hashGenesisBlock := by decide
  have hreach : ReachesLoop mainNode (secondBlock [mintTx s]) secondIndex emptyView true true :=
    ⟨rfl, by decide, hhash, rfl⟩
  refine ⟨hreach, connectBlock_of_loop_error hreach ?_⟩
  change loop _ _ [(mintTx s, 0)] = _
  rw [loop_cons, htx]
  rfl

/-! ### Both paths -/

/-- The mints and the spends of a transaction have scripts from a set. -/
structure ScriptsIn (A : Set CScript) (tx : CTransaction) : Prop where
  mints : ∀ out ∈ tx.vout, Script.isZerocoinMint out.scriptPubKey = true → out.scriptPubKey ∈ A
  spends : ∀ txin ∈ tx.vin, Script.isZerocoinSpend txin.scriptSig = true → txin.scriptSig ∈ A

/-- With mints from the set, no block that reaches the loop over the transactions makes
`ConnectBlock` read a mint past its end. -/
def ConnectInRange (A : Set CScript) : Prop :=
  ∀ node g block pindex view fJustCheck fAlreadyChecked g', (∀ tx ∈ block.vtx, ScriptsIn A tx) →
    (∀ h tx hashBlock, node.getTransaction h = some (tx, hashBlock) → ScriptsIn A tx) →
    ReachesLoop node block pindex view fJustCheck fAlreadyChecked →
    connectBlock node g block pindex view fJustCheck fAlreadyChecked ≠
      .error (.outOfRange .scriptOffset, g')

/-- With mints and spends from the set, no transaction makes a filter read a script past its end. -/
def FilterInRange (A : Set CScript) : Prop :=
  ∀ solvesKey filter tx site, ScriptsIn A tx →
    CBloomFilter.isRelevantAndUpdate solvesKey filter tx ≠ .error (.outOfRange site)

open Concrete in
lemma connectInRange_iff (A : Set CScript) :
    ConnectInRange A ↔ ∀ s ∈ A, Script.isZerocoinMint s = true → 6 ≤ s.length := by
  constructor
  · intro h s hs hm
    by_contra hlen
    obtain ⟨hreach, herr⟩ := connectBlock_shortMint hm (Nat.lt_of_not_le hlen)
    refine h mainNode .initial _ _ _ _ _ .initial ?_ ?_ hreach herr
    · intro tx htx
      obtain rfl : tx = mintTx s := List.mem_singleton.mp htx
      refine ⟨?_, ?_⟩
      · simp [mintTx, hs]
      · simp [mintTx, Script.isZerocoinSpend, Script.startsWithOpcode]
    · intro k tx hashBlock htx
      cases htx
  · intro h node g block pindex view fJustCheck fAlreadyChecked g' hblock holder hr
    refine connectBlock_avoids ⟨?_, ?_⟩ hr
    · exact fun tx htx out hout hm => h _ ((hblock tx htx).mints out hout hm) hm
    · exact fun k tx hb htx out hout hm => h _ ((holder k tx hb htx).mints out hout hm) hm

lemma filterInRange_iff (A : Set CScript) :
    FilterInRange A ↔ ∀ s ∈ A, (Script.isZerocoinMint s = true → 6 ≤ s.length) ∧
      (Script.isZerocoinSpend s = true → 44 ≤ s.length) := by
  constructor
  · intro h s hs
    refine ⟨fun hm => ?_, fun hsp => ?_⟩
    · by_contra hlen
      have herr : CBloomFilter.isRelevantAndUpdate (fun _ => false) (.single 0) ⟨0, [], [⟨0, s⟩]⟩ =
          .error (.outOfRange .mintData) :=
            CBloomFilter.short_mint rfl rfl hm (Nat.lt_of_not_le hlen)
      refine h _ _ _ _ ⟨?_, ?_⟩ herr
      · simp [hs]
      · simp
    · by_contra hlen
      have hzc : CTxIn.isZerocoinSpend ⟨COutPoint.null, s, 0⟩ = true := by
        rw [CTxIn.isZerocoinSpend, hsp]
        rfl
      obtain ⟨filter, hf, he, hh, ho⟩ :=
        CBloomFilter.exists_quiet (uint256Key 0) (outPointKey COutPoint.null)
      have herr : CBloomFilter.isRelevantAndUpdate (fun _ => false) filter
          ⟨0, [⟨COutPoint.null, s, 0⟩], []⟩ = .error (.outOfRange .spendData) :=
        CBloomFilter.short_spend hf he hh ho hzc (Nat.lt_of_not_le hlen)
      refine h _ _ _ _ ⟨?_, ?_⟩ herr
      · simp
      · simp [hs]
  · intro h solvesKey filter tx site htx
    refine CBloomFilter.isRelevantAndUpdate_avoids ?_ ?_
    · exact fun out hout hm => (h _ (htx.mints out hout hm)).1 hm
    · intro txin hin hzc
      simp only [CTxIn.isZerocoinSpend, Bool.and_eq_true] at hzc
      exact (h _ (htx.spends txin hin hzc.2)).2 hzc.2

/-- **Scripts that are sliced.** Whatever the set of scripts that mints and spends may have, the
ranges in `ConnectBlock` lie inside the scripts if and only if its mints have six bytes, and those
in the filters if and only if its mints have six and its spends have 44. -/
theorem slicedInRange_iff (A : Set CScript) :
    (ConnectInRange A ↔ ∀ s ∈ A, Script.isZerocoinMint s = true → 6 ≤ s.length) ∧
    (FilterInRange A ↔ ∀ s ∈ A, (Script.isZerocoinMint s = true → 6 ≤ s.length) ∧
      (Script.isZerocoinSpend s = true → 44 ≤ s.length)) :=
  ⟨connectInRange_iff A, filterInRange_iff A⟩

open Concrete in
set_option maxRecDepth 20000 in
/-- **A mint of one byte.** On the main network a block with such a mint passes `CheckBlock` and
reaches the loop, where its script is read past the end. A filter with one bit set reads past the
end of such a mint and of a spend of one byte. -/
theorem mint_of_one_byte :
    ReachesLoop mainNode (secondBlock [coinBaseTx 0, mintTx [Script.OP_ZEROCOINMINT]]) secondIndex
        emptyView false false ∧
      ((connectBlock mainNode .initial (secondBlock [coinBaseTx 0, mintTx [Script.OP_ZEROCOINMINT]])
        secondIndex emptyView false false).map fun _ => ()).mapError (·.1) =
          .error (.outOfRange .scriptOffset) ∧
      ¬ ConnectInRange Set.univ ∧
      (CBloomFilter.isRelevantAndUpdate (fun _ => false) (.single 3)
        (mintTx [Script.OP_ZEROCOINMINT])).map (·.1) = .error (.outOfRange .mintData) ∧
      (CBloomFilter.isRelevantAndUpdate (fun _ => false) (.single 3)
        ⟨77, [⟨COutPoint.null, [Script.OP_ZEROCOINSPEND], 0⟩], []⟩).map (·.1) =
          .error (.outOfRange .spendData) ∧
      ¬ FilterInRange Set.univ := by
  refine ⟨⟨by decide, by decide, by decide, by decide⟩, by decide, ?_, by decide, by decide, ?_⟩
  · intro h
    have := (connectInRange_iff Set.univ).mp h [Script.OP_ZEROCOINMINT] trivial (by decide)
    revert this
    decide
  · intro h
    have := ((filterInRange_iff Set.univ).mp h [Script.OP_ZEROCOINMINT] trivial).1 (by decide)
    revert this
    decide

end Agenor
