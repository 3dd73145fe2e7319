import Agenor.MempoolSteps
import Agenor.MempoolAccept

/-!
Double spends in the memory pool.

The inputs of an ordinary transaction are registered in `mapNextTx` and looked up there before
another one comes in. Those of a transaction with zerocoin spends are neither registered nor looked
up, and its serials are only compared with the chain; so the pool is free of double spends as long
as no transaction is offered that shares an outpoint or a serial with one of the pool where one of
the two has zerocoin spends.
-/

namespace Agenor

open Lib Lib.Fallible

/-! ### What a transaction spends -/

/-- The serial number that an input spends. -/
def CTxIn.zerocoinSerial (lib : Libzerocoin) (txin : CTxIn) : Option ℤ :=
  if txin.isZerocoinPublicSpend then
    match scriptSigToSerializedSpend txin.scriptSig with
    | .ok data => (lib.readPublicCoinSpend data).map (·.coinSerialNumber)
    | .error _ => none
  else if txin.isZerocoinSpend then
    match txInToZerocoinSpend lib txin with
    | .ok spend => some spend.coinSerialNumber
    | .error _ => none
  else none

def CTransaction.zerocoinSerials (lib : Libzerocoin) (tx : CTransaction) : List ℤ :=
  tx.vin.filterMap (·.zerocoinSerial lib)

/-- The transactions spend the same outpoint or the same serial number. -/
def CTransaction.Clashes (lib : Libzerocoin) (tx tx' : CTransaction) : Prop :=
  (∃ o ∈ tx.prevouts, o ∈ tx'.prevouts) ∨
    ∃ bnSerial ∈ tx.zerocoinSerials lib, bnSerial ∈ tx'.zerocoinSerials lib

lemma CTransaction.zerocoinSerials_eq_nil {lib : Libzerocoin} {tx : CTransaction}
    (h : tx.hasZerocoinSpendInputs = false) : tx.zerocoinSerials lib = [] := by
  rw [zerocoinSerials, List.filterMap_eq_nil_iff]
  intro txin htxin
  rw [hasZerocoinSpendInputs, List.any_eq_false] at h
  have hin := h txin htxin
  rw [CTxIn.isAnyZerocoinSpend, Bool.or_eq_true, not_or, Bool.not_eq_true, Bool.not_eq_true] at hin
  rw [CTxIn.zerocoinSerial, hin.1, hin.2]
  rfl

lemma CTransaction.Clashes.symm {lib : Libzerocoin} {tx tx' : CTransaction}
    (h : tx.Clashes lib tx') : tx'.Clashes lib tx := by
  rcases h with ⟨o, ho, ho'⟩ | ⟨n, hn, hn'⟩
  · exact .inl ⟨o, ho', ho⟩
  · exact .inr ⟨n, hn', hn⟩

namespace CTxMemPool

variable {lib : Libzerocoin} {m m' : CTxMemPool} {mu : MemUsage} {tx : CTransaction}

/-- No two transactions of the pool spend the same outpoint or serial number. -/
def NoDoubleSpend (lib : Libzerocoin) (m : CTxMemPool) : Prop :=
  ∀ it it' tx tx', it ≠ it' → m.txAt it = some tx → m.txAt it' = some tx' → ¬ tx.Clashes lib tx'

/-- A transaction shares nothing with one of the pool where one of the two has zerocoin spends. -/
def Clear (lib : Libzerocoin) (m : CTxMemPool) (tx : CTransaction) : Prop :=
  ∀ it tx', m.txAt it = some tx' → tx.hasZerocoinSpendInputs || tx'.hasZerocoinSpendInputs →
    ¬ tx.Clashes lib tx'

/-- There are no double spends, and the inputs of ordinary transactions are registered. -/
structure SpentOnce (lib : Libzerocoin) (m : CTxMemPool) : Prop where
  once : NoDoubleSpend lib m
  registered : ∀ {it tx}, m.txAt it = some tx → tx.hasZerocoinSpendInputs = false →
    ∀ o ∈ tx.prevouts, o ∈ m.mapNextTx

namespace SpentOnce

lemma empty (lib : Libzerocoin) : SpentOnce lib CTxMemPool.empty := by
  have hnone : ∀ it, CTxMemPool.empty.txAt it = none := fun _ => rfl
  refine ⟨fun it it' tx tx' _ htx => ?_, fun htx => ?_⟩
  · rw [hnone] at htx
    cases htx
  · rw [hnone] at htx
    cases htx

lemma alike (h : SpentOnce lib m) (ha : Alike m m') : SpentOnce lib m' := by
  refine ⟨fun it it' tx tx' hne htx htx' => ?_, fun htx hz o ho => ?_⟩
  · rw [ha.txAt] at htx htx'
    exact h.once it it' tx tx' hne htx htx'
  · rw [ha.txAt] at htx
    rw [ha.next]
    exact h.registered htx hz o ho

lemma removed {s : SetEntries} (h : SpentOnce lib m) (hr : Removed s m m') : SpentOnce lib m' := by
  have hstay : ∀ {it tx}, m'.txAt it = some tx → it ∉ s ∧ m.txAt it = some tx := by
    intro it tx htx
    rw [hr.txAt] at htx
    split_ifs at htx with hs
    exact ⟨hs, htx⟩
  refine ⟨fun it it' tx tx' hne htx htx' => ?_, fun htx hz o ho => ?_⟩
  · exact h.once it it' tx tx' hne (hstay htx).2 (hstay htx').2
  · obtain ⟨hs, hold⟩ := hstay htx
    rw [Finmap.mem_iff, hr.next, if_neg]
    · exact Finmap.mem_iff.mp (h.registered hold hz o ho)
    · rintro ⟨it', hit', tx', htx', ho'⟩
      refine h.once _ it' _ tx' ?_ hold htx' (.inl ⟨o, ho, ho'⟩)
      rintro rfl
      exact hs hit'

lemma added {entry : CTxMemPoolEntry} (h : SpentOnce lib m) (ha : Added entry m m')
    (hclear : Clear lib m entry.tx)
    (hnext : entry.tx.hasZerocoinSpendInputs = false → ∀ o ∈ entry.tx.prevouts, o ∉ m.mapNextTx) :
    SpentOnce lib m' := by
  -- the new transaction shares nothing with one that was there before
  have hfree : ∀ it tx', m.txAt it = some tx' → ¬ entry.tx.Clashes lib tx' := by
    intro it tx' htx' hclash
    by_cases hz : (entry.tx.hasZerocoinSpendInputs || tx'.hasZerocoinSpendInputs) = true
    · exact hclear it tx' htx' hz hclash
    · rw [Bool.not_eq_true, Bool.or_eq_false_iff] at hz
      rcases hclash with ⟨o, ho, ho'⟩ | ⟨n, hn, -⟩
      · exact hnext hz.1 o ho (h.registered htx' hz.2 o ho')
      · rw [CTransaction.zerocoinSerials_eq_nil hz.1] at hn
        cases hn
  refine ⟨fun it it' tx tx' hne htx htx' => ?_, fun {it tx} htx hz o ho => ?_⟩
  · rw [ha.txAt] at htx htx'
    split_ifs at htx htx' with hit hit' hit'
    · exact absurd (hit.trans hit'.symm) hne
    · cases htx
      exact hfree it' tx' htx'
    · cases htx'
      exact fun hclash => hfree it tx htx hclash.symm
    · exact h.once it it' tx tx' hne htx htx'
  · rw [ha.txAt] at htx
    split_ifs at htx with hit
    · cases htx
      obtain ⟨p, hp, -⟩ := ha.spent hz o ho
      exact Finmap.mem_of_lookup_eq_some hp
    · have hreg := h.registered htx hz o ho
      by_cases hentry : o ∈ entry.tx.prevouts
      · exact absurd (.inl ⟨o, hentry, ho⟩) (hfree it tx htx)
      · rw [Finmap.mem_iff, ha.other o hentry]
        exact Finmap.mem_iff.mp hreg

lemma removeStaged (h : SpentOnce lib m) (stage : SetEntries) :
    SpentOnce lib (m.removeStaged mu stage) :=
  h.removed (removed_removeStaged mu m stage)

lemma remove (h : SpentOnce lib m) (tx : CTransaction) (fRecursive : Bool) :
    SpentOnce lib (m.remove mu tx fRecursive) := by
  unfold CTxMemPool.remove
  exact (h.alike (alike_failed m _)).removeStaged _

lemma foldl {α : Type} {f : CTxMemPool → α → CTxMemPool}
    (hf : ∀ m a, SpentOnce lib m → SpentOnce lib (f m a)) (l : List α) (h : SpentOnce lib m) :
    SpentOnce lib (l.foldl f m) := by
  induction l generalizing m with
  | nil => exact h
  | cons a l ih => exact ih (hf m a h)

lemma removeConflicts (h : SpentOnce lib m) (tx : CTransaction) :
    SpentOnce lib (m.removeConflicts mu tx) := by
  refine foldl (fun m txin hm => ?_) _ h
  cases m.mapNextTx.lookup txin.prevout with
  | none => exact hm
  | some p =>
    dsimp only
    split_ifs
    · exact hm.remove p.ptx true
    · exact hm

lemma removeForBlock (h : SpentOnce lib m) (vtx : List CTransaction) :
    SpentOnce lib (m.removeForBlock mu vtx) :=
  foldl (fun _ tx hm => (hm.remove tx false).removeConflicts tx) _ h

lemma removeForReorg (h : SpentOnce lib m) (reorg : ReorgEnv) :
    SpentOnce lib (m.removeForReorg mu reorg) :=
  foldl (fun _ e hm => hm.remove e.tx true) _ h

lemma expire (h : SpentOnce lib m) (time : ℤ) : SpentOnce lib (m.expire mu time) :=
  h.removeStaged _

lemma trimLoop (worst : CTxMemPool → Option Uint256) (sizelimit fuel : ℕ)
    (h : SpentOnce lib m) : SpentOnce lib (CTxMemPool.trimLoop mu worst sizelimit fuel m) := by
  induction fuel generalizing m with
  | zero => exact h
  | succ fuel ih =>
    unfold CTxMemPool.trimLoop
    split_ifs
    · exact h
    · split
      · exact h
      · refine ih ?_
        split_ifs
        · exact h.removeStaged _
        · exact h

lemma trimToSize (worst : CTxMemPool → Option Uint256) (sizelimit : ℕ)
    (h : SpentOnce lib m) : SpentOnce lib (m.trimToSize mu worst sizelimit) :=
  h.trimLoop worst sizelimit _

end SpentOnce

end CTxMemPool

/-! ### Acceptance -/

namespace AcceptEnv

open CTxMemPool

variable {lib : Libzerocoin} {env : AcceptEnv} {m : CTxMemPool} {tx : CTransaction}

lemma acceptFirst_eq_ok (h : env.acceptFirst m tx = .ok ()) :
    tx.hash ∉ m.mapTx ∧
      (tx.hasZerocoinSpendInputs = false → ∀ o ∈ tx.prevouts, o ∉ m.mapNextTx) := by
  simp only [acceptFirst, bind_eq_ok, failIf_eq_ok] at h
  obtain ⟨-, -, -, -, -, -, -, -, -, -, -, -, -, hhas, -, -, hnext⟩ := h
  refine ⟨by simpa [has] using hhas, fun hz o ho hmem => ?_⟩
  rw [hz, Bool.not_false, Bool.true_and, List.any_eq_false] at hnext
  obtain ⟨txin, htxin, rfl⟩ := List.mem_map.mp ho
  simpa [hmem] using hnext txin htxin

lemma acceptSecond_eq_ok {p : CTxMemPoolEntry × SetEntries}
    (h : env.acceptSecond m tx = .ok p) :
    p.1 = .new env.mu tx p.1.nFee p.1.nTime p.1.spendsCoinbaseOrCoinstake ∧
      m.calculateMemPoolAncestors p.1 env.limits true = .ok p.2 := by
  simp only [acceptSecond, bind_eq_ok, failIf_eq_ok] at h
  obtain ⟨_, _, _, _, _, _, _, _, _, _, _, _, h⟩ := h
  split at h
  · cases h
  · rename_i hfound
    simp only [bind_eq_ok, pure_eq_ok] at h
    obtain ⟨_, _, _, _, rfl⟩ := h
    exact ⟨rfl, hfound⟩

lemma spentOnce_limitMempoolSize (h : SpentOnce lib m) : SpentOnce lib (env.limitMempoolSize m) :=
  (h.expire _).trimToSize _ _

lemma spentOnce_acceptToMemoryPool (h : SpentOnce lib m) (hclear : Clear lib m tx) (b : Bool) :
    SpentOnce lib (env.acceptToMemoryPool m tx b).2 := by
  unfold acceptToMemoryPool
  cases hchecks : env.acceptChecks m tx with
  | error f => exact h
  | ok p =>
    rw [acceptChecks, bind_eq_ok] at hchecks
    obtain ⟨u, hfirst, hsecond⟩ := hchecks
    obtain ⟨hnew, hnext⟩ := acceptFirst_eq_ok hfirst
    have htx : p.1.tx = tx := by rw [(acceptSecond_eq_ok hsecond).1]; rfl
    rw [← htx] at hnew hnext hclear
    have hadd := h.added (added_addUncheckedWith env.mu hnew p.2) hclear hnext
    dsimp only [acceptEntry]
    have hlimit : SpentOnce lib (if b then m.addUncheckedWith env.mu p.1 p.2
        else env.limitMempoolSize (m.addUncheckedWith env.mu p.1 p.2)) := by
      cases b with
      | false => exact spentOnce_limitMempoolSize hadd
      | true => exact hadd
    generalize (if b then m.addUncheckedWith env.mu p.1 p.2
      else env.limitMempoolSize (m.addUncheckedWith env.mu p.1 p.2)) = m₁ at hlimit ⊢
    split_ifs
    · exact hlimit
    · exact hlimit.trimToSize _ _
    · exact hlimit.trimToSize _ _

/-- The transactions of a block are offered again one after the other, and each is clear of the pool
as it is then. -/
def ClearBlock (lib : Libzerocoin) :
    CTxMemPool × List Uint256 → List (AcceptEnv × CTransaction) → Prop
  | _, [] => True
  | s, p :: rest => Clear lib s.1 p.2 ∧ ClearBlock lib (resurrect s p) rest

lemma spentOnce_resurrect {s : CTxMemPool × List Uint256} {p : AcceptEnv × CTransaction}
    (h : SpentOnce lib s.1) (hclear : Clear lib s.1 p.2) : SpentOnce lib (resurrect s p).1 := by
  have haccept : SpentOnce lib (p.1.acceptToMemoryPool s.1 p.2 true).2 :=
    spentOnce_acceptToMemoryPool h hclear true
  unfold resurrect
  dsimp only
  split_ifs
  · exact h.remove p.2 true
  · split
    · next heq =>
      rw [heq] at haccept
      exact haccept.remove p.2 true
    · next heq =>
      rw [heq] at haccept
      exact haccept

lemma spentOnce_disconnectTip {l : List (AcceptEnv × CTransaction)} (mu : MemUsage)
    (h : SpentOnce lib m) (hclear : ClearBlock lib (m, []) l) :
    SpentOnce lib (disconnectTip mu m l) := by
  have hfold : ∀ (l : List (AcceptEnv × CTransaction)) (s : CTxMemPool × List Uint256),
      SpentOnce lib s.1 → ClearBlock lib s l → SpentOnce lib (l.foldl resurrect s).1 := by
    intro l
    induction l with
    | nil => exact fun s hs _ => hs
    | cons p l ih => exact fun s hs hc => ih _ (spentOnce_resurrect hs hc.1) hc.2
  exact (hfold l (m, []) h hclear).alike (alike_updateTransactionsFromBlock mu _ _)

end AcceptEnv

/-! ### Runs -/

/-- What happens to the pool of a node. -/
inductive PoolEvent
  | accept (env : AcceptEnv) (tx : CTransaction) (fOverrideMempoolLimit : Bool)
  /-- A block is connected. -/
  | connect (mu : MemUsage) (vtx : List CTransaction)
  /-- The tip is disconnected; its transactions come with what their acceptance reads. -/
  | disconnect (mu : MemUsage) (vtx : List (AcceptEnv × CTransaction))
  /-- The clean-up at the end of a reorganisation. -/
  | afterReorg (env : AcceptEnv) (reorg : CTxMemPool.ReorgEnv)

namespace PoolEvent

open CTxMemPool

def apply (m : CTxMemPool) : PoolEvent → CTxMemPool
  | accept env tx fOverrideMempoolLimit => (env.acceptToMemoryPool m tx fOverrideMempoolLimit).2
  | connect mu vtx => m.removeForBlock mu vtx
  | disconnect mu vtx => AcceptEnv.disconnectTip mu m vtx
  | afterReorg env reorg => env.afterReorg m reorg

/-- Every transaction that the event offers to the pool is clear of it. -/
def IsClear (lib : Libzerocoin) (m : CTxMemPool) : PoolEvent → Prop
  | accept _ tx _ => Clear lib m tx
  | connect _ _ => True
  | disconnect _ vtx => AcceptEnv.ClearBlock lib (m, []) vtx
  | afterReorg _ _ => True

/-- The pool after some events, from an empty one. -/
def run (l : List PoolEvent) : CTxMemPool := l.foldl apply CTxMemPool.empty

/-- Every event of a run is clear of the pool it finds. -/
def AllClear (lib : Libzerocoin) (l : List PoolEvent) : Prop :=
  ∀ l₁ e l₂, l = l₁ ++ e :: l₂ → e.IsClear lib (run l₁)

lemma spentOnce_apply {lib : Libzerocoin} {m : CTxMemPool} (h : SpentOnce lib m) (e : PoolEvent)
    (hclear : e.IsClear lib m) : SpentOnce lib (apply m e) := by
  cases e with
  | accept env tx b => exact AcceptEnv.spentOnce_acceptToMemoryPool h hclear b
  | connect mu vtx => exact h.removeForBlock vtx
  | disconnect mu vtx => exact AcceptEnv.spentOnce_disconnectTip mu h hclear
  | afterReorg env reorg =>
    exact AcceptEnv.spentOnce_limitMempoolSize (h.removeForReorg reorg)

/-- **Double spends.** The pool has none as long as no transaction is offered to it that shares an
outpoint or a serial number with one of the pool where one of the two has zerocoin spends. -/
theorem noDoubleSpend_run (lib : Libzerocoin) (l : List PoolEvent) (hclear : AllClear lib l) :
    NoDoubleSpend lib (run l) := by
  suffices h : SpentOnce lib (run l) from h.once
  induction l using List.reverseRecOn with
  | nil => exact .empty lib
  | append_singleton l e ih =>
    have hrest : AllClear lib l := by
      intro l₁ e' l₂ heq
      refine hclear l₁ e' (l₂ ++ [e]) ?_
      rw [heq, List.append_assoc, List.cons_append]
    rw [run, List.foldl_append]
    exact spentOnce_apply (ih hrest) e (hclear l e [] rfl)

end PoolEvent

/-! ### Two public spends of one mint -/

namespace Concrete

/-- Every public spend can be read and verified, and has the serial number of its last byte. -/
def publicLib : Libzerocoin :=
  { Libzerocoin.simple 0 with
    readPublicCoinSpend := fun data =>
      some ⟨.ZQ_ONE, (data.getLastD 0).toNat, 0, 3, SpendType.SPEND, data⟩
    verify := fun _ _ => true }

/-- A transaction of the chain with a minted coin. -/
def mintedTx : CTransaction :=
  ⟨1, [⟨⟨2, 0⟩, [], 0⟩], [⟨COIN, Script.OP_ZEROCOINMINT :: List.replicate 40 1⟩]⟩

/-- A regression test node on which public spends are active, with the mint in its chain. -/
def publicNode : Node :=
  { Node.idle regTestParams publicLib (List.replicate 451 genesisIndex) with
    getTransaction := fun h => if h = 1 then some (mintedTx, genesisIndex.hash) else none }

def publicEnv : AcceptEnv where
  node := publicNode
  global := Global.initial
  coinsTip := ⟨fun _ => none, 1⟩
  mu := ⟨fun _ => 100, 48, 300, 100, 100, 0⟩
  getTime := 1600000000
  checkFinalTx := fun _ => true
  isStandardTx := fun _ => none
  areInputsStandard := fun _ _ => true
  feePolicy := fun _ _ _ => .ok ()
  checkStandardInputs := fun _ _ _ => .ok ()
  limits := ⟨some 25, some 101000, some 25, some 101000⟩
  maxmempool := 300000000
  mempoolexpiry := 72 * 60 * 60
  worst := fun _ => none

/-- A public spend of the mint with serial number `7`; only the output tells the two apart. -/
def publicSpendTx (hash : Uint256) (out : UInt8) : CTransaction :=
  ⟨hash, [⟨⟨1, 0⟩, [Script.OP_ZEROCOINPUBLICSPEND, 0, 7], 1⟩], [⟨COIN, [out]⟩]⟩

/-- A payment of an output of the chain, and a node that has it. -/
def paymentTx : CTransaction := ⟨12, [⟨⟨5, 0⟩, [], 0⟩], [⟨COIN, [0x53]⟩]⟩

def publicCoinEnv : AcceptEnv :=
  { publicEnv with
    coinsTip := ⟨fun o => if o = ⟨5, 0⟩ then some ⟨⟨2 * COIN, [0x51]⟩, 400, false, false⟩ else none,
      1⟩ }

/-- A public spend, a payment and a block. -/
def spendAndPayment : List PoolEvent :=
  [.accept publicEnv (publicSpendTx 10 0x51) false, .accept publicCoinEnv paymentTx false,
    .connect publicEnv.mu []]

def publicSpends : List PoolEvent :=
  [.accept publicEnv (publicSpendTx 10 0x51) false, .accept publicEnv (publicSpendTx 11 0x52) false]

end Concrete

namespace PoolEvent

open CTxMemPool Concrete

lemma publicSpend_only {it : Uint256} {tx : CTransaction}
    (h : (run [.accept publicEnv (publicSpendTx 10 0x51) false]).txAt it = some tx) :
    tx = publicSpendTx 10 0x51 := by
  have hkeys : (run [.accept publicEnv (publicSpendTx 10 0x51) false]).mapTx.keys = {10} := by
    decide +kernel
  have hspend : (run [.accept publicEnv (publicSpendTx 10 0x51) false]).txAt 10 =
      some (publicSpendTx 10 0x51) := by
    decide +kernel
  generalize run [.accept publicEnv (publicSpendTx 10 0x51) false] = m at *
  have hmem : it ∈ m.mapTx := by
    rw [mem_iff_bareAt]
    rw [txAt, Option.map_eq_some_iff] at h
    obtain ⟨bare, hbare, -⟩ := h
    rw [hbare]
    rfl
  rw [← Finmap.mem_keys, hkeys, Finset.mem_singleton] at hmem
  rw [hmem, hspend] at h
  exact (Option.some.inj h).symm

lemma payment_not_clashes : ¬ paymentTx.Clashes publicLib (publicSpendTx 10 0x51) := by
  have houtpoint : ∀ o ∈ paymentTx.prevouts, o ∉ (publicSpendTx 10 0x51).prevouts := by decide
  have hserial : paymentTx.zerocoinSerials publicLib = [] := by decide
  rintro (⟨o, ho, ho'⟩ | ⟨n, hn, -⟩)
  · exact houtpoint o ho ho'
  · rw [hserial] at hn
    cases hn

lemma spendAndPayment_clear : AllClear publicLib spendAndPayment := by
  intro l₁ e l₂ heq
  rcases l₁ with _ | ⟨e₁, _ | ⟨e₂, _ | ⟨e₃, l₁⟩⟩⟩
  · cases heq
    intro it tx' htx'
    cases htx'
  · cases heq
    intro it tx' htx' _
    rw [publicSpend_only htx']
    exact payment_not_clashes
  · cases heq
    exact True.intro
  · simp [spendAndPayment] at heq

/-- Both are in the pool after the block. -/
theorem noDoubleSpend_run_payment :
    AllClear publicLib spendAndPayment ∧
      (run spendAndPayment).txAt 10 = some (publicSpendTx 10 0x51) ∧
      (run spendAndPayment).txAt 12 = some paymentTx ∧
      NoDoubleSpend publicLib (run spendAndPayment) :=
  ⟨spendAndPayment_clear, by decide +kernel, by decide +kernel,
    noDoubleSpend_run _ _ spendAndPayment_clear⟩

/-- Two spends of the same mint, with the same serial number, are both accepted. -/
theorem publicSpends_doubleSpend : ¬ NoDoubleSpend publicLib (run publicSpends) := by
  intro h
  have h₁ : (run publicSpends).txAt 10 = some (publicSpendTx 10 0x51) := by decide +kernel
  have h₂ : (run publicSpends).txAt 11 = some (publicSpendTx 11 0x52) := by decide +kernel
  exact h 10 11 _ _ (by decide) h₁ h₂ (.inl ⟨⟨1, 0⟩, by decide, by decide⟩)

end PoolEvent

end Agenor
