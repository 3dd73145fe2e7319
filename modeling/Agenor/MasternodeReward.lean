import Agenor.MasternodePayments
import Mathlib.Tactic.Linarith
import Mathlib.Tactic.IntervalCases
import Mathlib.Tactic.Ring

/-!
The masternode reward: what a new block pays to the elected masternode
(`CMasternodePayments::FillBlockPayee`) against what the check of a block asks for
(`CMasternodeBlockPayees::IsTransactionValid`).

The producer takes the payment from the value of the block it builds on, the check takes it from
the value of the block itself.
-/

namespace Agenor

/-! ### The reward schedule -/

/-- The value of a block after `k` halvings. -/
def subsidyAfter (k : ℕ) : ℤ := if 64 ≤ k then 0 else 50 * COIN / 2 ^ k

lemma getBlockValue_eq_subsidyAfter {net : Network} (hn : net ≠ .REGTEST) {h : ℤ} (hh : 2 ≤ h) :
    (paramsOf net).getBlockValue h = subsidyAfter (h / 250000).toNat := by
  have hi : (paramsOf net).nSubsidyHalvingInterval = 250000 := by cases net <;> rfl
  have hr : (paramsOf net).isRegTestNet = false := by
    cases net with
    | MAIN => rfl
    | TESTNET => rfl
    | REGTEST => exact absurd rfl hn
  have h1 : h ≠ 1 := by omega
  have hq : (0 : ℤ) ≤ h / 250000 := by omega
  have h64 : (64 : ℤ) ≤ h / 250000 ↔ 64 ≤ (h / 250000).toNat := by omega
  rw [ChainParams.getBlockValue, hr, hi, Int.tdiv_eq_ediv_of_nonneg (by omega)]
  simp only [Bool.false_eq_true, if_false, h1, h64, subsidyAfter]

lemma getMasternodePayment_subsidyAfter_eq_zero {k : ℕ} (hk : 32 ≤ k) :
    getMasternodePayment (subsidyAfter k) = 0 := by
  have hle : subsidyAfter k ≤ 1 := by
    unfold subsidyAfter COIN
    split_ifs
    · norm_num
    · have hp : (2 : ℤ) ^ 32 ≤ 2 ^ k := pow_le_pow_right₀ (by norm_num) hk
      have hlt : (50 * 100000000 : ℤ) / 2 ^ k < 2 := by
        refine Int.ediv_lt_of_lt_mul (by positivity) ?_
        linarith
      omega
  have hnn : 0 ≤ subsidyAfter k := by
    unfold subsidyAfter COIN
    split_ifs
    · rfl
    · positivity
  unfold getMasternodePayment
  omega

lemma getMasternodePayment_subsidyAfter_succ {k : ℕ} :
    getMasternodePayment (subsidyAfter k) = getMasternodePayment (subsidyAfter (k + 1)) ↔
      32 ≤ k := by
  constructor
  · intro h
    by_contra hk
    push Not at hk
    revert h
    interval_cases k <;> decide
  · intro hk
    rw [getMasternodePayment_subsidyAfter_eq_zero hk,
      getMasternodePayment_subsidyAfter_eq_zero (by omega)]

/-- Two blocks in a row pay a masternode the same: the second is neither the one after the premine
nor the first one after a halving, unless nothing is left to be halved. -/
def SamePayment (net : Network) (h : ℤ) : Prop :=
  net = .REGTEST ∨ h ≠ 2 ∧ (¬ 250000 ∣ h ∨ 33 * 250000 ≤ h)

instance (net : Network) (h : ℤ) : Decidable (SamePayment net h) := by
  unfold SamePayment
  infer_instance

lemma samePayment_iff {net : Network} {h : ℤ} (hh : 2 ≤ h) :
    getMasternodePayment ((paramsOf net).getBlockValue (h - 1)) =
      getMasternodePayment ((paramsOf net).getBlockValue h) ↔ SamePayment net h := by
  unfold SamePayment
  by_cases hn : net = .REGTEST
  · subst hn
    exact iff_of_true rfl (Or.inl rfl)
  rcases eq_or_ne h 2 with rfl | h2
  · -- the premine
    have hne : getMasternodePayment ((paramsOf net).getBlockValue (2 - 1)) ≠
        getMasternodePayment ((paramsOf net).getBlockValue 2) := by
      cases net with
      | MAIN => decide
      | TESTNET => decide
      | REGTEST => exact absurd rfl hn
    exact iff_of_false hne (by simp [hn])
  rw [getBlockValue_eq_subsidyAfter hn (by omega), getBlockValue_eq_subsidyAfter hn hh]
  by_cases hd : (250000 : ℤ) ∣ h
  · obtain ⟨c, rfl⟩ := hd
    have hc : ((250000 * c) / 250000).toNat = ((250000 * c - 1) / 250000).toNat + 1 := by omega
    rw [hc, getMasternodePayment_subsidyAfter_succ]
    have hdvd : (250000 : ℤ) ∣ 250000 * c := Dvd.intro c rfl
    simp only [hn, h2, hdvd, not_true_eq_false, ne_eq, not_false_eq_true, true_and, false_or]
    omega
  · have hq : (h - 1) / 250000 = h / 250000 := by omega
    rw [hq]
    exact iff_of_true rfl (Or.inr ⟨h2, Or.inl hd⟩)

/-! ### The check of a block -/

lemma le_nMaxSignatures {b : CMasternodeBlockPayees} {p : CMasternodePayee}
    (hp : p ∈ b.vecPayments) (hv : MNPAYMENTS_SIGNATURES_REQUIRED ≤ p.nVotes) :
    MNPAYMENTS_SIGNATURES_REQUIRED ≤ b.nMaxSignatures := by
  unfold CMasternodeBlockPayees.nMaxSignatures
  -- once reached, the bound is never left again
  have key : ∀ (l : List CMasternodePayee) (n : ℤ),
      MNPAYMENTS_SIGNATURES_REQUIRED ≤ n ∨ p ∈ l →
      MNPAYMENTS_SIGNATURES_REQUIRED ≤ l.foldl (fun nMax p =>
        if nMax ≤ p.nVotes ∧ MNPAYMENTS_SIGNATURES_REQUIRED ≤ p.nVotes then p.nVotes else nMax)
        n := by
    intro l
    induction l with
    | nil =>
      intro n h
      simpa using h
    | cons q l ih =>
      intro n h
      rw [List.foldl_cons]
      apply ih
      rw [List.mem_cons] at h
      rcases h with h | rfl | h
      · left
        split_ifs with hq
        · exact hq.2
        · exact h
      · left
        split_ifs with hq
        · exact hq.2
        · by_contra hn
          exact hq ⟨by omega, hv⟩
      · exact Or.inr h
  exact key _ _ (Or.inr hp)

lemma isTransactionValid_of_pays {consensus : ChainParams} {b : CMasternodeBlockPayees}
    {payee : CScript} {vout : List CTxOut}
    (hv : b.hasPayeeWithVotes payee MNPAYMENTS_SIGNATURES_REQUIRED = true)
    (ho : ⟨getMasternodePayment (consensus.getBlockValue b.nBlockHeight), payee⟩ ∈ vout) :
    b.isTransactionValid consensus vout = true := by
  obtain ⟨p, hp, hpv⟩ := List.any_eq_true.mp hv
  rw [Bool.and_eq_true, decide_eq_true_eq, beq_iff_eq] at hpv
  obtain ⟨hvotes, rfl⟩ := hpv
  rw [CMasternodeBlockPayees.isTransactionValid,
      if_neg (by simpa using le_nMaxSignatures hp hvotes)]
  refine List.any_eq_true.mpr ⟨p, hp, ?_⟩
  rw [Bool.and_eq_true, decide_eq_true_eq]
  exact ⟨hvotes, List.any_eq_true.mpr ⟨_, ho, by simp⟩⟩

/-! ### The outputs of a new block -/

lemma modify_length (f : CTxOut → CTxOut) (front rest : List CTxOut) (o : CTxOut) :
    (front ++ o :: rest).modify front.length f = front ++ f o :: rest := by
  induction front with
  | nil => rfl
  | cons a front ih => rw [List.cons_append, List.length_cons, List.modify_succ_cons, ih]; rfl

lemma foldl_modify_range (f : CTxOut → CTxOut) (outs front rest : List CTxOut) :
    (List.range' front.length outs.length).foldl (fun v j => v.modify j f) (front ++ outs ++ rest) =
      front ++ outs.map f ++ rest := by
  induction outs generalizing front with
  | nil => simp
  | cons o outs ih =>
    have hm : (front ++ o :: outs ++ rest).modify front.length f =
        (front ++ [f o]) ++ outs ++ rest := by
      rw [List.append_assoc, List.cons_append, modify_length]
      simp
    have := ih (front ++ [f o])
    rw [List.length_append, List.length_singleton] at this
    rw [List.length_cons, List.range'_succ, List.foldl_cons, hm, this]
    simp

lemma getElem?_one_cons_append {first last pay : CTxOut} {init : List CTxOut} :
    (first :: (init ++ [last]) ++ [pay])[1]? = (init ++ [last]).head? := by
  cases init <;> rfl

lemma subtractPayment_of_mint {p : ℤ} (first last pay : CTxOut) (init : List CTxOut)
    (hm : ((init ++ [last]).head?).any (·.isZerocoinMint) = true) :
    subtractPayment p (first :: (init ++ [last])).length (first :: (init ++ [last]) ++ [pay]) =
      first :: (init ++ [last]) ++ [pay] := by
  rw [subtractPayment, getElem?_one_cons_append, if_pos hm]

lemma subtractPayment_eq {p : ℤ} (hp : 0 ≤ p) (first last pay : CTxOut) (init : List CTxOut)
    (hm : ((init ++ [last]).head?).any (·.isZerocoinMint) = false) :
    subtractPayment p (first :: (init ++ [last])).length (first :: (init ++ [last]) ++ [pay]) =
      first :: (init.map (CTxOut.minus (p / (init.length + 1))) ++
        [last.minus (p / (init.length + 1) + p % (init.length + 1))]) ++ [pay] := by
  have hl : (first :: (init ++ [last])).length = init.length + 2 := by simp
  rw [subtractPayment, getElem?_one_cons_append, hm, hl, if_neg (by simp)]
  rcases Nat.eq_zero_or_pos init.length with h0 | hpos
  · obtain rfl := List.eq_nil_of_length_eq_zero h0
    simp [CTxOut.minus]
  · rw [if_neg (by omega), if_pos (by omega)]
    have hloop := foldl_modify_range (CTxOut.minus (p / (init.length + 1))) (init ++ [last])
      [first] [pay]
    have hn : (init ++ [last]).length = init.length + 2 - 1 := by simp
    have hq : p.tdiv (init.length + 2 - 1 : ℕ) = p / (init.length + 1) := by
      rw [Int.tdiv_eq_ediv_of_nonneg hp]
      congr 1
    have hr : p - p / (init.length + 1) * ((init.length + 2 - 1 : ℕ) : ℤ) =
        p % (init.length + 1) := by
      rw [Int.emod_def, mul_comm]
      congr 1
    rw [hn, List.length_singleton, List.singleton_append] at hloop
    have hlast := modify_length (CTxOut.minus (p % (init.length + 1)))
      (first :: init.map (CTxOut.minus (p / (init.length + 1)))) [pay]
      (last.minus (p / (init.length + 1)))
    rw [List.length_cons, List.length_map] at hlast
    dsimp only
    rw [hq, hr, hloop, List.map_append, List.map_singleton]
    rw [show init.length + 2 - 1 = init.length + 1 by omega]
    simpa [CTxOut.minus, sub_sub] using hlast

/-! ### Templates -/

/-- The outputs of a coinstake after the empty one, before a masternode is paid: they hold the
stake and the reward. -/
structure StakeTemplate (reward : ℤ) where
  nStake : ℤ
  init : List CTxOut
  last : CTxOut
  nonneg : ∀ o ∈ init ++ [last], 0 ≤ o.nValue
  total : ((init ++ [last]).map (·.nValue)).sum = nStake + reward

/-- What `FillBlockPayee` is called with: a coinbase with one output without a value, or a
coinstake. -/
inductive RewardTemplate (reward : ℤ)
  | coinbase (scriptPubKeyIn : CScript)
  | coinstake (t : StakeTemplate reward)

namespace RewardTemplate

variable {reward : ℤ}

def fProofOfStake : RewardTemplate reward → Bool
  | coinbase _ => false
  | coinstake _ => true

def vout : RewardTemplate reward → List CTxOut
  | coinbase scriptPubKeyIn => [⟨-1, scriptPubKeyIn⟩]
  | coinstake t => ⟨0, []⟩ :: (t.init ++ [t.last])

def nValueIn : RewardTemplate reward → ℤ
  | coinbase _ => 0
  | coinstake t => t.nStake

/-- The first output after the empty one is a mint, from which nothing is taken. -/
def startsWithMint : RewardTemplate reward → Bool
  | coinbase _ => false
  | coinstake t => ((t.init ++ [t.last]).head?).any (·.isZerocoinMint)

/-- Every output can give the share of the payment `p` that is taken from it; where nothing is
taken there is nothing to pay. -/
def Covers (p : ℤ) : RewardTemplate reward → Prop
  | coinbase _ => True
  | coinstake t =>
    if (coinstake t).startsWithMint then p = 0
    else (∀ o ∈ t.init, p / (t.init.length + 1) ≤ o.nValue) ∧
      p / (t.init.length + 1) + p % (t.init.length + 1) ≤ t.last.nValue

end RewardTemplate

/-- A new block pays its masternode as it has to, out of its own reward. -/
structure RewardAgrees (consensus : ChainParams) (s : CMasternodePayments) (h : ℤ)
    (payee : CScript) (nValueIn : ℤ) (vout : List CTxOut) : Prop where
  pays : vout.getLast? = some ⟨getMasternodePayment (consensus.getBlockValue h), payee⟩
  accepted : s.isTransactionValid consensus vout h = true
  nonneg : ∀ o ∈ vout, 0 ≤ o.nValue
  minted : (vout.map (·.nValue)).sum - nValueIn ≤ consensus.getBlockValue h

section Agreement

variable {consensus : ChainParams} {s : CMasternodePayments} {h : ℤ} {payee : CScript}

/-- The outputs of the template that are left, without the payment. -/
def keptOutputs (p : ℤ) {reward : ℤ} : RewardTemplate reward → List CTxOut
  | .coinbase scriptPubKeyIn => [⟨reward - p, scriptPubKeyIn⟩]
  | .coinstake t =>
    if (RewardTemplate.coinstake t).startsWithMint then ⟨0, []⟩ :: (t.init ++ [t.last])
    else ⟨0, []⟩ :: (t.init.map (CTxOut.minus (p / (t.init.length + 1))) ++
      [t.last.minus (p / (t.init.length + 1) + p % (t.init.length + 1))])

lemma fillBlockPayee_eq (hp : s.getBlockPayee h = some payee) (current : Option CScript)
    (t : RewardTemplate (consensus.getBlockValue h)) :
    s.fillBlockPayee consensus current (h - 1) t.fProofOfStake t.vout =
      keptOutputs (getMasternodePayment (consensus.getBlockValue (h - 1))) t ++
        [⟨getMasternodePayment (consensus.getBlockValue (h - 1)), payee⟩] := by
  rw [CMasternodePayments.fillBlockPayee, sub_add_cancel, hp]
  cases t with
  | coinbase scriptPubKeyIn => rfl
  | coinstake t =>
    simp only [Option.some_or, RewardTemplate.fProofOfStake, if_true, RewardTemplate.vout,
      keptOutputs]
    split_ifs with hm
    · exact subtractPayment_of_mint _ _ _ _ hm
    · exact subtractPayment_eq (getMasternodePayment_nonneg _ _) _ _ _ _ (Bool.not_eq_true _ ▸ hm)

lemma sum_map_minus (q : ℤ) (outs : List CTxOut) :
    ((outs.map (CTxOut.minus q)).map (·.nValue)).sum =
      (outs.map (·.nValue)).sum - outs.length * q := by
  induction outs with
  | nil => simp
  | cons o outs ih =>
    simp only [List.map_cons, List.sum_cons, ih, CTxOut.minus, List.length_cons]
    push_cast
    ring

lemma covers_iff (payee : CScript) {p : ℤ} (hp0 : 0 ≤ p) {reward : ℤ} (hpr : p ≤ reward)
    (t : RewardTemplate reward) :
    (∀ o ∈ keptOutputs p t ++ [CTxOut.mk p payee], 0 ≤ o.nValue) ∧
        ((keptOutputs p t ++ [CTxOut.mk p payee]).map (·.nValue)).sum - t.nValueIn ≤ reward ↔
      t.Covers p := by
  cases t with
  | coinbase scriptPubKeyIn =>
    simp [keptOutputs, RewardTemplate.Covers, RewardTemplate.nValueIn, hp0, hpr]
  | coinstake t =>
    have htot := t.total
    have hnn := t.nonneg
    rw [List.map_append, List.sum_append, List.map_singleton, List.sum_singleton] at htot
    simp only [List.forall_mem_append, List.forall_mem_singleton] at hnn
    have hdiv := Int.emod_add_mul_ediv p (t.init.length + 1)
    simp only [keptOutputs, RewardTemplate.Covers, RewardTemplate.nValueIn]
    split_ifs with hm
    · simp only [List.forall_mem_append, List.forall_mem_cons, List.map_append, List.map_cons,
        List.sum_append, List.sum_cons, List.map_nil, List.sum_nil]
      constructor
      · rintro ⟨-, hsum⟩
        omega
      · rintro rfl
        exact ⟨by simpa using hnn, by omega⟩
    · simp only [List.forall_mem_append, List.forall_mem_cons, List.forall_mem_map,
        List.map_append, List.map_cons, List.sum_append, List.sum_cons, List.map_nil,
        List.sum_nil, sum_map_minus, CTxOut.minus]
      constructor
      · rintro ⟨⟨⟨-, hinit, hlast, -⟩, -⟩, -⟩
        exact ⟨fun o ho => by linarith [hinit o ho], by linarith⟩
      · rintro ⟨hinit, hlast⟩
        refine ⟨⟨⟨le_rfl, fun o ho => by linarith [hinit o ho], by linarith, by simp⟩, ?_⟩, ?_⟩
        · simpa using hp0
        · linarith

/-- **Producer and check of the masternode reward.** They agree on a block just when the blocks
before and at its height are worth the same and the template can give the payment. -/
theorem reward_agrees_iff (net : Network) {s : CMasternodePayments} {h : ℤ} (hh : 2 ≤ h)
    {payee : CScript} (hp : s.getBlockPayee h = some payee)
    (hv : (s.mapMasternodeBlocks h).any
      (·.hasPayeeWithVotes payee MNPAYMENTS_SIGNATURES_REQUIRED) = true)
    (currentMasterNode : Option CScript)
    (t : RewardTemplate ((paramsOf net).getBlockValue h)) :
    RewardAgrees (paramsOf net) s h payee t.nValueIn
        (s.fillBlockPayee (paramsOf net) currentMasterNode (h - 1) t.fProofOfStake t.vout) ↔
      SamePayment net h ∧ t.Covers (getMasternodePayment ((paramsOf net).getBlockValue h)) := by
  have hp0 := getMasternodePayment_nonneg (paramsOf net) h
  have hpr := getMasternodePayment_le (paramsOf net) h
  rw [fillBlockPayee_eq hp, ← samePayment_iff hh]
  constructor
  · rintro ⟨hpays, -, hnonneg, hminted⟩
    have heq : getMasternodePayment ((paramsOf net).getBlockValue (h - 1)) =
        getMasternodePayment ((paramsOf net).getBlockValue h) := by
      simpa using hpays
    rw [heq] at hnonneg hminted
    exact ⟨heq, (covers_iff payee hp0 hpr t).mp ⟨hnonneg, hminted⟩⟩
  · rintro ⟨heq, hcov⟩
    rw [heq]
    obtain ⟨hnonneg, hminted⟩ := (covers_iff payee hp0 hpr t).mpr hcov
    refine ⟨by simp, ?_, hnonneg, hminted⟩
    cases hb : s.mapMasternodeBlocks h with
    | none => simp [CMasternodePayments.isTransactionValid, hb]
    | some b =>
      rw [hb] at hv
      rw [CMasternodePayments.isTransactionValid, hb]
      refine isTransactionValid_of_pays hv ?_
      rw [s.height_eq hb]
      simp

end Agreement

/-! ### At a halving -/

namespace Concrete

def electedPayee : CScript := [Script.OP_1]

/-- Six masternodes have voted for the same payee. -/
def sixVotes (nBlockHeight : ℤ) : CMasternodePayments :=
  (List.range 6).foldl (fun s n => s.addVote (BitVec.ofNat 256 n)
    ⟨⟨⟨BitVec.ofNat 256 n, 0⟩, [], 0⟩, nBlockHeight, electedPayee, [], MESS_VER_HASH⟩) .initial

/-- A stake of a thousand coins and its reward, in one output. -/
def thousandCoins (reward : ℤ) (h : 0 ≤ reward) : StakeTemplate reward where
  nStake := 1000 * COIN
  init := []
  last := ⟨1000 * COIN + reward, [Script.OP_1, Script.OP_CHECKSIG]⟩
  nonneg o ho := by
    rw [List.nil_append, List.mem_singleton] at ho
    subst ho
    have : (0 : ℤ) ≤ 1000 * COIN := by decide
    exact Int.add_nonneg this h
  total := by simp

/-- The coinstake of a block of the main network. -/
def stakeAt (h : ℤ) : RewardTemplate ((paramsOf .MAIN).getBlockValue h) :=
  .coinstake (thousandCoins _ ((paramsOf .MAIN).getBlockValue_nonneg h))

end Concrete

open Concrete

/-- Away from the halvings producer and check agree. -/
theorem reward_agrees_before_halving :
    RewardAgrees (paramsOf .MAIN) (sixVotes 249999) 249999 electedPayee (1000 * COIN)
      ((sixVotes 249999).fillBlockPayee (paramsOf .MAIN) none 249998 true (stakeAt 249999).vout) :=
  (reward_agrees_iff .MAIN (s := sixVotes 249999) (h := 249999) (by decide) (by decide) (by decide)
    none (stakeAt 249999)).mpr ⟨by decide, by
      refine ⟨?_, ?_⟩
      · intro o ho
        cases ho
      · decide⟩

/-- **The first block after a halving.** Its producer pays the elected masternode forty coins, its
check asks for twenty and refuses the block. -/
theorem reward_differs_at_halving :
    (sixVotes 250000).getBlockPayee 250000 = some electedPayee ∧
    ((sixVotes 250000).mapMasternodeBlocks 250000).any
      (·.hasPayeeWithVotes electedPayee MNPAYMENTS_SIGNATURES_REQUIRED) = true ∧
    (sixVotes 250000).isTransactionValid (paramsOf .MAIN)
      ((sixVotes 250000).fillBlockPayee (paramsOf .MAIN) none 249999 true (stakeAt 250000).vout)
      250000 = false ∧
    ¬ RewardAgrees (paramsOf .MAIN) (sixVotes 250000) 250000 electedPayee
      (stakeAt 250000).nValueIn
      ((sixVotes 250000).fillBlockPayee (paramsOf .MAIN) none 249999 true
        (stakeAt 250000).vout) := by
  have hrefused : (sixVotes 250000).isTransactionValid (paramsOf .MAIN)
      ((sixVotes 250000).fillBlockPayee (paramsOf .MAIN) none 249999 true (stakeAt 250000).vout)
      250000 = false := by decide
  refine ⟨by decide, by decide, hrefused, ?_⟩
  intro h
  rw [h.accepted] at hrefused
  cases hrefused

end Agenor
