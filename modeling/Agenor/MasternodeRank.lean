import Agenor.Lib.Arrange
import Agenor.MasternodePings
import Agenor.MasternodeScore
import Mathlib.Data.List.Sort

/-!
Ranks and payees (`GetMasternodeRank` and `GetNextMasternodeInQueueForPayment` of
`masternodeman.cpp`).

Both sort the masternodes by one number and leave the order of those with the same number open. A
score is cut to 32 bits before it is sorted by, so two masternodes may share a rank, and each node
may rank them in its own order. The payee is the best of those that have waited longest; here it
matters who is among these.
-/

namespace Agenor

open Lib

def MN_WINNER_MINIMUM_AGE : ℤ := 8000

/-- `uint256::GetCompact`, without a sign. -/
def getCompact (hash : Uint256) : ℕ :=
  let value := hash.toNat
  let bits := if value = 0 then 0 else value.log2 + 1
  let nSize := (bits + 7) / 8
  let nCompact := if nSize ≤ 3 then value <<< (8 * (3 - nSize)) else value >>> (8 * (nSize - 3))
  -- the bit that would be the sign is kept free
  if nCompact &&& 0x00800000 ≠ 0 then nCompact >>> 8 ||| (nSize + 1) <<< 24
  else nCompact ||| nSize <<< 24

/-- A sort by the first component, descending. What has the same one may come in any order, and the
order may depend on all of the list. -/
def IsSort (sort : List (ℤ × CTxIn) → List (ℤ × CTxIn)) : Prop := ∀ v, Arranges Prod.fst v (sort v)

/-- What masternodes are elected with: the chain, the time and the votes. -/
structure Election where
  env : MnEnv
  H : ScoreHasher
  blocks : BlockHashes
  /-- The time of the block of the active chain at some height. -/
  nTime : ℕ → ℤ
  payments : CMasternodePayments
  /-- `GetScriptForDestination(pubKeyCollateralAddress.GetID())`. -/
  payeeScript : CPubKey → CScript
  /-- The hash of an input and the time of a broadcast. -/
  sigHash : CTxIn → ℤ → Uint256
  /-- `pcoinsTip->GetCoinDepthAtHeight`. -/
  getCoinDepthAtHeight : COutPoint → ℤ → ℤ
  /-- `sigTime + nMnCount * 2.6 * 60 > GetAdjustedTime()`, computed with doubles. -/
  isTooNew : ℤ → ℕ → Bool
  /-- `SPORK_8_MASTERNODE_PAYMENT_ENFORCEMENT`. -/
  enforced : Bool

namespace Election

variable (e : Election) (sort : List (ℤ × CTxIn) → List (ℤ × CTxIn)) (l : List CMasternode)

/-- `CalculateScore`. The hash of the block is remembered after the first call, so all masternodes
get their score with the same one. -/
def score (nBlockHeight : ℤ) (vin : CTxIn) : Uint256 :=
  (e.blocks.calculateScore e.H vin nBlockHeight).2

/-! ### Ranks -/

/-- The masternodes that are ranked. -/
def ranked (minProtocol : ℤ) (fOnlyActive : Bool) : List CMasternode :=
  l.filter fun mn =>
    !decide (mn.protocolVersion < minProtocol) &&
    !(e.enforced && decide (e.env.getAdjustedTime - mn.sigTime < MN_WINNER_MINIMUM_AGE)) &&
    (!fOnlyActive || (mn.check e.env false).isEnabled)

def vecMasternodeScores (nBlockHeight minProtocol : ℤ) (fOnlyActive : Bool) : List (ℤ × CTxIn) :=
  (e.ranked l minProtocol fOnlyActive).map fun mn =>
    ((getCompact (e.score nBlockHeight mn.vin) : ℤ), mn.vin)

/-- The last loop of `GetMasternodeRank`. -/
def rankIn (vin : CTxIn) : ℤ → List (ℤ × CTxIn) → ℤ
  | _, [] => -1
  | rank, s :: rest =>
    if s.2.prevout = vin.prevout then rank + 1 else rankIn vin (rank + 1) rest

def getMasternodeRank (vin : CTxIn) (nBlockHeight minProtocol : ℤ) (fOnlyActive : Bool) : ℤ :=
  match (e.blocks.getBlockHash (Wrap.wrap 32 nBlockHeight)).2 with
  | none => -1
  | some _ => rankIn vin 0 (sort (e.vecMasternodeScores l nBlockHeight minProtocol fOnlyActive))

/-! ### Payees -/

/-- `CMasternodeMan::CountEnabled`, for the active protocol. -/
def countEnabled : ℕ :=
  l.countP fun mn =>
    !decide (mn.protocolVersion < e.env.activeProtocol) && (mn.check e.env false).isEnabled

/-- The loop of `GetLastPaid`, down from a height. -/
def lastPaidFrom (mnpayee : CScript) (nOffset nMnCount : ℤ) : ℕ → ℤ → ℤ
  | 0, _ => 0
  | height + 1, n =>
    if nMnCount ≤ n then 0
    else if (e.payments.mapMasternodeBlocks (height + 1 : ℕ)).any
        (·.hasPayeeWithVotes mnpayee 2) then e.nTime (height + 1) + nOffset
    else lastPaidFrom mnpayee nOffset nMnCount height (n + 1)

/-- `CMasternode::GetLastPaid`. The count times 1.25 is exact. -/
def getLastPaid (nMnCount : ℕ) (mn : CMasternode) : ℤ :=
  let nOffset : ℤ := getCompact (e.sigHash mn.vin mn.sigTime) % 150
  e.lastPaidFrom (e.payeeScript mn.pubKeyCollateralAddress) nOffset (nMnCount * 5 / 4 : ℕ)
    (e.blocks.chainActive.length - 1) 0

def secondsSincePayment (nMnCount : ℕ) (mn : CMasternode) : ℤ :=
  let sec := e.env.getAdjustedTime - e.getLastPaid nMnCount mn
  let month := 60 * 60 * 24 * 30
  if sec < month then sec else month + getCompact (e.sigHash mn.vin mn.sigTime)

def isScheduled (mn : CMasternode) (nNotBlockHeight : ℤ) : Bool :=
  e.env.lockMain && !e.blocks.chainActive.isEmpty && (List.range 9).any fun (i : ℕ) =>
    let h := e.blocks.nHeight + i
    h != nNotBlockHeight &&
      e.payments.getBlockPayee h == some (e.payeeScript mn.pubKeyCollateralAddress)

/-- The masternodes that may be paid. They have been checked, and a second check changes nothing. -/
def queue (nBlockHeight : ℤ) (fFilterSigTime : Bool) : List CMasternode :=
  let nMnCount := e.countEnabled l
  (l.map (·.check e.env false)).filter fun mn =>
    mn.isEnabled && !decide (mn.protocolVersion < e.env.activeProtocol) &&
    !e.isScheduled mn nBlockHeight &&
    !(fFilterSigTime && e.isTooNew mn.sigTime nMnCount) &&
    !decide (e.getCoinDepthAtHeight mn.vin.prevout nBlockHeight < nMnCount)

def vecMasternodeLastPaid (nBlockHeight : ℤ) (fFilterSigTime : Bool) : List (ℤ × CTxIn) :=
  (e.queue l nBlockHeight fFilterSigTime).map fun mn =>
    (e.secondsSincePayment (e.countEnabled l) mn, mn.vin)

/-- `CMasternodeMan::Find`, in the list that has been checked. -/
def find (vin : CTxIn) : Option CMasternode :=
  (l.map (·.check e.env false)).find? fun mn => mn.vin.prevout == vin.prevout

/-- The last loop of `GetNextMasternodeInQueueForPayment`. -/
def payBest (nBlockHeight : ℤ) (nTenthNetwork : ℕ) :
    ℕ → Uint256 → Option CMasternode → List (ℤ × CTxIn) → Option CMasternode
  | _, _, pBestMasternode, [] => pBestMasternode
  | nCountTenth, nHigh, pBestMasternode, s :: rest =>
    match e.find l s.2 with
    | none => pBestMasternode
    | some pmn =>
      let n := e.score (nBlockHeight - 100) pmn.vin
      let best := if nHigh < n then (n, some pmn) else (nHigh, pBestMasternode)
      if nTenthNetwork ≤ nCountTenth + 1 then best.2
      else payBest nBlockHeight nTenthNetwork (nCountTenth + 1) best.1 best.2 rest

/-- The masternodes that the payee is chosen from. When few of them are left, those that are new
are not left out. -/
def payable (nBlockHeight : ℤ) (fFilterSigTime : Bool) : List (ℤ × CTxIn) :=
  let vec := e.vecMasternodeLastPaid l nBlockHeight fFilterSigTime
  if fFilterSigTime && decide (vec.length < e.countEnabled l / 3) then
    e.vecMasternodeLastPaid l nBlockHeight false
  else vec

/-- `GetNextMasternodeInQueueForPayment`: the masternode and `nCount`. -/
def getNextMasternodeInQueueForPayment (nBlockHeight : ℤ) (fFilterSigTime : Bool) :
    Option CMasternode × ℕ :=
  let vec := e.payable l nBlockHeight fFilterSigTime
  (e.payBest l nBlockHeight (e.countEnabled l / 10) 0 0 none (sort vec), vec.length)

/-! ### Sorts -/

variable {e l} {v w w' : List (ℤ × CTxIn)} {vin : CTxIn}

lemma exists_isSort (hw : Arranges Prod.fst v w) : ∃ sort, IsSort sort ∧ sort v = w := by
  classical
  have hsome : ∀ u : List (ℤ × CTxIn), ∃ w, Arranges Prod.fst u w := fun u =>
    (exists_arranges_prefer Prod.fst u fun _ => true).imp fun _ h => h.1
  refine ⟨fun u => if u = v then w else (hsome u).choose, fun u => ?_, if_pos rfl⟩
  dsimp only
  split_ifs with hu
  · rw [hu]
    exact hw
  · exact (hsome u).choose_spec

lemma Arranges.of_perm {v' : List (ℤ × CTxIn)} (h : Arranges Prod.fst v' w) (hperm : v'.Perm v) :
    Arranges Prod.fst v w :=
  ⟨h.perm.trans hperm, h.sorted⟩

lemma forall_sort_iff {γ δ : Type*} (f : List (ℤ × CTxIn) → γ) (vec : List δ → List (ℤ × CTxIn))
    (hvec : ∀ {m m' : List δ}, m'.Perm m → (vec m').Perm (vec m)) (m : List δ) :
    (∀ sort sort' m', IsSort sort → IsSort sort' → m'.Perm m →
      f (sort (vec m)) = f (sort' (vec m'))) ↔
    ∀ w w', Arranges Prod.fst (vec m) w → Arranges Prod.fst (vec m) w' → f w = f w' := by
  refine ⟨fun h w w' hw hw' => ?_, fun h sort sort' m' hsort hsort' hm => ?_⟩
  · obtain ⟨sort, hsort, rfl⟩ := exists_isSort hw
    obtain ⟨sort', hsort', rfl⟩ := exists_isSort hw'
    exact h sort sort' m hsort hsort' (List.Perm.refl m)
  · exact h _ _ (hsort _) (Arranges.of_perm (hsort' _) (hvec hm))

/-! ### When ranks are the same for all -/

lemma rankIn_append {w₁ w₂ : List (ℤ × CTxIn)} {s : ℤ × CTxIn} (rank : ℤ)
    (hbefore : ∀ x ∈ w₁, x.2.prevout ≠ vin.prevout) (hs : s.2.prevout = vin.prevout) :
    rankIn vin rank (w₁ ++ s :: w₂) = rank + w₁.length + 1 := by
  induction w₁ generalizing rank with
  | nil => simp [rankIn, hs]
  | cons x w₁ ih =>
    rw [List.cons_append, rankIn, if_neg (hbefore x (by simp)),
      ih (rank + 1) fun y hy => hbefore y (List.mem_cons_of_mem _ hy)]
    simp only [List.length_cons, Nat.cast_add, Nat.cast_one]
    omega

/-- The inputs of a list are those of different masternodes. -/
def Distinct (v : List (ℤ × CTxIn)) : Prop := (v.map (·.2.prevout)).Nodup

lemma Distinct.nodup (h : Distinct v) : v.Nodup := List.Nodup.of_map _ h

lemma Distinct.eq (h : Distinct v) {a b : ℤ × CTxIn} (ha : a ∈ v) (hb : b ∈ v)
    (heq : a.2.prevout = b.2.prevout) : a = b :=
  List.inj_on_of_nodup_map h ha hb heq

lemma rankIn_eq {w₁ w₂ : List (ℤ × CTxIn)} {s : ℤ × CTxIn} (h : Distinct v)
    (hw : Arranges Prod.fst v (w₁ ++ s :: w₂)) : rankIn s.2 0 (w₁ ++ s :: w₂) = w₁.length + 1 := by
  rw [rankIn_append 0 (fun x hx heq => ?_) rfl, zero_add]
  have hxv : x ∈ v := hw.perm.mem_iff.mp (List.mem_append_left _ hx)
  have hsv : s ∈ v := hw.perm.mem_iff.mp (by simp)
  have hxs : x = s := h.eq hxv hsv heq
  exact (hw.notMem h.nodup).1 (hxs ▸ hx)

lemma ranks_eq_iff (h : Distinct v) :
    (∀ w w', Arranges Prod.fst v w → Arranges Prod.fst v w' →
      ∀ vin, rankIn vin 0 w = rankIn vin 0 w') ↔
    ∀ a ∈ v, ∀ b ∈ v, a.1 = b.1 → a = b := by
  constructor
  · intro hsame a ha b hb hkey
    obtain ⟨w₁, w₂, hwa, hfirst⟩ := exists_arranges_first Prod.fst ha
    obtain ⟨u₁, u₂, hwb, hfirst'⟩ := exists_arranges_first Prod.fst hb
    have hplace : w₁.length = u₁.length := by
      rw [hwa.length_eq_above hfirst, hwb.length_eq_above hfirst']
      simp [above, hkey]
    -- where `a` stands in the arrangement that puts `b` first
    obtain ⟨t₁, t₂, heq⟩ := List.append_of_mem (hwb.perm.mem_iff.mpr ha)
    have hrank := hsame _ _ hwa hwb a.2
    rw [rankIn_eq h hwa, heq, rankIn_eq h (heq ▸ hwb)] at hrank
    have hlen : u₁.length = t₁.length := by omega
    obtain ⟨-, htail⟩ := List.append_inj heq hlen
    exact (List.cons_eq_cons.mp htail).1.symm
  · intro hdistinct w w' hw hw' vin
    have heq : w = w' := by
      refine (hw.perm.trans hw'.perm.symm).eq_of_pairwise (fun a b ha hb hab hba => ?_) hw.sorted
        hw'.sorted
      exact hdistinct a (hw.perm.mem_iff.mp ha) b (hw'.perm.mem_iff.mp hb) (le_antisymm hba hab)
    rw [heq]

/-! ### When the payee is the same for all -/

lemma eq_of_prevout (h : OneEach l) {a b : CMasternode} (ha : a ∈ l) (hb : b ∈ l)
    (heq : a.vin.prevout = b.vin.prevout) : a = b :=
  List.inj_on_of_nodup_map h ha hb heq

lemma oneEach_check (h : OneEach l) : OneEach (l.map (·.check e.env false)) := by
  simpa [OneEach, List.map_map, Function.comp_def] using h

lemma distinct_of_oneEach (h : OneEach l) (p : CMasternode → Bool) (f : CMasternode → ℤ) :
    Distinct ((l.filter p).map fun mn => (f mn, mn.vin)) := by
  unfold Distinct
  rw [List.map_map]
  exact h.sublist (List.filter_sublist.map _)

lemma find_iff (h : OneEach l) {mn : CMasternode} : e.find l vin = some mn ↔
    mn ∈ l.map (·.check e.env false) ∧ mn.vin.prevout = vin.prevout := by
  refine ⟨fun hfind => ⟨List.mem_of_find?_eq_some hfind, ?_⟩, fun ⟨hmem, hvin⟩ => ?_⟩
  · simpa using List.find?_some hfind
  · cases hfind : e.find l vin with
    | none =>
      have hno := List.find?_eq_none.mp hfind mn hmem
      simp [hvin] at hno
    | some mn' =>
      have hvin' : mn'.vin.prevout = vin.prevout := by simpa using List.find?_some hfind
      rw [eq_of_prevout (oneEach_check h) (List.mem_of_find?_eq_some hfind) hmem
        (hvin'.trans hvin.symm)]

lemma payBest_eq {nBlockHeight : ℤ} {nTenth : ℕ} (hfound : ∀ s ∈ w, ∃ pmn, e.find l s.2 = some pmn ∧
    pmn.vin = s.2) (c : ℕ) (high : Uint256) (best : Option (ℤ × CTxIn)) :
    e.payBest l nBlockHeight nTenth c high (best.bind fun s => e.find l s.2) w =
      (bestFrom (fun s => (e.score (nBlockHeight - 100) s.2).toNat) high.toNat best
        (w.take (max 1 (nTenth - c)))).bind fun s => e.find l s.2 := by
  induction w generalizing c high best with
  | nil => simp [payBest, bestFrom]
  | cons s w ih =>
    obtain ⟨pmn, hpmn, hvin⟩ := hfound s (by simp)
    have ih := ih fun x hx => hfound x (List.mem_cons_of_mem _ hx)
    obtain ⟨k, hk⟩ : ∃ k, max 1 (nTenth - c) = k + 1 := ⟨max 1 (nTenth - c) - 1, by omega⟩
    rw [payBest, hpmn, hk, List.take_succ_cons, bestFrom]
    simp only [hvin, BitVec.lt_def]
    have hlast : nTenth ≤ c + 1 → k = 0 := by omega
    have hnext : ¬ nTenth ≤ c + 1 → k = max 1 (nTenth - (c + 1)) := by omega
    by_cases hlt : high.toNat < (e.score (nBlockHeight - 100) s.2).toNat
    · simp only [if_pos hlt]
      split_ifs with hstop
      · simp [hlast hstop, bestFrom, hpmn]
      · rw [hnext hstop, ← ih]
        simp [hpmn]
    · simp only [if_neg hlt]
      split_ifs with hstop
      · simp [hlast hstop, bestFrom]
      · rw [hnext hstop, ← ih]

variable {l' : List CMasternode} {nBlockHeight minProtocol : ℤ} {fOnlyActive fFilterSigTime : Bool}

lemma vecMasternodeScores_perm (h : l'.Perm l) :
    (e.vecMasternodeScores l' nBlockHeight minProtocol fOnlyActive).Perm
      (e.vecMasternodeScores l nBlockHeight minProtocol fOnlyActive) :=
  (h.filter _).map _

lemma countEnabled_perm (h : l'.Perm l) : e.countEnabled l' = e.countEnabled l := h.countP_eq _

lemma vecMasternodeLastPaid_perm (h : l'.Perm l) :
    (e.vecMasternodeLastPaid l' nBlockHeight fFilterSigTime).Perm
      (e.vecMasternodeLastPaid l nBlockHeight fFilterSigTime) := by
  unfold vecMasternodeLastPaid queue
  rw [countEnabled_perm h]
  exact ((h.map _).filter _).map _

lemma payable_perm (h : l'.Perm l) :
    (e.payable l' nBlockHeight fFilterSigTime).Perm (e.payable l nBlockHeight fFilterSigTime) := by
  have hvec : ∀ b, (e.vecMasternodeLastPaid l' nBlockHeight b).Perm
      (e.vecMasternodeLastPaid l nBlockHeight b) := fun b => vecMasternodeLastPaid_perm h
  unfold payable
  dsimp only
  rw [(hvec fFilterSigTime).length_eq, countEnabled_perm h]
  split_ifs
  · exact hvec false
  · exact hvec fFilterSigTime

lemma find_perm (hl : OneEach l) (h : l'.Perm l) (vin : CTxIn) : e.find l' vin = e.find l vin := by
  have hl' : OneEach l' := (h.map _).nodup_iff.mpr hl
  refine Option.ext fun mn => ?_
  rw [find_iff hl, find_iff hl', (h.map _).mem_iff]

lemma find_of_mem_payable (hl : OneEach l) {s : ℤ × CTxIn}
    (hs : s ∈ e.payable l nBlockHeight fFilterSigTime) :
    ∃ pmn, e.find l s.2 = some pmn ∧ pmn.vin = s.2 := by
  have hvec : ∀ b, s ∈ e.vecMasternodeLastPaid l nBlockHeight b →
      ∃ pmn, e.find l s.2 = some pmn ∧ pmn.vin = s.2 := by
    intro b hs
    obtain ⟨mn, hmn, rfl⟩ := List.mem_map.mp hs
    exact ⟨mn, (find_iff hl).mpr ⟨List.mem_of_mem_filter hmn, rfl⟩, rfl⟩
  unfold payable at hs
  dsimp only at hs
  split_ifs at hs
  · exact hvec _ hs
  · exact hvec _ hs

lemma distinct_payable (hl : OneEach l) : Distinct (e.payable l nBlockHeight fFilterSigTime) := by
  have hvec : ∀ b, Distinct (e.vecMasternodeLastPaid l nBlockHeight b) := fun b =>
    distinct_of_oneEach (oneEach_check hl) _ _
  unfold payable
  dsimp only
  split_ifs
  · exact hvec _
  · exact hvec _

/-- The score that the payee is chosen by. -/
def payScore (e : Election) (nBlockHeight : ℤ) (s : ℤ × CTxIn) : ℕ :=
  (e.score (nBlockHeight - 100) s.2).toNat

lemma payBest_of_perm {nTenth : ℕ} (hl : OneEach l) (h : l'.Perm l)
    (hw : Arranges Prod.fst (e.payable l nBlockHeight fFilterSigTime) w) :
    e.payBest l' nBlockHeight nTenth 0 0 none w =
      (choice (e.payScore nBlockHeight) 0 (max 1 nTenth) w).bind fun s => e.find l s.2 := by
  have hfind : ∀ vin, e.find l' vin = e.find l vin := find_perm hl h
  have hfound : ∀ s ∈ w, ∃ pmn, e.find l' s.2 = some pmn ∧ pmn.vin = s.2 := by
    intro s hs
    rw [hfind]
    exact find_of_mem_payable hl (hw.perm.mem_iff.mp hs)
  have heq : e.payBest l' nBlockHeight nTenth 0 0 none w =
      (choice (e.payScore nBlockHeight) 0 (max 1 nTenth) w).bind fun s => e.find l' s.2 :=
    payBest_eq hfound 0 0 none
  rw [heq]
  simp only [hfind]

lemma bind_find_inj (hl : OneEach l) {k : ℕ}
    (hw : Arranges Prod.fst (e.payable l nBlockHeight fFilterSigTime) w)
    (hw' : Arranges Prod.fst (e.payable l nBlockHeight fFilterSigTime) w') :
    (choice (e.payScore nBlockHeight) 0 k w).bind (fun s => e.find l s.2) =
      (choice (e.payScore nBlockHeight) 0 k w').bind (fun s => e.find l s.2) ↔
    choice (e.payScore nBlockHeight) 0 k w = choice (e.payScore nBlockHeight) 0 k w' := by
  have hmem : ∀ {u s}, Arranges Prod.fst (e.payable l nBlockHeight fFilterSigTime) u →
      choice (e.payScore nBlockHeight) 0 k u = some s →
      s ∈ e.payable l nBlockHeight fFilterSigTime := by
    intro u s hu hs
    obtain ⟨-, u₁, u₂, rfl, -⟩ := choice_some hs
    exact hu.perm.mem_iff.mp (by simp)
  refine ⟨fun h => ?_, fun h => by rw [h]⟩
  cases hs : choice (e.payScore nBlockHeight) 0 k w with
  | none =>
    cases hs' : choice (e.payScore nBlockHeight) 0 k w' with
    | none => rfl
    | some s' =>
      obtain ⟨pmn, hpmn, -⟩ := find_of_mem_payable hl (hmem hw' hs')
      simp [hs, hs', hpmn] at h
  | some s =>
    obtain ⟨pmn, hpmn, hvin⟩ := find_of_mem_payable hl (hmem hw hs)
    cases hs' : choice (e.payScore nBlockHeight) 0 k w' with
    | none => simp [hs, hs', hpmn] at h
    | some s' =>
      obtain ⟨pmn', hpmn', hvin'⟩ := find_of_mem_payable hl (hmem hw' hs')
      simp only [hs, hs', Option.bind_some, hpmn, hpmn', Option.some.injEq] at h
      have hss : s.2 = s'.2 := by rw [← hvin, ← hvin', h]
      rw [(distinct_payable hl).eq (hmem hw hs) (hmem hw' hs') (by rw [hss])]

/-- **Ranks and payees do not depend on the order of the list** exactly when those that are ranked
have different compact scores, and the choice of the payee is decided: those that share the last
place of the tenth that has waited longest do not score more than the best of the others in it, and
that one is alone with its score and time. -/
theorem order_independent_iff (hl : OneEach l) :
    (∀ nBlockHeight minProtocol fOnlyActive,
      (∀ sort sort' l', IsSort sort → IsSort sort' → l'.Perm l → ∀ vin,
        e.getMasternodeRank sort l vin nBlockHeight minProtocol fOnlyActive =
          e.getMasternodeRank sort' l' vin nBlockHeight minProtocol fOnlyActive) ↔
      ((e.blocks.getBlockHash (Wrap.wrap 32 nBlockHeight)).2 ≠ none →
        ∀ a ∈ e.ranked l minProtocol fOnlyActive, ∀ b ∈ e.ranked l minProtocol fOnlyActive,
          getCompact (e.score nBlockHeight a.vin) = getCompact (e.score nBlockHeight b.vin) →
          a = b)) ∧
    ∀ nBlockHeight fFilterSigTime,
      (∀ sort sort' l', IsSort sort → IsSort sort' → l'.Perm l →
        e.getNextMasternodeInQueueForPayment sort l nBlockHeight fFilterSigTime =
          e.getNextMasternodeInQueueForPayment sort' l' nBlockHeight fFilterSigTime) ↔
      Decided Prod.fst (e.payScore nBlockHeight) 0 (max 1 (e.countEnabled l / 10))
        (e.payable l nBlockHeight fFilterSigTime) := by
  refine ⟨fun h p active => ?_, fun h filter => ?_⟩
  · cases hblock : (e.blocks.getBlockHash (Wrap.wrap 32 h)).2 with
    | none => simp [getMasternodeRank, hblock]
    | some hash =>
      have hdistinct : Distinct (e.vecMasternodeScores l h p active) := distinct_of_oneEach hl _ _
      have hiff := forall_sort_iff (fun w vin => rankIn vin 0 w)
        (fun l => e.vecMasternodeScores l h p active) vecMasternodeScores_perm l
      simp only [funext_iff] at hiff
      simp only [getMasternodeRank, hblock, hiff, ranks_eq_iff hdistinct]
      refine ⟨fun hkey _ a ha b hb hab => ?_, fun hkey a ha b hb hab => ?_⟩
      · have hpair := hkey _ (List.mem_map_of_mem ha) _ (List.mem_map_of_mem hb) (by simp [hab])
        refine eq_of_prevout hl (List.mem_of_mem_filter ha) (List.mem_of_mem_filter hb) ?_
        rw [(Prod.mk.inj hpair).2]
      · obtain ⟨x, hx, rfl⟩ := List.mem_map.mp ha
        obtain ⟨y, hy, rfl⟩ := List.mem_map.mp hb
        rw [hkey (by simp) x hx y hy (Nat.cast_injective hab)]
  · rw [← same_choice_iff (distinct_payable hl).nodup]
    have hiff := forall_sort_iff (choice (e.payScore h) 0 (max 1 (e.countEnabled l / 10)))
      (fun l => e.payable l h filter) payable_perm l
    rw [← hiff]
    refine forall_congr' fun sort => forall_congr' fun sort' => forall_congr' fun l' => ?_
    refine forall_congr' fun hsort => forall_congr' fun hsort' => forall_congr' fun hperm => ?_
    have hw := hsort (e.payable l h filter)
    have hw' := Arranges.of_perm (hsort' (e.payable l' h filter)) (payable_perm hperm)
    unfold getNextMasternodeInQueueForPayment
    dsimp only
    rw [countEnabled_perm hperm, (payable_perm hperm).length_eq, Prod.mk.injEq,
      payBest_of_perm hl (List.Perm.refl l) hw, payBest_of_perm hl hperm hw',
      bind_find_inj hl hw hw']
    exact and_iff_left rfl

end Election

end Agenor

namespace Agenor.Concrete

/-- An enabled masternode whose collateral has the given hash. -/
def rankedNode (hash : Uint256) : CMasternode :=
  { mnBroadcast (mnPing 2999000 [2, 100]) with
    vin := ⟨⟨hash, 0⟩, [], 0⟩
    activeState := .MASTERNODE_ENABLED
    unitTest := false }

/-- The score of a masternode is the hash of its collateral; nobody has been paid yet. -/
def plainElection : Election where
  env := mnEnv 3000000
  H := ⟨fun _ => 0, fun _ aux => aux⟩
  blocks := .start [2, 1, 0]
  nTime _ := 0
  payments := .initial
  payeeScript _ := []
  sigHash vin _ := vin.prevout.hash
  getCoinDepthAtHeight _ _ := 100
  isTooNew _ _ := false
  enforced := false

/-- A sort that keeps the order of what has the same key. -/
def stableSort (v : List (ℤ × CTxIn)) : List (ℤ × CTxIn) := v.insertionSort fun a b => b.1 ≤ a.1

lemma isSort_stableSort : IsSort stableSort := by
  intro v
  have : Std.Total fun a b : ℤ × CTxIn => b.1 ≤ a.1 := ⟨fun a b => le_total b.1 a.1⟩
  have : IsTrans (ℤ × CTxIn) fun a b => b.1 ≤ a.1 := ⟨fun _ _ _ hab hbc => hbc.trans hab⟩
  exact ⟨List.perm_insertionSort _ v, List.pairwise_insertionSort _ v⟩

end Agenor.Concrete

namespace Agenor.Election

open Concrete

set_option maxRecDepth 20000 in
/-- Two masternodes with scores that differ are ranked and paid in the same order by all. -/
theorem two_masternodes_in_order :
    (∀ sort l', IsSort sort → l'.Perm [rankedNode 100, rankedNode 200] → ∀ vin,
      plainElection.getMasternodeRank stableSort [rankedNode 100, rankedNode 200] vin 2 70920 true =
        plainElection.getMasternodeRank sort l' vin 2 70920 true) ∧
    ∀ sort l', IsSort sort → l'.Perm [rankedNode 100, rankedNode 200] →
      plainElection.getNextMasternodeInQueueForPayment stableSort
          [rankedNode 100, rankedNode 200] 102 true =
        plainElection.getNextMasternodeInQueueForPayment sort l' 102 true := by
  have hl : OneEach [rankedNode 100, rankedNode 200] := by decide
  have hrank :=
    ((order_independent_iff hl (e := plainElection)).1 2 70920 true).mpr fun _ => by decide
  have hpay := ((order_independent_iff hl (e := plainElection)).2 102 true).mpr
    ⟨by decide, by decide⟩
  exact ⟨fun sort l' hsort => hrank stableSort sort l' isSort_stableSort hsort,
    fun sort l' hsort => hpay stableSort sort l' isSort_stableSort hsort⟩

set_option maxRecDepth 20000 in
/-- Two scores that are the same in their first three bytes are ranked as the list has them. -/
theorem rank_by_position :
    ¬ ∀ (e : Election) (l l' : List CMasternode) (sort sort' : List (ℤ × CTxIn) → List (ℤ × CTxIn)),
      OneEach l → IsSort sort → IsSort sort' → l'.Perm l →
      (∀ vin nBlockHeight minProtocol fOnlyActive,
        e.getMasternodeRank sort l vin nBlockHeight minProtocol fOnlyActive =
          e.getMasternodeRank sort' l' vin nBlockHeight minProtocol fOnlyActive) ∧
      ∀ nBlockHeight fFilterSigTime,
        e.getNextMasternodeInQueueForPayment sort l nBlockHeight fFilterSigTime =
          e.getNextMasternodeInQueueForPayment sort' l' nBlockHeight fFilterSigTime := by
  intro h
  have hranks := (h plainElection [rankedNode 0x01000001, rankedNode 0x01000002]
    [rankedNode 0x01000002, rankedNode 0x01000001] stableSort stableSort (by decide)
    isSort_stableSort isSort_stableSort (List.Perm.swap ..)).1
  exact absurd (hranks (rankedNode 0x01000001).vin 2 70920 true) (by decide)

end Agenor.Election
