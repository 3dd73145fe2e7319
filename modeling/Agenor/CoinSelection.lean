import Agenor.Params
import Agenor.Transaction
import Agenor.Lib.Mask
import Agenor.Lib.Wrap
import Mathlib.Data.List.GetD

/-!
How a wallet selects coins for a payment (`ApproximateBestSubset` and
`CWallet::SelectCoinsMinConf` of `wallet.cpp`).

A coin that is worth the target is taken at once. Otherwise the coins below `target + CENT` are
collected, and of the others the one with the lowest value is kept in mind; a random search looks
for a subset of the collected coins that is close to the target. Amounts are signed numbers of 64
bits.
-/

namespace Agenor

open Lib Lib.Wrap

def CENT : ℤ := 1000000

namespace CWallet

/-! ### Coins -/

/-- `CWalletTx`, with what the selection asks about it. -/
structure CWalletTx where
  tx : CTransaction
  /-- `IsFromMe(ISMINE_ALL)`. -/
  isFromMe : Bool
  deriving DecidableEq, Repr

/-- A transaction of the wallet and the index of an output. -/
abbrev WalletCoin := CWalletTx × ℕ

def coinOut (coin : WalletCoin) : CTxOut := coin.1.tx.vout.getD coin.2 CTxOut.null

def coinValue (coin : WalletCoin) : ℤ := (coinOut coin).nValue

/-- `COutput`, an output that may be spent. -/
structure COutput where
  tx : CWalletTx
  i : ℕ
  nDepth : ℤ
  fSpendable : Bool

namespace COutput

variable (out : COutput)

def coin : WalletCoin := (out.tx, out.i)

def value : ℤ := coinValue out.coin

/-- The output can be spent and has enough confirmations. -/
def eligible (nConfMine nConfTheirs : ℤ) : Bool :=
  out.fSpendable && decide ((if out.tx.isFromMe then nConfMine else nConfTheirs) ≤ out.nDepth)

end COutput

/-! ### The search for a subset -/

/-- The state of `ApproximateBestSubset`. -/
structure Search where
  nTotal : ℤ
  vfIncluded : List Bool
  fReachedTarget : Bool
  nBest : ℤ
  vfBest : List Bool

namespace Search

variable (vValue : List ℤ) (nTargetValue : ℤ)

/-- The coin is included. When the target is reached with it, the sum may be the best one so far,
and the coin is left out again. -/
def consider (i : ℕ) (s : Search) : Search :=
  let nTotal := wrap 64 (s.nTotal + vValue.getD i 0)
  let vfIncluded := s.vfIncluded.set i true
  if nTargetValue ≤ nTotal then
    { nTotal := wrap 64 (nTotal - vValue.getD i 0)
      vfIncluded := vfIncluded.set i false
      fReachedTarget := true
      nBest := if nTotal < s.nBest then nTotal else s.nBest
      vfBest := if nTotal < s.nBest then vfIncluded else s.vfBest }
  else { s with nTotal, vfIncluded }

def pass (chosen : Search → ℕ → Bool) (s : Search) : Search :=
  (List.range vValue.length).foldl
    (fun s i => if chosen s i then s.consider vValue nTargetValue i else s) s

/-- In the first pass coins are included at random, and if the target is not reached with them, in
the second pass those are that have been left out. -/
def repetition (randbool : ℕ → Bool) (s : Search) : Search :=
  let s := { s with
    vfIncluded := List.replicate vValue.length false
    nTotal := 0
    fReachedTarget := false }
  let s := s.pass vValue nTargetValue fun _ i => randbool i
  if s.fReachedTarget then s
  else s.pass vValue nTargetValue fun s i => !s.vfIncluded.getD i false

end Search

/-- `ApproximateBestSubset`: the best subset, and what it is worth. -/
def approximateBestSubset (vValue : List ℤ) (nTotalLower nTargetValue : ℤ)
    (randbool : ℕ → ℕ → Bool) (iterations : ℕ) : List Bool × ℤ :=
  let s := (List.range iterations).foldl
    (fun s nRep =>
      if s.nBest = nTargetValue then s else s.repetition vValue nTargetValue (randbool nRep))
    (Search.mk 0 [] false nTotalLower (List.replicate vValue.length true))
  (s.vfBest, s.nBest)

/-! ### The selection -/

/-- The random choices of one selection. -/
structure Chance where
  /-- `random_shuffle`. -/
  shuffle : List COutput → List COutput
  perm : ∀ vCoins, (shuffle vCoins).Perm vCoins
  /-- The random bits of the two searches, for each repetition and each coin. -/
  randbool : Bool → ℕ → ℕ → Bool

/-- `setCoinsRet` and `nValueRet`. -/
structure Selection where
  setCoinsRet : List WalletCoin
  nValueRet : ℤ
  deriving DecidableEq

namespace Selection

def empty : Selection := ⟨[], 0⟩

/-- A coin is inserted into the set, and its value is added. -/
def add (s : Selection) (coin : WalletCoin) : Selection :=
  ⟨s.setCoinsRet.insert coin, wrap 64 (s.nValueRet + coinValue coin)⟩

def addAll (s : Selection) (coins : List WalletCoin) : Selection := coins.foldl add s

end Selection

/-- What the loop over the coins collects. -/
structure Gathered where
  coinLowestLarger : Option COutput
  vValue : List COutput
  nTotalLower : ℤ

/-- The loop over the coins; it ends with a coin that is worth the target. -/
def gather (nTargetValue nConfMine nConfTheirs : ℤ) : List COutput → Gathered → COutput ⊕ Gathered
  | [], g => .inr g
  | out :: vCoins, g =>
    if !out.eligible nConfMine nConfTheirs then gather nTargetValue nConfMine nConfTheirs vCoins g
    else if out.value = nTargetValue then .inl out
    else gather nTargetValue nConfMine nConfTheirs vCoins <|
      if out.value < wrap 64 (nTargetValue + CENT) then
        { g with
          vValue := g.vValue ++ [out]
          nTotalLower := wrap 64 (g.nTotalLower + out.value) }
      else if out.value < g.coinLowestLarger.elim (2 ^ 63 - 1) COutput.value then
        { g with coinLowestLarger := some out }
      else g

/-- The two searches, the second one for a subset that leaves at least a cent of change. -/
def bestSubset (nTargetValue : ℤ) (chance : Chance) (vValue : List ℤ) (nTotalLower : ℤ) :
    List Bool × ℤ :=
  let best := approximateBestSubset vValue nTotalLower nTargetValue (chance.randbool false) 1000
  if best.2 ≠ nTargetValue ∧ wrap 64 (nTargetValue + CENT) ≤ nTotalLower then
    approximateBestSubset vValue nTotalLower (wrap 64 (nTargetValue + CENT)) (chance.randbool true)
      1000
  else best

/-- `std::sort` with `CompareValueOnly`, from the end. Coins of equal value stay in the order in
which they have been shuffled. -/
def sortByValue (vValue : List COutput) : List COutput :=
  vValue.mergeSort fun a b => decide (b.value ≤ a.value)

/-- The end of `SelectCoinsMinConf`, when the collected coins are worth more than the target. -/
def selectSubset (nTargetValue : ℤ) (chance : Chance) (g : Gathered) : Selection :=
  let vValue := sortByValue g.vValue
  let best := bestSubset nTargetValue chance (vValue.map COutput.value) g.nTotalLower
  let subset := Selection.empty.addAll ((pick best.1 vValue).map COutput.coin)
  match g.coinLowestLarger with
  | none => subset
  | some larger =>
    if (best.2 ≠ nTargetValue ∧ best.2 < wrap 64 (nTargetValue + CENT)) ∨ larger.value ≤ best.2 then
      Selection.empty.add larger.coin
    else subset

def selectCoinsMinConf (nTargetValue nConfMine nConfTheirs : ℤ) (vCoins : List COutput)
    (chance : Chance) : Bool × Selection :=
  match gather nTargetValue nConfMine nConfTheirs (chance.shuffle vCoins) ⟨none, [], 0⟩ with
  | .inl out => (true, Selection.empty.add out.coin)
  | .inr g =>
    if g.nTotalLower = nTargetValue then (true, Selection.empty.addAll (g.vValue.map COutput.coin))
    else if g.nTotalLower < nTargetValue then
      match g.coinLowestLarger with
      | none => (false, Selection.empty)
      | some larger => (true, Selection.empty.add larger.coin)
    else (true, selectSubset nTargetValue chance g)

/-! ### What the search keeps -/

variable {vValue : List ℤ} {nTargetValue nTotalLower v : ℤ} {s : Search} {i : ℕ}

/-- The totals are those of the masks, and the best one reaches the target. -/
structure Search.Tracks (vValue : List ℤ) (nTargetValue : ℤ) (s : Search) : Prop where
  length : s.vfIncluded.length = vValue.length
  total : s.nTotal = (pick s.vfIncluded vValue).sum
  best : s.nBest = (pick s.vfBest vValue).sum
  reached : nTargetValue ≤ s.nBest

/-- The values fit into a machine integer, one by one and together. -/
structure Fit (vValue : List ℤ) : Prop where
  nonneg : ∀ v ∈ vValue, 0 ≤ v
  sum_lt : vValue.sum < 2 ^ 63

lemma Fit.pick_nonneg (h : Fit vValue) (mask : List Bool) : 0 ≤ (pick mask vValue).sum :=
  List.sum_nonneg fun v hv => h.nonneg v ((pick_sublist mask vValue).subset hv)

lemma Fit.wrap_pick (h : Fit vValue) (mask : List Bool) :
    wrap 64 (pick mask vValue).sum = (pick mask vValue).sum := by
  have hle := sum_pick_le h.nonneg mask
  have hsum := h.sum_lt
  have hpos := h.pick_nonneg mask
  exact wrap_of_fits (by omega) (by omega)

lemma Search.Tracks.consider (hfit : Fit vValue) (h : s.Tracks vValue nTargetValue)
    (hi : s.vfIncluded[i]? = some false) :
    (s.consider vValue nTargetValue i).Tracks vValue nTargetValue := by
  obtain ⟨hlt, hout⟩ := List.getElem?_eq_some_iff.mp hi
  have hv : vValue[i]? = some (vValue.getD i 0) := by
    rw [List.getD_eq_getElem _ _ (h.length ▸ hlt), List.getElem?_eq_getElem (h.length ▸ hlt)]
  have hset := sum_pick_set hi hv
  have htotal : wrap 64 (s.nTotal + vValue.getD i 0) =
      (pick (s.vfIncluded.set i true) vValue).sum := by
    rw [h.total, ← hset, hfit.wrap_pick]
  have hback : (s.vfIncluded.set i true).set i false = s.vfIncluded := by
    have hself := List.set_getElem_self hlt
    rw [hout] at hself
    rw [List.set_set, hself]
  rw [Search.consider, htotal]
  by_cases hreach : nTargetValue ≤ (pick (s.vfIncluded.set i true) vValue).sum
  · rw [if_pos hreach]
    refine ⟨by simpa using h.length, ?_, ?_, ?_⟩ <;> dsimp only
    · rw [hback, hset, add_sub_cancel_right, hfit.wrap_pick]
    · split_ifs
      · rfl
      · exact h.best
    · split_ifs
      · exact hreach
      · exact h.reached
  · rw [if_neg hreach]
    exact ⟨by simpa using h.length, rfl, h.best, h.reached⟩

lemma Search.consider_ne {j : ℕ} (hij : i ≠ j) :
    (s.consider vValue nTargetValue i).vfIncluded[j]? = s.vfIncluded[j]? := by
  rw [Search.consider]
  split_ifs <;> simp only [List.getElem?_set_ne hij]

lemma Search.Tracks.pass (hfit : Fit vValue) (h : s.Tracks vValue nTargetValue)
    (chosen : Search → ℕ → Bool) (ok : ℕ → Search → Prop) (h0 : ok 0 s)
    (hout : ∀ i s, i < vValue.length → ok i s → chosen s i = true →
      s.Tracks vValue nTargetValue → s.vfIncluded[i]? = some false)
    (hkeep : ∀ i s, ok i s → ok (i + 1) s ∧ ok (i + 1) (s.consider vValue nTargetValue i)) :
    (s.pass vValue nTargetValue chosen).Tracks vValue nTargetValue := by
  suffices ∀ n ≤ vValue.length, ((List.range n).foldl
      (fun s i => if chosen s i then s.consider vValue nTargetValue i else s) s).Tracks
        vValue nTargetValue ∧ ok n ((List.range n).foldl
      (fun s i => if chosen s i then s.consider vValue nTargetValue i else s) s) from
    (this _ le_rfl).1
  intro n hn
  induction n with
  | zero => exact ⟨h, h0⟩
  | succ n ih =>
    obtain ⟨htracks, hok⟩ := ih (by omega)
    rw [List.range_succ, List.foldl_append, List.foldl_cons, List.foldl_nil]
    split_ifs with hchosen
    · exact ⟨htracks.consider hfit (hout n _ (by omega) hok hchosen htracks), (hkeep n _ hok).2⟩
    · exact ⟨htracks, (hkeep n _ hok).1⟩

lemma Search.Tracks.repetition (hfit : Fit vValue) (h : s.nBest = (pick s.vfBest vValue).sum)
    (hreached : nTargetValue ≤ s.nBest) (randbool : ℕ → Bool) :
    (s.repetition vValue nTargetValue randbool).Tracks vValue nTargetValue := by
  have hstart : Search.Tracks vValue nTargetValue
      { s with
        vfIncluded := List.replicate vValue.length false
        nTotal := 0
        fReachedTarget := false } := by
    refine ⟨List.length_replicate, ?_, h, hreached⟩
    rw [pick_none]
    rfl
  -- what comes later in the first pass is not included yet
  have hfirst := hstart.pass hfit (fun _ i => randbool i)
    (fun n s => ∀ j, n ≤ j → j < vValue.length → s.vfIncluded[j]? = some false)
    (fun j _ hj => by rw [List.getElem?_replicate, if_pos hj])
    (fun i s hi hok _ _ => hok i le_rfl hi)
    (fun i s hok => ⟨fun j hj => hok j (by omega), fun j hj hlt => by
      rw [Search.consider_ne (by omega)]
      exact hok j (by omega) hlt⟩)
  unfold Search.repetition
  dsimp only
  split_ifs
  · exact hfirst
  · refine hfirst.pass hfit _ (fun _ _ => True) trivial ?_ fun _ _ _ => ⟨trivial, trivial⟩
    intro i s hi _ hchosen htracks
    rw [List.getD_eq_getElem _ _ (htracks.length.symm ▸ hi), Bool.not_eq_true'] at hchosen
    rw [List.getElem?_eq_getElem (htracks.length.symm ▸ hi), hchosen]

lemma approximateBestSubset_spec (hfit : Fit vValue) (hlower : nTotalLower = vValue.sum)
    (hreached : nTargetValue ≤ nTotalLower) (randbool : ℕ → ℕ → Bool) (iterations : ℕ) :
    (approximateBestSubset vValue nTotalLower nTargetValue randbool iterations).2 =
      (pick (approximateBestSubset vValue nTotalLower nTargetValue randbool iterations).1
        vValue).sum ∧
    nTargetValue ≤
      (approximateBestSubset vValue nTotalLower nTargetValue randbool iterations).2 := by
  unfold approximateBestSubset
  dsimp only
  induction iterations with
  | zero =>
    refine ⟨?_, hreached⟩
    show nTotalLower = (pick (List.replicate vValue.length true) vValue).sum
    rw [pick_all, hlower]
  | succ n ih =>
    rw [List.range_succ, List.foldl_append, List.foldl_cons, List.foldl_nil]
    split_ifs
    · exact ih
    · have htracks := Search.Tracks.repetition hfit ih.1 ih.2 (randbool n)
      exact ⟨htracks.best, htracks.reached⟩

/-! ### Collecting the coins -/

variable {nConfMine nConfTheirs c : ℤ} {out : COutput} {outs seen vCoins : List COutput}
variable {g g' : Gathered} {sel : Selection}

/-- Coins that are different, and whose values fit into a machine integer. -/
structure Coins (outs : List COutput) : Prop where
  nodup : (outs.map COutput.coin).Nodup
  fit : Fit (outs.map COutput.value)

lemma Fit.sublist {l : List ℤ} (h : Fit vValue) (hsub : l.Sublist vValue) : Fit l where
  nonneg v hv := h.nonneg v (hsub.subset hv)
  sum_lt := lt_of_le_of_lt (hsub.sum_le_sum h.nonneg) h.sum_lt

lemma Fit.perm {l : List ℤ} (h : Fit vValue) (hperm : l.Perm vValue) : Fit l where
  nonneg v hv := h.nonneg v (hperm.mem_iff.mp hv)
  sum_lt := hperm.sum_eq ▸ h.sum_lt

lemma Coins.sublist (h : Coins vCoins) (hsub : outs.Sublist vCoins) : Coins outs :=
  ⟨h.nodup.sublist (hsub.map _), h.fit.sublist (hsub.map _)⟩

lemma Coins.perm (h : Coins vCoins) (hperm : outs.Perm vCoins) : Coins outs :=
  ⟨(hperm.map _).nodup_iff.mpr h.nodup, h.fit.perm (hperm.map _)⟩

/-- The set holds just these coins, and the total is theirs. -/
structure Selection.Holds (sel : Selection) (coins : List WalletCoin) : Prop where
  perm : sel.setCoinsRet.Perm coins
  value : sel.nValueRet = (coins.map coinValue).sum

lemma Selection.Holds.add {coin : WalletCoin} {coins : List WalletCoin} (h : sel.Holds coins)
    (hnew : coin ∉ coins) (h0 : 0 ≤ sel.nValueRet + coinValue coin)
    (hlt : sel.nValueRet + coinValue coin < 2 ^ 63) : (sel.add coin).Holds (coin :: coins) where
  perm := by
    rw [Selection.add, List.insert_of_not_mem fun hmem => hnew (h.perm.mem_iff.mp hmem)]
    exact h.perm.cons _
  value := by
    rw [Selection.add, wrap_of_fits (by omega) hlt, h.value, List.map_cons, List.sum_cons,
      add_comm]

lemma Selection.Holds.addAll {coins new : List WalletCoin} (h : sel.Holds coins)
    (hnodup : (new ++ coins).Nodup) (hpos : ∀ coin ∈ new, 0 ≤ coinValue coin)
    (h0 : 0 ≤ sel.nValueRet) (hlt : sel.nValueRet + (new.map coinValue).sum < 2 ^ 63) :
    (sel.addAll new).Holds (new.reverse ++ coins) := by
  induction new generalizing sel coins with
  | nil => exact h
  | cons coin new ih =>
    obtain ⟨hnew, hrest⟩ := List.nodup_cons.mp hnodup
    have hcoin := hpos coin List.mem_cons_self
    have hsum : 0 ≤ (new.map coinValue).sum :=
      List.sum_nonneg (List.forall_mem_map.mpr fun c hc => hpos c (List.mem_cons_of_mem _ hc))
    rw [List.map_cons, List.sum_cons] at hlt
    have hadd := h.add (fun hmem => hnew (List.mem_append_right _ hmem)) (by omega) (by omega)
    have hvalue : (sel.add coin).nValueRet = sel.nValueRet + coinValue coin := by
      rw [hadd.value, List.map_cons, List.sum_cons, ← h.value, add_comm]
    have hall := ih hadd (List.perm_middle.nodup_iff.mpr hnodup)
      (fun c hc => hpos c (List.mem_cons_of_mem _ hc)) (by omega) (by omega)
    rw [List.reverse_cons, List.append_assoc]
    exact hall

lemma Selection.holds_addAll {new : List WalletCoin} (hnodup : new.Nodup)
    (hfit : Fit (new.map coinValue)) : (Selection.empty.addAll new).Holds new.reverse := by
  have hempty : Selection.empty.Holds [] := ⟨.rfl, rfl⟩
  have hall := hempty.addAll (by simpa using hnodup)
    (fun c hc => hfit.nonneg _ (List.mem_map_of_mem hc)) le_rfl
    (by simpa [Selection.empty] using hfit.sum_lt)
  rwa [List.append_nil] at hall

lemma Coins.addAll (h : Coins outs) : (Selection.empty.addAll (outs.map COutput.coin)).Holds
    (outs.map COutput.coin).reverse := by
  refine Selection.holds_addAll h.nodup ?_
  rw [List.map_map]
  exact h.fit

/-- What has been collected from the coins that can be selected, where `c` is the limit. -/
structure Gathered.Of (c : ℤ) (seen : List COutput) (g : Gathered) : Prop where
  vValue : g.vValue = seen.filter fun out => decide (out.value < c)
  total : g.nTotalLower = (g.vValue.map COutput.value).sum
  larger : ∀ out, g.coinLowestLarger = some out → out ∈ seen ∧ c ≤ out.value
  none : g.coinLowestLarger = none → ∀ out ∈ seen, out.value < c

lemma Gathered.of_nil (c : ℤ) : Gathered.Of c [] ⟨Option.none, [], 0⟩ :=
  ⟨rfl, rfl, nofun, nofun⟩

lemma Gathered.Of.next (h : g.Of c seen) (hfit : Fit ((seen ++ [out]).map COutput.value))
    (hmax : out.value < 2 ^ 63 - 1) :
    Gathered.Of c (seen ++ [out])
      (if out.value < c then
        { g with vValue := g.vValue ++ [out], nTotalLower := wrap 64 (g.nTotalLower + out.value) }
      else if out.value < g.coinLowestLarger.elim (2 ^ 63 - 1) COutput.value then
        { g with coinLowestLarger := some out }
      else g) := by
  split_ifs with hc hlow
  · have hvalue : g.vValue ++ [out] = (seen ++ [out]).filter fun o => decide (o.value < c) := by
      rw [List.filter_append, h.vValue]
      simp [hc]
    have hsum : ((g.vValue ++ [out]).map COutput.value).sum = g.nTotalLower + out.value := by
      rw [h.total]
      simp
    have hpart := hfit.sublist ((List.filter_sublist (l := seen ++ [out])
      (p := fun o => decide (o.value < c))).map COutput.value)
    rw [← hvalue] at hpart
    have hpos := List.sum_nonneg hpart.nonneg
    have hlt := hpart.sum_lt
    refine ⟨hvalue, ?_, fun o ho => ?_, fun hnone o ho => ?_⟩
    · rw [hsum] at hpos hlt ⊢
      exact wrap_of_fits (by omega) hlt
    · obtain ⟨hmem, hle⟩ := h.larger o ho
      exact ⟨List.mem_append_left _ hmem, hle⟩
    · rcases List.mem_append.mp ho with ho | ho
      · exact h.none hnone o ho
      · rwa [List.mem_singleton.mp ho]
  · refine ⟨?_, h.total, fun o ho => ?_, nofun⟩
    · rw [List.filter_append, ← h.vValue]
      simp [hc]
    · obtain rfl : out = o := by simpa using ho
      exact ⟨by simp, by omega⟩
  · refine ⟨?_, h.total, fun o ho => ?_, fun hnone => ?_⟩
    · rw [List.filter_append, ← h.vValue]
      simp [hc]
    · obtain ⟨hmem, hle⟩ := h.larger o ho
      exact ⟨List.mem_append_left _ hmem, hle⟩
    · rw [hnone] at hlow
      exact absurd hmax hlow

lemma gather_inl (h : gather nTargetValue nConfMine nConfTheirs vCoins g = .inl out) :
    out ∈ vCoins.filter (·.eligible nConfMine nConfTheirs) ∧ out.value = nTargetValue := by
  induction vCoins generalizing g with
  | nil => cases h
  | cons o vCoins ih =>
    rw [gather] at h
    split_ifs at h with hskip hexact
    · obtain ⟨hmem, hvalue⟩ := ih h
      exact ⟨(List.Sublist.filter _ (List.sublist_cons_self o vCoins)).subset hmem, hvalue⟩
    · obtain rfl : o = out := by simpa using h
      exact ⟨List.mem_filter.mpr ⟨List.mem_cons_self, by simpa using hskip⟩, hexact⟩
    all_goals
      obtain ⟨hmem, hvalue⟩ := ih h
      exact ⟨(List.Sublist.filter _ (List.sublist_cons_self o vCoins)).subset hmem, hvalue⟩

lemma gather_inr (h : gather nTargetValue nConfMine nConfTheirs vCoins g = .inr g')
    (hof : g.Of (wrap 64 (nTargetValue + CENT)) seen)
    (hfit : Fit ((seen ++ vCoins.filter (·.eligible nConfMine nConfTheirs)).map COutput.value))
    (hmax : ∀ out ∈ vCoins, out.value < 2 ^ 63 - 1) :
    g'.Of (wrap 64 (nTargetValue + CENT))
      (seen ++ vCoins.filter (·.eligible nConfMine nConfTheirs)) ∧
    ∀ out ∈ vCoins.filter (·.eligible nConfMine nConfTheirs), out.value ≠ nTargetValue := by
  induction vCoins generalizing g seen with
  | nil =>
    obtain rfl : g = g' := by simpa [gather] using h
    simpa using hof
  | cons o vCoins ih =>
    have hrest : ∀ out ∈ vCoins, out.value < 2 ^ 63 - 1 :=
      fun out ho => hmax out (List.mem_cons_of_mem _ ho)
    rw [gather] at h
    by_cases hskip : o.eligible nConfMine nConfTheirs = true
    · rw [if_neg (by simp [hskip])] at h
      by_cases hexact : o.value = nTargetValue
      · rw [if_pos hexact] at h
        cases h
      · rw [if_neg hexact] at h
        have hcons : (o :: vCoins).filter (·.eligible nConfMine nConfTheirs) =
            o :: vCoins.filter (·.eligible nConfMine nConfTheirs) := List.filter_cons_of_pos hskip
        rw [hcons] at hfit ⊢
        have happend : seen ++ o :: vCoins.filter (·.eligible nConfMine nConfTheirs) =
            seen ++ [o] ++ vCoins.filter (·.eligible nConfMine nConfTheirs) := by simp
        rw [happend] at hfit ⊢
        have hhead := hfit.sublist ((List.sublist_append_left _ _).map COutput.value)
        obtain ⟨hof', hne⟩ := ih h (hof.next hhead (hmax o List.mem_cons_self)) hfit hrest
        refine ⟨hof', fun out ho => ?_⟩
        rcases List.mem_cons.mp ho with rfl | ho
        · exact hexact
        · exact hne out ho
    · rw [if_pos (by simpa using hskip)] at h
      have hcons : (o :: vCoins).filter (·.eligible nConfMine nConfTheirs) =
          vCoins.filter (·.eligible nConfMine nConfTheirs) := List.filter_cons_of_neg hskip
      rw [hcons] at hfit ⊢
      exact ih h hof hfit hrest

/-! ### The selection -/

/-- What a selection is to do with the coins that can be selected: it succeeds exactly if they are
worth the target, then with a set of such coins that is worth it, and with an exact one if there is
a coin that is worth the target, or if all those below `target + CENT` are together. -/
structure Selects (nTargetValue : ℤ) (coins : List COutput) (r : Bool × Selection) : Prop where
  found : r.1 = true ↔ nTargetValue ≤ (coins.map COutput.value).sum
  sound : r.1 = true → r.2.setCoinsRet.Nodup ∧
    (∀ coin ∈ r.2.setCoinsRet, coin ∈ coins.map COutput.coin) ∧
    (r.2.setCoinsRet.map coinValue).sum = r.2.nValueRet ∧ nTargetValue ≤ r.2.nValueRet
  exact : ((∃ out ∈ coins, out.value = nTargetValue) ∨
    ((coins.filter fun out => decide (out.value < nTargetValue + CENT)).map COutput.value).sum =
      nTargetValue) → r.1 = true ∧ r.2.nValueRet = nTargetValue

variable {coins : List COutput}

lemma Selection.Holds.selects (h : sel.Holds (outs.map COutput.coin)) (hcoins : Coins coins)
    (hsub : List.Subperm outs coins) (hreach : nTargetValue ≤ (outs.map COutput.value).sum)
    (hexact : ((∃ out ∈ coins, out.value = nTargetValue) ∨
      ((coins.filter fun out => decide (out.value < nTargetValue + CENT)).map COutput.value).sum =
        nTargetValue) → (outs.map COutput.value).sum = nTargetValue) :
    Selects nTargetValue coins (true, sel) := by
  have hvalue : sel.nValueRet = (outs.map COutput.value).sum := by
    rw [h.value, List.map_map]
    rfl
  obtain ⟨outs', hperm, hsublist⟩ := hsub
  have hsum : (outs.map COutput.value).sum = (outs'.map COutput.value).sum :=
    ((hperm.map COutput.value).sum_eq).symm
  have hle := (hsublist.map COutput.value).sum_le_sum hcoins.fit.nonneg
  refine ⟨⟨fun _ => ?_, fun _ => rfl⟩, fun _ => ⟨?_, ?_, ?_, ?_⟩, fun hex => ⟨rfl, ?_⟩⟩
  · omega
  · refine h.perm.nodup_iff.mpr ((hperm.map COutput.coin).nodup_iff.mp ?_)
    exact hcoins.nodup.sublist (hsublist.map _)
  · intro coin hcoin
    exact (hsublist.map _).subset ((hperm.map _).mem_iff.mpr (h.perm.mem_iff.mp hcoin))
  · rw [h.value]
    exact (h.perm.map coinValue).sum_eq
  · rw [hvalue]
    exact hreach
  · rw [hvalue]
    exact hexact hex

lemma Coins.holds_add (h : Coins coins) (hmem : out ∈ coins) :
    (Selection.empty.add out.coin).Holds ([out].map COutput.coin) := by
  have hsub := List.singleton_sublist.mpr hmem
  exact (h.sublist hsub).addAll

lemma Coins.selects_add (h : Coins coins) (hmem : out ∈ coins) (hreach : nTargetValue ≤ out.value)
    (hexact : ((∃ out ∈ coins, out.value = nTargetValue) ∨
      ((coins.filter fun out => decide (out.value < nTargetValue + CENT)).map COutput.value).sum =
        nTargetValue) → out.value = nTargetValue) :
    Selects nTargetValue coins (true, Selection.empty.add out.coin) :=
  (h.holds_add hmem).selects h (List.singleton_sublist.mpr hmem).subperm (by simpa using hreach)
    fun hex => by simpa using hexact hex

lemma bestSubset_spec (chance : Chance) (hfit : Fit vValue) (hlower : nTotalLower = vValue.sum)
    (hwrap : wrap 64 (nTargetValue + CENT) = nTargetValue + CENT)
    (hreached : nTargetValue ≤ nTotalLower) :
    (bestSubset nTargetValue chance vValue nTotalLower).2 =
      (pick (bestSubset nTargetValue chance vValue nTotalLower).1 vValue).sum ∧
    nTargetValue ≤ (bestSubset nTargetValue chance vValue nTotalLower).2 := by
  have hCENT : 0 < CENT := by decide
  rw [bestSubset, hwrap]
  split_ifs with hagain
  · obtain ⟨hsum, hle⟩ :=
      approximateBestSubset_spec hfit hlower hagain.2 (chance.randbool true) 1000
    exact ⟨hsum, by omega⟩
  · exact approximateBestSubset_spec hfit hlower hreached (chance.randbool false) 1000

lemma selectSubset_selects {chance : Chance} (hcoins : Coins coins)
    (hof : g.Of (nTargetValue + CENT) coins) (hwrap : wrap 64 (nTargetValue + CENT) =
      nTargetValue + CENT) (hreach : nTargetValue ≤ g.nTotalLower)
    (hexact : ¬ ((∃ out ∈ coins, out.value = nTargetValue) ∨
      ((coins.filter fun out => decide (out.value < nTargetValue + CENT)).map COutput.value).sum =
        nTargetValue)) :
    Selects nTargetValue coins (true, selectSubset nTargetValue chance g) := by
  have hsub : g.vValue.Sublist coins := hof.vValue ▸ List.filter_sublist
  have hperm : (sortByValue g.vValue).Perm g.vValue := List.mergeSort_perm _ _
  have hsorted := (hcoins.sublist hsub).perm hperm
  have hlower : g.nTotalLower = ((sortByValue g.vValue).map COutput.value).sum := by
    rw [hof.total]
    exact ((hperm.map COutput.value).sum_eq).symm
  obtain ⟨hsum, hle⟩ := bestSubset_spec chance hsorted.fit hlower hwrap hreach
  have hsubset : Selects nTargetValue coins (true, Selection.empty.addAll ((pick (bestSubset
      nTargetValue chance ((sortByValue g.vValue).map COutput.value) g.nTotalLower).1
      (sortByValue g.vValue)).map COutput.coin)) := by
    have hpick := pick_sublist (bestSubset nTargetValue chance
      ((sortByValue g.vValue).map COutput.value) g.nTotalLower).1 (sortByValue g.vValue)
    have hholds := (hsorted.sublist hpick).addAll
    refine Selection.Holds.selects ⟨hholds.perm.trans (List.reverse_perm _), ?_⟩ hcoins ?_ ?_
      fun hex => absurd hex hexact
    · rw [hholds.value, List.map_reverse, List.sum_reverse]
    · exact (hpick.subperm.trans hperm.subperm).trans hsub.subperm
    · rw [← pick_map, ← hsum]
      exact hle
  rw [selectSubset]
  cases hlarger : g.coinLowestLarger with
  | none => exact hsubset
  | some larger =>
    obtain ⟨hmem, hlarge⟩ := hof.larger larger hlarger
    have hCENT : 0 < CENT := by decide
    dsimp only
    split_ifs
    · exact hcoins.selects_add hmem (by omega) fun hex => absurd hex hexact
    · exact hsubset

lemma selectCoinsMinConf_selects {chance : Chance}
    (hcoins : Coins (vCoins.filter (·.eligible nConfMine nConfTheirs)))
    (hmax : ∀ out ∈ vCoins, out.value < 2 ^ 63 - 1) (hpos : 0 < nTargetValue)
    (hfits : nTargetValue + CENT < 2 ^ 63) :
    Selects nTargetValue (vCoins.filter (·.eligible nConfMine nConfTheirs))
      (selectCoinsMinConf nTargetValue nConfMine nConfTheirs vCoins chance) := by
  have hCENT : 0 < CENT := by decide
  have hwrap : wrap 64 (nTargetValue + CENT) = nTargetValue + CENT :=
    wrap_of_fits (by omega) hfits
  have hshuffle := chance.perm vCoins
  have hperm := hshuffle.filter (·.eligible nConfMine nConfTheirs)
  have hcoins' := hcoins.perm hperm
  suffices hsel : Selects nTargetValue
      ((chance.shuffle vCoins).filter (·.eligible nConfMine nConfTheirs))
      (selectCoinsMinConf nTargetValue nConfMine nConfTheirs vCoins chance) by
    have hsum := (hperm.map COutput.value).sum_eq
    refine ⟨hsum ▸ hsel.found, fun hr => ?_, fun hex => hsel.exact (hex.imp ?_ ?_)⟩
    · obtain ⟨hnodup, hmem, hrest⟩ := hsel.sound hr
      exact ⟨hnodup, fun coin hcoin => (hperm.map _).mem_iff.mp (hmem coin hcoin), hrest⟩
    · rintro ⟨out, hout, hvalue⟩
      exact ⟨out, hperm.mem_iff.mpr hout, hvalue⟩
    · intro hlow
      exact ((hperm.filter _).map COutput.value).sum_eq.trans hlow
  rw [selectCoinsMinConf]
  cases hg : gather nTargetValue nConfMine nConfTheirs (chance.shuffle vCoins) ⟨none, [], 0⟩ with
  | inl out =>
    obtain ⟨hmem, hvalue⟩ := gather_inl hg
    exact hcoins'.selects_add hmem hvalue.ge fun _ => hvalue
  | inr g =>
    obtain ⟨hof, hne⟩ := gather_inr hg (Gathered.of_nil _) hcoins'.fit
      fun out ho => hmax out (hshuffle.mem_iff.mp ho)
    rw [List.nil_append, hwrap] at hof
    have hno : ¬ ∃ out ∈ (chance.shuffle vCoins).filter (·.eligible nConfMine nConfTheirs),
        out.value = nTargetValue := fun ⟨out, ho, hvalue⟩ => hne out ho hvalue
    have htotal := hof.total
    rw [hof.vValue] at htotal
    dsimp only
    split_ifs with heq hlt
    · have hsub : g.vValue.Sublist _ := hof.vValue ▸ List.filter_sublist
      have hholds := (hcoins'.sublist hsub).addAll
      refine Selection.Holds.selects ⟨hholds.perm.trans (List.reverse_perm _), ?_⟩ hcoins'
        hsub.subperm ?_ fun _ => ?_
      · rw [hholds.value, List.map_reverse, List.sum_reverse]
      · rw [← hof.total, heq]
      · rw [← hof.total, heq]
    · have hexact := not_or.mpr ⟨hno, fun hsum => heq (htotal.trans hsum)⟩
      cases hlarger : g.coinLowestLarger with
      | none =>
        -- all of them have been collected
        have hall : ((chance.shuffle vCoins).filter (·.eligible nConfMine nConfTheirs)).filter
            (fun out => decide (out.value < nTargetValue + CENT)) =
              (chance.shuffle vCoins).filter (·.eligible nConfMine nConfTheirs) :=
          List.filter_eq_self.mpr fun out ho => decide_eq_true (hof.none hlarger out ho)
        rw [hall] at htotal
        refine ⟨⟨nofun, fun hle => ?_⟩, nofun, fun hex => absurd hex hexact⟩
        omega
      | some larger =>
        obtain ⟨hmem, hlarge⟩ := hof.larger larger hlarger
        exact hcoins'.selects_add hmem (by omega) fun hex => absurd hex hexact
    · have hexact := not_or.mpr ⟨hno, fun hsum => heq (htotal.trans hsum)⟩
      exact selectSubset_selects hcoins' hof hwrap (by omega) hexact

lemma not_selects_of_overflow (chance : Chance)
    (hcoins : Coins (vCoins.filter (·.eligible nConfMine nConfTheirs)))
    (hmax : ∀ out ∈ vCoins, out.value < 2 ^ 63 - 1 - CENT) (hlt : nTargetValue < 2 ^ 63)
    (hover : 2 ^ 63 ≤ nTargetValue + CENT)
    (hne : vCoins.filter (·.eligible nConfMine nConfTheirs) ≠ []) :
    ¬ Selects nTargetValue (vCoins.filter (·.eligible nConfMine nConfTheirs))
      (selectCoinsMinConf nTargetValue nConfMine nConfTheirs vCoins chance) := by
  have hCENT : CENT = 1000000 := rfl
  have hwrap : wrap 64 (nTargetValue + CENT) = nTargetValue + CENT - 2 ^ 64 :=
    wrap_of_over hover (by omega)
  have hshuffle := chance.perm vCoins
  have hperm := hshuffle.filter (·.eligible nConfMine nConfTheirs)
  have hcoins' := hcoins.perm hperm
  have hsmall : ∀ out ∈ (chance.shuffle vCoins).filter (·.eligible nConfMine nConfTheirs),
      0 ≤ out.value ∧ out.value < nTargetValue := by
    intro out ho
    have hbound := hmax out (hshuffle.mem_iff.mp (List.mem_filter.mp ho).1)
    exact ⟨hcoins'.fit.nonneg _ (List.mem_map_of_mem ho), by omega⟩
  intro hsel
  cases hg : gather nTargetValue nConfMine nConfTheirs (chance.shuffle vCoins) ⟨none, [], 0⟩ with
  | inl out =>
    obtain ⟨hmem, hvalue⟩ := gather_inl hg
    exact absurd hvalue (hsmall out hmem).2.ne
  | inr g =>
    obtain ⟨hof, -⟩ := gather_inr hg (Gathered.of_nil _) hcoins'.fit
      fun out ho => by have hbound := hmax out (hshuffle.mem_iff.mp ho); omega
    rw [List.nil_append] at hof
    have hnone : g.vValue = [] := by
      rw [hof.vValue, List.filter_eq_nil_iff]
      intro out ho
      have hbound := (hsmall out ho).1
      rw [decide_eq_true_iff]
      omega
    have htotal : g.nTotalLower = 0 := by
      rw [hof.total, hnone]
      rfl
    obtain ⟨out, ho⟩ := List.exists_mem_of_ne_nil _ hne
    have ho' := hperm.mem_iff.mpr ho
    cases hlarger : g.coinLowestLarger with
    | none =>
      have hbelow := hof.none hlarger out ho'
      have hbound := (hsmall out ho').1
      omega
    | some larger =>
      have hres : selectCoinsMinConf nTargetValue nConfMine nConfTheirs vCoins chance =
          (true, Selection.empty.add larger.coin) := by
        rw [selectCoinsMinConf, hg]
        dsimp only
        rw [htotal, if_neg (by omega), if_pos (by omega), hlarger]
      obtain ⟨hmem, -⟩ := hof.larger larger hlarger
      have hvalue := (hcoins'.holds_add hmem).value
      obtain ⟨-, -, -, hle⟩ := hsel.sound (by rw [hres])
      rw [hres] at hle
      have hlow := (hsmall larger hmem).2
      have hworth : (Selection.empty.add larger.coin).nValueRet = larger.value := by
        rw [hvalue]
        simp [COutput.value]
      dsimp only at hle
      omega

lemma selects_of_nil {chance : Chance} (hmax : ∀ out ∈ vCoins, out.value < 2 ^ 63 - 1)
    (hpos : 0 < nTargetValue) (hnil : vCoins.filter (·.eligible nConfMine nConfTheirs) = []) :
    Selects nTargetValue (vCoins.filter (·.eligible nConfMine nConfTheirs))
      (selectCoinsMinConf nTargetValue nConfMine nConfTheirs vCoins chance) := by
  have hshuffle := chance.perm vCoins
  have hnil' : (chance.shuffle vCoins).filter (·.eligible nConfMine nConfTheirs) = [] :=
    List.Perm.eq_nil (hnil ▸ hshuffle.filter _)
  have hres : selectCoinsMinConf nTargetValue nConfMine nConfTheirs vCoins chance =
      (false, Selection.empty) := by
    rw [selectCoinsMinConf]
    cases hg : gather nTargetValue nConfMine nConfTheirs (chance.shuffle vCoins) ⟨none, [], 0⟩ with
    | inl out =>
      have hmem := (gather_inl hg).1
      rw [hnil'] at hmem
      cases hmem
    | inr g =>
      have hfit : Fit ((([] : List COutput) ++ (chance.shuffle vCoins).filter
          (·.eligible nConfMine nConfTheirs)).map COutput.value) := by
        rw [hnil']
        exact ⟨nofun, by decide⟩
      obtain ⟨hof, -⟩ := gather_inr hg (Gathered.of_nil _) hfit
        fun out ho => hmax out (hshuffle.mem_iff.mp ho)
      rw [hnil', List.append_nil] at hof
      have htotal : g.nTotalLower = 0 := by
        rw [hof.total, hof.vValue]
        rfl
      dsimp only
      rw [htotal, if_neg (by omega), if_pos hpos]
      cases hlarger : g.coinLowestLarger with
      | none => rfl
      | some larger => exact absurd (hof.larger larger hlarger).1 List.not_mem_nil
  rw [hres, hnil]
  refine ⟨⟨nofun, fun hle => ?_⟩, nofun, ?_⟩
  · simp only [List.map_nil, List.sum_nil] at hle
    omega
  · rintro (⟨out, ho, -⟩ | hsum)
    · cases ho
    · simp only [List.filter_nil, List.map_nil, List.sum_nil] at hsum
      omega

/-- **Coin selection** is sound and complete for all random choices exactly if the target and a cent
fit into an amount together, or there is nothing to select from. -/
theorem selects_iff (net : Network) (vCoins : List COutput)
    (hnodup : (vCoins.map COutput.coin).Nodup)
    (hrange : ∀ out ∈ vCoins, (paramsOf net).moneyRange out.value = true)
    (htotal : (vCoins.map COutput.value).sum < 2 ^ 63) (nTargetValue nConfMine nConfTheirs : ℤ)
    (hpos : 0 < nTargetValue) (hlt : nTargetValue < 2 ^ 63) :
    (∀ chance, Selects nTargetValue (vCoins.filter (·.eligible nConfMine nConfTheirs))
      (selectCoinsMinConf nTargetValue nConfMine nConfTheirs vCoins chance)) ↔
    nTargetValue + CENT < 2 ^ 63 ∨ vCoins.filter (·.eligible nConfMine nConfTheirs) = [] := by
  have hvalue : ∀ out ∈ vCoins, 0 ≤ out.value ∧ out.value ≤ 10 ^ 16 := by
    intro out ho
    have hr := hrange out ho
    rw [ChainParams.moneyRange, decide_eq_true_iff] at hr
    exact ⟨hr.1, hr.2.trans (paramsOf_moneyOk net).le⟩
  have hcoins : Coins vCoins := ⟨hnodup, by simpa using fun out ho => (hvalue out ho).1, htotal⟩
  have hmax : ∀ out ∈ vCoins, out.value < 2 ^ 63 - 1 - CENT := by
    intro out ho
    have hle := (hvalue out ho).2
    rw [CENT]
    omega
  have hmax' : ∀ out ∈ vCoins, out.value < 2 ^ 63 - 1 := by
    intro out ho
    have hle := (hvalue out ho).2
    omega
  have heligible := hcoins.sublist (List.filter_sublist (p := (·.eligible nConfMine nConfTheirs)))
  constructor
  · intro hall
    by_contra hcon
    obtain ⟨hover, hne⟩ := not_or.mp hcon
    exact not_selects_of_overflow ⟨id, fun _ => .rfl, fun _ _ _ => false⟩ heligible hmax hlt
      (not_lt.mp hover) hne (hall _)
  · rintro (hfits | hnil) chance
    · exact selectCoinsMinConf_selects heligible hmax' hpos hfits
    · exact selects_of_nil hmax' hpos hnil

/-- Coins of the values 5 and 9 and a coin of the value 7 that is not deep enough, for 11. -/
theorem selects_iff_three :
    let coin (hash : Uint256) (value nDepth : ℤ) : COutput :=
      ⟨⟨⟨hash, [], [⟨value, []⟩]⟩, true⟩, 0, nDepth, true⟩
    let vCoins := [coin 1 5 6, coin 2 7 0, coin 3 9 12]
    (vCoins.map COutput.coin).Nodup ∧
    (∀ o ∈ vCoins, (paramsOf .MAIN).moneyRange o.value = true) ∧
    (vCoins.map COutput.value).sum < 2 ^ 63 ∧ (0 : ℤ) < 11 ∧ (11 : ℤ) < 2 ^ 63 ∧
    vCoins.filter (·.eligible 1 6) = [coin 1 5 6, coin 3 9 12] ∧
    ((∀ chance, Selects 11 (vCoins.filter (·.eligible 1 6))
        (selectCoinsMinConf 11 1 6 vCoins chance)) ↔
      (11 : ℤ) + CENT < 2 ^ 63 ∨ vCoins.filter (·.eligible 1 6) = []) := by
  intro coin vCoins
  exact ⟨by decide, by decide, by decide, by decide, by decide, rfl,
    selects_iff .MAIN vCoins (by decide) (by decide) (by decide) 11 1 6 (by decide) (by decide)⟩

/-- A coin of the value 5 is selected for the largest amount. -/
theorem not_selects_largest :
    let out : COutput := ⟨⟨⟨1, [], [⟨5, []⟩]⟩, true⟩, 0, 6, true⟩
    ¬ ∀ chance, Selects (2 ^ 63 - 1) ([out].filter (·.eligible 1 6))
      (selectCoinsMinConf (2 ^ 63 - 1) 1 6 [out] chance) := by
  intro out hall
  refine not_selects_of_overflow ⟨id, fun _ => .rfl, fun _ _ _ => false⟩ ?_ ?_ (by decide)
    (by decide) (by decide) (hall _)
  · exact ⟨by decide, by decide, by decide⟩
  · decide

end CWallet

end Agenor
