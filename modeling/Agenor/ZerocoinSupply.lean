import Agenor.DisconnectBlock

/-!
The zerocoin supply counters when a block is connected and undone.

All changes of the counters are sums of small numbers, so they commute; `shift` adds a number to
each counter at once. Connecting adds the mints and takes the spends one by one, and stops when a
counter becomes negative; undoing adds the spends and takes the mints.
-/

namespace Agenor

open Lib.Wrap Lib.Fallible

namespace ZerocoinSupply

variable {m m' : ZerocoinSupply} {l : List CoinDenomination} {d : CoinDenomination} {k : ℤ}

/-- The counters are machine integers. -/
def InRange (m : ZerocoinSupply) : Prop := ∀ d n, m d = some n → int64 n = n

/-- Add a number to each counter. -/
def shift (m : ZerocoinSupply) (f : CoinDenomination → ℤ) : ZerocoinSupply :=
  fun d => (m d).map fun n => int64 (n + f d)

lemma shift_shift (m : ZerocoinSupply) (f g : CoinDenomination → ℤ) :
    shift (shift m f) g = shift m (f + g) := by
  funext d
  simp [shift, Function.comp_def, add_assoc]

lemma shift_zero (h : InRange m) : shift m 0 = m := by
  funext d
  unfold shift
  cases hm : m d with
  | none => rfl
  | some n => simp [h d n hm]

lemma inRange_shift (m : ZerocoinSupply) (f : CoinDenomination → ℤ) : InRange (shift m f) := by
  intro d n h
  obtain ⟨x, -, rfl⟩ := Option.map_eq_some_iff.mp h
  exact int64_int64 _

@[simp] lemma shift_isSome (m : ZerocoinSupply) (f : CoinDenomination → ℤ)
    (d : CoinDenomination) : (shift m f d).isSome = (m d).isSome := by
  simp [shift]

/-! ### Adding -/

lemma addSupply_eq_ok (hm : InRange m) :
    addSupply k m d = .ok m' ↔ (m d).isSome ∧ m' = shift m (Pi.single d k) := by
  unfold addSupply
  cases hd : m d with
  | none => simp
  | some n =>
    have heq : Function.update m d (some (int64 (n + k))) = shift m (Pi.single d k) := by
      funext e
      by_cases he : e = d
      · subst he
        simp [shift, hd]
      · unfold shift
        rw [Function.update_of_ne he]
        cases hx : m e with
        | none => rfl
        | some x => simp [he, hm e x hx]
    simp only [Option.isSome_some, true_and, Except.ok.injEq, heq]
    exact eq_comm

/-- How often each denomination is in a list. -/
def counts (l : List CoinDenomination) : CoinDenomination → ℤ := fun d => l.count d

lemma counts_cons (d : CoinDenomination) (l : List CoinDenomination) :
    counts (d :: l) = Pi.single d 1 + counts l := by
  funext e
  by_cases he : e = d
  · subst he
    simp [counts, add_comm]
  · simp [counts, he, Ne.symm he]

lemma counts_nonneg (l : List CoinDenomination) (d : CoinDenomination) : 0 ≤ counts l d := by
  simp [counts]

lemma addLoop_eq_ok {α : Type} (key : α → CoinDenomination) (amount : α → ℤ) {l : List α}
    (hm : InRange m) :
    loop (fun m a => addSupply (amount a) m (key a)) m l = .ok m' ↔
      (∀ a ∈ l, (m (key a)).isSome) ∧
        m' = shift m (l.map fun a => Pi.single (key a) (amount a)).sum := by
  induction l generalizing m with
  | nil => simpa [shift_zero hm] using eq_comm
  | cons a l ih =>
    simp only [loop_cons, bind_eq_ok, List.mem_cons, forall_eq_or_imp, List.map_cons,
      List.sum_cons]
    constructor
    · rintro ⟨m₁, h1, h2⟩
      obtain ⟨hsome, rfl⟩ := (addSupply_eq_ok hm).mp h1
      obtain ⟨hall, rfl⟩ := (ih (inRange_shift _ _)).mp h2
      exact ⟨⟨hsome, by simpa using hall⟩, shift_shift _ _ _⟩
    · rintro ⟨⟨hsome, hall⟩, rfl⟩
      refine ⟨_, (addSupply_eq_ok hm).mpr ⟨hsome, rfl⟩, ?_⟩
      exact (ih (inRange_shift _ _)).mpr ⟨by simpa using hall, (shift_shift _ _ _).symm⟩

lemma sum_single_one (l : List CoinDenomination) :
    (l.map fun d => (Pi.single d 1 : CoinDenomination → ℤ)).sum = counts l := by
  induction l with
  | nil => rfl
  | cons d l ih => rw [List.map_cons, List.sum_cons, ih, counts_cons]

lemma addSupplies_eq_ok (hm : InRange m) :
    loop (addSupply 1) m l = .ok m' ↔ (∀ d ∈ l, (m d).isSome) ∧ m' = shift m (counts l) := by
  rw [← sum_single_one]
  exact addLoop_eq_ok id (fun _ => 1) hm

/-! ### Taking -/

lemma neg_counts_cons (d : CoinDenomination) (l : List CoinDenomination) :
    -counts (d :: l) = Pi.single d (-1) + -counts l := by
  funext e
  by_cases he : e = d
  · subst he
    simp [counts]
  · simp [counts, he, Ne.symm he]

lemma neg_counts_nil : -counts [] = 0 := by
  funext d
  simp [counts]

lemma takeSupply_eq_ok (hm : InRange m) (h : takeSupply m d = .ok m') :
    (m d).isSome ∧ m' = shift m (Pi.single d (-1)) := by
  simp only [takeSupply, bind_eq_ok] at h
  obtain ⟨m₁, h1, h⟩ := h
  split at h
  · cases h
  · cases h
    exact (addSupply_eq_ok hm).mp h1

lemma takeSupplies_eq_ok (hm : InRange m) (h : loop takeSupply m l = .ok m') :
    (∀ d ∈ l, (m d).isSome) ∧ m' = shift m (-counts l) := by
  induction l generalizing m with
  | nil =>
    simp only [loop_nil, Except.ok.injEq] at h
    subst h
    exact ⟨by simp, by rw [neg_counts_nil, shift_zero hm]⟩
  | cons d l ih =>
    simp only [loop_cons, bind_eq_ok] at h
    obtain ⟨m₁, h1, h⟩ := h
    obtain ⟨hsome, rfl⟩ := takeSupply_eq_ok hm h1
    obtain ⟨hall, rfl⟩ := ih (inRange_shift _ _) h
    exact ⟨by simpa using ⟨hsome, by simpa using hall⟩, by rw [shift_shift, neg_counts_cons]⟩

lemma takeSupply_isOk (hm : InRange m) {n : ℤ} (hd : m d = some n) (hn : 1 ≤ n) :
    takeSupply m d = .ok (shift m (Pi.single d (-1))) := by
  have hsome : (m d).isSome := by simp [hd]
  have hadd : addSupply (-1) m d = .ok (shift m (Pi.single d (-1))) :=
    (addSupply_eq_ok hm).mpr ⟨hsome, rfl⟩
  have hbound := int64_mem n
  rw [hm d n hd] at hbound
  have hw : int64 (n - 1) = n - 1 := int64_of_fits (by omega) (by omega)
  have hneg : ¬((shift m (Pi.single d (-1)) d).any (decide <| · < 0)) = true := by
    have heq : n + -1 = n - 1 := rfl
    simp [shift, hd, heq, hw]
    omega
  rw [takeSupply, hadd]
  change (if (shift m (Pi.single d (-1)) d).any (decide <| · < 0) then _ else _) = _
  rw [if_neg hneg]

/-- Every counter there is is at least as large as the list needs. -/
def Covers (m : ZerocoinSupply) (l : List CoinDenomination) : Prop :=
  ∀ d n, m d = some n → counts l d ≤ n

lemma Covers.tail (hm : InRange m) (h : Covers m (d :: l)) :
    Covers (shift m (Pi.single d (-1))) l := by
  intro e x hx
  obtain ⟨n, hn, rfl⟩ := Option.map_eq_some_iff.mp hx
  have hc := h e n hn
  rw [counts_cons, Pi.add_apply] at hc
  have hbound := int64_mem n
  rw [hm e n hn] at hbound
  have hnonneg := counts_nonneg l e
  by_cases hed : e = d
  · subst hed
    rw [Pi.single_eq_same] at hc ⊢
    rw [int64_of_fits (by omega) (by omega)]
    omega
  · rw [Pi.single_eq_of_ne hed] at hc ⊢
    rw [int64_of_fits (by omega) (by omega)]
    omega

lemma Covers.head (h : Covers m (d :: l)) {n : ℤ} (hn : m d = some n) : 1 ≤ n := by
  have hc := h d n hn
  rw [counts_cons, Pi.add_apply, Pi.single_eq_same] at hc
  have := counts_nonneg l d
  omega

lemma takeSupplies_isOk (hm : InRange m) (hc : Covers m l) (hsome : ∀ d ∈ l, (m d).isSome) :
    loop takeSupply m l = .ok (shift m (-counts l)) := by
  induction l generalizing m with
  | nil => rw [loop_nil, neg_counts_nil, shift_zero hm]
  | cons d l ih =>
    obtain ⟨n, hn⟩ := Option.isSome_iff_exists.mp (hsome d (by simp))
    rw [loop_cons, takeSupply_isOk hm hn (hc.head hn)]
    change loop takeSupply (shift m (Pi.single d (-1))) l = _
    rw [ih (inRange_shift _ _) (hc.tail hm) (fun e he => by simpa using hsome e (by simp [he])),
      shift_shift, neg_counts_cons]

lemma takeSupplies_eq_error {f : Fault} (h : loop takeSupply m l = .error (f, m')) :
    f.isReturn = false ∨ ∃ d n, m' d = some n ∧ n < 0 := by
  induction l generalizing m with
  | nil => cases h
  | cons d l ih =>
    simp only [loop_cons, bind_eq_error] at h
    rcases h with h | ⟨m₁, -, h⟩
    · simp only [takeSupply, bind_eq_error] at h
      rcases h with h | ⟨m₁, -, h⟩
      · unfold addSupply at h
        split at h
        · cases h
        · cases h
          exact .inl rfl
      · split at h
        · next hneg =>
          cases h
          cases hd : m' d with
          | none => simp [hd] at hneg
          | some n => exact .inr ⟨d, n, hd, by simpa [hd] using hneg⟩
        · cases h
    · exact ih h

/-- A list cannot be taken: at one of its denominations the counter has been used up, and the
counters of those before it are there. -/
def Overdrawn (m : ZerocoinSupply) (l : List CoinDenomination) : Prop :=
  ∃ l₁ d l₂ n, l = l₁ ++ d :: l₂ ∧ (∀ e ∈ l₁, (m e).isSome) ∧ m d = some n ∧
    n < counts (l₁ ++ [d]) d

/-- The counters are not negative. -/
def Nonneg (m : ZerocoinSupply) : Prop := ∀ d n, m d = some n → 0 ≤ n

lemma takeSupply_of_zero (hd : m d = some 0) :
    ∃ m', takeSupply m d = .error (.fail, m') ∧ m' d = some (-1) := by
  have hw : int64 (-1) = -1 := int64_of_fits (by norm_num) (by norm_num)
  refine ⟨Function.update m d (some (-1)), ?_, Function.update_self ..⟩
  simp [takeSupply, addSupply, hd, hw, bind, Except.bind]

lemma shift_single (hm : InRange m) (h0 : Nonneg m) {e : CoinDenomination} {n : ℤ}
    (he : m e = some n) :
    shift m (Pi.single d (-1)) e = some (n - if e = d then 1 else 0) := by
  have hbound := int64_mem n
  rw [hm e n he] at hbound
  have hn := h0 e n he
  rw [shift, he, Option.map_some]
  congr 1
  by_cases hed : e = d
  · subst hed
    rw [Pi.single_eq_same, if_pos rfl]
    exact int64_of_fits (by omega) (by omega)
  · rw [Pi.single_eq_of_ne hed, if_neg hed, add_zero, sub_zero]
    exact hm e n he

lemma overdrawn_cons (hm : InRange m) (h0 : Nonneg m) {n : ℤ} (hd : m d = some n) (hn : 1 ≤ n) :
    Overdrawn m (d :: l) ↔ Overdrawn (shift m (Pi.single d (-1))) l := by
  have hcounts : ∀ l₁ e, counts (d :: l₁ ++ [e]) e =
      (if e = d then 1 else 0) + counts (l₁ ++ [e]) e := by
    intro l₁ e
    rw [List.cons_append, counts_cons, Pi.add_apply, Pi.single_apply]
  constructor
  · rintro ⟨l₁, e, l₂, x, hl, hsome, he, hlt⟩
    cases l₁ with
    | nil =>
      cases hl
      rw [hd] at he
      cases he
      simp [counts] at hlt
      omega
    | cons a l₁ =>
      rw [List.cons_append, List.cons.injEq] at hl
      obtain ⟨rfl, rfl⟩ := hl
      rw [hcounts] at hlt
      exact ⟨l₁, e, l₂, _, rfl, fun c hc => by simpa using hsome c (by simp [hc]),
        shift_single hm h0 he, by omega⟩
  · rintro ⟨l₁, e, l₂, x, rfl, hsome, he, hlt⟩
    obtain ⟨y, hy⟩ := Option.isSome_iff_exists.mp
      ((shift_isSome m _ e).symm.trans (congrArg Option.isSome he))
    rw [shift_single hm h0 hy, Option.some.injEq] at he
    refine ⟨d :: l₁, e, l₂, y, rfl, ?_, hy, ?_⟩
    · intro c hc
      rcases List.mem_cons.mp hc with rfl | hc
      · simp [hd]
      · simpa using hsome c hc
    · rw [hcounts]
      omega

lemma takeSupplies_fail_iff (hm : InRange m) (h0 : Nonneg m) :
    (∃ f m', loop takeSupply m l = .error (f, m') ∧ f.isReturn = true) ↔ Overdrawn m l := by
  induction l generalizing m with
  | nil =>
    constructor
    · rintro ⟨f, m', h, -⟩
      cases h
    · rintro ⟨l₁, d, l₂, n, hl, -⟩
      simp at hl
  | cons d l ih =>
    cases hd : m d with
    | none =>
      have hthrow : takeSupply m d = .error (.throws "map::at", m) := by
        simp [takeSupply, addSupply, hd, bind, Except.bind]
      rw [loop_cons, hthrow]
      constructor
      · rintro ⟨f, m', h, hf⟩
        cases h
        cases hf
      · rintro ⟨l₁, e, l₂, n, hl, hsome, he, -⟩
        cases l₁ with
        | nil =>
          cases hl
          rw [hd] at he
          cases he
        | cons a l₁ =>
          cases hl
          simpa [hd] using hsome d (by simp)
    | some n =>
      rcases (h0 d n hd).eq_or_lt with rfl | hpos
      · obtain ⟨m', hfail, -⟩ := takeSupply_of_zero hd
        rw [loop_cons, hfail]
        exact iff_of_true ⟨.fail, m', rfl, rfl⟩ ⟨[], d, l, 0, rfl, by simp, hd, by simp [counts]⟩
      · rw [loop_cons, takeSupply_isOk hm hd hpos, overdrawn_cons hm h0 hd hpos,
          ← ih (inRange_shift _ _) fun e x hx => ?_]
        · rfl
        · obtain ⟨y, hy⟩ := Option.isSome_iff_exists.mp
            ((shift_isSome m _ e).symm.trans (congrArg Option.isSome hx))
          rw [shift_single hm h0 hy, Option.some.injEq] at hx
          have hy0 := h0 e y hy
          by_cases hed : e = d
          · subst hed
            rw [hd] at hy
            cases hy
            rw [if_pos rfl] at hx
            omega
          · rw [if_neg hed] at hx
            omega

/-! ### The lists of a block -/

variable {node : Node} {block : CBlock} {nHeight : ℤ}

lemma withSupply_eq_ok {α : Type} {c : Check α} {a : α} : withSupply m c = .ok a ↔ c = .ok a := by
  cases c <;> simp [withSupply]

/-- The denominations that a block adds to the supply. -/
def minted (node : Node) (block : CBlock) (nHeight : ℤ) : List CoinDenomination :=
  if nHeight < node.params.height_last_ZC_AccumCheckpoint then
    (mintDenoms node block.vtx).toOption.getD []
  else []

/-- The denominations that a block takes from the supply. -/
def spent (node : Node) (block : CBlock) : List CoinDenomination :=
  (spendDenoms node block.vtx).toOption.getD []

lemma spent_eq (h : spendDenoms node block.vtx = .ok l) : spent node block = l := by
  simp [spent, h, Except.toOption]

lemma connectMintSupply_eq_ok (hm : InRange m)
    (h : connectMintSupply node block nHeight m = .ok m') :
    (∀ d ∈ minted node block nHeight, (m d).isSome) ∧
      m' = shift m (counts (minted node block nHeight)) := by
  unfold connectMintSupply at h
  unfold minted
  split at h
  · next hlt =>
    simp only [bind_eq_ok, withSupply_eq_ok] at h
    obtain ⟨mints, hmints, h⟩ := h
    rw [if_pos hlt, hmints]
    exact (addSupplies_eq_ok hm).mp h
  · next hlt =>
    cases h
    have hz : counts [] = 0 := rfl
    rw [if_neg hlt, hz, shift_zero hm]
    exact ⟨by simp, rfl⟩

lemma disconnectMintSupply_isOk (hm : InRange m)
    (hmints : nHeight < node.params.height_last_ZC_AccumCheckpoint →
      ∃ mints, mintDenoms node block.vtx = .ok mints)
    (hc : Covers m (minted node block nHeight))
    (hsome : ∀ d ∈ minted node block nHeight, (m d).isSome) :
    disconnectMintSupply node block nHeight m
      = .ok (shift m (-counts (minted node block nHeight))) := by
  unfold disconnectMintSupply
  unfold minted at hc hsome ⊢
  split
  · next hlt =>
    obtain ⟨mints, hok⟩ := hmints hlt
    simp only [hlt, hok, if_true, withSupply] at hc hsome ⊢
    exact takeSupplies_isOk hm hc hsome
  · rw [neg_counts_nil, shift_zero hm]

/-- The correction of the supply, for every denomination. -/
def inflation (sign : ℤ) : CoinDenomination → ℤ :=
  (CoinDenomination.zerocoinDenomList.map fun d =>
    Pi.single d (sign * d.wrappedSerialInflation true)).sum

lemma inflation_cancel : inflation 1 + inflation (-1) = 0 := by
  funext d
  cases d <;> decide

lemma correctSupply_cancel (hm : InRange m) {consensus : ChainParams}
    (h : correctSupply 1 consensus nHeight m = .ok m') :
    correctSupply (-1) consensus nHeight m' = .ok m := by
  unfold correctSupply at h ⊢
  split at h
  · next hw =>
    obtain ⟨hsome, rfl⟩ := (addLoop_eq_ok id _ hm).mp h
    rw [if_pos hw]
    refine (addLoop_eq_ok id _ (inRange_shift _ _)).mpr ⟨by simpa using hsome, ?_⟩
    rw [shift_shift]
    exact (show shift m (inflation 1 + inflation (-1)) = m by
      rw [inflation_cancel, shift_zero hm]).symm
  · next hw =>
    rw [if_neg hw]
    exact h.symm ▸ rfl

/-! ### How many mints a block can have -/

lemma mintDenomsOuts_length {txHash : Uint256} {outs : List (CTxOut × ℕ)} {b : Bool}
    (h : mintDenomsOuts node txHash outs = .ok (l, b)) : l.length ≤ outs.length := by
  induction outs generalizing l b with
  | nil =>
    cases h
    simp
  | cons p outs ih =>
    simp only [mintDenomsOuts] at h
    split at h
    · cases h
      simp
    · split at h
      · exact (ih h).trans (by simp)
      · split at h
        · cases h
        · cases h
          simp
        · simp only [bind_eq_ok, Prod.exists, pure_eq_ok, Prod.mk.injEq] at h
          obtain ⟨l', b', hl', rfl, rfl⟩ := h
          simpa using ih hl'

lemma mintDenoms_length {vtx : List CTransaction} (h : mintDenoms node vtx = .ok l) :
    l.length ≤ (vtx.map (·.vout.length)).sum := by
  induction vtx generalizing l with
  | nil =>
    cases h
    simp
  | cons tx vtx ih =>
    simp only [mintDenoms] at h
    simp only [List.map_cons, List.sum_cons]
    split at h
    · exact (ih h).trans (by omega)
    · simp only [bind_eq_ok, Prod.exists] at h
      obtain ⟨l₁, b, h1, h⟩ := h
      have hlen := mintDenomsOuts_length h1
      rw [List.length_zipIdx] at hlen
      split at h
      · simp only [bind_eq_ok, pure_eq_ok] at h
        obtain ⟨l₂, h2, rfl⟩ := h
        have := ih h2
        rw [List.length_append]
        omega
      · cases h
        omega

lemma outs_le_serializeSize (vtx : List CTransaction) :
    (vtx.map (·.vout.length)).sum ≤ (vtx.map (·.serializeSize)).sum := by
  apply List.sum_le_sum
  intro tx _
  have hlen : tx.vout.length ≤ (tx.vout.map fun out => 8 + sizeOfBytes out.scriptPubKey).sum := by
    have := List.length_le_sum_of_one_le (tx.vout.map fun out => 8 + sizeOfBytes out.scriptPubKey)
      (by
        simp only [List.mem_map, forall_exists_index, and_imp, forall_apply_eq_imp_iff₂]
        intro out _
        omega)
    simpa using this
  unfold CTransaction.serializeSize
  omega

lemma counts_minted_le (hb : block.serializeSize ≤ MAX_BLOCK_SIZE_CURRENT) (d : CoinDenomination) :
    counts (minted node block nHeight) d ≤ MAX_BLOCK_SIZE_CURRENT := by
  have hlen : (minted node block nHeight).length ≤ MAX_BLOCK_SIZE_CURRENT := by
    unfold minted
    split
    · cases hmd : mintDenoms node block.vtx with
      | error f => simp [Except.toOption]
      | ok mints =>
        have h1 := mintDenoms_length hmd
        have h2 := outs_le_serializeSize block.vtx
        have h3 : (block.vtx.map (·.serializeSize)).sum ≤ block.serializeSize := by
          unfold CBlock.serializeSize
          omega
        simp only [Except.toOption, Option.getD_some]
        omega
    · simp
  have hcount := List.count_le_length (a := d) (l := minted node block nHeight)
  unfold counts
  omega

/-! ### Connecting and undoing -/

/-- The counters are not negative, and far from the limit of a machine integer. -/
def Sane (m : ZerocoinSupply) : Prop := ∀ d n, m d = some n → 0 ≤ n ∧ n < 2 ^ 62

lemma Sane.inRange (h : Sane m) : InRange m := by
  intro d n hn
  obtain ⟨h0, h1⟩ := h d n hn
  exact int64_of_fits (by omega) (by omega)

lemma Sane.add_minted (hm : Sane m) (hb : block.serializeSize ≤ MAX_BLOCK_SIZE_CURRENT)
    {d : CoinDenomination} {n : ℤ} (hn : m d = some n) :
    int64 (n + counts (minted node block nHeight) d) =
      n + counts (minted node block nHeight) d := by
  obtain ⟨h0, hlt⟩ := hm d n hn
  have hle : counts (minted node block nHeight) d ≤ MAX_BLOCK_SIZE_CURRENT :=
    counts_minted_le hb d
  have hpos := counts_nonneg (minted node block nHeight) d
  have hmax : (MAX_BLOCK_SIZE_CURRENT : ℤ) = 2000000 := rfl
  exact int64_of_fits (by omega) (by omega)

/-- **Undoing restores the supply.** -/
theorem disconnect_connect (hb : block.serializeSize ≤ MAX_BLOCK_SIZE_CURRENT) (hm : Sane m)
    (h : updateZAgenorupplyConnect node block nHeight m = .ok m') :
    updateZAgenorupplyDisconnect node block nHeight m' = .ok m := by
  have hr := hm.inRange
  unfold updateZAgenorupplyConnect at h
  unfold updateZAgenorupplyDisconnect
  split at h
  · next hact =>
    rw [if_pos hact]
    exact h.symm ▸ rfl
  · next hact =>
    rw [if_neg hact]
    simp only [bind_eq_ok, withSupply_eq_ok] at h
    obtain ⟨m₁, h1, spends, hsp, m₂, h2, h3⟩ := h
    obtain ⟨hmints, rfl⟩ := connectMintSupply_eq_ok hr h1
    obtain ⟨hsome, rfl⟩ := takeSupplies_eq_ok (inRange_shift _ _) h2
    have hback := correctSupply_cancel (inRange_shift _ _) h3
    -- after the spends are back the counters hold the old supply and the mints
    have hadd : loop (addSupply 1)
        (shift (shift m (counts (minted node block nHeight))) (-counts spends)) spends
        = .ok (shift m (counts (minted node block nHeight))) := by
      refine (addSupplies_eq_ok (inRange_shift _ _)).mpr ⟨by simpa using hsome, ?_⟩
      rw [shift_shift, shift_shift, neg_add_cancel, add_zero]
    have hcov : Covers (shift m (counts (minted node block nHeight)))
        (minted node block nHeight) := by
      intro d x hx
      obtain ⟨n, hn, rfl⟩ := Option.map_eq_some_iff.mp hx
      rw [hm.add_minted hb hn]
      exact le_add_of_nonneg_left (hm d n hn).1
    have hlist : nHeight < node.params.height_last_ZC_AccumCheckpoint →
        ∃ mints, mintDenoms node block.vtx = .ok mints := by
      intro hlt
      simp only [connectMintSupply, if_pos hlt, bind_eq_ok, withSupply_eq_ok] at h1
      obtain ⟨mints, hok, -⟩ := h1
      exact ⟨mints, hok⟩
    have htake := disconnectMintSupply_isOk (inRange_shift _ _) hlist hcov
      (by simpa using hmints)
    rw [shift_shift, add_neg_cancel, shift_zero hr] at htake
    rw [hback]
    change (withSupply _ (spendDenoms node block.vtx) >>= _) = _
    rw [hsp]
    change (loop (addSupply 1) _ spends >>= _) = _
    rw [hadd]
    exact htake

end ZerocoinSupply

end Agenor
