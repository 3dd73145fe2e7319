import Agenor.Merkle
import Agenor.Lib.PartialTree

/-!
Partial merkle trees (`merkleblock.cpp`) as a proof that transactions are in a block.

`ExtractMatches` rebuilds the root from the hashes that are sent, in the shape of a tree over
`nTransactions` leaves, and reports the leaves whose bit is set. The sender chooses `nTransactions`
as well. `MerkleComputation` reports when it hashes a value with itself, the traversal here does
not, so that a tree with a few more leaves shows the copies at the right as transactions of their
own; a lower tree shows inner nodes.
-/

namespace Agenor

open Lib.Merkle

structure CPartialMerkleTree where
  nTransactions : ℕ
  vBits : List Bool
  vHash : List Uint256
  deriving DecidableEq, Repr

/-- What the traversal counts and reports. The pairs that it has hashed are noted in `hashed`, which
the code does not do. -/
structure Extraction where
  nBitsUsed : ℕ
  nHashUsed : ℕ
  vMatch : List Uint256
  fBad : Bool
  hashed : List (Uint256 × Uint256)
  deriving DecidableEq, Repr

namespace Extraction

def init : Extraction where
  nBitsUsed := 0
  nHashUsed := 0
  vMatch := []
  fBad := false
  hashed := []

/-- The state after a partial tree has been read. -/
def after (hash : Uint256 → Uint256 → Uint256) (st : Extraction) (p : PTree Uint256) :
    Extraction where
  nBitsUsed := st.nBitsUsed + p.bits.length
  nHashUsed := st.nHashUsed + p.hashes.length
  vMatch := st.vMatch ++ p.shown
  fBad := st.fBad
  hashed := st.hashed ++ p.pairs hash

end Extraction

namespace CPartialMerkleTree

/-- The bits come in whole bytes. -/
def Received (pmt : CPartialMerkleTree) : Prop := 8 ∣ pmt.vBits.length

def calcTreeWidth (nTransactions height : ℕ) : ℕ := (nTransactions + 2 ^ height - 1) / 2 ^ height

/-- `while (CalcTreeWidth(nHeight) > 1) nHeight++`. -/
def heightLoop (nTransactions : ℕ) : ℕ → ℕ → ℕ
  | 0, nHeight => nHeight
  | fuel + 1, nHeight =>
    if 1 < calcTreeWidth nTransactions nHeight then heightLoop nTransactions fuel (nHeight + 1)
    else nHeight

/-- A node without children uses the next stored hash. -/
def useStoredHash (pmt : CPartialMerkleTree) (matched : Bool) (st : Extraction) :
    Uint256 × Extraction :=
  match pmt.vHash[st.nHashUsed]? with
  | none => (0, { st with fBad := true })
  | some hash =>
    (hash, { st with
      nHashUsed := st.nHashUsed + 1
      vMatch := if matched then st.vMatch ++ [hash] else st.vMatch })

section

variable (hash : Uint256 → Uint256 → Uint256) (pmt : CPartialMerkleTree)

def traverseAndExtract : ℕ → ℕ → Extraction → Uint256 × Extraction
  | 0, _, st =>
    match pmt.vBits[st.nBitsUsed]? with
    | none => (0, { st with fBad := true })
    | some fParentOfMatch =>
      pmt.useStoredHash fParentOfMatch { st with nBitsUsed := st.nBitsUsed + 1 }
  | height + 1, pos, st =>
    match pmt.vBits[st.nBitsUsed]? with
    | none => (0, { st with fBad := true })
    | some false => pmt.useStoredHash false { st with nBitsUsed := st.nBitsUsed + 1 }
    | some true =>
      let left := traverseAndExtract height (pos * 2) { st with nBitsUsed := st.nBitsUsed + 1 }
      let right :=
        if pos * 2 + 1 < calcTreeWidth pmt.nTransactions height then
          traverseAndExtract height (pos * 2 + 1) left.2
        else left
      (hash left.1 right.1, { right.2 with hashed := right.2.hashed ++ [(left.1, right.1)] })

/-- `ExtractMatches`: the merkle root, or zero in case of failure, and what has been reported. -/
def extractMatches : Uint256 × Extraction :=
  if pmt.nTransactions = 0 then (0, .init)
  else if MAX_BLOCK_SIZE_CURRENT / 60 < pmt.nTransactions then (0, .init)
  else if pmt.nTransactions < pmt.vHash.length then (0, .init)
  else if pmt.vBits.length < pmt.vHash.length then (0, .init)
  else
    let nHeight := heightLoop pmt.nTransactions pmt.nTransactions 0
    let (hashMerkleRoot, st) := pmt.traverseAndExtract hash nHeight 0 .init
    if st.fBad then (0, st)
    else if (st.nBitsUsed + 7) / 8 ≠ (pmt.vBits.length + 7) / 8 then (0, st)
    else if st.nHashUsed ≠ pmt.vHash.length then (0, st)
    else (hashMerkleRoot, st)

end

/-! ### The shape of the traversal -/

variable {hash : Uint256 → Uint256 → Uint256} {pmt : CPartialMerkleTree} {L : List Uint256}
variable {n height pos : ℕ} {st : Extraction}

lemma lt_calcTreeWidth : pos < calcTreeWidth n height ↔ pos * 2 ^ height < n := by
  have hpos := Nat.two_pow_pos height
  rw [calcTreeWidth, ← Nat.succ_le_iff, Nat.le_div_iff_mul_le hpos, Nat.succ_mul]
  omega

lemma heightLoop_eq : ∀ (fuel nHeight : ℕ), nHeight ≤ treeHeight n →
    treeHeight n ≤ nHeight + fuel → heightLoop n fuel nHeight = treeHeight n := by
  intro fuel
  induction fuel with
  | zero =>
    intro nHeight hle hfuel
    exact le_antisymm hle hfuel
  | succ fuel ih =>
    intro nHeight hle hfuel
    unfold heightLoop
    split_ifs with hwidth
    · rw [lt_calcTreeWidth, Nat.one_mul] at hwidth
      refine ih (nHeight + 1) ?_ (by omega)
      refine (Nat.pow_lt_pow_iff_right (le_refl 2)).mp ?_
      exact lt_of_lt_of_le hwidth (le_two_pow_treeHeight n)
    · rw [lt_calcTreeWidth, Nat.one_mul, not_lt] at hwidth
      exact le_antisymm hle (treeHeight_le hwidth)

def leavesBelow (n height pos : ℕ) : ℕ := min (2 ^ height) (n - pos * 2 ^ height)

lemma leavesBelow_left (h : pos * 2 ^ (height + 1) < n) :
    pos * 2 * 2 ^ height < n ∧
    (leavesBelow n (height + 1) pos ≤ 2 ^ height →
      leavesBelow n height (pos * 2) = leavesBelow n (height + 1) pos) ∧
    (2 ^ height < leavesBelow n (height + 1) pos →
      leavesBelow n height (pos * 2) = 2 ^ height) := by
  have hpow : pos * 2 ^ (height + 1) = pos * 2 * 2 ^ height := by ring
  unfold leavesBelow
  rw [← hpow, pow_succ] at *
  refine ⟨h, fun hle => ?_, fun hlt => ?_⟩ <;> omega

lemma leavesBelow_right (n height pos : ℕ) :
    (pos * 2 + 1 < calcTreeWidth n height ↔ 2 ^ height < leavesBelow n (height + 1) pos) ∧
    (2 ^ height < leavesBelow n (height + 1) pos →
      leavesBelow n height (pos * 2 + 1) = leavesBelow n (height + 1) pos - 2 ^ height) := by
  have hpow : pos * 2 ^ (height + 1) = pos * 2 * 2 ^ height := by ring
  have hsucc : (pos * 2 + 1) * 2 ^ height = pos * 2 * 2 ^ height + 2 ^ height := by ring
  have hpos := Nat.two_pow_pos height
  rw [lt_calcTreeWidth]
  unfold leavesBelow
  rw [hpow] at *
  rw [pow_succ, hsucc]
  refine ⟨⟨fun hlt => ?_, fun hlt => ?_⟩, fun hlt => ?_⟩ <;> omega

lemma traverseAndExtract_sound (h : pos * 2 ^ height < pmt.nTransactions)
    (hgood : (pmt.traverseAndExtract hash height pos st).2.fBad = false) :
    st.fBad = false ∧ ∃ p : PTree Uint256,
      p.Shape height (leavesBelow pmt.nTransactions height pos) ∧
        pmt.traverseAndExtract hash height pos st = (p.value hash, st.after hash p) := by
  induction height generalizing pos st with
  | zero =>
    unfold traverseAndExtract at hgood ⊢
    cases hbit : pmt.vBits[st.nBitsUsed]? with
    | none => simp [hbit] at hgood
    | some b =>
      cases hh : pmt.vHash[st.nHashUsed]? with
      | none => simp [hbit, useStoredHash, hh] at hgood
      | some x =>
        simp only [hbit, useStoredHash, hh] at hgood ⊢
        refine ⟨hgood, .stub x b, trivial, ?_⟩
        cases b <;> simp [Extraction.after, PTree.bits, PTree.hashes, PTree.shown, PTree.pairs,
          PTree.value]
  | succ height ih =>
    obtain ⟨hleft, hone, htwo⟩ := leavesBelow_left h
    obtain ⟨hwidth, hright⟩ := leavesBelow_right pmt.nTransactions height pos
    unfold traverseAndExtract at hgood ⊢
    cases hbit : pmt.vBits[st.nBitsUsed]? with
    | none => simp [hbit] at hgood
    | some b =>
      cases b with
      | false =>
        cases hh : pmt.vHash[st.nHashUsed]? with
        | none => simp [hbit, useStoredHash, hh] at hgood
        | some x =>
          simp only [hbit, useStoredHash, hh] at hgood ⊢
          refine ⟨hgood, .stub x false, rfl, ?_⟩
          simp [Extraction.after, PTree.bits, PTree.hashes, PTree.shown, PTree.pairs, PTree.value]
      | true =>
        simp only [hbit] at hgood ⊢
        by_cases hlt : pos * 2 + 1 < calcTreeWidth pmt.nTransactions height
        · rw [if_pos hlt] at hgood ⊢
          obtain ⟨hgood₁, r, hr, hreq⟩ := ih (lt_calcTreeWidth.mp hlt) hgood
          obtain ⟨hgood₀, l, hl, hleq⟩ := ih hleft hgood₁
          rw [hwidth] at hlt
          rw [htwo hlt] at hl
          rw [hright hlt] at hr
          rw [hleq] at hreq
          refine ⟨hgood₀, .two l r, ⟨hlt, hl, hr⟩, ?_⟩
          rw [hleq, hreq]
          simp [Extraction.after, PTree.bits, PTree.hashes, PTree.shown, PTree.pairs, PTree.value]
          omega
        · rw [if_neg hlt] at hgood ⊢
          obtain ⟨hgood₀, l, hl, hleq⟩ := ih hleft hgood
          rw [hwidth, not_lt] at hlt
          rw [hone hlt] at hl
          refine ⟨hgood₀, .one l, ⟨hlt, hl⟩, ?_⟩
          rw [hleq]
          simp [Extraction.after, PTree.bits, PTree.hashes, PTree.shown, PTree.pairs, PTree.value]
          omega

lemma getElem?_of_drop {α : Type*} {l : List α} {n : ℕ} {x : α} {xs : List α}
    (h : l.drop n = x :: xs) : l[n]? = some x := by
  rw [← List.head?_drop, h, List.head?_cons]

lemma drop_add_of_append {α : Type*} {l xs ys : List α} {n : ℕ} (h : l.drop n = xs ++ ys) :
    l.drop (n + xs.length) = ys := by
  rw [← List.drop_drop, h, List.drop_left]

lemma traverseAndExtract_complete (st : Extraction) {p : PTree Uint256} {bs : List Bool}
    {hs : List Uint256}
    (h : pos * 2 ^ height < pmt.nTransactions)
    (hp : p.Shape height (leavesBelow pmt.nTransactions height pos))
    (hbits : pmt.vBits.drop st.nBitsUsed = p.bits ++ bs)
    (hhash : pmt.vHash.drop st.nHashUsed = p.hashes ++ hs) :
    pmt.traverseAndExtract hash height pos st = (p.value hash, st.after hash p) := by
  induction height generalizing pos st p bs hs with
  | zero =>
    cases p with
    | one l => cases hp
    | two l r => cases hp
    | stub x b =>
      unfold traverseAndExtract
      simp only [getElem?_of_drop hbits, useStoredHash, getElem?_of_drop hhash]
      cases b <;> simp [Extraction.after, PTree.bits, PTree.hashes, PTree.shown, PTree.pairs,
        PTree.value]
  | succ height ih =>
    obtain ⟨hleft, hone, htwo⟩ := leavesBelow_left h
    obtain ⟨hwidth, hright⟩ := leavesBelow_right pmt.nTransactions height pos
    unfold traverseAndExtract
    cases p with
    | stub x b =>
      have hb : b = false := hp
      subst hb
      simp only [getElem?_of_drop hbits, useStoredHash, getElem?_of_drop hhash]
      simp [Extraction.after, PTree.bits, PTree.hashes, PTree.shown, PTree.pairs, PTree.value]
    | one l =>
      obtain ⟨hle, hl⟩ := hp
      have hnext : pmt.vBits.drop (st.nBitsUsed + 1) = l.bits ++ bs := by
        rw [← List.drop_drop, hbits]
        rfl
      rw [← hone hle] at hl
      have hrun := ih { st with nBitsUsed := st.nBitsUsed + 1 } hleft hl hnext hhash
      simp only [getElem?_of_drop hbits, if_neg (fun hlt => not_lt.mpr hle (hwidth.mp hlt)), hrun]
      simp [Extraction.after, PTree.bits, PTree.hashes, PTree.shown, PTree.pairs, PTree.value]
      omega
    | two l r =>
      obtain ⟨hlt, hl, hr⟩ := hp
      have hnext : pmt.vBits.drop (st.nBitsUsed + 1) = l.bits ++ (r.bits ++ bs) := by
        rw [← List.drop_drop, hbits, PTree.bits, List.cons_append, List.append_assoc]
        rfl
      have hhash' : pmt.vHash.drop st.nHashUsed = l.hashes ++ (r.hashes ++ hs) := by
        rw [hhash, PTree.hashes, List.append_assoc]
      rw [← htwo hlt] at hl
      rw [← hright hlt] at hr
      have hrunl := ih { st with nBitsUsed := st.nBitsUsed + 1 } hleft hl hnext hhash'
      have hrunr := ih (({ st with nBitsUsed := st.nBitsUsed + 1 } : Extraction).after hash l)
        (lt_calcTreeWidth.mp (hwidth.mpr hlt)) hr (drop_add_of_append hnext)
        (drop_add_of_append hhash')
      simp only [getElem?_of_drop hbits, if_pos (hwidth.mpr hlt), hrunl, hrunr]
      simp [Extraction.after, PTree.bits, PTree.hashes, PTree.shown, PTree.pairs, PTree.value]
      omega

/-! ### Proofs for a block -/

variable (hash pmt L)

/-- What the hash is good for: it is injective on the pairs that are hashed for the root of the
block and in the traversal, and no transaction of the block has one of these hashes. -/
structure ProofSound : Prop where
  collisionFree : CollisionFree hash (hashedPairs hash L ++ (pmt.extractMatches hash).2.hashed)
  leavesApart : LeavesApart hash L (hashedPairs hash L ++ (pmt.extractMatches hash).2.hashed)

instance : Decidable (ProofSound hash pmt L) :=
  decidable_of_iff
    (CollisionFree hash (hashedPairs hash L ++ (pmt.extractMatches hash).2.hashed) ∧
      LeavesApart hash L (hashedPairs hash L ++ (pmt.extractMatches hash).2.hashed))
    ⟨fun h => ⟨h.1, h.2⟩, fun h => ⟨h.collisionFree, h.leavesApart⟩⟩

/-- A proof that is accepted for the block. -/
structure ProofFor : Prop where
  received : pmt.Received
  sound : ProofSound hash pmt L
  root_eq : (pmt.extractMatches hash).1 = (computeMerkleRoot hash L).1

variable {hash pmt L}

lemma of_ite_zero {c : Prop} [Decidable c] {r : Uint256 × Extraction}
    (h : (if c then (0, st) else r).1 ≠ 0) : ¬ c ∧ (if c then (0, st) else r) = r := by
  split_ifs at h ⊢ with hc
  · exact absurd rfl h
  · exact ⟨hc, rfl⟩

lemma extractMatches_sound (hroot : (pmt.extractMatches hash).1 ≠ 0) :
    0 < pmt.nTransactions ∧ pmt.nTransactions ≤ MAX_BLOCK_SIZE_CURRENT / 60 ∧
      ∃ p : PTree Uint256, p.Shape (treeHeight pmt.nTransactions) pmt.nTransactions ∧
        pmt.extractMatches hash = (p.value hash, Extraction.init.after hash p) := by
  unfold extractMatches at hroot ⊢
  obtain ⟨hzero, heq⟩ := of_ite_zero hroot
  rw [heq] at hroot ⊢
  obtain ⟨hmax, heq⟩ := of_ite_zero hroot
  rw [heq] at hroot ⊢
  obtain ⟨-, heq⟩ := of_ite_zero hroot
  rw [heq] at hroot ⊢
  obtain ⟨-, heq⟩ := of_ite_zero hroot
  rw [heq] at hroot ⊢
  have hpos : 0 < pmt.nTransactions := Nat.pos_of_ne_zero hzero
  rw [heightLoop_eq pmt.nTransactions 0 (Nat.zero_le _)
    (by rw [Nat.zero_add]; exact treeHeight_le Nat.lt_two_pow_self.le)] at hroot ⊢
  dsimp only at hroot ⊢
  obtain ⟨hbad, heq⟩ := of_ite_zero hroot
  rw [heq] at hroot ⊢
  obtain ⟨-, heq⟩ := of_ite_zero hroot
  rw [heq] at hroot ⊢
  obtain ⟨-, heq⟩ := of_ite_zero hroot
  rw [heq]
  rw [Bool.not_eq_true] at hbad
  obtain ⟨-, p, hp, heq⟩ := traverseAndExtract_sound (by rwa [Nat.zero_mul]) hbad
  rw [leavesBelow, Nat.zero_mul, Nat.sub_zero, min_eq_right (le_two_pow_treeHeight _)] at hp
  exact ⟨hpos, not_lt.mp hmax, p, hp, heq⟩

/-- The partial tree as it is sent, with the bits filled up to whole bytes. -/
def ofPTree (n : ℕ) (p : PTree Uint256) : CPartialMerkleTree where
  nTransactions := n
  vBits := p.bits ++ List.replicate ((8 - p.bits.length % 8) % 8) false
  vHash := p.hashes

@[simp] lemma ofPTree_nTransactions (n : ℕ) (p : PTree Uint256) :
    (ofPTree n p).nTransactions = n := rfl

@[simp] lemma ofPTree_vHash (n : ℕ) (p : PTree Uint256) : (ofPTree n p).vHash = p.hashes := rfl

@[simp] lemma length_vBits_ofPTree (n : ℕ) (p : PTree Uint256) :
    (ofPTree n p).vBits.length = p.bits.length + (8 - p.bits.length % 8) % 8 := by
  rw [ofPTree, List.length_append, List.length_replicate]

lemma received_ofPTree (n : ℕ) (p : PTree Uint256) : (ofPTree n p).Received := by
  rw [Received, length_vBits_ofPTree]
  omega

lemma extractMatches_ofPTree {p : PTree Uint256} (hn : 0 < n)
    (hmax : n ≤ MAX_BLOCK_SIZE_CURRENT / 60) (hp : p.Shape (treeHeight n) n) :
    (ofPTree n p).extractMatches hash = (p.value hash, Extraction.init.after hash p) := by
  have hbelow : leavesBelow n (treeHeight n) 0 = n := by
    rw [leavesBelow, Nat.zero_mul, Nat.sub_zero, min_eq_right (le_two_pow_treeHeight _)]
  have hrun : (ofPTree n p).traverseAndExtract hash (treeHeight n) 0 .init
      = (p.value hash, Extraction.init.after hash p) := by
    refine traverseAndExtract_complete .init ?_ ?_ rfl (List.append_nil _).symm
    · rw [Nat.zero_mul]
      exact hn
    · exact hbelow.symm ▸ hp
  have hlen := PTree.length_hashes_le hp hn
  have hbits := p.length_hashes_le_bits
  have hheight : heightLoop n n 0 = treeHeight n := heightLoop_eq n 0 (Nat.zero_le _)
    (by rw [Nat.zero_add]; exact treeHeight_le Nat.lt_two_pow_self.le)
  unfold extractMatches
  rw [ofPTree_nTransactions, ofPTree_vHash, length_vBits_ofPTree, if_neg hn.ne',
    if_neg (not_lt.mpr hmax), if_neg (not_lt.mpr hlen), if_neg (by omega)]
  dsimp only
  rw [hheight, hrun]
  dsimp only
  rw [if_neg (by simp [Extraction.after, Extraction.init]), if_neg ?_, if_neg ?_]
  · simp [Extraction.after, Extraction.init]
  · simp only [Extraction.after, Extraction.init, not_not]
    omega

lemma proofFor_ofPTree {p : PTree Uint256} (hnull : (computeMerkleRoot hash L).1 ≠ 0)
    (hs : HashSound hash L L) (hn : 0 < n) (hmax : n ≤ MAX_BLOCK_SIZE_CURRENT / 60)
    (hp : Agrees hash (treeOf (treeHeight L.length) L) (treeHeight n) n p) :
    ProofFor hash (ofPTree n p) L := by
  have hL : L ≠ [] := by
    rintro rfl
    exact hnull rfl
  have hpairs : ∀ q ∈ hashedPairs hash L ++ ((ofPTree n p).extractMatches hash).2.hashed,
      q ∈ hashedPairs hash L := by
    intro q hq
    rcases List.mem_append.mp hq with hq | hq
    · exact hq
    · rw [extractMatches_ofPTree hn hmax hp.shape] at hq
      exact hp.pairs_mem q hq
  refine ⟨received_ofPTree n p, ⟨fun q hq q' hq' => ?_, fun x hx q hq => ?_⟩, ?_⟩
  · exact hs.collisionFree q (List.mem_append_left _ (hpairs q hq)) q'
      (List.mem_append_left _ (hpairs q' hq'))
  · exact hs.leavesApart x (List.mem_append_left _ hx) q (List.mem_append_left _ (hpairs q hq))
  · rw [extractMatches_ofPTree hn hmax hp.shape, computeMerkleRoot_fst hL]
    exact hp.value_eq

/-- Where the claimed number of transactions does not give the reports away: there is none, or the
tree would be higher than that of the block, or it has the same height and at most the leaves that
there are, or so few more that the traversal ends within the first half of a copy. -/
def Guarded (hash : Uint256 → Uint256 → Uint256) (L : List Uint256) (n : ℕ) : Prop :=
  n = 0 ∨ MAX_BLOCK_SIZE_CURRENT / 60 < n ∨ treeHeight L.length < treeHeight n ∨
    (treeHeight n = treeHeight L.length ∧ (n ≤ L.length ∨
      ∃ j, 2 ^ (j + 1) ∣ L.length ∧ n ≤ L.length + 2 ^ j ∧ ¬ LastPair hash L j))

lemma ProofFor.sublist (hproof : ProofFor hash pmt L) (hnull : (computeMerkleRoot hash L).1 ≠ 0)
    (hguard : Guarded hash L pmt.nTransactions) :
    (pmt.extractMatches hash).2.vMatch.Sublist L := by
  have hL : L ≠ [] := by
    rintro rfl
    exact hnull rfl
  obtain ⟨hn, hmax, p, hp, heq⟩ := extractMatches_sound (hproof.root_eq.symm ▸ hnull)
  have hvalue : p.value hash = (treeOf (treeHeight L.length) L).value hash := by
    rw [← computeMerkleRoot_fst hL, ← hproof.root_eq, heq]
  obtain ⟨hcol, hapart⟩ := hproof.sound
  rw [heq] at hcol hapart ⊢
  have hpp : ∀ q ∈ p.pairs hash,
      q ∈ hashedPairs hash L ++ (Extraction.init.after hash p).hashed :=
    fun q hq => List.mem_append_right _ hq
  have htp : ∀ q ∈ (treeOf (treeHeight L.length) L).pairs hash,
      q ∈ hashedPairs hash L ++ (Extraction.init.after hash p).hashed :=
    fun q hq => List.mem_append_left _ hq
  show p.shown.Sublist L
  rcases hguard with hzero | hbig | hhigh | ⟨hheight, hle | ⟨j, hdvd, hj, hpair⟩⟩
  · omega
  · omega
  · rw [shown_eq_nil_of_lt hcol (perfect_treeOf _ _) hhigh hp htp hpp
      (fun x hx => hapart x (mem_of_mem_leaves hL hx)) hvalue]
    exact List.nil_sublist L
  · rw [hheight] at hp
    exact shown_sublist_of_le hcol (le_two_pow_treeHeight _) hp hn hle htp hpp hvalue
  · rcases le_or_gt pmt.nTransactions L.length with hle | hgt
    · rw [hheight] at hp
      exact shown_sublist_of_le hcol (le_two_pow_treeHeight _) hp hn hle htp hpp hvalue
    · have hc := le_two_pow_treeHeight pmt.nTransactions
      rw [hheight] at hp hc
      exact shown_sublist_of_caught hcol (List.length_pos_iff.mpr hL) hc hgt hdvd hj hpair hp htp
        hpp hvalue

/-- **Partial merkle proofs.** All that the accepted proofs with a claimed number of transactions
report is a subsequence of the transactions of the block, exactly if this number is guarded. -/
theorem proofs_sublist_iff (hnull : (computeMerkleRoot hash L).1 ≠ 0) (hs : HashSound hash L L)
    (n : ℕ) :
    (∀ pmt : CPartialMerkleTree, pmt.nTransactions = n → ProofFor hash pmt L →
      (pmt.extractMatches hash).2.vMatch.Sublist L) ↔ Guarded hash L n := by
  constructor
  · intro hall
    by_contra hguard
    simp only [Guarded, not_or, not_lt, not_and, not_le, not_exists] at hguard
    obtain ⟨hzero, hmax, hlow, hsame⟩ := hguard
    have hn : 0 < n := Nat.pos_of_ne_zero hzero
    have hL : L ≠ [] := by
      rintro rfl
      exact hnull rfl
    have hshown : ∀ {p}, Agrees hash (treeOf (treeHeight L.length) L) (treeHeight n) n p →
        p.shown.Sublist L := by
      intro p hp
      have hsub := hall (ofPTree n p) rfl (proofFor_ofPTree hnull hs hn hmax hp)
      rwa [extractMatches_ofPTree hn hmax hp.shape] at hsub
    rcases hlow.lt_or_eq with hlt | heq
    · -- an inner node is reported
      obtain ⟨p, hp, q, hq, hmem⟩ := exists_agrees_inner hash
        (perfect_treeOf (treeHeight L.length) L) hlt (two_pow_treeHeight_lt hn)
      exact hs.leavesApart _ (List.mem_append_left _ ((hshown hp).subset hmem)) q
        (List.mem_append_left _ hq) rfl
    · -- the copies are reported
      obtain ⟨hgt, hun⟩ := hsame heq
      have hc := le_two_pow_treeHeight n
      rw [heq] at hc
      obtain ⟨p, hp, hmore⟩ := exists_agrees_more hash (List.length_pos_iff.mpr hL) hgt hc
        fun j hdvd hj => not_not.mp (hun j hdvd hj)
      exact absurd (hshown (heq.symm ▸ hp)).length_le (not_le.mpr hmore)
  · rintro hguard pmt rfl hproof
    exact hproof.sublist hnull hguard

end CPartialMerkleTree

namespace Concrete

open CPartialMerkleTree

/-- A proof for three transactions is guarded, one for four of them is not. -/
theorem proofs_threeTransactions :
    (∀ pmt : CPartialMerkleTree, pmt.nTransactions = 3 → ProofFor pairHash pmt [1, 2, 3] →
      (pmt.extractMatches pairHash).2.vMatch.Sublist [1, 2, 3]) ∧
    ¬ ∀ pmt : CPartialMerkleTree, pmt.nTransactions = 4 → ProofFor pairHash pmt [1, 2, 3] →
      (pmt.extractMatches pairHash).2.vMatch.Sublist [1, 2, 3] := by
  have hnull : (computeMerkleRoot pairHash [1, 2, 3]).1 ≠ 0 := by decide +kernel
  have hs : HashSound pairHash [1, 2, 3] [1, 2, 3] := by decide +kernel
  refine ⟨(proofs_sublist_iff hnull hs 3).mpr ?_, fun hall => ?_⟩
  · exact Or.inr (Or.inr (Or.inr ⟨rfl, Or.inl le_rfl⟩))
  · rcases (proofs_sublist_iff hnull hs 4).mp hall with h | h | h | ⟨-, h | ⟨j, hdvd, -⟩⟩
    · exact absurd h (by decide)
    · exact absurd h (by decide)
    · exact absurd h (by decide)
    · exact absurd h (by decide)
    · have : 2 ∣ 3 := (dvd_pow_self 2 (Nat.succ_ne_zero j)).trans hdvd
      omega

/-- The block has three transactions and the last one is shown as the fourth one as well. -/
def fourOfThree : CPartialMerkleTree where
  nTransactions := 4
  vBits := [true, false, true, true, true, false, false, false]
  vHash := [pairHash 1 2, 3, 3]

theorem transaction_reported_twice :
    ¬ ∀ (hash : Uint256 → Uint256 → Uint256) (L : List Uint256) (pmt : CPartialMerkleTree),
      (computeMerkleRoot hash L).1 ≠ 0 → ProofFor hash pmt L →
      (pmt.extractMatches hash).2.vMatch.Sublist L := by
  intro hall
  have hproof : ProofFor pairHash fourOfThree [1, 2, 3] :=
    ⟨by unfold Received; decide, by decide +kernel, by decide +kernel⟩
  have hsub := hall pairHash [1, 2, 3] fourOfThree (by decide +kernel) hproof
  exact absurd hsub (by decide +kernel)

end Concrete

end Agenor
