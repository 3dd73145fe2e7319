import Agenor.MerkleBlock
import Agenor.SignatureHash
import Agenor.Lib.CutTree
import Agenor.Lib.PackBits

/-!
Partial merkle trees as they are made and sent (`merkleblock.cpp`, `merkleblock.h`).

The traversal that builds a partial tree walks over positions in an implicit tree. It leaves the
bits and the hashes of the tree of the transactions, cut down to those that match; sent and received
that tree has at most seven more bits, and the extraction reads it.
-/

namespace Agenor

open Lib Lib.Merkle

namespace CPartialMerkleTree

/-! ### The traversal that builds -/

section

variable (hash : Uint256 → Uint256 → Uint256) (vTxid : List Uint256) (vMatch : List Bool)

def calcHash (pmt : CPartialMerkleTree) : ℕ → ℕ → Uint256
  | 0, pos => vTxid.getD pos 0
  | height + 1, pos =>
    let left := calcHash pmt height (pos * 2)
    let right :=
      if pos * 2 + 1 < calcTreeWidth pmt.nTransactions height then
        calcHash pmt height (pos * 2 + 1)
      else left
    hash left right

/-- Whether a node is the parent of a matched transaction, or is one. -/
def isParentOfMatch (pmt : CPartialMerkleTree) (height pos : ℕ) : Bool :=
  let first := pos * 2 ^ height
  let last := min ((pos + 1) * 2 ^ height) pmt.nTransactions
  (List.range' first (last - first)).any fun p => vMatch.getD p false

def traverseAndBuild : ℕ → ℕ → CPartialMerkleTree → CPartialMerkleTree
  | 0, pos, pmt =>
    { pmt with
      vBits := pmt.vBits ++ [pmt.isParentOfMatch vMatch 0 pos]
      vHash := pmt.vHash ++ [pmt.calcHash hash vTxid 0 pos] }
  | height + 1, pos, pmt =>
    let fParentOfMatch := pmt.isParentOfMatch vMatch (height + 1) pos
    let pmt := { pmt with vBits := pmt.vBits ++ [fParentOfMatch] }
    if !fParentOfMatch then
      { pmt with vHash := pmt.vHash ++ [pmt.calcHash hash vTxid (height + 1) pos] }
    else
      let pmt := traverseAndBuild height (pos * 2) pmt
      if pos * 2 + 1 < calcTreeWidth pmt.nTransactions height then
        traverseAndBuild height (pos * 2 + 1) pmt
      else pmt

/-- The constructor from the transactions of a block and the matches. -/
def ofMatches : CPartialMerkleTree :=
  let nHeight := heightLoop vTxid.length vTxid.length 0
  traverseAndBuild hash vTxid vMatch nHeight 0 ⟨vTxid.length, [], []⟩

end

/-! ### Serialization -/

def serialize (pmt : CPartialMerkleTree) : List UInt8 :=
  writeLE 4 pmt.nTransactions ++
    ((writeCompactSize pmt.vHash.length ++ pmt.vHash.flatMap Uint256.serialize) ++
      serializeBytes (packBits pmt.vBits))

def readUint256 : Reader Uint256 := do return BitVec.ofNat 256 (← Reader.uint 32)

def unserialize : Reader CPartialMerkleTree := do
  let nTransactions ← Reader.uint 4
  let vHash ← Reader.compactSize >>= Reader.many readUint256
  let vBytes ← Reader.vch
  return ⟨nTransactions, unpackBits vBytes, vHash⟩

/-! ### What is built -/

section

variable {hash : Uint256 → Uint256 → Uint256} {vTxid : List Uint256} {vMatch : List Bool}
variable {pmt : CPartialMerkleTree} {height pos : ℕ}

/-- The transactions below a node with their matches. -/
def marked (vTxid : List Uint256) (vMatch : List Bool) (height pos : ℕ) : List (Uint256 × Bool) :=
  ((vTxid.zip vMatch).drop (pos * 2 ^ height)).take (2 ^ height)

lemma length_marked (hlen : vMatch.length = vTxid.length) :
    (marked vTxid vMatch height pos).length = leavesBelow vTxid.length height pos := by
  rw [marked, List.length_take, List.length_drop, List.length_zip, hlen, min_self, leavesBelow]

lemma map_fst_marked (hlen : vMatch.length = vTxid.length) :
    (marked vTxid vMatch height pos).map (·.1) =
      (vTxid.drop (pos * 2 ^ height)).take (2 ^ height) := by
  have hfst : (vTxid.zip vMatch).map (·.1) = vTxid := List.map_fst_zip hlen.ge
  rw [marked, List.map_take, List.map_drop, hfst]

lemma any_marked (hlen : vMatch.length = vTxid.length) :
    (marked vTxid vMatch height pos).any (·.2) =
      ((vMatch.drop (pos * 2 ^ height)).take (2 ^ height)).any id := by
  have hsnd : (vTxid.zip vMatch).map (·.2) = vMatch := List.map_snd_zip hlen.le
  conv_rhs => rw [← hsnd]
  rw [← List.map_drop, ← List.map_take, List.any_map]
  rfl

lemma marked_children :
    (marked vTxid vMatch (height + 1) pos).take (2 ^ height) =
        marked vTxid vMatch height (pos * 2) ∧
      (marked vTxid vMatch (height + 1) pos).drop (2 ^ height) =
        marked vTxid vMatch height (pos * 2 + 1) := by
  have hpow : pos * 2 ^ (height + 1) = pos * 2 * 2 ^ height := by ring
  have hsucc : (pos * 2 + 1) * 2 ^ height = pos * 2 * 2 ^ height + 2 ^ height := by ring
  have hdouble : 2 ^ (height + 1) = 2 ^ height + 2 ^ height := by ring
  unfold marked
  rw [hpow, hsucc, hdouble]
  constructor
  · rw [List.take_take, min_eq_left (Nat.le_add_left _ _)]
  · rw [List.drop_take, List.drop_drop, Nat.add_sub_cancel]

lemma marked_of_le (hle : (marked vTxid vMatch (height + 1) pos).length ≤ 2 ^ height) :
    marked vTxid vMatch height (pos * 2) = marked vTxid vMatch (height + 1) pos := by
  have hpow : pos * 2 ^ (height + 1) = pos * 2 * 2 ^ height := by ring
  have hdouble : 2 ^ (height + 1) = 2 ^ height + 2 ^ height := by ring
  have hpos := Nat.two_pow_pos height
  unfold marked at hle ⊢
  rw [hpow, hdouble, List.length_take] at hle
  rw [hpow, hdouble, List.take_of_length_le (by omega), List.take_of_length_le (by omega)]

lemma map_getD_range' {l : List Bool} {first k : ℕ} (h : first + k ≤ l.length) :
    (List.range' first k).map (fun p => l.getD p false) = (l.drop first).take k := by
  apply List.ext_getElem
  · rw [List.length_map, List.length_range', List.length_take, List.length_drop]
    omega
  · intro i h₁ h₂
    rw [List.length_map, List.length_range'] at h₁
    simp only [List.getElem_map, List.getElem_range', List.getElem_take, List.getElem_drop]
    rw [List.getD_eq_getElem _ _ (by omega)]
    congr 1
    omega

lemma isParentOfMatch_eq (hn : pmt.nTransactions = vTxid.length)
    (hlen : vMatch.length = vTxid.length) (hpos : pos * 2 ^ height < vTxid.length) :
    pmt.isParentOfMatch vMatch height pos = (marked vTxid vMatch height pos).any (·.2) := by
  have hsucc : (pos + 1) * 2 ^ height = pos * 2 ^ height + 2 ^ height := by ring
  have hany : ∀ l : List ℕ, l.any (fun p => vMatch.getD p false) =
      (l.map fun p => vMatch.getD p false).any id := by
    intro l
    rw [List.any_map]
    rfl
  unfold isParentOfMatch
  dsimp only
  rw [any_marked hlen, hany, map_getD_range' (by omega), hn, hsucc]
  rcases le_total (pos * 2 ^ height + 2 ^ height) vTxid.length with hle | hge
  · rw [min_eq_left hle, Nat.add_sub_cancel_left]
  · rw [min_eq_right hge, List.take_of_length_le, List.take_of_length_le]
    · rw [List.length_drop]
      omega
    · rw [List.length_drop]
      omega

lemma calcHash_eq (hn : pmt.nTransactions = vTxid.length)
    (hlen : vMatch.length = vTxid.length) (hpos : pos * 2 ^ height < vTxid.length) :
    pmt.calcHash hash vTxid height pos =
      (treeOf height ((marked vTxid vMatch height pos).map (·.1))).value hash := by
  rw [map_fst_marked hlen, ← nodeAt]
  clear hlen
  induction height generalizing pos with
  | zero =>
    rw [pow_zero, Nat.mul_one] at hpos
    rw [calcHash, nodeAt_zero hpos, List.getD_eq_getElem _ _ hpos]
  | succ height ih =>
    have hleft : pos * 2 * 2 ^ height < vTxid.length := by
      rw [pow_succ] at hpos
      calc pos * 2 * 2 ^ height = pos * (2 ^ height * 2) := by ring
        _ < vTxid.length := hpos
    rw [mul_comm pos 2] at hleft
    rw [calcHash, hn, mul_comm pos 2]
    by_cases hright : 2 * pos + 1 < calcTreeWidth vTxid.length height
    · rw [if_pos hright, ih hleft, ih (lt_calcTreeWidth.mp hright),
        nodeAt_succ (lt_calcTreeWidth.mp hright)]
    · rw [if_neg hright, ih hleft, nodeAt_succ_of_le]
      rwa [lt_calcTreeWidth, not_lt] at hright

lemma traverseAndBuild_eq (hn : pmt.nTransactions = vTxid.length)
    (hlen : vMatch.length = vTxid.length) (hpos : pos * 2 ^ height < vTxid.length) :
    traverseAndBuild hash vTxid vMatch height pos pmt =
      { pmt with
        vBits := pmt.vBits ++ (cut hash height (marked vTxid vMatch height pos)).bits
        vHash := pmt.vHash ++ (cut hash height (marked vTxid vMatch height pos)).hashes } := by
  induction height generalizing pos pmt with
  | zero =>
    obtain ⟨x, hx⟩ : ∃ x, marked vTxid vMatch 0 pos = [x] := by
      rw [pow_zero, Nat.mul_one] at hpos
      rw [← List.length_eq_one_iff, length_marked hlen, leavesBelow, pow_zero, Nat.mul_one]
      omega
    rw [traverseAndBuild, isParentOfMatch_eq hn hlen hpos, calcHash_eq hn hlen hpos, hx]
    simp [cut, PTree.bits, PTree.hashes, treeOf, BTree.value]
  | succ height ih =>
    obtain ⟨hleft, -, -⟩ := leavesBelow_left hpos
    have hwidth := (leavesBelow_right vTxid.length height pos).1
    rw [← length_marked hlen] at hwidth
    rw [traverseAndBuild, isParentOfMatch_eq hn hlen hpos]
    cases hany : (marked vTxid vMatch (height + 1) pos).any (·.2) with
    | false =>
      have hcalc : ({ pmt with vBits := pmt.vBits ++ [false] } : CPartialMerkleTree).calcHash hash
          vTxid (height + 1) pos = _ := calcHash_eq hn hlen hpos
      rw [cut_unmarked hany]
      dsimp only
      rw [Bool.not_false, if_pos rfl, hcalc, PTree.bits, PTree.hashes]
    | true =>
      dsimp only
      have hfirst : traverseAndBuild hash vTxid vMatch height (pos * 2)
          { pmt with vBits := pmt.vBits ++ [true] } = _ := ih hn hleft
      rw [Bool.not_true, if_neg (by decide), hfirst]
      dsimp only
      rcases le_or_gt (marked vTxid vMatch (height + 1) pos).length (2 ^ height) with hle | hlt
      · rw [if_neg (fun h => not_lt.mpr hle (hwidth.mp (hn ▸ h))), cut_of_le hany hle,
          marked_of_le hle]
        simp [PTree.bits, PTree.hashes]
      · have hright := hwidth.mpr hlt
        have hsecond : ∀ vBits vHash, traverseAndBuild hash vTxid vMatch height (pos * 2 + 1)
            ⟨pmt.nTransactions, vBits, vHash⟩ = _ :=
          fun vBits vHash => ih hn (lt_calcTreeWidth.mp hright)
        obtain ⟨htake, hdrop⟩ := @marked_children vTxid vMatch height pos
        rw [if_pos (hn.symm ▸ hright), cut_of_lt hany hlt, htake, hdrop, hsecond]
        simp [PTree.bits, PTree.hashes]

lemma marked_root (hlen : vMatch.length = vTxid.length) :
    marked vTxid vMatch (treeHeight vTxid.length) 0 = vTxid.zip vMatch := by
  rw [marked, Nat.zero_mul, List.drop_zero, List.take_of_length_le]
  rw [List.length_zip, hlen, min_self]
  exact le_two_pow_treeHeight _

lemma ofMatches_eq (hlen : vMatch.length = vTxid.length) (hpos : 0 < vTxid.length) :
    ofMatches hash vTxid vMatch =
      ⟨vTxid.length, (cut hash (treeHeight vTxid.length) (vTxid.zip vMatch)).bits,
        (cut hash (treeHeight vTxid.length) (vTxid.zip vMatch)).hashes⟩ := by
  have hheight : heightLoop vTxid.length vTxid.length 0 = treeHeight vTxid.length :=
    heightLoop_eq vTxid.length 0 (Nat.zero_le _)
      (by rw [Nat.zero_add]; exact treeHeight_le Nat.lt_two_pow_self.le)
  have hbuild := @traverseAndBuild_eq hash vTxid vMatch ⟨vTxid.length, [], []⟩
    (treeHeight vTxid.length) 0 rfl hlen (by rwa [Nat.zero_mul])
  rw [marked_root hlen] at hbuild
  unfold ofMatches
  dsimp only
  rw [hheight, hbuild]
  simp

/-! ### What is received -/

lemma readsBack_uint256 (h : Uint256) : ReadsBack readUint256 h.serialize h := by
  have hread := (readsBack_uint (show h.toNat < 256 ^ 32 from h.isLt)).map (BitVec.ofNat 256)
  rwa [BitVec.ofNat_toNat, BitVec.setWidth_eq] at hread

lemma readsBack_unserialize (hn : pmt.nTransactions < 256 ^ 4)
    (hhash : pmt.vHash.length ≤ Reader.MAX_SIZE) (hbits : pmt.vBits.length ≤ Reader.MAX_SIZE) :
    ReadsBack unserialize pmt.serialize
      { pmt with vBits := unpackBits (packBits pmt.vBits) } := by
  have hbytes : (packBits pmt.vBits).length ≤ Reader.MAX_SIZE := by
    rw [length_packBits]
    unfold Reader.MAX_SIZE at *
    omega
  refine (readsBack_uint hn).bind (ReadsBack.bind ?_ (ReadsBack.map _ ?_))
  · exact (readsBack_compactSize hhash).bind (readsBack_many fun h _ => readsBack_uint256 h)
  · exact (readsBack_compactSize hbytes).bind (readsBack_bytes _)

end

/-- **Partial merkle trees, made, sent and read.** Whatever transactions of a block match, the tree
that is received gives the merkle root of the block and the transactions that match. -/
theorem extractMatches_received (hash : Uint256 → Uint256 → Uint256) {vTxid : List Uint256}
    {vMatch : List Bool} (hlen : vMatch.length = vTxid.length) (hpos : 1 ≤ vTxid.length)
    (hmax : vTxid.length ≤ MAX_BLOCK_SIZE_CURRENT / 60) :
    ∃ pmt, ReadsBack unserialize (ofMatches hash vTxid vMatch).serialize pmt ∧
      (pmt.extractMatches hash).1 = (computeMerkleRoot hash vTxid).1 ∧
      (pmt.extractMatches hash).2.vMatch = ((vTxid.zip vMatch).filter (·.2)).map (·.1) := by
  have hzip : (vTxid.zip vMatch).length = vTxid.length := by
    rw [List.length_zip, hlen, min_self]
  have hfst : (vTxid.zip vMatch).map (·.1) = vTxid := List.map_fst_zip hlen.ge
  have hshape := @shape_cut _ _ hash (treeHeight vTxid.length) (vTxid.zip vMatch)
  rw [hzip] at hshape
  have hmaxval : MAX_BLOCK_SIZE_CURRENT / 60 = 33333 := rfl
  -- the tree is at most sixteen high
  have hheight : 2 ^ (treeHeight vTxid.length + 1) ≤ 2 ^ 17 := by
    refine Nat.pow_le_pow_right two_pos (Nat.succ_le_succ (treeHeight_le ?_))
    omega
  have hbits := PTree.length_bits_lt hshape
  have hhashes := PTree.length_hashes_le hshape hpos
  refine ⟨ofPTree vTxid.length (cut hash (treeHeight vTxid.length) (vTxid.zip vMatch)), ?_, ?_⟩
  · rw [ofMatches_eq hlen hpos, ofPTree, ← unpackBits_packBits]
    refine readsBack_unserialize ?_ ?_ ?_
    · dsimp only
      omega
    · unfold Reader.MAX_SIZE
      dsimp only
      omega
    · unfold Reader.MAX_SIZE
      dsimp only
      omega
  · rw [extractMatches_ofPTree hpos hmax hshape]
    refine ⟨?_, ?_⟩
    · rw [value_cut, hfst, computeMerkleRoot_fst (List.length_pos_iff.mp hpos)]
    · have hne : vTxid.zip vMatch ≠ [] := by
        rw [← List.length_pos_iff, hzip]
        exact hpos
      rw [Extraction.after, shown_cut hne (hzip.symm ▸ le_two_pow_treeHeight _)]
      rfl

end CPartialMerkleTree

namespace Concrete

open CPartialMerkleTree

/-- The second of three transactions. -/
theorem extractMatches_secondOfThree : ∃ pmt,
    ReadsBack unserialize (ofMatches pairHash [1, 2, 3] [false, true, false]).serialize pmt ∧
      (pmt.extractMatches pairHash).1 = (computeMerkleRoot pairHash [1, 2, 3]).1 ∧
      (pmt.extractMatches pairHash).2.vMatch = [2] :=
  extractMatches_received pairHash (by decide) (by decide) (by decide)

end Concrete

end Agenor
