import Agenor.Zerocoin

/-!
The bloom filters of light clients (`bloom.cpp`): which transactions a filter matches, and what it
learns from them.

A filter matches on the data that the scripts of a transaction push. In a mint output and in a
zerocoin spend it looks at something else, which it takes out of the script at a fixed offset.
-/

namespace Agenor

open Lib.Fallible

/-! ### The hash function -/

namespace MurmurHash3

def rotl32 (x : UInt32) (r : UInt32) : UInt32 := (x <<< r) ||| (x >>> (32 - r))

/-- What a block of data contributes. -/
def mix (k1 : UInt32) : UInt32 := rotl32 (k1 * 0xcc9e2d51) 15 * 0x1b873593

/-- The blocks of four bytes, and what is left at the end. -/
def body (h1 : UInt32) : List UInt8 → UInt32
  | b0 :: b1 :: b2 :: b3 :: rest =>
    let k1 := UInt32.ofNat (Script.readLE [b0, b1, b2, b3])
    body (rotl32 (h1 ^^^ mix k1) 13 * 5 + 0xe6546b64) rest
  | [] => h1
  | tail => h1 ^^^ mix (UInt32.ofNat (Script.readLE tail))

def finalize (h1 : UInt32) : UInt32 :=
  let h1 := (h1 ^^^ (h1 >>> 16)) * 0x85ebca6b
  let h1 := (h1 ^^^ (h1 >>> 13)) * 0xc2b2ae35
  h1 ^^^ (h1 >>> 16)

end MurmurHash3

def murmurHash3 (nHashSeed : UInt32) (vDataToHash : List UInt8) : UInt32 :=
  MurmurHash3.finalize
    (MurmurHash3.body nHashSeed vDataToHash ^^^ UInt32.ofNat vDataToHash.length)

/-! ### Filters -/

inductive BloomFlags | BLOOM_UPDATE_NONE | BLOOM_UPDATE_ALL | BLOOM_UPDATE_P2PUBKEY_ONLY
  deriving DecidableEq, Repr

structure CBloomFilter where
  vData : List UInt8
  isFull : Bool
  isEmpty : Bool
  nHashFuncs : ℕ
  nTweak : UInt32
  nFlags : BloomFlags
  deriving DecidableEq, Repr

namespace CBloomFilter

variable (filter : CBloomFilter)

/-- `CBloomFilter::Hash`: the bit that a hash function chooses. -/
def hash (nHashNum : ℕ) (vDataToHash : List UInt8) : ℕ :=
  (murmurHash3 (UInt32.ofNat nHashNum * 0xFBA4C795 + filter.nTweak) vDataToHash).toNat %
    (filter.vData.length * 8)

/-- Bit `nIndex` of the data. -/
def bit (nIndex : ℕ) : Bool := ((filter.vData.getD (nIndex / 8) 0).toNat).testBit (nIndex % 8)

def contains (vKey : List UInt8) : Bool :=
  if filter.isFull then true
  else if filter.isEmpty then false
  else (List.range filter.nHashFuncs).all fun i => filter.bit (filter.hash i vKey)

def insert (vKey : List UInt8) : CBloomFilter :=
  if filter.isFull then filter
  else
    let vData := (List.range filter.nHashFuncs).foldl (fun vData i =>
      let nIndex := filter.hash i vKey
      vData.modify (nIndex / 8) (· ||| (1 <<< UInt8.ofNat (nIndex % 8)))) filter.vData
    { filter with vData, isEmpty := false }

def updateEmptyFull : CBloomFilter :=
  { filter with
    isFull := filter.vData.all (· == 0xff)
    isEmpty := filter.vData.all (· == 0) }

end CBloomFilter

/-- The keys under which a transaction and an outpoint are looked up. -/
def uint256Key (hash : Uint256) : List UInt8 := bytesLE 32 hash.toNat

@[inherit_doc uint256Key]
def outPointKey (outpoint : COutPoint) : List UInt8 :=
  uint256Key outpoint.hash ++ bytesLE 4 outpoint.n

/-- `CBigNum::getvch`: the magnitude in little-endian order, the sign in the top bit. -/
def getvch (n : ℤ) : List UInt8 :=
  if n = 0 then []
  else
    let size := (bitSize n + 7) / 8
    let top := n.natAbs / 256 ^ (size - 1)
    let sign := if n < 0 then 0x80 else 0
    if 0x80 ≤ top then bytesLE size n.natAbs ++ [UInt8.ofNat sign]
    else bytesLE (size - 1) n.natAbs ++ [UInt8.ofNat (top + sign)]

/-- `CoinSpend::ParseSerial`. Moving past the end of the stream is noticed at the next read. -/
def parseSerial (s : List UInt8) : Check (List UInt8) :=
  let r : Reader ℤ := do
    let nSize ← Reader.compactSize
    modify (·.drop nSize)
    let nSize ← Reader.compactSize
    modify (·.drop nSize)
    Reader.bigNum
  match r s with
  | some (coinSerialNumber, _) => .ok (getvch coinSerialNumber)
  | none => .error (.throws "CBaseDataStream::read() : end of data")

namespace CBloomFilter

/-- The loop over the operations of a script: whether some of its data match. The data of an
operation are what `dataOf` makes of what it pushes. -/
def scan (dataOf : List UInt8 → Check (List UInt8)) (filter : CBloomFilter) :
    ℕ → CScript → Check Bool
  | 0, _ => .ok false
  | fuel + 1, pc =>
    match Script.getOp pc with
    | none => .ok false
    | some (_, data, pc') => do
      let data ← dataOf data
      if data ≠ [] ∧ filter.contains data = true then return true
      scan dataOf filter fuel pc'

/-- The data of an operation in an output. -/
def outData (txout : CTxOut) (data : List UInt8) : Check (List UInt8) :=
  if txout.isZerocoinMint then sliceFrom txout.scriptPubKey 6 .mintData else .ok data

/-- The data of an operation in an input. -/
def inData (txin : CTxIn) (data : List UInt8) : Check (List UInt8) :=
  if txin.isZerocoinSpend then do parseSerial (← sliceFrom txin.scriptSig 44 .spendData)
  else .ok data

/-- One output; the state is `fFound` and the filter. `solvesKey` says whether `Solver` finds a
public key or a multisig script. -/
def scanOut (solvesKey : CScript → Bool) (hash : Uint256) (s : Bool × CBloomFilter)
    (p : CTxOut × ℕ) : Check (Bool × CBloomFilter) := do
  let script := p.1.scriptPubKey
  if ← scan (outData p.1) s.2 script.length script then
    let insert := match s.2.nFlags with
      | .BLOOM_UPDATE_ALL => true
      | .BLOOM_UPDATE_P2PUBKEY_ONLY => solvesKey script
      | .BLOOM_UPDATE_NONE => false
    return (true, if insert then s.2.insert (outPointKey ⟨hash, p.2⟩) else s.2)
  else return s

def scanIns (filter : CBloomFilter) : List CTxIn → Check Bool
  | [] => .ok false
  | txin :: rest => do
    if filter.contains (outPointKey txin.prevout) then return true
    if ← scan (inData txin) filter txin.scriptSig.length txin.scriptSig then return true
    scanIns filter rest

/-- `IsRelevantAndUpdate`: whether the transaction matches, and the filter afterwards. -/
def isRelevantAndUpdate (solvesKey : CScript → Bool) (filter : CBloomFilter) (tx : CTransaction) :
    Check (Bool × CBloomFilter) := do
  if filter.isFull then return (true, filter)
  if filter.isEmpty then return (false, filter)
  let fFound := filter.contains (uint256Key tx.hash)
  let (fFound, filter) ← loop (scanOut solvesKey tx.hash) (fFound, filter) tx.vout.zipIdx
  if fFound then return (true, filter)
  return (← scanIns filter tx.vin, filter)

/-! ### Scripts that are long enough -/

variable {filter : CBloomFilter} {e : Fault}

lemma scan_avoids {dataOf : List UInt8 → Check (List UInt8)} (h : ∀ data, Avoids e (dataOf data))
    (fuel : ℕ) (pc : CScript) : Avoids e (scan dataOf filter fuel pc) := by
  induction fuel generalizing pc with
  | zero => exact .ok e _
  | succ fuel ih =>
    unfold scan
    cases Script.getOp pc with
    | none => exact .ok e _
    | some op =>
      obtain ⟨opcode, data, pc'⟩ := op
      exact (h data).bind fun d _ => .ite (fun _ => .pure e _) fun _ => ih pc'

lemma parseSerial_avoids (site : SliceSite) (s : List UInt8) :
    Avoids (.outOfRange site) (parseSerial s) := by
  unfold parseSerial
  dsimp only
  split
  · exact .ok _ _
  · exact .error (by simp)

lemma outData_avoids {txout : CTxOut} {site : SliceSite}
    (h : txout.isZerocoinMint = true → 6 ≤ txout.scriptPubKey.length) (data : List UInt8) :
    Avoids (.outOfRange site) (outData txout data) :=
  .ite (fun hm => sliceFrom_avoids (h hm)) fun _ => .ok _ _

lemma inData_avoids {txin : CTxIn} {site : SliceSite}
    (h : txin.isZerocoinSpend = true → 44 ≤ txin.scriptSig.length) (data : List UInt8) :
    Avoids (.outOfRange site) (inData txin data) :=
  .ite (fun hm => (sliceFrom_avoids (h hm)).bind fun s _ => parseSerial_avoids site s)
    fun _ => .ok _ _

lemma scanOut_avoids {solvesKey : CScript → Bool} {hash : Uint256} {s : Bool × CBloomFilter}
    {p : CTxOut × ℕ} {site : SliceSite}
    (h : p.1.isZerocoinMint = true → 6 ≤ p.1.scriptPubKey.length) :
    Avoids (.outOfRange site) (scanOut solvesKey hash s p) :=
  (scan_avoids (outData_avoids h) _ _).bind fun _ _ => .ite (fun _ => .pure _ _) fun _ => .pure _ _

lemma scanIns_avoids {site : SliceSite} {vin : List CTxIn}
    (h : ∀ txin ∈ vin, txin.isZerocoinSpend = true → 44 ≤ txin.scriptSig.length) :
    Avoids (.outOfRange site) (filter.scanIns vin) := by
  induction vin with
  | nil => exact .ok _ _
  | cons txin vin ih =>
    refine .ite (fun _ => .pure _ _) fun _ => ?_
    refine (scan_avoids (inData_avoids (h txin (by simp))) _ _).bind fun b _ => ?_
    exact .ite (fun _ => .pure _ _) fun _ => ih fun i hi => h i (List.mem_cons_of_mem _ hi)

lemma isRelevantAndUpdate_avoids {solvesKey : CScript → Bool} {tx : CTransaction} {site : SliceSite}
    (hout : ∀ out ∈ tx.vout, out.isZerocoinMint = true → 6 ≤ out.scriptPubKey.length)
    (hin : ∀ txin ∈ tx.vin, txin.isZerocoinSpend = true → 44 ≤ txin.scriptSig.length) :
    Avoids (.outOfRange site) (isRelevantAndUpdate solvesKey filter tx) := by
  refine .ite (fun _ => .pure _ _) fun _ => .ite (fun _ => .pure _ _) fun _ => ?_
  refine Avoids.bind (.loop _ fun p hp t => scanOut_avoids (hout p.1 ?_)) fun s _ => ?_
  · exact List.fst_mem_of_mem_zipIdx hp
  · exact .ite (fun _ => .pure _ _) fun _ => (scanIns_avoids hin).bind fun _ _ => .pure _ _

/-! ### Scripts that are too short -/

lemma getOp_of_startsWith {s : CScript} {opcode : UInt8} (ho : ¬ opcode ≤ Script.OP_PUSHDATA4)
    (h : Script.startsWithOpcode s opcode = true) :
    ∃ rest, s = opcode :: rest ∧ Script.getOp s = some (opcode, [], rest) := by
  cases s with
  | nil => cases h
  | cons b rest =>
    obtain rfl : b = opcode := by simpa [Script.startsWithOpcode] using h
    exact ⟨rest, rfl, by simp [Script.getOp, ho]⟩

lemma scan_eq_error {dataOf : List UInt8 → Check (List UInt8)} {s : CScript} {opcode : UInt8}
    (ho : ¬ opcode ≤ Script.OP_PUSHDATA4) (h : Script.startsWithOpcode s opcode = true)
    (hd : dataOf [] = .error e) : scan dataOf filter s.length s = .error e := by
  obtain ⟨rest, rfl, hop⟩ := getOp_of_startsWith ho h
  rw [List.length_cons, scan, hop]
  simp [hd, bind, Except.bind]

lemma outData_short {txout : CTxOut} (hm : txout.isZerocoinMint = true)
    (h : txout.scriptPubKey.length < 6) (data : List UInt8) :
    outData txout data = .error (.outOfRange .mintData) := by
  rw [outData, if_pos hm, sliceFrom, if_pos h]

lemma inData_short {txin : CTxIn} (hs : txin.isZerocoinSpend = true)
    (h : txin.scriptSig.length < 44) (data : List UInt8) :
    inData txin data = .error (.outOfRange .spendData) := by
  rw [inData, if_pos hs, sliceFrom, if_pos h]
  rfl

/-- A filter with a single bit set. -/
def single (c : ℕ) : CBloomFilter :=
  ⟨[1 <<< UInt8.ofNat c], false, false, 1, 0, .BLOOM_UPDATE_NONE⟩

lemma single_contains {c : ℕ} (hc : c < 8) (vKey : List UInt8) :
    (single c).contains vKey = decide ((single c).hash 0 vKey = c) := by
  have hbit : ∀ c < 8, ∀ i < 8,
      Nat.testBit (1 <<< UInt8.ofNat c : UInt8).toNat i = decide (i = c) := by decide
  have hi : (single c).hash 0 vKey < 8 := Nat.mod_lt _ (by simp [single])
  have hall : (single c).contains vKey = (single c).bit ((single c).hash 0 vKey) := by
    change ((List.range 1).all fun i => (single c).bit ((single c).hash i vKey)) = _
    simp
  rw [hall, bit, Nat.div_eq_of_lt hi, Nat.mod_eq_of_lt hi]
  exact hbit c hc _ hi

lemma single_hash (c : ℕ) (vKey : List UInt8) : (single c).hash 0 vKey = (single 0).hash 0 vKey :=
  rfl

lemma exists_quiet (k₁ k₂ : List UInt8) :
    ∃ filter : CBloomFilter, filter.isFull = false ∧ filter.isEmpty = false ∧
      filter.contains k₁ = false ∧ filter.contains k₂ = false := by
  -- two of the eight bits are taken
  obtain ⟨c, hc, h₁, h₂⟩ : ∃ c < 3, (single 0).hash 0 k₁ ≠ c ∧ (single 0).hash 0 k₂ ≠ c := by
    by_contra hcon
    push Not at hcon
    have h0 := hcon 0 (by omega)
    have h1 := hcon 1 (by omega)
    have h2 := hcon 2 (by omega)
    omega
  refine ⟨single c, rfl, rfl, ?_, ?_⟩
  · rw [single_contains (by omega), single_hash, decide_eq_false_iff_not]
    exact h₁
  · rw [single_contains (by omega), single_hash, decide_eq_false_iff_not]
    exact h₂

lemma short_mint {solvesKey : CScript → Bool} {out : CTxOut} {hash : Uint256}
    (hf : filter.isFull = false) (he : filter.isEmpty = false) (hm : out.isZerocoinMint = true)
    (h : out.scriptPubKey.length < 6) :
    isRelevantAndUpdate solvesKey filter ⟨hash, [], [out]⟩ = .error (.outOfRange .mintData) := by
  have hscan : scan (outData out) filter out.scriptPubKey.length out.scriptPubKey =
      .error (.outOfRange .mintData) := scan_eq_error (by decide) hm (outData_short hm h [])
  simp [isRelevantAndUpdate, hf, he, scanOut, hscan, bind, Except.bind]

lemma short_spend {solvesKey : CScript → Bool} {txin : CTxIn} {hash : Uint256}
    (hf : filter.isFull = false) (he : filter.isEmpty = false)
    (hh : filter.contains (uint256Key hash) = false)
    (ho : filter.contains (outPointKey txin.prevout) = false) (hs : txin.isZerocoinSpend = true)
    (h : txin.scriptSig.length < 44) :
    isRelevantAndUpdate solvesKey filter ⟨hash, [txin], []⟩ =
      .error (.outOfRange .spendData) := by
  have hspend : Script.startsWithOpcode txin.scriptSig Script.OP_ZEROCOINSPEND = true := by
    have := hs
    simp only [CTxIn.isZerocoinSpend, Bool.and_eq_true] at this
    exact this.2
  have hscan : scan (inData txin) filter txin.scriptSig.length txin.scriptSig =
      .error (.outOfRange .spendData) := scan_eq_error (by decide) hspend (inData_short hs h [])
  simp [isRelevantAndUpdate, hf, he, hh, ho, scanIns, hscan, bind, Except.bind]

end CBloomFilter

end Agenor
