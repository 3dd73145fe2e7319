import Agenor.CheckBlock
import Agenor.Serialize

/-!
The stored form of coins: amounts and scripts in a compact form (`compressor.cpp`, `compressor.h`),
`Coin::Serialize` (`coins.h`) and the undo records (`undo.h`).

Each part is written as a list of bytes and read from a stream; a reader that throws has no result.
Key arithmetic is a parameter: whether an uncompressed key is fully valid, and the key that a
compressed one stands for.
-/

namespace Agenor

open Lib Lib.Wrap Script

def uint64 (x : ℤ) : ℕ := (x % 2 ^ 64).toNat

def uint32 (x : ℤ) : ℕ := (x % 2 ^ 32).toNat

/-! ### Amounts -/

namespace CTxOutCompressor

/-- `while (((n % 10) == 0) && e < 9)`, with the rounds that are left. -/
def stripZeros : ℕ → ℕ → ℕ → ℕ × ℕ
  | 0, n, e => (n, e)
  | left + 1, n, e => if n % 10 = 0 then stripZeros left (n / 10) (e + 1) else (n, e)

def compressAmount (n : ℕ) : ℕ :=
  if n = 0 then 0
  else
    let (n, e) := stripZeros 9 n 0
    if e < 9 then (1 + (n / 10 * 9 + n % 10 - 1) * 10 + e) % 2 ^ 64
    else (1 + (n - 1) * 10 + 9) % 2 ^ 64

/-- `while (e) { n *= 10; e--; }`. -/
def appendZeros : ℕ → ℕ → ℕ
  | 0, n => n
  | e + 1, n => appendZeros e (n * 10 % 2 ^ 64)

def decompressAmount (x : ℕ) : ℕ :=
  if x = 0 then 0
  else
    let e := (x - 1) % 10
    let x := (x - 1) / 10
    if e < 9 then appendZeros e ((x / 9 * 10 + (x % 9 + 1)) % 2 ^ 64)
    else appendZeros e ((x + 1) % 2 ^ 64)

end CTxOutCompressor

/-! ### Scripts -/

/-- What the script compressor asks the library for keys. -/
structure KeyCodec where
  /-- `IsFullyValid`, of an uncompressed key -/
  isFullyValid : List UInt8 → Bool
  /-- `Decompress`: the uncompressed form of a compressed key -/
  decompress : List UInt8 → Option (List UInt8)

namespace CScriptCompressor

def nSpecialScripts : ℕ := 6

def isToKeyID (script : CScript) : Option (List UInt8) :=
  if script.length = 25 ∧ script[0]? = some OP_DUP ∧ script[1]? = some OP_HASH160 ∧
      script[2]? = some 20 ∧ script[23]? = some OP_EQUALVERIFY ∧ script[24]? = some OP_CHECKSIG then
    some ((script.drop 3).take 20)
  else none

def isToScriptID (script : CScript) : Option (List UInt8) :=
  if script.length = 23 ∧ script[0]? = some OP_HASH160 ∧ script[1]? = some 20 ∧
      script[22]? = some OP_EQUAL then
    some ((script.drop 2).take 20)
  else none

def isToPubKey (codec : KeyCodec) (script : CScript) : Option (List UInt8) :=
  if script.length = 35 ∧ script[0]? = some 33 ∧ script[34]? = some OP_CHECKSIG ∧
      (script[1]? = some 0x02 ∨ script[1]? = some 0x03) then
    some ((script.drop 1).take 33)
  else if script.length = 67 ∧ script[0]? = some 65 ∧ script[66]? = some OP_CHECKSIG ∧
      script[1]? = some 0x04 then
    let pubkey := (script.drop 1).take 65
    if codec.isFullyValid pubkey then some pubkey else none
  else none

def compress (codec : KeyCodec) (script : CScript) : Option (List UInt8) :=
  match isToKeyID script with
  | some keyID => some (0x00 :: keyID)
  | none =>
    match isToScriptID script with
    | some scriptID => some (0x01 :: scriptID)
    | none =>
      match isToPubKey codec script with
      | some pubkey =>
        let x := (pubkey.drop 1).take 32
        if pubkey[0]? = some 0x02 ∨ pubkey[0]? = some 0x03 then some (pubkey.getD 0 0 :: x)
        else if pubkey[0]? = some 0x04 then some ((0x04 ||| (pubkey.getD 64 0 &&& 0x01)) :: x)
        else none
      | none => none

def getSpecialSize (nSize : ℕ) : ℕ :=
  if nSize = 0 ∨ nSize = 1 then 20
  else if nSize = 2 ∨ nSize = 3 ∨ nSize = 4 ∨ nSize = 5 then 32
  else 0

/-- `Decompress`; nothing when the script is left as it is. -/
def decompress (codec : KeyCodec) (nSize : ℕ) (bytes : List UInt8) : Option CScript :=
  match nSize with
  | 0 => some ([OP_DUP, OP_HASH160, 20] ++ bytes ++ [OP_EQUALVERIFY, OP_CHECKSIG])
  | 1 => some ([OP_HASH160, 20] ++ bytes ++ [OP_EQUAL])
  | 2 | 3 => some ([33, UInt8.ofNat nSize] ++ bytes ++ [OP_CHECKSIG])
  | 4 | 5 =>
    (codec.decompress (UInt8.ofNat (nSize - 2) :: bytes)).map fun pubkey =>
      [65] ++ pubkey ++ [OP_CHECKSIG]
  | _ => none

def serialize (codec : KeyCodec) (script : CScript) : List UInt8 :=
  match compress codec script with
  | some compr => compr
  | none => writeVarInt 32 (uint32 (script.length + nSpecialScripts)) ++ script

/-- `Unserialize` into an empty script. -/
def unserialize (codec : KeyCodec) : Reader CScript := do
  let nSize ← readVarInt 32
  if nSize < nSpecialScripts then
    let vch ← Reader.bytes (getSpecialSize nSize)
    return (decompress codec nSize vch).getD []
  else if MAX_SCRIPT_SIZE < nSize - nSpecialScripts then
    let _ ← Reader.bytes (nSize - nSpecialScripts)
    return [OP_RETURN]
  else Reader.bytes (nSize - nSpecialScripts)

end CScriptCompressor

/-! ### Outputs, coins and undo records -/

namespace CTxOutCompressor

def serialize (codec : KeyCodec) (txout : CTxOut) : List UInt8 :=
  writeVarInt 64 (compressAmount (uint64 txout.nValue)) ++
    CScriptCompressor.serialize codec txout.scriptPubKey

def unserialize (codec : KeyCodec) : Reader CTxOut := do
  let nVal ← readVarInt 64
  let scriptPubKey ← CScriptCompressor.unserialize codec
  return ⟨int64 (decompressAmount nVal), scriptPubKey⟩

end CTxOutCompressor

namespace Coin

/-- The height and the flags in one number. -/
def code (coin : Coin) : ℕ :=
  uint32 (coin.nHeight * 4 + (if coin.fCoinBase then 2 else 0) + if coin.fCoinStake then 1 else 0)

/-- `Coin::Serialize`, which must not be called for a spent coin. -/
def serialize (codec : KeyCodec) (coin : Coin) : Option (List UInt8) :=
  if coin.isSpent then none
  else some (writeVarInt 32 coin.code ++ CTxOutCompressor.serialize codec coin.out)

def ofCode (code : ℕ) (out : CTxOut) : Coin where
  out := out
  nHeight := (code / 4 : ℕ)
  fCoinBase := code / 2 % 2 == 1
  fCoinStake := code % 2 == 1

def unserialize (codec : KeyCodec) : Reader Coin := do
  let code ← readVarInt 32
  let out ← CTxOutCompressor.unserialize codec
  return ofCode code out

end Coin

/-- `TxInUndoSerializer`. -/
def serializeTxInUndo (codec : KeyCodec) (txout : Coin) : List UInt8 :=
  writeVarInt 32 txout.code ++
    ((if 0 < txout.nHeight then [0] else []) ++ CTxOutCompressor.serialize codec txout.out)

/-- The place of the version, which older records had only for the last spend. -/
def readVersionDummy (nHeight : ℕ) : Reader ℕ := if 0 < nHeight then readVarInt 32 else pure 0

/-- `TxInUndoDeserializer`. -/
def unserializeTxInUndo (codec : KeyCodec) : Reader Coin := do
  let nCode ← readVarInt 32
  let _ ← readVersionDummy (nCode / 4)
  let out ← CTxOutCompressor.unserialize codec
  return Coin.ofCode nCode out

/-- An input without a script has 41 bytes. -/
def MAX_INPUTS_PER_BLOCK : ℕ := MAX_BLOCK_SIZE_CURRENT / 41

/-- `CTxUndo::Serialize`. -/
def serializeTxUndo (codec : KeyCodec) (vprevout : List Coin) : List UInt8 :=
  writeCompactSize vprevout.length ++ vprevout.flatMap (serializeTxInUndo codec)

/-- `CTxUndo::Unserialize`. -/
def unserializeTxUndo (codec : KeyCodec) : Reader (List Coin) := do
  let count ← Reader.compactSize
  if MAX_INPUTS_PER_BLOCK < count then failure else Reader.many (unserializeTxInUndo codec) count

/-! ### Amounts are read back -/

namespace CTxOutCompressor

lemma stripZeros_spec (left : ℕ) : ∀ n e, 0 < n → ∃ m k, stripZeros left n e = (m, e + k) ∧
    m * 10 ^ k = n ∧ 0 < m ∧ k ≤ left ∧ (k < left → m % 10 ≠ 0) := by
  induction left with
  | zero =>
    intro n e hn
    exact ⟨n, 0, rfl, by ring, hn, le_rfl, fun h => absurd h (Nat.lt_irrefl 0)⟩
  | succ left ih =>
    intro n e hn
    rw [stripZeros]
    split_ifs with hz
    · obtain ⟨m, k, hrun, hval, hpos, hle, hlast⟩ := ih (n / 10) (e + 1) (by omega)
      refine ⟨m, k + 1, by rw [hrun, Nat.add_right_comm, Nat.add_assoc], ?_, hpos, by omega,
        fun h => hlast (by omega)⟩
      rw [pow_succ, ← mul_assoc, hval]
      omega
    · exact ⟨n, 0, rfl, by ring, hn, Nat.zero_le _, fun _ => hz⟩

lemma appendZeros_eq (e n : ℕ) (h : n * 10 ^ e < 2 ^ 64) : appendZeros e n = n * 10 ^ e := by
  induction e generalizing n with
  | zero => rw [appendZeros, pow_zero, Nat.mul_one]
  | succ e ih =>
    have hstep : n * 10 * 10 ^ e = n * 10 ^ (e + 1) := by ring
    have hone : 1 ≤ 10 ^ e := Nat.one_le_pow _ _ (by decide)
    have hlt : n * 10 < 2 ^ 64 := by
      have := Nat.le_mul_of_pos_right (n * 10) hone
      omega
    rw [appendZeros, Nat.mod_eq_of_lt hlt, ih (n * 10) (by omega), hstep]

/-- **Amounts** below the limit, with room for the digit that replaces the zeros. -/
theorem decompressAmount_compressAmount {n : ℕ} (h : n ≤ 10 ^ 18) :
    decompressAmount (compressAmount n) = n ∧ compressAmount n < 2 ^ 64 := by
  rcases Nat.eq_zero_or_pos n with rfl | hn
  · exact ⟨rfl, by decide⟩
  obtain ⟨m, e, hrun, hval, hpos, hle, hlast⟩ := stripZeros_spec 9 n 0 hn
  have hm : m ≤ n := by
    rw [← hval]
    exact Nat.le_mul_of_pos_right m (Nat.pow_pos (by decide))
  unfold compressAmount
  rw [if_neg hn.ne', hrun, Nat.zero_add]
  dsimp only
  split_ifs with he
  · have hd := hlast he
    have hlt : 1 + (m / 10 * 9 + m % 10 - 1) * 10 + e < 2 ^ 64 := by omega
    rw [Nat.mod_eq_of_lt hlt]
    refine ⟨?_, hlt⟩
    have hx : 1 + (m / 10 * 9 + m % 10 - 1) * 10 + e - 1 = (m / 10 * 9 + m % 10 - 1) * 10 + e := by
      omega
    have hdig : ((m / 10 * 9 + m % 10 - 1) * 10 + e) % 10 = e := by omega
    have hrest : ((m / 10 * 9 + m % 10 - 1) * 10 + e) / 10 = m / 10 * 9 + (m % 10 - 1) := by omega
    have hquot : (m / 10 * 9 + (m % 10 - 1)) / 9 = m / 10 := by omega
    have hrem : (m / 10 * 9 + (m % 10 - 1)) % 9 = m % 10 - 1 := by omega
    have hback : m / 10 * 10 + (m % 10 - 1 + 1) = m := by omega
    unfold decompressAmount
    rw [if_neg (by omega)]
    dsimp only
    rw [hx, hdig, hrest, if_pos he, hquot, hrem, hback, Nat.mod_eq_of_lt (by omega),
      appendZeros_eq e m (by omega), hval]
  · have he9 : e = 9 := by omega
    subst he9
    have hlt : 1 + (m - 1) * 10 + 9 < 2 ^ 64 := by omega
    rw [Nat.mod_eq_of_lt hlt]
    refine ⟨?_, hlt⟩
    have hdig : (1 + (m - 1) * 10 + 9 - 1) % 10 = 9 := by omega
    have hrest : (1 + (m - 1) * 10 + 9 - 1) / 10 + 1 = m := by omega
    unfold decompressAmount
    rw [if_neg (by omega)]
    dsimp only
    rw [hdig, if_neg (by decide), hrest, Nat.mod_eq_of_lt (by omega),
      appendZeros_eq 9 m (by omega), hval]

end CTxOutCompressor

/-! ### Scripts are read back -/

/-- Decompressing a key inverts compressing it: the parity of the last coordinate and the first
coordinate determine a fully valid key. -/
def KeyCodec.Inverts (codec : KeyCodec) : Prop :=
  ∀ key : List UInt8, key.length = 65 → key[0]? = some 0x04 → codec.isFullyValid key = true →
    codec.decompress ((0x02 ||| (key.getD 64 0 &&& 0x01)) :: (key.drop 1).take 32) = some key

namespace CScriptCompressor

variable {codec : KeyCodec} {script : CScript}

lemma eq_append_take {α : Type*} {l : List α} (pre : List α) (m : ℕ) (post : List α)
    (hlen : l.length = pre.length + m + post.length)
    (hpre : ∀ i, i < pre.length → l[i]? = pre[i]?)
    (hpost : ∀ i, i < post.length → l[pre.length + m + i]? = post[i]?) :
    l = pre ++ (l.drop pre.length).take m ++ post := by
  have hmid : ((l.drop pre.length).take m).length = m := by
    rw [List.length_take, List.length_drop]
    omega
  refine List.ext_getElem? fun i => ?_
  rcases lt_or_ge i pre.length with h1 | h1
  · rw [List.append_assoc, List.getElem?_append_left h1, hpre i h1]
  · rcases lt_or_ge i (pre.length + m) with h2 | h2
    · rw [List.append_assoc, List.getElem?_append_right h1,
        List.getElem?_append_left (by omega), List.getElem?_take_of_lt (by omega),
        List.getElem?_drop, Nat.add_sub_cancel' h1]
    · rw [List.getElem?_append_right (by rw [List.length_append]; omega), List.length_append, hmid]
      rcases lt_or_ge (i - (pre.length + m)) post.length with h3 | h3
      · rw [← hpost _ h3, Nat.add_sub_cancel' h2]
      · rw [List.getElem?_eq_none h3, List.getElem?_eq_none (by omega)]

lemma readsBack_special (nSize : ℕ) {bytes : List UInt8} (hkind : nSize < nSpecialScripts)
    (hlen : bytes.length = getSpecialSize nSize)
    (hdec : decompress codec nSize bytes = some script) :
    ReadsBack (unserialize codec) (UInt8.ofNat nSize :: bytes) script := by
  have hsmall : nSize ≤ 0x7f := by
    unfold nSpecialScripts at hkind
    omega
  have hkindByte : ReadsBack (readVarInt 32) [UInt8.ofNat nSize] nSize := by
    rw [← writeVarInt_of_le (show 0 < 32 by decide) hsmall]
    exact readsBack_varInt (by decide) (by omega)
  refine hkindByte.bind ?_
  rw [if_pos hkind, ← hlen]
  have hread := (readsBack_bytes bytes).map fun vch => (decompress codec nSize vch).getD []
  rwa [hdec, Option.getD_some] at hread

lemma readsBack_keyID {keyID : List UInt8} (h : isToKeyID script = some keyID) :
    ReadsBack (unserialize codec) (0x00 :: keyID) script := by
  unfold isToKeyID at h
  split_ifs at h with hc
  obtain ⟨hlen, h0, h1, h2, h23, h24⟩ := hc
  injection h with h
  subst h
  have hscript := eq_append_take [OP_DUP, OP_HASH160, 20] 20 [OP_EQUALVERIFY, OP_CHECKSIG] hlen
    (fun i hi => by
      rcases i with _ | _ | _ | i
      · exact h0
      · exact h1
      · exact h2
      · exact absurd hi (not_lt.mpr (Nat.le_add_left 3 i)))
    (fun i hi => by
      rcases i with _ | _ | i
      · exact h23
      · exact h24
      · exact absurd hi (not_lt.mpr (Nat.le_add_left 2 i)))
  have hbytes : ((script.drop 3).take 20).length = getSpecialSize 0 := by
    rw [List.length_take, List.length_drop, hlen]
    rfl
  exact readsBack_special 0 (by decide) hbytes (congrArg some hscript.symm)

lemma readsBack_scriptID {scriptID : List UInt8} (h : isToScriptID script = some scriptID) :
    ReadsBack (unserialize codec) (0x01 :: scriptID) script := by
  unfold isToScriptID at h
  split_ifs at h with hc
  obtain ⟨hlen, h0, h1, h22⟩ := hc
  injection h with h
  subst h
  have hscript := eq_append_take [OP_HASH160, 20] 20 [OP_EQUAL] hlen
    (fun i hi => by
      rcases i with _ | _ | i
      · exact h0
      · exact h1
      · exact absurd hi (not_lt.mpr (Nat.le_add_left 2 i)))
    (fun i hi => by
      rcases i with _ | i
      · exact h22
      · exact absurd hi (not_lt.mpr (Nat.le_add_left 1 i)))
  have hbytes : ((script.drop 2).take 20).length = getSpecialSize 1 := by
    rw [List.length_take, List.length_drop, hlen]
    rfl
  exact readsBack_special 1 (by decide) hbytes (congrArg some hscript.symm)

lemma eq_push_key (size : UInt8) (hlen : script.length = size.toNat + 2)
    (h0 : script[0]? = some size) (hlast : script[size.toNat + 1]? = some OP_CHECKSIG) :
    script = [size] ++ (script.drop 1).take size.toNat ++ [OP_CHECKSIG] := by
  refine eq_append_take [size] size.toNat [OP_CHECKSIG] ?_ (fun i hi => ?_) (fun i hi => ?_)
  · rw [hlen, List.length_singleton, List.length_singleton]
    omega
  · rcases i with _ | i
    · exact h0
    · exact absurd hi (not_lt.mpr (Nat.le_add_left 1 i))
  · rcases i with _ | i
    · rw [List.length_singleton, Nat.add_zero, Nat.add_comm]
      exact hlast
    · exact absurd hi (not_lt.mpr (Nat.le_add_left 1 i))

lemma isToPubKey_cases {pubkey : List UInt8} (h : isToPubKey codec script = some pubkey) :
    (script = [33] ++ pubkey ++ [OP_CHECKSIG] ∧ pubkey.length = 33 ∧
      (pubkey[0]? = some 0x02 ∨ pubkey[0]? = some 0x03)) ∨
    (script = [65] ++ pubkey ++ [OP_CHECKSIG] ∧ pubkey.length = 65 ∧ pubkey[0]? = some 0x04 ∧
      codec.isFullyValid pubkey = true) := by
  have hhead : ∀ m, 0 < m → ((script.drop 1).take m)[0]? = script[1]? := by
    intro m hm
    rw [List.getElem?_take_of_lt hm, List.getElem?_drop]
  unfold isToPubKey at h
  dsimp only at h
  split_ifs at h with hc hc' hvalid
  · obtain ⟨hlen, h0, hlast, hhd⟩ := hc
    injection h with h
    subst h
    refine Or.inl ⟨eq_push_key 33 hlen h0 hlast, ?_, ?_⟩
    · rw [List.length_take, List.length_drop, hlen]
      rfl
    · rwa [hhead 33 (by decide)]
  · obtain ⟨hlen, h0, hlast, hhd⟩ := hc'
    injection h with h
    subst h
    refine Or.inr ⟨eq_push_key 65 hlen h0 hlast, ?_, ?_, hvalid⟩
    · rw [List.length_take, List.length_drop, hlen]
      rfl
    · rwa [hhead 65 (by decide)]

lemma eq_cons_of_head {pubkey : List UInt8} {b : UInt8} {m : ℕ} (hlen : pubkey.length = m + 1)
    (h : pubkey[0]? = some b) : pubkey = b :: (pubkey.drop 1).take m ∧ pubkey.getD 0 0 = b := by
  cases pubkey with
  | nil => cases h
  | cons x xs =>
    injection h with h
    subst h
    rw [List.length_cons, Nat.add_right_cancel_iff] at hlen
    refine ⟨?_, rfl⟩
    rw [List.drop_one, List.tail_cons, List.take_of_length_le hlen.le]

lemma and_one (b : UInt8) : b &&& 0x01 = 0 ∨ b &&& 0x01 = 1 := by
  have hmod : (b &&& 0x01).toNat = b.toNat % 2 := by
    rw [UInt8.toNat_and]
    exact Nat.and_one_is_mod b.toNat
  rcases Nat.mod_two_eq_zero_or_one b.toNat with h | h
  · exact Or.inl (UInt8.toNat_inj.mp (hmod.trans h))
  · exact Or.inr (UInt8.toNat_inj.mp (hmod.trans h))

lemma readsBack_compress (hcodec : codec.Inverts) {compr : List UInt8}
    (h : compress codec script = some compr) : ReadsBack (unserialize codec) compr script := by
  unfold compress at h
  cases hkey : isToKeyID script with
  | some keyID =>
    rw [hkey] at h
    injection h with h
    exact h ▸ readsBack_keyID hkey
  | none =>
    cases hscr : isToScriptID script with
    | some scriptID =>
      rw [hkey, hscr] at h
      injection h with h
      exact h ▸ readsBack_scriptID hscr
    | none =>
      cases hpub : isToPubKey codec script with
      | none =>
        rw [hkey, hscr, hpub] at h
        cases h
      | some pubkey =>
        rw [hkey, hscr, hpub] at h
        dsimp only at h
        have hx : 33 ≤ pubkey.length → ((pubkey.drop 1).take 32).length = 32 := by
          intro hle
          rw [List.length_take, List.length_drop]
          omega
        rcases isToPubKey_cases hpub with ⟨hscript, hlen, hhd⟩ | ⟨hscript, hlen, hhd, hvalid⟩
        · rw [if_pos hhd] at h
          injection h with h
          subst h
          rcases hhd with hhd | hhd
          · obtain ⟨heq, hfirst⟩ := eq_cons_of_head hlen hhd
            rw [hfirst]
            refine readsBack_special 2 (by decide) (hx hlen.ge) ?_
            rw [hscript]
            nth_rewrite 2 [heq]
            rfl
          · obtain ⟨heq, hfirst⟩ := eq_cons_of_head hlen hhd
            rw [hfirst]
            refine readsBack_special 3 (by decide) (hx hlen.ge) ?_
            rw [hscript]
            nth_rewrite 2 [heq]
            rfl
        · rw [if_neg (by rw [hhd]; decide), if_pos hhd] at h
          injection h with h
          subst h
          have hinv := hcodec pubkey hlen hhd hvalid
          rcases and_one (pubkey.getD 64 0) with hbit | hbit
          · rw [hbit] at hinv ⊢
            refine readsBack_special 4 (by decide) (hx (by omega)) ?_
            rw [hscript]
            exact congrArg (Option.map fun key => [65] ++ key ++ [OP_CHECKSIG]) hinv
          · rw [hbit] at hinv ⊢
            refine readsBack_special 5 (by decide) (hx (by omega)) ?_
            rw [hscript]
            exact congrArg (Option.map fun key => [65] ++ key ++ [OP_CHECKSIG]) hinv

/-- **Scripts** up to the size that is not cut off are read back. -/
theorem readsBack_script (hcodec : codec.Inverts) (hlen : script.length ≤ MAX_SCRIPT_SIZE) :
    ReadsBack (unserialize codec) (serialize codec script) script := by
  unfold serialize
  cases hcompr : compress codec script with
  | some compr => exact readsBack_compress hcodec hcompr
  | none =>
    have hsize : uint32 (script.length + nSpecialScripts) = script.length + nSpecialScripts := by
      unfold uint32 MAX_SCRIPT_SIZE nSpecialScripts at *
      omega
    have hfits : script.length + nSpecialScripts < 2 ^ 32 := by
      unfold MAX_SCRIPT_SIZE nSpecialScripts at *
      omega
    dsimp only
    rw [hsize]
    refine (readsBack_varInt (by decide) hfits).bind ?_
    rw [if_neg (by omega), if_neg (by rw [Nat.add_sub_cancel]; omega), Nat.add_sub_cancel]
    exact readsBack_bytes script

end CScriptCompressor

/-! ### Coins and undo records are read back -/

/-- The coins that are stored: unspent, with a height that leaves room for the flags, an amount in
the money range and a script that is not too long. -/
structure Coin.Storable (consensus : ChainParams) (coin : Coin) : Prop where
  nHeight_nonneg : 0 ≤ coin.nHeight
  nHeight_lt : coin.nHeight < 2 ^ 30
  moneyRange : consensus.moneyRange coin.out.nValue = true
  script_le : coin.out.scriptPubKey.length ≤ MAX_SCRIPT_SIZE

variable {codec : KeyCodec} {consensus : ChainParams} {coin : Coin}

lemma Coin.Storable.value (hm : consensus.MoneyOk) (h : coin.Storable consensus) :
    0 ≤ coin.out.nValue ∧ coin.out.nValue ≤ 10 ^ 16 := by
  have hrange := h.moneyRange
  have hmax := hm.le
  rw [ChainParams.moneyRange, decide_eq_true_iff] at hrange
  omega

lemma Coin.Storable.not_isSpent (hm : consensus.MoneyOk) (h : coin.Storable consensus) :
    coin.isSpent = false := by
  have := (h.value hm).1
  simp only [Coin.isSpent, CTxOut.isNull, beq_eq_false_iff_ne]
  omega

lemma readsBack_txOut (hcodec : codec.Inverts) (hm : consensus.MoneyOk)
    (h : coin.Storable consensus) :
    ReadsBack (CTxOutCompressor.unserialize codec) (CTxOutCompressor.serialize codec coin.out)
      coin.out := by
  obtain ⟨hnonneg, hle⟩ := h.value hm
  have hvalue : (uint64 coin.out.nValue : ℤ) = coin.out.nValue := by
    unfold uint64
    omega
  obtain ⟨hback, hfits⟩ := CTxOutCompressor.decompressAmount_compressAmount
    (show uint64 coin.out.nValue ≤ 10 ^ 18 by omega)
  have hout : (⟨int64 (CTxOutCompressor.decompressAmount
      (CTxOutCompressor.compressAmount (uint64 coin.out.nValue))), coin.out.scriptPubKey⟩ : CTxOut)
      = coin.out := by
    rw [hback, hvalue, show int64 coin.out.nValue = coin.out.nValue from
      wrap_of_fits (by omega) (by omega)]
  refine (readsBack_varInt (by decide) hfits).bind ?_
  have hread := (CScriptCompressor.readsBack_script hcodec h.script_le).map fun script =>
    (⟨int64 (CTxOutCompressor.decompressAmount
      (CTxOutCompressor.compressAmount (uint64 coin.out.nValue))), script⟩ : CTxOut)
  rw [hout] at hread
  exact hread

lemma Coin.Storable.ofCode_code (h : coin.Storable consensus) :
    Coin.ofCode coin.code coin.out = coin ∧ coin.code < 2 ^ 32 ∧
      (coin.code / 4 : ℕ) = coin.nHeight := by
  obtain ⟨hnonneg, hlt, -, -⟩ := h
  obtain ⟨out, nHeight, fCoinBase, fCoinStake⟩ := coin
  obtain ⟨n, rfl⟩ := Int.eq_ofNat_of_zero_le hnonneg
  have hn : (n : ℤ) < 2 ^ 30 := hlt
  cases fCoinBase <;> cases fCoinStake <;>
    simp [Coin.ofCode, Coin.code, uint32] <;> omega

lemma readsBack_coin (hcodec : codec.Inverts) (hm : consensus.MoneyOk)
    (h : coin.Storable consensus) :
    ReadsBack (Coin.unserialize codec)
      (writeVarInt 32 coin.code ++ CTxOutCompressor.serialize codec coin.out) coin := by
  obtain ⟨hcoin, hfits, -⟩ := h.ofCode_code
  refine (readsBack_varInt (by decide) hfits).bind ?_
  have hread := (readsBack_txOut hcodec hm h).map (Coin.ofCode coin.code)
  rw [hcoin] at hread
  exact hread

lemma readsBack_txInUndo (hcodec : codec.Inverts) (hm : consensus.MoneyOk)
    (h : coin.Storable consensus) :
    ReadsBack (unserializeTxInUndo codec) (serializeTxInUndo codec coin) coin := by
  obtain ⟨hcoin, hfits, hheight⟩ := h.ofCode_code
  have hdummy : ReadsBack (readVersionDummy (coin.code / 4))
      (if 0 < coin.nHeight then [0] else []) 0 := by
    unfold readVersionDummy
    by_cases hpos : 0 < coin.nHeight
    · rw [if_pos hpos, if_pos (by omega)]
      exact readsBack_varInt (show 0 < 32 by decide) (show 0 < 2 ^ 32 by decide)
    · rw [if_neg hpos, if_neg (by omega)]
      exact ReadsBack.pure 0
  refine (readsBack_varInt (by decide) hfits).bind (hdummy.bind ?_)
  have hread := (readsBack_txOut hcodec hm h).map (Coin.ofCode coin.code)
  rw [hcoin] at hread
  exact hread

lemma readsBack_txUndo (hcodec : codec.Inverts) (hm : consensus.MoneyOk) {vprevout : List Coin}
    (h : ∀ coin ∈ vprevout, coin.Storable consensus)
    (hlen : vprevout.length ≤ MAX_INPUTS_PER_BLOCK) :
    ReadsBack (unserializeTxUndo codec) (serializeTxUndo codec vprevout) vprevout := by
  have hsize : vprevout.length ≤ Reader.MAX_SIZE := hlen.trans (by decide)
  refine (readsBack_compactSize hsize).bind ?_
  rw [if_neg (not_lt.mpr hlen)]
  exact readsBack_many fun coin hc => readsBack_txInUndo hcodec hm (h coin hc)

lemma unserializeTxUndo_eq_none {vprevout : List Coin}
    (hlen : MAX_INPUTS_PER_BLOCK < vprevout.length) (hsize : vprevout.length ≤ Reader.MAX_SIZE)
    (rest : List UInt8) :
    unserializeTxUndo codec (serializeTxUndo codec vprevout ++ rest) = none := by
  unfold serializeTxUndo
  rw [List.append_assoc]
  exact (readsBack_compactSize hsize).bind_failure (if_pos hlen) _

/-- **Stored records** are read back and exactly their bytes are taken from the stream: amounts,
scripts, coins, and the undo record of a transaction with as many inputs as a block has room for. -/
theorem records_read_back (net : Network) {codec : KeyCodec} (hcodec : codec.Inverts) :
    (∀ v : ℤ, (paramsOf net).moneyRange v = true →
      (CTxOutCompressor.decompressAmount (CTxOutCompressor.compressAmount (uint64 v)) : ℤ) = v) ∧
    (∀ script : CScript, script.length ≤ MAX_SCRIPT_SIZE →
      ReadsBack (CScriptCompressor.unserialize codec)
        (CScriptCompressor.serialize codec script) script) ∧
    (∀ coin : Coin, coin.Storable (paramsOf net) → ∃ bytes, coin.serialize codec = some bytes ∧
      ReadsBack (Coin.unserialize codec) bytes coin) ∧
    (∀ vprevout : List Coin, (∀ coin ∈ vprevout, coin.Storable (paramsOf net) ∧ 1 ≤ coin.nHeight) →
      vprevout.length ≤ MAX_INPUTS_PER_BLOCK →
      ReadsBack (unserializeTxUndo codec) (serializeTxUndo codec vprevout) vprevout) := by
  have hm := paramsOf_moneyOk net
  refine ⟨fun v hv => ?_, fun script hlen => CScriptCompressor.readsBack_script hcodec hlen,
    fun coin h => ⟨_, ?_, readsBack_coin hcodec hm h⟩,
    fun vprevout h hlen => readsBack_txUndo hcodec hm (fun coin hc => (h coin hc).1) hlen⟩
  · have hmax := hm.le
    rw [ChainParams.moneyRange, decide_eq_true_iff] at hv
    have hvalue : (uint64 v : ℤ) = v := by
      unfold uint64
      omega
    rw [(CTxOutCompressor.decompressAmount_compressAmount (by omega)).1, hvalue]
  · rw [Coin.serialize, h.not_isSpent hm, if_neg Bool.false_ne_true]

namespace Concrete

/-- The generator of the group, as an uncompressed key. -/
def generatorKey : List UInt8 :=
  [0x04,
    0x79, 0xbe, 0x66, 0x7e, 0xf9, 0xdc, 0xbb, 0xac, 0x55, 0xa0, 0x62, 0x95, 0xce, 0x87, 0x0b, 0x07,
    0x02, 0x9b, 0xfc, 0xdb, 0x2d, 0xce, 0x28, 0xd9, 0x59, 0xf2, 0x81, 0x5b, 0x16, 0xf8, 0x17, 0x98,
    0x48, 0x3a, 0xda, 0x77, 0x26, 0xa3, 0xc4, 0x65, 0x5d, 0xa4, 0xfb, 0xfc, 0x0e, 0x11, 0x08, 0xa8,
    0xfd, 0x17, 0xb4, 0x48, 0xa6, 0x85, 0x54, 0x19, 0x9c, 0x47, 0xd0, 0x8f, 0xfb, 0x10, 0xd4, 0xb8]

/-- The library on this key. -/
def generatorCodec : KeyCodec where
  isFullyValid key := key == generatorKey
  decompress bytes :=
    if bytes = 0x02 :: (generatorKey.drop 1).take 32 then some generatorKey else none

lemma generatorCodec_inverts : generatorCodec.Inverts := by
  intro key _ _ hvalid
  have hkey : key = generatorKey := by simpa [generatorCodec] using hvalid
  subst hkey
  rfl

def keyCoin : Coin where
  out := ⟨50 * COIN, [65] ++ generatorKey ++ [OP_CHECKSIG]⟩
  nHeight := 7
  fCoinBase := false
  fCoinStake := true

/-- A coin that pays to the key is stored in 35 bytes and read back. -/
theorem keyCoin_readsBack :
    keyCoin.serialize generatorCodec
      = some ([29, 50, 0x04] ++ (generatorKey.drop 1).take 32) ∧
    Coin.unserialize generatorCodec ([29, 50, 0x04] ++ (generatorKey.drop 1).take 32)
      = some (keyCoin, []) := by
  have hstored : keyCoin.Storable (paramsOf .MAIN) := ⟨by decide, by decide, by decide, by decide⟩
  obtain ⟨bytes, hbytes, hread⟩ :=
    (records_read_back .MAIN generatorCodec_inverts).2.2.1 keyCoin hstored
  have hexact : keyCoin.serialize generatorCodec
      = some ([29, 50, 0x04] ++ (generatorKey.drop 1).take 32) := by decide +kernel
  rw [hexact] at hbytes
  injection hbytes with hbytes
  refine ⟨hexact, ?_⟩
  have hback := hread []
  rwa [List.append_nil, ← hbytes] at hback

/-- One record more than a block has room for. -/
theorem undo_tooMany :
    ¬ ∀ (codec : KeyCodec) (vprevout : List Coin), codec.Inverts →
      (∀ coin ∈ vprevout, coin.Storable (paramsOf .MAIN) ∧ 1 ≤ coin.nHeight) →
      ReadsBack (unserializeTxUndo codec) (serializeTxUndo codec vprevout) vprevout := by
  intro hall
  have hstored : keyCoin.Storable (paramsOf .MAIN) := ⟨by decide, by decide, by decide, by decide⟩
  have hread := hall generatorCodec (List.replicate (MAX_INPUTS_PER_BLOCK + 1) keyCoin)
    generatorCodec_inverts (fun coin hc => by
      rw [List.eq_of_mem_replicate hc]
      exact ⟨hstored, by decide⟩) []
  rw [unserializeTxUndo_eq_none (by rw [List.length_replicate]; exact Nat.lt_succ_self _)
    (by rw [List.length_replicate]; decide)] at hread
  cases hread

end Concrete

end Agenor
