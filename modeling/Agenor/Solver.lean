import Agenor.Interpreter

/-!
The templates of scripts (`script/standard.cpp`) and the walk of `IsNormalPaymentScript`
(`script/script.cpp`).

`Solver` compares bytes. The walk reads operations and looks at the first, second, fourth and fifth
of them; what is pushed, and how, it does not see.
-/

namespace Agenor

namespace Script

/-! ### Public keys -/

def getLen (chHeader : UInt8) : ℕ :=
  if chHeader = 2 ∨ chHeader = 3 then 33
  else if chHeader = 4 ∨ chHeader = 6 ∨ chHeader = 7 then 65
  else 0

def validSize (vch : Valtype) : Bool :=
  match vch with
  | [] => false
  | b :: _ => getLen b == vch.length

/-! ### `Solver` -/

inductive TxnOutType
  | TX_NONSTANDARD | TX_PUBKEY | TX_PUBKEYHASH | TX_SCRIPTHASH | TX_MULTISIG | TX_NULL_DATA
  | TX_ZEROCOINMINT | TX_COLDSTAKE
  deriving DecidableEq, Repr

def matchPayToPubkey (script : CScript) : Option Valtype :=
  if script.length = 67 ∧ script[0]? = some 65 ∧ script.getLast? = some OP_CHECKSIG then
    let pubkey := (script.drop 1).take 65
    if validSize pubkey then some pubkey else none
  else if script.length = 35 ∧ script[0]? = some 33 ∧ script.getLast? = some OP_CHECKSIG then
    let pubkey := (script.drop 1).take 33
    if validSize pubkey then some pubkey else none
  else none

def matchPayToPubkeyHash (script : CScript) : Option Valtype :=
  if script.length = 25 ∧ script[0]? = some OP_DUP ∧ script[1]? = some OP_HASH160 ∧
      script[2]? = some 20 ∧ script[23]? = some OP_EQUALVERIFY ∧ script[24]? = some OP_CHECKSIG then
    some ((script.drop 3).take 20)
  else none

/-- The hashes of the staker's and of the owner's key. -/
def matchPayToColdStaking (script : CScript) : Option (Valtype × Valtype) :=
  if isPayToColdStaking script then some ((script.drop 6).take 20, (script.drop 28).take 20)
  else none

def isSmallInteger (opcode : UInt8) : Bool := decide (OP_1 ≤ opcode) && decide (opcode ≤ OP_16)

/-- The loop of `MatchMultisig`: the keys, the operation after them and what follows it. Every pass
reads at least one byte. -/
def multisigKeys : ℕ → CScript → Option (List Valtype × UInt8 × CScript)
  | 0, _ => none
  | fuel + 1, it =>
    match getOp it with
    | none => none
    | some (opcode, data, it') =>
      if validSize data then
        (multisigKeys fuel it').map fun r => (data :: r.1, r.2)
      else some ([], opcode, it')

/-- `MatchMultisig`: how many signatures are required, and the keys. -/
def matchMultisig (script : CScript) : Option (ℕ × List Valtype) :=
  if script.getLast? ≠ some OP_CHECKMULTISIG then none
  else match getOp script with
    | none => none
    | some (opcode, _, it) =>
      if !isSmallInteger opcode then none
      else
        let required := decodeOpN opcode
        match multisigKeys (it.length + 1) it with
        | none => none
        | some (pubkeys, opcode, it) =>
          if !isSmallInteger opcode then none
          else
            let keys := decodeOpN opcode
            if pubkeys.length ≠ keys ∨ keys < required then none
            else if it.length = 1 then some (required, pubkeys) else none

/-- What `Solver` returns, and what it leaves in its arguments. -/
structure SolverResult where
  ret : Bool
  typeRet : TxnOutType
  vSolutionsRet : List Valtype
  deriving DecidableEq, Repr

/-- `Solver`; `none` where it copies from past the end, which it does for a zerocoin mint of one
byte. -/
def solver (scriptPubKey : CScript) : Option SolverResult :=
  if isPayToScriptHash scriptPubKey then
    some ⟨true, .TX_SCRIPTHASH, [(scriptPubKey.drop 2).take 20]⟩
  else if isZerocoinMint scriptPubKey then
    if 150 < scriptPubKey.length then some ⟨false, .TX_ZEROCOINMINT, []⟩
    else if scriptPubKey.length < 2 then none
    else some ⟨true, .TX_ZEROCOINMINT, [scriptPubKey.drop 2]⟩
  else if scriptPubKey[0]? = some OP_RETURN ∧ isPushOnly (scriptPubKey.drop 1) = true then
    some ⟨true, .TX_NULL_DATA, []⟩
  else match matchPayToPubkey scriptPubKey with
  | some data => some ⟨true, .TX_PUBKEY, [data]⟩
  | none =>
    match matchPayToPubkeyHash scriptPubKey with
    | some data => some ⟨true, .TX_PUBKEYHASH, [data]⟩
    | none =>
      match matchPayToColdStaking scriptPubKey with
      | some (data, data1) => some ⟨true, .TX_COLDSTAKE, [data, data1]⟩
      | none =>
        match matchMultisig scriptPubKey with
        | some (required, keys) =>
          some ⟨true, .TX_MULTISIG, [UInt8.ofNat required] :: keys ++ [[UInt8.ofNat keys.length]]⟩
        | none => some ⟨false, .TX_NONSTANDARD, []⟩

/-! ### The walk -/

/-- The operand of a push: whether it is there, and where the iterator is left. -/
def skipPush (k : ℕ) (rest : CScript) : Bool × CScript :=
  if rest.length < k then (false, rest)
  else
    let nSize := readLE (rest.take k)
    let body := rest.drop k
    if body.length < nSize then (false, body) else (true, body.drop nSize)

/-- `GetOp2` without the data: whether it succeeds, the opcode it sets and where it leaves the
iterator, which it moves also when it fails. -/
def getOp2 : CScript → Bool × UInt8 × CScript
  | [] => (false, OP_INVALIDOPCODE, [])
  | opcode :: rest =>
    if opcode ≤ OP_PUSHDATA4 then
      let r :=
        if opcode < OP_PUSHDATA1 then
          if rest.length < opcode.toNat then (false, rest) else (true, rest.drop opcode.toNat)
        else if opcode = OP_PUSHDATA1 then skipPush 1 rest
        else if opcode = OP_PUSHDATA2 then skipPush 2 rest
        else skipPush 4 rest
      (r.1, if r.1 then opcode else OP_INVALIDOPCODE, r.2)
    else (true, opcode, rest)

/-- The loop of `IsNormalPaymentScript`, `i` operations into the script. Whether the operation could
be read is not looked at; every pass moves the iterator. -/
def normalPaymentLoop : ℕ → ℕ → CScript → Bool
  | 0, _, _ => true
  | fuel + 1, i, pc =>
    if pc.isEmpty then true
    else
      let opcode := (getOp2 pc).2.1
      if i = 0 ∧ opcode ≠ OP_DUP then false
      else if i = 1 ∧ opcode ≠ OP_HASH160 then false
      else if i = 3 ∧ opcode ≠ OP_EQUALVERIFY then false
      else if i = 4 ∧ opcode ≠ OP_CHECKSIG then false
      else if i = 5 then false
      else normalPaymentLoop fuel (i + 1) (getOp2 pc).2.2

/-- `IsNormalPaymentScript`. -/
def walksNormalPayment (s : CScript) : Bool := s.length == 25 && normalPaymentLoop s.length 0 s

variable {s pc pc' rest data hdr tail : CScript} {opcode : UInt8} {k fuel : ℕ}

/-! ### Reading pushes -/

lemma readPush_eq_some_iff : readPush k rest = some (data, pc') ↔
    ∃ hdr, hdr.length = k ∧ data.length = readLE hdr ∧ rest = hdr ++ (data ++ pc') := by
  unfold readPush
  dsimp only
  constructor
  · intro h
    split_ifs at h with hk hsize
    obtain ⟨rfl, rfl⟩ := Prod.mk.inj (Option.some.inj h)
    refine ⟨rest.take k, ?_, ?_, ?_⟩
    · rw [List.length_take]
      omega
    · rw [List.length_take]
      omega
    · rw [List.take_append_drop, List.take_append_drop]
  · rintro ⟨hdr, rfl, hlen, rfl⟩
    have htake : (hdr ++ (data ++ pc')).take hdr.length = hdr := List.take_left
    have hdrop : (hdr ++ (data ++ pc')).drop hdr.length = data ++ pc' := List.drop_left
    have hk : ¬ (hdr ++ (data ++ pc')).length < hdr.length := by
      rw [List.length_append]
      omega
    have hsize : ¬ (data ++ pc').length < data.length := by
      rw [List.length_append]
      omega
    rw [if_neg hk, htake, hdrop, ← hlen, if_neg hsize, List.take_left, List.drop_left]

lemma skipPush_of_some (h : readPush k rest = some (data, pc')) :
    skipPush k rest = (true, pc') := by
  unfold readPush at h
  unfold skipPush
  dsimp only at h ⊢
  split_ifs at h ⊢
  rw [(Prod.mk.inj (Option.some.inj h)).2]

lemma skipPush_of_none (h : readPush k rest = none) :
    ∃ pc', skipPush k rest = (false, pc') ∧ rest.length ≤ pc'.length + k := by
  unfold readPush at h
  unfold skipPush
  dsimp only at h ⊢
  split_ifs at h ⊢
  · exact ⟨rest, rfl, by omega⟩
  · refine ⟨rest.drop k, rfl, ?_⟩
    rw [List.length_drop]
    omega

lemma getOp2_of_some (h : getOp pc = some (opcode, data, pc')) :
    getOp2 pc = (true, opcode, pc') := by
  have hpush : ∀ {k : ℕ} {rest : CScript} {b : UInt8},
      (readPush k rest).map (b, ·) = some (opcode, data, pc') →
        b = opcode ∧ skipPush k rest = (true, pc') := by
    intro k rest b hb
    obtain ⟨r, hr, heq⟩ := Option.map_eq_some_iff.mp hb
    obtain ⟨rfl, rfl⟩ := Prod.mk.inj heq
    exact ⟨rfl, skipPush_of_some hr⟩
  cases pc with
  | nil => cases h
  | cons b rest =>
    unfold getOp at h
    unfold getOp2
    dsimp only at h ⊢
    split_ifs at h with hle hlt hlen h1 h2
    · obtain ⟨rfl, heq⟩ := Prod.mk.inj (Option.some.inj h)
      obtain ⟨-, rfl⟩ := Prod.mk.inj heq
      rw [if_pos hle, if_pos hlt, if_neg hlen, if_pos rfl]
    · obtain ⟨rfl, hskip⟩ := hpush h
      rw [if_pos hle, if_neg hlt, if_pos h1, hskip, if_pos rfl]
    · obtain ⟨rfl, hskip⟩ := hpush h
      rw [if_pos hle, if_neg hlt, if_neg h1, if_pos h2, hskip, if_pos rfl]
    · obtain ⟨rfl, hskip⟩ := hpush h
      rw [if_pos hle, if_neg hlt, if_neg h1, if_neg h2, hskip, if_pos rfl]
    · obtain ⟨rfl, heq⟩ := Prod.mk.inj (Option.some.inj h)
      obtain ⟨-, rfl⟩ := Prod.mk.inj heq
      rw [if_neg hle]

lemma getOp2_of_none (h : getOp pc = none) :
    ∃ pc', getOp2 pc = (false, OP_INVALIDOPCODE, pc') ∧ pc.length ≤ pc'.length + 5 := by
  have hpush : ∀ {k : ℕ} {rest : CScript} {b : UInt8}, (readPush k rest).map (b, ·) = none →
      ∃ pc', skipPush k rest = (false, pc') ∧ rest.length ≤ pc'.length + k :=
    fun hb => skipPush_of_none (Option.map_eq_none_iff.mp hb)
  cases pc with
  | nil => exact ⟨[], rfl, by simp⟩
  | cons b rest =>
    rw [List.length_cons]
    unfold getOp at h
    unfold getOp2
    dsimp only at h ⊢
    split_ifs at h with hle hlt hlen h1 h2
    · rw [if_pos hle, if_pos hlt, if_pos hlen]
      exact ⟨rest, rfl, by omega⟩
    · obtain ⟨pc', hskip, hlen⟩ := hpush h
      rw [if_pos hle, if_neg hlt, if_pos h1, hskip]
      exact ⟨pc', rfl, by omega⟩
    · obtain ⟨pc', hskip, hlen⟩ := hpush h
      rw [if_pos hle, if_neg hlt, if_neg h1, if_pos h2, hskip]
      exact ⟨pc', rfl, by omega⟩
    · obtain ⟨pc', hskip, hlen⟩ := hpush h
      rw [if_pos hle, if_neg hlt, if_neg h1, if_neg h2, hskip]
      exact ⟨pc', rfl, by omega⟩

/-! ### The forms of a push -/

/-- The opcodes whose operand starts with its size, and how many bytes the size takes. -/
def pushdataSizes : List (UInt8 × ℕ) := [(OP_PUSHDATA1, 1), (OP_PUSHDATA2, 2), (OP_PUSHDATA4, 4)]

/-- The bytes of an operation before the data, and how many bytes of data there are. -/
inductive Header : CScript → ℕ → Prop
  | immediate {opcode : UInt8} (h : opcode < OP_PUSHDATA1) : Header [opcode] opcode.toNat
  | pushdata {opcode : UInt8} {nSize : CScript} (h : (opcode, nSize.length) ∈ pushdataSizes) :
      Header (opcode :: nSize) (readLE nSize)
  | plain {opcode : UInt8} (h : OP_PUSHDATA4 < opcode) : Header [opcode] 0

lemma getOp_form (h : getOp pc = some (opcode, data, pc')) :
    ∃ hdr, Header hdr data.length ∧ pc = hdr ++ (data ++ pc') := by
  have hpush : ∀ {k : ℕ} {rest : CScript} {b : UInt8}, (b, k) ∈ pushdataSizes →
      (readPush k rest).map (b, ·) = some (opcode, data, pc') →
        ∃ hdr, Header hdr data.length ∧ b :: rest = hdr ++ (data ++ pc') := by
    intro k rest b hmem hb
    obtain ⟨r, hr, heq⟩ := Option.map_eq_some_iff.mp hb
    obtain ⟨-, rfl⟩ := Prod.mk.inj heq
    obtain ⟨nSize, rfl, hlen, rfl⟩ := readPush_eq_some_iff.mp hr
    exact ⟨b :: nSize, hlen ▸ .pushdata hmem, rfl⟩
  cases pc with
  | nil => cases h
  | cons b rest =>
    unfold getOp at h
    dsimp only at h
    split_ifs at h with hle hlt hlen h1 h2
    · obtain ⟨rfl, heq⟩ := Prod.mk.inj (Option.some.inj h)
      obtain ⟨rfl, rfl⟩ := Prod.mk.inj heq
      have htake : (rest.take b.toNat).length = b.toNat := by
        rw [List.length_take]
        omega
      refine ⟨[b], htake.symm ▸ .immediate hlt, ?_⟩
      rw [List.take_append_drop, List.singleton_append]
    · subst h1
      exact hpush (by simp [pushdataSizes]) h
    · subst h2
      exact hpush (by simp [pushdataSizes]) h
    · obtain rfl : b = OP_PUSHDATA4 := by
        have hge : OP_PUSHDATA1 ≤ b := UInt8.not_lt.mp hlt
        rw [UInt8.le_iff_toNat_le] at hle hge
        rw [← UInt8.toNat_inj] at h1 h2 ⊢
        have hvals : OP_PUSHDATA1.toNat = 76 ∧ OP_PUSHDATA2.toNat = 77 ∧ OP_PUSHDATA4.toNat = 78 :=
          ⟨rfl, rfl, rfl⟩
        omega
      exact hpush (by simp [pushdataSizes]) h
    · obtain ⟨rfl, heq⟩ := Prod.mk.inj (Option.some.inj h)
      obtain ⟨rfl, rfl⟩ := Prod.mk.inj heq
      exact ⟨[b], .plain (UInt8.not_le.mp hle), rfl⟩

lemma Header.getOp (h : Header hdr data.length) :
    ∃ opcode, Script.getOp (hdr ++ (data ++ pc')) = some (opcode, data, pc') := by
  generalize hn : data.length = n at h
  cases h with
  | @immediate opcode hlt =>
    refine ⟨opcode, ?_⟩
    have hle : opcode ≤ OP_PUSHDATA4 := by
      rw [UInt8.lt_iff_toNat_lt] at hlt
      rw [UInt8.le_iff_toNat_le]
      have hvals : OP_PUSHDATA1.toNat = 76 ∧ OP_PUSHDATA4.toNat = 78 := ⟨rfl, rfl⟩
      omega
    have hlen : ¬ (data ++ pc').length < opcode.toNat := by
      rw [List.length_append]
      omega
    rw [List.singleton_append]
    unfold Script.getOp
    dsimp only
    rw [if_pos hle, if_pos hlt, if_neg hlen, ← hn, List.take_left, List.drop_left]
  | @pushdata opcode nSize hmem =>
    refine ⟨opcode, ?_⟩
    have hread : readPush nSize.length (nSize ++ (data ++ pc')) = some (data, pc') :=
      readPush_eq_some_iff.mpr ⟨nSize, rfl, hn, rfl⟩
    rw [List.cons_append]
    unfold Script.getOp
    dsimp only
    simp only [pushdataSizes, List.mem_cons, Prod.mk.injEq, List.not_mem_nil, or_false] at hmem
    rcases hmem with ⟨rfl, hk⟩ | ⟨rfl, hk⟩ | ⟨rfl, hk⟩
    · rw [if_pos (by decide), if_neg (by decide), if_pos rfl, ← hk, hread]
      rfl
    · rw [if_pos (by decide), if_neg (by decide), if_neg (by decide), if_pos rfl, ← hk, hread]
      rfl
    · rw [if_pos (by decide), if_neg (by decide), if_neg (by decide), if_neg (by decide), ← hk,
        hread]
      rfl
  | @plain opcode hlt =>
    obtain rfl := List.length_eq_zero_iff.mp hn
    refine ⟨opcode, ?_⟩
    rw [List.nil_append, List.singleton_append]
    unfold Script.getOp
    dsimp only
    rw [if_neg (UInt8.not_le.mpr hlt)]

/-! ### What the walk accepts -/

variable {i : ℕ} {b : UInt8}

/-- The operations that are looked at, by their place. -/
def expectedOpcodes : List (ℕ × UInt8) :=
  [(0, OP_DUP), (1, OP_HASH160), (3, OP_EQUALVERIFY), (4, OP_CHECKSIG)]

lemma getOp2_plain (h : OP_PUSHDATA4 < b) : getOp2 (b :: rest) = (true, b, rest) :=
  if_neg (UInt8.not_le.mpr h)

lemma getOp2_opcode (h : OP_PUSHDATA4 < opcode) (hvalid : opcode ≠ OP_INVALIDOPCODE) :
    (getOp2 (b :: rest)).2.1 = opcode ↔ b = opcode := by
  by_cases hb : OP_PUSHDATA4 < b
  · rw [getOp2_plain hb]
  · have hne : b ≠ opcode := fun heq => hb (heq ▸ h)
    have hle : b ≤ OP_PUSHDATA4 := UInt8.not_lt.mp hb
    refine ⟨fun hread => ?_, fun heq => absurd heq hne⟩
    unfold getOp2 at hread
    dsimp only at hread
    rw [if_pos hle] at hread
    dsimp only at hread
    split_ifs at hread
    all_goals first | exact hread | exact absurd hread.symm hvalid

lemma normalPaymentLoop_expected (h : (i, opcode) ∈ expectedOpcodes) :
    normalPaymentLoop (fuel + 1) i (b :: rest) = true ↔
      b = opcode ∧ normalPaymentLoop fuel (i + 1) rest = true := by
  have hfacts : OP_PUSHDATA4 < opcode ∧ opcode ≠ OP_INVALIDOPCODE := by
    revert h
    simp only [expectedOpcodes, List.mem_cons, Prod.mk.injEq, List.not_mem_nil, or_false]
    rintro (⟨-, rfl⟩ | ⟨-, rfl⟩ | ⟨-, rfl⟩ | ⟨-, rfl⟩) <;> decide
  have hop : (getOp2 (b :: rest)).2.1 = opcode ↔ b = opcode := getOp2_opcode hfacts.1 hfacts.2
  have hstep : normalPaymentLoop (fuel + 1) i (b :: rest) =
      if (getOp2 (b :: rest)).2.1 = opcode then
        normalPaymentLoop fuel (i + 1) (getOp2 (b :: rest)).2.2
      else false := by
    simp only [expectedOpcodes, List.mem_cons, Prod.mk.injEq, List.not_mem_nil, or_false] at h
    rcases h with ⟨rfl, rfl⟩ | ⟨rfl, rfl⟩ | ⟨rfl, rfl⟩ | ⟨rfl, rfl⟩ <;>
      simp [normalPaymentLoop]
  rw [hstep]
  by_cases hb : b = opcode
  · subst hb
    rw [if_pos (hop.mpr rfl), getOp2_plain hfacts.1]
    simp
  · rw [if_neg (fun heq => hb (hop.mp heq))]
    simp [hb]

/-- What may stand behind the third operation. -/
def endings : List CScript := [[], [OP_EQUALVERIFY], [OP_EQUALVERIFY, OP_CHECKSIG]]

lemma normalPaymentLoop_tail :
    normalPaymentLoop (fuel + 3) 3 tail = true ↔ tail ∈ endings := by
  have hverify : (3, OP_EQUALVERIFY) ∈ expectedOpcodes := by decide
  have hsig : (4, OP_CHECKSIG) ∈ expectedOpcodes := by decide
  rcases tail with _ | ⟨b, _ | ⟨b', _ | ⟨b'', rest⟩⟩⟩
  · simp [normalPaymentLoop, endings]
  · rw [normalPaymentLoop_expected hverify]
    simp [normalPaymentLoop, endings]
  · rw [normalPaymentLoop_expected hverify,
      normalPaymentLoop_expected hsig]
    simp [normalPaymentLoop, endings]
  · rw [normalPaymentLoop_expected hverify,
      normalPaymentLoop_expected hsig]
    simp [normalPaymentLoop, endings]

/-- The third operation is any that ends where the ending starts. One that cannot be read leaves
too much behind. -/
theorem walksNormalPayment_iff (s : CScript) : walksNormalPayment s = true ↔
    s.length = 25 ∧ ∃ hdr data tail, Header hdr data.length ∧ tail ∈ endings ∧
      s = OP_DUP :: OP_HASH160 :: (hdr ++ (data ++ tail)) := by
  unfold walksNormalPayment
  rw [Bool.and_eq_true, beq_iff_eq]
  refine and_congr_right fun hlen => ?_
  rw [hlen]
  rcases s with _ | ⟨b, _ | ⟨b', _ | ⟨b'', rest⟩⟩⟩
  · simp at hlen
  · simp at hlen
  · simp at hlen
  have hdup : (0, OP_DUP) ∈ expectedOpcodes := by decide
  have hhash : (1, OP_HASH160) ∈ expectedOpcodes := by decide
  rw [normalPaymentLoop_expected hdup, normalPaymentLoop_expected hhash]
  have hthird : normalPaymentLoop 23 (0 + 1 + 1) (b'' :: rest) =
      normalPaymentLoop (19 + 3) 3 (getOp2 (b'' :: rest)).2.2 := by
    simp [normalPaymentLoop]
  rw [hthird, normalPaymentLoop_tail]
  generalize hpc : b'' :: rest = pc
  have hpclen : pc.length = 23 := by
    rw [← hpc]
    simpa using hlen
  constructor
  · rintro ⟨rfl, rfl, htail⟩
    cases hget : Script.getOp pc with
    | none =>
      obtain ⟨left, hleft, hlong⟩ := getOp2_of_none hget
      rw [hleft] at htail
      have hshort : left.length ≤ 2 := by
        simp only [endings, List.mem_cons, List.not_mem_nil, or_false] at htail
        rcases htail with rfl | rfl | rfl <;> simp
      omega
    | some r =>
      obtain ⟨opcode, data, tail⟩ := r
      rw [getOp2_of_some hget] at htail
      obtain ⟨hdr, hhdr, hform⟩ := getOp_form hget
      exact ⟨hdr, data, tail, hhdr, htail, by rw [hform]⟩
  · rintro ⟨hdr, data, tail, hhdr, htail, heq⟩
    obtain ⟨rfl, hrest⟩ := List.cons.inj heq
    obtain ⟨rfl, rfl⟩ := List.cons.inj hrest
    obtain ⟨opcode, hget⟩ :
        ∃ opcode, Script.getOp (hdr ++ (data ++ tail)) = some (opcode, data, tail) := hhdr.getOp
    rw [getOp2_of_some hget]
    exact ⟨rfl, rfl, htail⟩

/-- The walk that stops where an operation cannot be read: a failure to read is only ever passed
over at the third operation, and then too much is left. -/
lemma normalPaymentFrom_eq (hi : i ≤ 5) (hfuel : 6 ≤ fuel + i)
    (hlong : i ≤ 2 → 10 ≤ i + pc.length) :
    normalPaymentFrom fuel i pc = normalPaymentLoop fuel i pc := by
  induction fuel generalizing i pc with
  | zero => omega
  | succ fuel ih =>
    cases pc with
    | nil => rfl
    | cons b rest =>
      cases hget : getOp (b :: rest) with
      | none =>
        obtain ⟨left, hleft, hlen⟩ := getOp2_of_none hget
        have hstop : normalPaymentFrom (fuel + 1) i (b :: rest) = false := by
          simp [normalPaymentFrom, hget]
        rw [hstop]
        by_cases h2 : i = 2
        · subst h2
          obtain ⟨fuel, rfl⟩ : ∃ n, fuel = n + 3 := ⟨fuel - 3, by omega⟩
          have hleave : left ∉ endings := by
            intro hmem
            simp only [endings, List.mem_cons, List.not_mem_nil, or_false] at hmem
            have := hlong le_rfl
            rcases hmem with rfl | rfl | rfl <;> simp at hlen this <;> omega
          have htail : normalPaymentLoop (fuel + 3) 3 left = false := by
            rw [← Bool.not_eq_true, normalPaymentLoop_tail]
            exact hleave
          have hskip : normalPaymentLoop (fuel + 3 + 1) 2 (b :: rest) =
              normalPaymentLoop (fuel + 3) 3 left := by
            rw [normalPaymentLoop, hleft]
            simp
          rw [hskip, htail]
        · have hcases : i = 0 ∨ i = 1 ∨ i = 3 ∨ i = 4 ∨ i = 5 := by omega
          rcases hcases with rfl | rfl | rfl | rfl | rfl <;>
            simp [normalPaymentLoop, hleft, OP_INVALIDOPCODE, OP_DUP, OP_HASH160, OP_EQUALVERIFY,
              OP_CHECKSIG]
      | some r =>
        obtain ⟨opcode, data, pc'⟩ := r
        have hread := getOp2_of_some hget
        have hplain : OP_PUSHDATA4 < opcode ∧ opcode ≠ OP_INVALIDOPCODE → pc' = rest := by
          rintro ⟨hlt, hvalid⟩
          obtain rfl := (getOp2_opcode hlt hvalid).mp (by rw [hread])
          rw [getOp2_plain hlt] at hread
          exact (Prod.mk.inj (Prod.mk.inj hread).2).2.symm
        have hnext : i < 5 → (i ≤ 1 → OP_PUSHDATA4 < opcode ∧ opcode ≠ OP_INVALIDOPCODE) →
            normalPaymentFrom fuel (i + 1) pc' = normalPaymentLoop fuel (i + 1) pc' := by
          intro hlt hop
          refine ih (by omega) (by omega) (fun hle => ?_)
          rw [hplain (hop (by omega))]
          have := hlong (by omega)
          rw [List.length_cons] at this
          omega
        have hcases : i = 0 ∨ i = 1 ∨ i = 2 ∨ i = 3 ∨ i = 4 ∨ i = 5 := by omega
        rcases hcases with rfl | rfl | rfl | rfl | rfl | rfl
        · by_cases hop : opcode = OP_DUP
          · simp [normalPaymentFrom, normalPaymentLoop, hget, hread,
              hnext (by omega) (fun _ => hop ▸ by decide)]
          · simp [normalPaymentFrom, normalPaymentLoop, hget, hread, hop]
        · by_cases hop : opcode = OP_HASH160
          · simp [normalPaymentFrom, normalPaymentLoop, hget, hread,
              hnext (by omega) (fun _ => hop ▸ by decide)]
          · simp [normalPaymentFrom, normalPaymentLoop, hget, hread, hop]
        · simp [normalPaymentFrom, normalPaymentLoop, hget, hread, hnext (by omega) (by omega)]
        · simp [normalPaymentFrom, normalPaymentLoop, hget, hread, hnext (by omega) (by omega)]
        · simp [normalPaymentFrom, normalPaymentLoop, hget, hread, hnext (by omega) (by omega)]
        · simp [normalPaymentFrom, normalPaymentLoop, hget]

/-- The two walks agree. -/
theorem isNormalPaymentScript_eq (s : CScript) :
    isNormalPaymentScript s = walksNormalPayment s := by
  unfold isNormalPaymentScript walksNormalPayment
  by_cases hlen : s.length = 25
  · rw [normalPaymentFrom_eq (by omega) (by omega) (by omega)]
  · rw [beq_eq_false_iff_ne.mpr hlen, Bool.false_and, Bool.false_and]

/-! ### The template -/

/-- A payment to the hash of a key: `OP_DUP OP_HASH160 <20 bytes> OP_EQUALVERIFY OP_CHECKSIG`. -/
def IsPayToPubkeyHash (s : CScript) : Prop :=
  ∃ h : Valtype, h.length = 20 ∧
    s = OP_DUP :: OP_HASH160 :: ([20] ++ (h ++ [OP_EQUALVERIFY, OP_CHECKSIG]))

/-- The other third operations that the walk takes, by their header, and what has to follow the
data: pushes that run into the last two operations, and pushes with a separate size. -/
def misreadPushes : List (CScript × CScript) :=
  [([0x15], [OP_EQUALVERIFY]), ([0x16], []),
    ([OP_PUSHDATA1, 19], [OP_EQUALVERIFY, OP_CHECKSIG]), ([OP_PUSHDATA1, 20], [OP_EQUALVERIFY]),
    ([OP_PUSHDATA1, 21], []),
    ([OP_PUSHDATA2, 18, 0], [OP_EQUALVERIFY, OP_CHECKSIG]),
    ([OP_PUSHDATA2, 19, 0], [OP_EQUALVERIFY]), ([OP_PUSHDATA2, 20, 0], []),
    ([OP_PUSHDATA4, 16, 0, 0, 0], [OP_EQUALVERIFY, OP_CHECKSIG]),
    ([OP_PUSHDATA4, 17, 0, 0, 0], [OP_EQUALVERIFY]), ([OP_PUSHDATA4, 18, 0, 0, 0], [])]

/-- Scripts of 25 bytes that start like a payment to the hash of a key and push something else. -/
def Misread (s : CScript) : Prop :=
  s.length = 25 ∧ ∃ r ∈ misreadPushes, ∃ data, s = OP_DUP :: OP_HASH160 :: (r.1 ++ (data ++ r.2))

lemma writeLE_readLE (l : List UInt8) : writeLE l.length (readLE l) = l := by
  induction l with
  | nil => rfl
  | cons b l ih =>
    have hb := b.toNat_lt
    have hmod : (b.toNat + 256 * readLE l) % 256 = b.toNat := by omega
    have hdiv : (b.toNat + 256 * readLE l) / 256 = readLE l := by omega
    rw [List.length_cons, readLE, writeLE, hmod, hdiv, ih, UInt8.ofNat_toNat]

lemma Header.forms {n : ℕ} (h : Header hdr n) (htail : tail ∈ endings)
    (hlen : hdr.length + (n + tail.length) = 23) :
    hdr = [20] ∧ tail = [OP_EQUALVERIFY, OP_CHECKSIG] ∨ (hdr, tail) ∈ misreadPushes := by
  have hsize : ∀ {l : CScript} {k m : ℕ}, l.length = k → readLE l = m → l = writeLE k m := by
    rintro l k m rfl rfl
    exact (writeLE_readLE l).symm
  simp only [endings, List.mem_cons, List.not_mem_nil, or_false] at htail
  cases h with
  | @immediate opcode hlt =>
    have hop : ∀ m : ℕ, opcode.toNat = m → opcode = UInt8.ofNat m := by
      rintro m rfl
      exact UInt8.ofNat_toNat.symm
    rcases htail with rfl | rfl | rfl <;> simp only [List.length_cons, List.length_nil] at hlen
    · rw [hop 22 (by omega)]
      decide
    · rw [hop 21 (by omega)]
      decide
    · rw [hop 20 (by omega)]
      decide
  | @pushdata opcode nSize hmem =>
    simp only [pushdataSizes, List.mem_cons, Prod.mk.injEq, List.not_mem_nil, or_false] at hmem
    rw [List.length_cons] at hlen
    rcases hmem with ⟨rfl, hk⟩ | ⟨rfl, hk⟩ | ⟨rfl, hk⟩ <;> rcases htail with rfl | rfl | rfl <;>
      simp only [List.length_cons, List.length_nil] at hlen
    · rw [hsize (m := 21) hk (by omega)]
      decide
    · rw [hsize (m := 20) hk (by omega)]
      decide
    · rw [hsize (m := 19) hk (by omega)]
      decide
    · rw [hsize (m := 20) hk (by omega)]
      decide
    · rw [hsize (m := 19) hk (by omega)]
      decide
    · rw [hsize (m := 18) hk (by omega)]
      decide
    · rw [hsize (m := 18) hk (by omega)]
      decide
    · rw [hsize (m := 17) hk (by omega)]
      decide
    · rw [hsize (m := 16) hk (by omega)]
      decide
  | plain hlt =>
    rcases htail with rfl | rfl | rfl <;> simp at hlen

lemma header_of_misread {r : CScript × CScript} (h : r ∈ misreadPushes) :
    Header r.1 (23 - r.1.length - r.2.length) ∧ r.2 ∈ endings ∧ r.1.length + r.2.length ≤ 23 := by
  simp only [misreadPushes, List.mem_cons, List.not_mem_nil, or_false] at h
  rcases h with rfl | rfl | rfl | rfl | rfl | rfl | rfl | rfl | rfl | rfl | rfl
  · exact ⟨@Header.immediate 0x15 (by decide), by decide, by decide⟩
  · exact ⟨@Header.immediate 0x16 (by decide), by decide, by decide⟩
  · exact ⟨@Header.pushdata OP_PUSHDATA1 [19] (by decide), by decide, by decide⟩
  · exact ⟨@Header.pushdata OP_PUSHDATA1 [20] (by decide), by decide, by decide⟩
  · exact ⟨@Header.pushdata OP_PUSHDATA1 [21] (by decide), by decide, by decide⟩
  · exact ⟨@Header.pushdata OP_PUSHDATA2 [18, 0] (by decide), by decide, by decide⟩
  · exact ⟨@Header.pushdata OP_PUSHDATA2 [19, 0] (by decide), by decide, by decide⟩
  · exact ⟨@Header.pushdata OP_PUSHDATA2 [20, 0] (by decide), by decide, by decide⟩
  · exact ⟨@Header.pushdata OP_PUSHDATA4 [16, 0, 0, 0] (by decide), by decide, by decide⟩
  · exact ⟨@Header.pushdata OP_PUSHDATA4 [17, 0, 0, 0] (by decide), by decide, by decide⟩
  · exact ⟨@Header.pushdata OP_PUSHDATA4 [18, 0, 0, 0] (by decide), by decide, by decide⟩

lemma walksNormalPayment_iff_template (s : CScript) :
    walksNormalPayment s = true ↔ IsPayToPubkeyHash s ∨ Misread s := by
  rw [walksNormalPayment_iff]
  constructor
  · rintro ⟨hlen, hdr, data, tail, hhdr, htail, rfl⟩
    simp only [List.length_cons, List.length_append] at hlen
    rcases hhdr.forms htail (by omega) with ⟨rfl, rfl⟩ | hmem
    · refine .inl ⟨data, ?_, rfl⟩
      simp only [List.length_cons, List.length_nil] at hlen
      omega
    · refine .inr ⟨?_, (hdr, tail), hmem, data, rfl⟩
      simp only [List.length_cons, List.length_append]
      omega
  · rintro (⟨h, hlen, rfl⟩ | ⟨hlen, r, hmem, data, rfl⟩)
    · refine ⟨by simp [hlen], [20], h, [OP_EQUALVERIFY, OP_CHECKSIG], ?_, by decide, rfl⟩
      rw [hlen]
      exact @Header.immediate 20 (by decide)
    · obtain ⟨hhdr, htail, hshort⟩ := header_of_misread hmem
      refine ⟨hlen, r.1, data, r.2, ?_, htail, rfl⟩
      simp only [List.length_cons, List.length_append] at hlen
      have hdata : data.length = 23 - r.1.length - r.2.length := by omega
      rw [hdata]
      exact hhdr

lemma Misread.not_template (h : Misread s) : ¬ IsPayToPubkeyHash s := by
  rintro ⟨hash, -, heq⟩
  obtain ⟨-, r, hmem, data, rfl⟩ := h
  have hhead : ∀ r ∈ misreadPushes, r.1.head? ≠ some 20 ∧ r.1 ≠ [] := by decide
  obtain ⟨hne, hnil⟩ := hhead r hmem
  obtain ⟨b, l, hr⟩ := List.exists_cons_of_ne_nil hnil
  rw [hr] at heq hne
  simp only [List.cons_append, List.nil_append, List.cons.injEq, true_and] at heq
  exact hne (by rw [heq.1]; rfl)

/-! ### The two together -/

lemma matchPayToPubkeyHash_eq_some_iff {data : Valtype} : matchPayToPubkeyHash s = some data ↔
    data.length = 20 ∧
      s = OP_DUP :: OP_HASH160 :: ([20] ++ (data ++ [OP_EQUALVERIFY, OP_CHECKSIG])) := by
  unfold matchPayToPubkeyHash
  constructor
  · intro h
    split_ifs at h with hs
    obtain ⟨hlen, h0, h1, h2, h3, h4⟩ := hs
    obtain rfl := Option.some.inj h
    have hhead : ∃ rest, s = OP_DUP :: OP_HASH160 :: 20 :: rest ∧ rest.length = 22 := by
      rcases s with _ | ⟨a, _ | ⟨b, _ | ⟨c, rest⟩⟩⟩
      · simp at hlen
      · simp at hlen
      · simp at hlen
      · simp only [List.getElem?_cons_zero, List.getElem?_cons_succ, Option.some.injEq] at h0 h1 h2
        subst h0 h1 h2
        exact ⟨rest, rfl, by simpa using hlen⟩
    obtain ⟨rest, rfl, hrest⟩ := hhead
    have htail : rest.drop 20 = [OP_EQUALVERIFY, OP_CHECKSIG] := by
      apply List.ext_getElem?
      intro i
      rw [List.getElem?_drop]
      rcases i with _ | _ | i
      · simpa using h3
      · simpa using h4
      · simp only [List.getElem?_cons_succ, List.getElem?_nil, List.getElem?_eq_none_iff]
        omega
    refine ⟨by simp [hrest], ?_⟩
    simp only [List.drop_succ_cons, List.drop_zero, List.singleton_append]
    rw [← htail, List.take_append_drop]
  · rintro ⟨hlen, rfl⟩
    have hverify : (data ++ [OP_EQUALVERIFY, OP_CHECKSIG])[20]? = some OP_EQUALVERIFY := by
      rw [List.getElem?_append_right (by omega), hlen]
      rfl
    have hsig : (data ++ [OP_EQUALVERIFY, OP_CHECKSIG])[21]? = some OP_CHECKSIG := by
      rw [List.getElem?_append_right (by omega), hlen]
      rfl
    rw [if_pos]
    · have htake : (data ++ [OP_EQUALVERIFY, OP_CHECKSIG]).take 20 = data := by
        rw [← hlen, List.take_left]
      simpa using htake
    · exact ⟨by simp [hlen], rfl, rfl, rfl, hverify, hsig⟩

lemma solver_pubkeyHash (s : CScript) :
    (∃ vSolutions, solver s = some ⟨true, .TX_PUBKEYHASH, vSolutions⟩) ↔ IsPayToPubkeyHash s := by
  constructor
  · rintro ⟨vSolutions, h⟩
    unfold solver at h
    split_ifs at h with h1 h2 h3 h4
    · simp at h
    · simp at h
    · simp at h
    · simp at h
    · cases hkey : matchPayToPubkey s with
      | some data => simp [hkey] at h
      | none =>
        cases hhash : matchPayToPubkeyHash s with
        | some data => exact ⟨data, matchPayToPubkeyHash_eq_some_iff.mp hhash⟩
        | none =>
          cases hcold : matchPayToColdStaking s with
          | some data => simp [hkey, hhash, hcold] at h
          | none =>
            cases hmulti : matchMultisig s with
            | some data => simp [hkey, hhash, hcold, hmulti] at h
            | none => simp [hkey, hhash, hcold, hmulti] at h
  · rintro ⟨data, hlen, rfl⟩
    refine ⟨[data], ?_⟩
    have hhash := matchPayToPubkeyHash_eq_some_iff.mpr ⟨hlen, rfl⟩
    have hkey : matchPayToPubkey
        (OP_DUP :: OP_HASH160 :: ([20] ++ (data ++ [OP_EQUALVERIFY, OP_CHECKSIG]))) = none := by
      unfold matchPayToPubkey
      rw [if_neg (by simp [hlen]), if_neg (by simp [hlen])]
    unfold solver
    rw [hkey, hhash, if_neg (by simp [isPayToScriptHash, hlen]),
      if_neg (by simp [isZerocoinMint, startsWithOpcode, OP_DUP, OP_ZEROCOINMINT]),
      if_neg (by simp [OP_DUP, OP_RETURN])]

/-- **The walk and the template.** The walk of `IsNormalPaymentScript` decides whether a script is
the template, and agrees with `Solver`, except for the misread scripts. -/
theorem normalPayment_exact (s : CScript) :
    (walksNormalPayment s = true ↔ IsPayToPubkeyHash s) ∧
        (IsPayToPubkeyHash s ↔
          ∃ vSolutions, solver s = some ⟨true, .TX_PUBKEYHASH, vSolutions⟩) ↔
      ¬ Misread s := by
  rw [solver_pubkeyHash, walksNormalPayment_iff_template]
  constructor
  · rintro ⟨hwalk, -⟩ hmis
    exact hmis.not_template (hwalk.mp (.inr hmis))
  · intro hmis
    exact ⟨⟨fun h => h.resolve_right hmis, .inl⟩, Iff.rfl⟩

namespace Concrete

/-- A push of 21 bytes where the hash should be. -/
def overlongPush : CScript :=
  [OP_DUP, OP_HASH160, 0x15] ++ (List.replicate 21 0 ++ [OP_EQUALVERIFY])

/-- It is taken for a payment, and `Solver` does not know it. -/
theorem overlongPush_misread :
    walksNormalPayment overlongPush = true ∧ ¬ IsPayToPubkeyHash overlongPush ∧
      solver overlongPush = some ⟨false, .TX_NONSTANDARD, []⟩ := by
  refine ⟨by decide, ?_, by decide⟩
  have hmis : Misread overlongPush :=
    ⟨by decide, ([0x15], [OP_EQUALVERIFY]), by decide, List.replicate 21 0, rfl⟩
  exact hmis.not_template

end Concrete

end Script

end Agenor
