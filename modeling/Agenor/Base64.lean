import Agenor.Base58
import Agenor.Lib.Regroup

/-!
Base64 and Base32 strings (`utilstrencodings.cpp`).

Both write the bits of the bytes in groups of six or five, each as a character, and fill up with
`=`. What is decoded is the groups up to the first character that stands for none; it is reported
valid if the bits fit and only the `=` that are due follow.
-/

namespace Agenor

open Lib.Regroup

namespace Base64

/-! ### `ConvertBits` -/

/-- The variables of the loop, and what has been given out. -/
structure ConvertState where
  acc : ℕ
  bits : ℕ
  out : List ℕ

/-- `while (bits >= tobits)`; each pass takes bits away, so `bits` passes are enough. -/
def drain (tobits : ℕ) : ℕ → ConvertState → ConvertState
  | 0, s => s
  | fuel + 1, s =>
    if tobits ≤ s.bits then
      let bits := s.bits - tobits
      drain tobits fuel ⟨s.acc, bits, s.out ++ [(s.acc >>> bits) &&& (2 ^ tobits - 1)]⟩
    else s

def convertStep (frombits tobits : ℕ) (s : ConvertState) (x : ℕ) : ConvertState :=
  let acc := ((s.acc <<< frombits) ||| x) &&& (2 ^ (frombits + tobits - 1) - 1)
  let bits := s.bits + frombits
  drain tobits bits ⟨acc, bits, s.out⟩

/-- What is given out, and the return value. -/
def convertBits (frombits tobits : ℕ) (pad : Bool) (xs : List ℕ) : List ℕ × Bool :=
  let s := xs.foldl (convertStep frombits tobits) ⟨0, 0, []⟩
  let last := (s.acc <<< (tobits - s.bits)) &&& (2 ^ tobits - 1)
  if pad then (if s.bits ≠ 0 then s.out ++ [last] else s.out, true)
  else (s.out, !(frombits ≤ s.bits || last ≠ 0))

/-! ### The two encodings -/

/-- `while (str.size() % group) str += '='` -/
def fillUp (group : ℕ) : ℕ → List UInt8 → List UInt8
  | 0, str => str
  | fuel + 1, str => if str.length % group ≠ 0 then fillUp group fuel (str ++ [61]) else str

def encode (tobits group : ℕ) (alphabet pch : List UInt8) : List UInt8 :=
  let vs := (convertBits 8 tobits true (pch.map UInt8.toNat)).1
  fillUp group group (vs.map fun v => alphabet.getD v 0)

/-- The values of the characters up to the first that has none, and the rest. -/
def lookUp (table : List ℤ) : List UInt8 → List ℕ × List UInt8
  | [] => ([], [])
  | c :: p =>
    let x := table.getD c.toNat 0
    if x = -1 then ([], c :: p) else (x.toNat :: (lookUp table p).1, (lookUp table p).2)

/-- The bytes, and whether the string is valid. -/
def decode (frombits group : ℕ) (table : List ℤ) (p : List UInt8) : List UInt8 × Bool :=
  let val := (lookUp table p).1
  let q := (lookUp table p).2
  let r := convertBits frombits 8 false val
  (r.1.map UInt8.ofNat,
    r.2 && q.all (· = 61) && (val.length + q.length) % group = 0 && q.length < group)

def pbase64 : List UInt8 :=
  "ABCDEFGHIJKLMNOPQRSTUVWXYZabcdefghijklmnopqrstuvwxyz0123456789+/".toList.map Char.toUInt8

def pbase32 : List UInt8 := "abcdefghijklmnopqrstuvwxyz234567".toList.map Char.toUInt8

def decode64Table : List ℤ :=
  [-1, -1, -1, -1, -1, -1, -1, -1, -1, -1, -1, -1, -1, -1, -1, -1, -1, -1, -1, -1,
    -1, -1, -1, -1, -1, -1, -1, -1, -1, -1, -1, -1, -1, -1, -1, -1, -1, -1, -1, -1,
    -1, -1, -1, 62, -1, -1, -1, 63, 52, 53, 54, 55, 56, 57, 58, 59, 60, 61, -1, -1,
    -1, -1, -1, -1, -1, 0, 1, 2, 3, 4, 5, 6, 7, 8, 9, 10, 11, 12, 13, 14,
    15, 16, 17, 18, 19, 20, 21, 22, 23, 24, 25, -1, -1, -1, -1, -1, -1, 26, 27, 28,
    29, 30, 31, 32, 33, 34, 35, 36, 37, 38, 39, 40, 41, 42, 43, 44, 45, 46, 47, 48,
    49, 50, 51, -1, -1, -1, -1, -1, -1, -1, -1, -1, -1, -1, -1, -1, -1, -1, -1, -1,
    -1, -1, -1, -1, -1, -1, -1, -1, -1, -1, -1, -1, -1, -1, -1, -1, -1, -1, -1, -1,
    -1, -1, -1, -1, -1, -1, -1, -1, -1, -1, -1, -1, -1, -1, -1, -1, -1, -1, -1, -1,
    -1, -1, -1, -1, -1, -1, -1, -1, -1, -1, -1, -1, -1, -1, -1, -1, -1, -1, -1, -1,
    -1, -1, -1, -1, -1, -1, -1, -1, -1, -1, -1, -1, -1, -1, -1, -1, -1, -1, -1, -1,
    -1, -1, -1, -1, -1, -1, -1, -1, -1, -1, -1, -1, -1, -1, -1, -1, -1, -1, -1, -1,
    -1, -1, -1, -1, -1, -1, -1, -1, -1, -1, -1, -1, -1, -1, -1, -1]

def decode32Table : List ℤ :=
  [-1, -1, -1, -1, -1, -1, -1, -1, -1, -1, -1, -1, -1, -1, -1, -1, -1, -1, -1, -1,
    -1, -1, -1, -1, -1, -1, -1, -1, -1, -1, -1, -1, -1, -1, -1, -1, -1, -1, -1, -1,
    -1, -1, -1, -1, -1, -1, -1, -1, -1, -1, 26, 27, 28, 29, 30, 31, -1, -1, -1, -1,
    -1, -1, -1, -1, -1, 0, 1, 2, 3, 4, 5, 6, 7, 8, 9, 10, 11, 12, 13, 14,
    15, 16, 17, 18, 19, 20, 21, 22, 23, 24, 25, -1, -1, -1, -1, -1, -1, 0, 1, 2,
    3, 4, 5, 6, 7, 8, 9, 10, 11, 12, 13, 14, 15, 16, 17, 18, 19, 20, 21, 22,
    23, 24, 25, -1, -1, -1, -1, -1, -1, -1, -1, -1, -1, -1, -1, -1, -1, -1, -1, -1,
    -1, -1, -1, -1, -1, -1, -1, -1, -1, -1, -1, -1, -1, -1, -1, -1, -1, -1, -1, -1,
    -1, -1, -1, -1, -1, -1, -1, -1, -1, -1, -1, -1, -1, -1, -1, -1, -1, -1, -1, -1,
    -1, -1, -1, -1, -1, -1, -1, -1, -1, -1, -1, -1, -1, -1, -1, -1, -1, -1, -1, -1,
    -1, -1, -1, -1, -1, -1, -1, -1, -1, -1, -1, -1, -1, -1, -1, -1, -1, -1, -1, -1,
    -1, -1, -1, -1, -1, -1, -1, -1, -1, -1, -1, -1, -1, -1, -1, -1, -1, -1, -1, -1,
    -1, -1, -1, -1, -1, -1, -1, -1, -1, -1, -1, -1, -1, -1, -1, -1]

def encodeBase64 (pch : List UInt8) : List UInt8 := encode 6 4 pbase64 pch

def encodeBase32 (pch : List UInt8) : List UInt8 := encode 5 8 pbase32 pch

/-- `DecodeBase64`; the second component is `!*pfInvalid`. -/
def decodeBase64 (p : List UInt8) : List UInt8 × Bool := decode 6 4 decode64Table (cStr p)

/-- `DecodeBase32`; the second component is `!*pfInvalid`. -/
def decodeBase32 (p : List UInt8) : List UInt8 × Bool := decode 5 8 decode32Table (cStr p)

variable {f t bits k group : ℕ} {xs ds : List ℕ} {s : ConvertState}

/-! ### What `ConvertBits` gives -/

/-- The digits read so far have been regrouped; the lowest bits of the accumulator are left. -/
def Converts (f t : ℕ) (xs : List ℕ) (s : ConvertState) : Prop :=
  Takes f t xs s.out (s.acc % 2 ^ s.bits) s.bits

lemma Converts.drain (ht : 0 < t) (h : Converts f t xs s) {fuel : ℕ} (hfuel : s.bits ≤ fuel) :
    Converts f t xs (drain t fuel s) ∧ (drain t fuel s).bits < t := by
  induction fuel generalizing s with
  | zero => exact ⟨h, by rw [Base64.drain]; omega⟩
  | succ fuel ih =>
    rw [Base64.drain]
    split_ifs with hle
    · refine ih ?_ (by dsimp only; omega)
      obtain ⟨b, hb⟩ := Nat.exists_eq_add_of_le' hle
      rw [Converts, hb] at h
      have hgroup := h.group
      rw [pow_add, Nat.mod_mul_right_div_self, Nat.mod_mul_right_mod] at hgroup
      rw [Converts, Nat.shiftRight_eq_div_pow, Nat.and_two_pow_sub_one_eq_mod, hb,
        Nat.add_sub_cancel]
      exact hgroup
    · exact ⟨h, not_le.mp hle⟩

lemma Converts.step (h : Converts f t xs s) (hlt : s.bits < t) {x : ℕ} (hx : x < 2 ^ f) :
    Converts f t (xs ++ [x]) (convertStep f t s x) ∧ (convertStep f t s x).bits < t := by
  refine Converts.drain (by omega) ?_ le_rfl
  have hacc : (s.acc <<< f ||| x) &&& (2 ^ (f + t - 1) - 1) =
      (s.acc * 2 ^ f + x) % 2 ^ (f + t - 1) := by
    rw [← Nat.shiftLeft_add_eq_or_of_lt hx, Nat.and_two_pow_sub_one_eq_mod, Nat.shiftLeft_eq]
  have hpush := h.push hx
  have hlow : (s.acc * 2 ^ f + x) % 2 ^ (s.bits + f) = s.acc % 2 ^ s.bits * 2 ^ f + x := by
    have hsum := Nat.div_add_mod s.acc (2 ^ s.bits)
    have heq : s.acc * 2 ^ f + x =
        2 ^ (s.bits + f) * (s.acc / 2 ^ s.bits) + (s.acc % 2 ^ s.bits * 2 ^ f + x) := by
      conv_lhs => rw [← hsum]
      ring
    rw [heq, Nat.mul_add_mod, Nat.mod_eq_of_lt hpush.rem_lt]
  rw [Converts]
  dsimp only
  rw [hacc, Nat.mod_mod_of_dvd _ (Nat.pow_dvd_pow 2 (by omega)), hlow]
  exact hpush

lemma converts_fold (ht : 0 < t) (hxs : ∀ x ∈ xs, x < 2 ^ f) :
    Converts f t xs (xs.foldl (convertStep f t) ⟨0, 0, []⟩) ∧
      (xs.foldl (convertStep f t) ⟨0, 0, []⟩).bits < t := by
  induction xs using List.reverseRecOn with
  | nil => exact ⟨Takes.nil f t, ht⟩
  | append_singleton xs x ih =>
    obtain ⟨hinit, hlast⟩ := List.forall_mem_append.mp hxs
    obtain ⟨h, hlt⟩ := ih hinit
    rw [List.foldl_append]
    exact h.step hlt (hlast x (List.mem_singleton.mpr rfl))

lemma last_eq (hlt : s.bits < t) :
    (s.acc <<< (t - s.bits)) &&& (2 ^ t - 1) = s.acc % 2 ^ s.bits * 2 ^ (t - s.bits) := by
  have hpow : 2 ^ t = 2 ^ s.bits * 2 ^ (t - s.bits) := by rw [← pow_add, Nat.add_sub_of_le hlt.le]
  rw [Nat.and_two_pow_sub_one_eq_mod, Nat.shiftLeft_eq, hpow, Nat.mul_mod_mul_right]

lemma convertBits_pad (ht : 0 < t) (hxs : ∀ x ∈ xs, x < 2 ^ f) :
    ∃ p, Pads f t xs (convertBits f t true xs).1 p := by
  obtain ⟨h, hlt⟩ := converts_fold ht hxs
  simp only [convertBits, if_true]
  split_ifs with hbits
  · rw [last_eq hlt]
    exact ⟨_, Takes.pads h (Nat.pos_of_ne_zero hbits) hlt⟩
  · rw [Converts, not_not.mp hbits] at h
    exact ⟨0, Takes.pads_of_zero h ht⟩

lemma convertBits_strict (ht : 0 < t) (hxs : ∀ x ∈ xs, x < 2 ^ f) :
    ∃ rem bits, Takes f t xs (convertBits f t false xs).1 rem bits ∧ bits < t ∧
      ((convertBits f t false xs).2 = true ↔ bits < f ∧ rem = 0) := by
  obtain ⟨h, hlt⟩ := converts_fold ht hxs
  refine ⟨_, _, h, hlt, ?_⟩
  simp only [convertBits, Bool.false_eq_true, if_false]
  rw [last_eq hlt, Bool.not_eq_true', Bool.or_eq_false_iff, decide_eq_false_iff_not,
    decide_eq_false_iff_not, not_le, not_not, mul_eq_zero]
  simp

lemma convertBits_pad_back (ht : 0 < t) (htf : t ≤ f) (hxs : ∀ x ∈ xs, x < 2 ^ f) :
    convertBits t f false (convertBits f t true xs).1 = (xs, true) := by
  obtain ⟨p, hpads⟩ := convertBits_pad ht hxs
  obtain ⟨rem, bits, htakes, hlt, hvalid⟩ := convertBits_strict (ht.trans_le htf) hpads.digits
  obtain ⟨hxs', hrem, hbits⟩ := hpads.takes_back htf hxs htakes hlt
  exact Prod.ext hxs' (hvalid.mpr ⟨hbits.trans_lt hpads.lt, hrem⟩)

lemma convertBits_strict_back (ht : 0 < t) (htf : t ≤ f) (hds : ∀ d ∈ ds, d < 2 ^ t)
    (h : (convertBits t f false ds).2 = true) :
    (convertBits f t true (convertBits t f false ds).1).1 = ds := by
  obtain ⟨rem, bits, htakes, -, hvalid⟩ := convertBits_strict (ht.trans_le htf) hds
  obtain ⟨hlt, rfl⟩ := hvalid.mp h
  obtain ⟨p, hpads⟩ := convertBits_pad ht htakes.digits
  exact hpads.unique (htakes.pads_back hlt hds)

/-! ### Characters -/

/-- The alphabet and the table belong together; `norm` makes the characters that have the same value
equal. -/
structure Codec (t : ℕ) (alphabet : List UInt8) (table : List ℤ) (norm : UInt8 → UInt8) : Prop where
  value : ∀ v < 2 ^ t, table.getD (alphabet.getD v 0).toNat 0 = v
  char : ∀ c : UInt8, table.getD c.toNat 0 ≠ -1 →
    (table.getD c.toNat 0).toNat < 2 ^ t ∧ alphabet.getD (table.getD c.toNat 0).toNat 0 = norm c
  table_norm : ∀ c : UInt8, table.getD (norm c).toNat 0 = table.getD c.toNat 0
  fill : table.getD 61 0 = -1
  norm_fill : ∀ c, norm c = 61 ↔ c = 61
  ne_nul : ∀ v < 2 ^ t, alphabet.getD v 0 ≠ 0

/-- The form of a Base32 string in which the alphabet is. -/
def toLower (c : UInt8) : UInt8 := if 65 ≤ c ∧ c ≤ 90 then c + 32 else c

lemma forall_table {table : List ℤ} (hlen : table.length = 256) {P : ℤ → UInt8 → Prop}
    (h : ∀ x ∈ table.zipIdx, P x.1 (UInt8.ofNat x.2)) (c : UInt8) : P (table.getD c.toNat 0) c := by
  have hc : c.toNat < table.length := hlen ▸ c.toNat_lt
  have hmem : (table.getD c.toNat 0, c.toNat) ∈ table.zipIdx := by
    rw [List.mk_mem_zipIdx_iff_getElem?, List.getD_eq_getElem _ _ hc, List.getElem?_eq_getElem hc]
  have hx := h _ hmem
  rwa [UInt8.ofNat_toNat] at hx

lemma toLower_eq (c : UInt8) :
    toLower c = c ∨ ∃ n < 26, c.toNat = 65 + n ∧ (toLower c).toNat = 97 + n := by
  rw [toLower]
  split_ifs with hupper
  · have hlow : 65 ≤ c.toNat := UInt8.le_iff_toNat_le.mp hupper.1
    have hhigh : c.toNat ≤ 90 := UInt8.le_iff_toNat_le.mp hupper.2
    have hlower : (c + 32).toNat = c.toNat + 32 := by
      rw [UInt8.toNat_add]
      exact Nat.mod_eq_of_lt (show c.toNat + 32 < 256 by omega)
    exact Or.inr ⟨c.toNat - 65, by omega, by omega, by omega⟩
  · exact Or.inl rfl

lemma codec64 : Codec 6 pbase64 decode64Table id where
  value := by decide +kernel
  char := forall_table (P := fun x c => x ≠ -1 → x.toNat < 2 ^ 6 ∧ pbase64.getD x.toNat 0 = id c)
    (by decide +kernel) (by decide +kernel)
  table_norm _ := rfl
  fill := by decide
  norm_fill _ := Iff.rfl
  ne_nul := by decide

lemma codec32 : Codec 5 pbase32 decode32Table toLower where
  value := by decide
  char := forall_table
    (P := fun x c => x ≠ -1 → x.toNat < 2 ^ 5 ∧ pbase32.getD x.toNat 0 = toLower c)
    (by decide +kernel) (by decide +kernel)
  table_norm c := by
    have hall : ∀ n < 26, decode32Table.getD (97 + n) 0 = decode32Table.getD (65 + n) 0 := by
      decide +kernel
    rcases toLower_eq c with heq | ⟨n, hn, hc, hlower⟩
    · rw [heq]
    · rw [hc, hlower]
      exact hall n hn
  fill := by decide
  norm_fill c := by
    rcases toLower_eq c with heq | ⟨n, hn, hc, hlower⟩
    · rw [heq]
    · rw [← UInt8.toNat_inj, ← UInt8.toNat_inj, hc, hlower, show (61 : UInt8).toNat = 61 from rfl]
      omega
  ne_nul := by decide

variable {alphabet : List UInt8} {table : List ℤ} {norm : UInt8 → UInt8} {str q : List UInt8}

lemma lookUp_cons_of_ne {c : UInt8} (h : table.getD c.toNat 0 ≠ -1) (p : List UInt8) :
    lookUp table (c :: p) =
      ((table.getD c.toNat 0).toNat :: (lookUp table p).1, (lookUp table p).2) :=
  if_neg h

lemma Codec.lookUp_chars (h : Codec t alphabet table norm) {vs : List ℕ}
    (hvs : ∀ v ∈ vs, v < 2 ^ t) (hq : q = [] ∨ q.head? = some 61) :
    lookUp table ((vs.map fun v => alphabet.getD v 0) ++ q) = (vs, q) := by
  induction vs with
  | nil =>
    cases q with
    | nil => rfl
    | cons c q =>
      have hc : c = 61 := by simpa using hq
      rw [hc]
      exact if_pos h.fill
  | cons v vs ih =>
    obtain ⟨hv, hvs⟩ := List.forall_mem_cons.mp hvs
    have hvalue := h.value v hv
    rw [List.map_cons, List.cons_append, lookUp_cons_of_ne (by rw [hvalue]; omega), ih hvs, hvalue]
    rfl

lemma Codec.lookUp_spec (h : Codec t alphabet table norm) (str : List UInt8) :
    (∀ v ∈ (lookUp table str).1, v < 2 ^ t) ∧
      str.map norm = ((lookUp table str).1.map fun v => alphabet.getD v 0) ++
        (lookUp table str).2.map norm := by
  induction str with
  | nil => exact ⟨nofun, rfl⟩
  | cons c str ih =>
    by_cases hc : table.getD c.toNat 0 = -1
    · rw [lookUp]
      simp only [if_pos hc]
      exact ⟨nofun, rfl⟩
    · obtain ⟨hlt, hchar⟩ := h.char c hc
      rw [lookUp_cons_of_ne hc, List.map_cons, ih.2]
      refine ⟨List.forall_mem_cons.mpr ⟨hlt, ih.1⟩, ?_⟩
      rw [List.map_cons, hchar]
      rfl

lemma Codec.lookUp_norm (h : Codec t alphabet table norm) (str : List UInt8) :
    lookUp table (str.map norm) = ((lookUp table str).1, (lookUp table str).2.map norm) := by
  induction str with
  | nil => rfl
  | cons c str ih =>
    rw [List.map_cons]
    simp only [lookUp, h.table_norm]
    split_ifs with hc
    · rfl
    · rw [ih]

lemma fillUp_eq (hmod : (str.length + k) % group = 0) (hk : k < group) {fuel : ℕ}
    (hfuel : k ≤ fuel) :
    fillUp group fuel str = str ++ List.replicate k 61 := by
  induction k generalizing str fuel with
  | zero =>
    rw [Nat.add_zero] at hmod
    rw [List.replicate_zero, List.append_nil]
    cases fuel with
    | zero => rfl
    | succ fuel => rw [fillUp, if_neg (not_not.mpr hmod)]
  | succ k ih =>
    have hne : str.length % group ≠ 0 := by
      intro h0
      rw [Nat.add_mod, h0, Nat.zero_add, Nat.mod_mod, Nat.mod_eq_of_lt hk] at hmod
      omega
    have hnext : ((str ++ [61]).length + k) % group = 0 := by
      rw [List.length_append, List.length_singleton, Nat.add_right_comm]
      exact hmod
    obtain ⟨fuel, rfl⟩ := Nat.exists_eq_add_of_le' (Nat.one_le_of_lt (k.succ_pos.trans_le hfuel))
    rw [fillUp, if_pos hne, ih hnext (by omega) (by omega), List.append_assoc, List.replicate_succ]
    rfl

lemma exists_fill (hgroup : 0 < group) (n : ℕ) : ∃ k < group, (n + k) % group = 0 := by
  refine ⟨(group - n % group) % group, Nat.mod_lt _ hgroup, ?_⟩
  have hlt := Nat.mod_lt n hgroup
  rw [Nat.add_mod, Nat.mod_mod, ← Nat.add_mod_mod, Nat.mod_mod, Nat.add_mod_mod,
    Nat.add_sub_of_le hlt.le, Nat.mod_self]

lemma toNat_lt_bytes (pch : List UInt8) : ∀ x ∈ pch.map UInt8.toNat, x < 2 ^ 8 := by
  intro x hx
  obtain ⟨b, -, rfl⟩ := List.mem_map.mp hx
  exact b.toNat_lt

lemma ofNat_toNat_bytes (pch : List UInt8) : (pch.map UInt8.toNat).map UInt8.ofNat = pch := by
  rw [List.map_map]
  exact List.map_id'' (fun b => UInt8.ofNat_toNat) pch

lemma toNat_ofNat_bytes (hxs : ∀ x ∈ xs, x < 2 ^ 8) :
    (xs.map UInt8.ofNat).map UInt8.toNat = xs := by
  rw [List.map_map]
  refine (List.map_congr_left fun x hx => ?_).trans (List.map_id xs)
  exact UInt8.toNat_ofNat_of_lt' (hxs x hx)

lemma encode_eq (ht : 0 < t) (hgroup : 0 < group) (alphabet pch : List UInt8) :
    ∃ vs k, vs = (convertBits 8 t true (pch.map UInt8.toNat)).1 ∧ (∀ v ∈ vs, v < 2 ^ t) ∧
      (vs.length + k) % group = 0 ∧ k < group ∧
      encode t group alphabet pch = (vs.map fun v => alphabet.getD v 0) ++ List.replicate k 61 := by
  obtain ⟨p, hpads⟩ := convertBits_pad ht (toNat_lt_bytes pch)
  obtain ⟨k, hk, hmod⟩ := exists_fill hgroup (convertBits 8 t true (pch.map UInt8.toNat)).1.length
  exact ⟨_, k, rfl, hpads.digits, hmod, hk, fillUp_eq (by rwa [List.length_map]) hk hk.le⟩

lemma Codec.decode_encode (h : Codec t alphabet table norm) (ht : 0 < t) (ht8 : t ≤ 8)
    (hgroup : 0 < group) (pch : List UInt8) :
    decode t group table (encode t group alphabet pch) = (pch, true) := by
  obtain ⟨vs, k, hvs, hlt, hmod, hk, henc⟩ := encode_eq ht hgroup alphabet pch
  have hfill : List.replicate k (61 : UInt8) = [] ∨
      (List.replicate k (61 : UInt8)).head? = some 61 := by
    cases k with
    | zero => exact Or.inl rfl
    | succ k => exact Or.inr rfl
  have hback := convertBits_pad_back ht ht8 (toNat_lt_bytes pch)
  rw [← hvs] at hback
  have hall : (List.replicate k (61 : UInt8)).all (· = 61) = true := by simp
  simp only [decode]
  rw [henc, h.lookUp_chars hlt hfill, hback, ofNat_toNat_bytes, hall, List.length_replicate,
    decide_eq_true hmod, decide_eq_true hk]
  rfl

lemma Codec.decode_norm (h : Codec t alphabet table norm) (str : List UInt8) :
    decode t group table (str.map norm) = decode t group table str := by
  have hall : ∀ q : List UInt8, (q.map norm).all (· = 61) = q.all (· = 61) := by
    intro q
    rw [List.all_map]
    exact List.all_congr rfl fun c => decide_eq_decide.mpr (h.norm_fill c)
  simp only [decode]
  rw [h.lookUp_norm, hall, List.length_map]

lemma Codec.encode_decode (h : Codec t alphabet table norm) (ht : 0 < t) (ht8 : t ≤ 8)
    (hvalid : (decode t group table str).2 = true) :
    str.map norm = encode t group alphabet (decode t group table str).1 := by
  obtain ⟨hlt, hstr⟩ := h.lookUp_spec str
  simp only [decode, Bool.and_eq_true, decide_eq_true_eq, List.all_eq_true] at hvalid
  obtain ⟨⟨⟨hconv, hall⟩, hmod⟩, hk⟩ := hvalid
  obtain ⟨rem, bits, htakes, -, -⟩ := convertBits_strict (ht.trans_le ht8) hlt
  have hback := convertBits_strict_back ht ht8 hlt hconv
  have hrest : (lookUp table str).2.map norm =
      List.replicate (lookUp table str).2.length (61 : UInt8) := by
    refine List.eq_replicate_iff.mpr ⟨List.length_map _, fun c hc => ?_⟩
    obtain ⟨d, hd, rfl⟩ := List.mem_map.mp hc
    exact (h.norm_fill d).mpr (hall d hd)
  simp only [decode, encode]
  rw [toNat_ofNat_bytes htakes.digits, hback, fillUp_eq (by rwa [List.length_map]) hk hk.le,
    ← hrest]
  exact hstr

lemma Codec.notMem_encode (h : Codec t alphabet table norm) (ht : 0 < t) (hgroup : 0 < group)
    (pch : List UInt8) : 0 ∉ encode t group alphabet pch := by
  obtain ⟨vs, k, -, hlt, -, -, henc⟩ := encode_eq ht hgroup alphabet pch
  rw [henc]
  intro hmem
  rcases List.mem_append.mp hmem with hmem | hmem
  · obtain ⟨v, hv, hzero⟩ := List.mem_map.mp hmem
    exact h.ne_nul v (hlt v hv) hzero
  · exact absurd (List.eq_of_mem_replicate hmem) (by decide)

lemma Codec.valid_iff (h : Codec t alphabet table norm) (ht : 0 < t) (ht8 : t ≤ 8)
    (hgroup : 0 < group) (str : List UInt8) :
    (decode t group table str).2 = true ↔
      str.map norm = encode t group alphabet (decode t group table str).1 := by
  refine ⟨h.encode_decode ht ht8, fun hstr => ?_⟩
  rw [← h.decode_norm, hstr, h.decode_encode ht ht8 hgroup]

/-- **Decoding is strict**: a string is valid if and only if it is the encoding of what it decodes
to, every vector of bytes is decoded from its encoding, and only one string is decoded to it. -/
theorem base64_strict :
    (∀ str, 0 ∉ str → ((decodeBase64 str).2 = true ↔ str = encodeBase64 (decodeBase64 str).1)) ∧
    (∀ str, 0 ∉ str →
      ((decodeBase32 str).2 = true ↔ str.map toLower = encodeBase32 (decodeBase32 str).1)) ∧
    (∀ pch, decodeBase64 (encodeBase64 pch) = (pch, true) ∧
      decodeBase32 (encodeBase32 pch) = (pch, true)) ∧
    (∀ str str', 0 ∉ str → 0 ∉ str' → (decodeBase64 str).2 = true → (decodeBase64 str').2 = true →
      (decodeBase64 str).1 = (decodeBase64 str').1 → str = str') ∧
    ∀ str str', 0 ∉ str → 0 ∉ str' → (decodeBase32 str).2 = true → (decodeBase32 str').2 = true →
      (decodeBase32 str).1 = (decodeBase32 str').1 → str.map toLower = str'.map toLower := by
  have h64 : ∀ str, 0 ∉ str →
      ((decodeBase64 str).2 = true ↔ str = encodeBase64 (decodeBase64 str).1) := by
    intro str h0
    have hiff : (decode 6 4 decode64Table str).2 = true ↔ _ :=
      codec64.valid_iff (by decide) (by decide) (by decide) str
    rw [List.map_id] at hiff
    rwa [decodeBase64, Base58.cStr_eq_self h0]
  have h32 : ∀ str, 0 ∉ str →
      ((decodeBase32 str).2 = true ↔ str.map toLower = encodeBase32 (decodeBase32 str).1) := by
    intro str h0
    rw [decodeBase32, Base58.cStr_eq_self h0]
    exact codec32.valid_iff (by decide) (by decide) (by decide) str
  refine ⟨h64, h32, fun pch => ⟨?_, ?_⟩, fun str str' h0 h0' hv hv' heq => ?_,
    fun str str' h0 h0' hv hv' heq => ?_⟩
  · rw [decodeBase64, encodeBase64,
      Base58.cStr_eq_self (codec64.notMem_encode (by decide) (by decide) pch)]
    exact codec64.decode_encode (by decide) (by decide) (by decide) pch
  · rw [decodeBase32, encodeBase32,
      Base58.cStr_eq_self (codec32.notMem_encode (by decide) (by decide) pch)]
    exact codec32.decode_encode (by decide) (by decide) (by decide) pch
  · rw [(h64 str h0).mp hv, (h64 str' h0').mp hv', heq]
  · rw [(h32 str h0).mp hv, (h32 str' h0').mp hv', heq]

end Base64

end Agenor
