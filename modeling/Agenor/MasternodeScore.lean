import Agenor.Lib.Run
import Agenor.Lib.Wrap
import Agenor.Transaction

/-!
The block hashes that masternodes are elected with (`GetBlockHash` and `CalculateScore` of
`masternode.cpp`).

What `GetBlockHash` has found is kept in a map by height and never taken out again. So a block that
is replaced by another one still decides the election when its height has been asked for before.
-/

namespace Agenor

open Lib Lib.Wrap

/-- The active chain, its tip first, and the hashes that have been asked for. -/
structure BlockHashes where
  chainActive : List Uint256
  mapCacheBlockHashes : ℤ → Option Uint256

/-- The two hashes that a score is made of. -/
structure ScoreHasher where
  one : Uint256 → Uint256
  two : Uint256 → Uint256 → Uint256

namespace BlockHashes

variable (s : BlockHashes)

/-- The node has been started, and nothing has been asked for. -/
def start (chain : List Uint256) : BlockHashes := ⟨chain, fun _ => none⟩

def nHeight : ℤ := s.chainActive.length - 1

/-- The hash of the block of the active chain at some height. -/
def hashAt (height : ℕ) : Option Uint256 := s.chainActive.reverse[height]?

/-- The loop of `GetBlockHash`: down from the tip, but not to the genesis block. -/
def searchBack (nBlocksAgo : ℤ) : List Uint256 → ℤ → Option Uint256
  | [], _ => none
  | [_], _ => none
  | hash :: prev :: rest, n =>
    if nBlocksAgo ≤ n then some hash else searchBack nBlocksAgo (prev :: rest) (n + 1)

/-- The height that is looked for: `0` stands for the tip. -/
def key (nBlockHeight : ℤ) : ℤ := if nBlockHeight = 0 then s.nHeight else nBlockHeight

/-- What `GetBlockHash` finds when it does not remember the height. -/
def lookUp (nBlockHeight : ℤ) : Option Uint256 :=
  let nBlocksAgo := if 0 < nBlockHeight then s.nHeight + 1 - nBlockHeight else 0
  if nBlocksAgo < 0 then none else searchBack nBlocksAgo s.chainActive 0

def getBlockHash (nBlockHeight : ℤ) : BlockHashes × Option Uint256 :=
  if s.chainActive.length ≤ 1 then (s, none)
  else
    match s.mapCacheBlockHashes (s.key nBlockHeight) with
    | some hash => (s, some hash)
    | none =>
      match s.lookUp (s.key nBlockHeight) with
      | some hash =>
        ({ s with mapCacheBlockHashes :=
            Function.update s.mapCacheBlockHashes (s.key nBlockHeight) (some hash) }, some hash)
      | none => (s, none)

/-- `CMasternode::CalculateScore`. The height is passed on as an `int`. -/
def calculateScore (H : ScoreHasher) (vin : CTxIn) (nBlockHeight : ℤ) : BlockHashes × Uint256 :=
  if s.chainActive.isEmpty then (s, 0)
  else
    match s.getBlockHash (wrap 32 nBlockHeight) with
    | (s, none) => (s, 0)
    | (s, some hash) =>
      let aux := vin.prevout.hash + BitVec.ofNat 256 vin.prevout.n
      let hash2 := H.one hash
      let hash3 := H.two hash aux
      (s, if hash2 < hash3 then hash3 - hash2 else hash2 - hash3)

/-- What happens to the chain and the map. A reorganisation is a row of blocks that are disconnected
and others that are connected; the genesis block stays. -/
inductive Op
  | connect (hash : Uint256)
  | disconnect
  | getBlockHash (nBlockHeight : ℤ)

def step : Op → BlockHashes
  | .connect hash => { s with chainActive := hash :: s.chainActive }
  | .disconnect =>
    if s.chainActive.length ≤ 1 then s else { s with chainActive := s.chainActive.tail }
  | .getBlockHash nBlockHeight => (s.getBlockHash nBlockHeight).1

/-- A block is connected only when no other one is remembered for its height. -/
def Careful : Op → Prop
  | .connect hash => ∀ x, s.mapCacheBlockHashes (s.nHeight + 2) = some x → x = hash
  | _ => True

/-- Blocks come and go only while the tip has not been asked for with a negative height, and a block
goes only when it has not been asked for. -/
def Steady : Op → Prop
  | .connect _ => ∀ h < 0, s.mapCacheBlockHashes h = none
  | .disconnect => (∀ h < 0, s.mapCacheBlockHashes h = none) ∧
    s.mapCacheBlockHashes (s.nHeight + 1) = none
  | .getBlockHash _ => True

variable {s}

/-! ### The loop -/

lemma searchBack_eq (ago : ℤ) (l : List Uint256) (k : ℕ) :
    searchBack ago l (ago - k) = if k + 1 < l.length then l[k]? else none := by
  induction l generalizing k with
  | nil => simp [searchBack]
  | cons hash l ih =>
    cases l with
    | nil => simp [searchBack]
    | cons prev rest =>
      rw [searchBack]
      cases k with
      | zero => simp
      | succ k =>
        have hk : ¬ ago ≤ ago - ((k + 1 : ℕ) : ℤ) := by omega
        have hnext : ago - ((k + 1 : ℕ) : ℤ) + 1 = ago - (k : ℤ) := by omega
        rw [if_neg hk, hnext, ih k]
        simp

lemma lookUp_of_pos {h : ℤ} (hpos : 0 < h) :
    s.lookUp h = if 1 < h ∧ h ≤ s.nHeight + 1 then s.hashAt (h - 1).toNat else none := by
  unfold lookUp
  simp only [if_pos hpos]
  by_cases hle : h ≤ s.nHeight + 1
  · have hago : ¬ s.nHeight + 1 - h < 0 := by omega
    obtain ⟨k, hk⟩ := Int.eq_ofNat_of_zero_le (not_lt.mp hago)
    have hstart : (0 : ℤ) = s.nHeight + 1 - h - (k : ℤ) := by omega
    rw [if_neg hago]
    rw [hstart, searchBack_eq]
    unfold nHeight at hk hle
    by_cases hone : 1 < h
    · have hlt : k + 1 < s.chainActive.length := by omega
      have hidx : s.chainActive.length - 1 - (h - 1).toNat = k := by omega
      rw [if_pos hlt, if_pos ⟨hone, hle⟩, hashAt, List.getElem?_reverse (by omega), hidx]
    · rw [if_neg (by omega), if_neg (fun h => hone h.1)]
  · rw [if_pos (by omega), if_neg (fun h => hle h.2)]

lemma nHeight_pos (h : ¬ s.chainActive.length ≤ 1) : 0 < s.nHeight := by
  unfold nHeight
  omega

lemma getBlockHash_of_none {h : ℤ} (hlen : ¬ s.chainActive.length ≤ 1)
    (hnone : s.mapCacheBlockHashes (s.key h) = none) :
    s.getBlockHash h = (⟨s.chainActive, Function.update s.mapCacheBlockHashes (s.key h)
      (s.lookUp (s.key h))⟩, s.lookUp (s.key h)) := by
  rw [getBlockHash, if_neg hlen, hnone]
  cases hlook : s.lookUp (s.key h) with
  | none =>
    have hsame : Function.update s.mapCacheBlockHashes (s.key h) none = s.mapCacheBlockHashes := by
      rw [← hnone, Function.update_eq_self]
    rw [hsame]
  | some hash => rfl

@[simp] lemma getBlockHash_chainActive (h : ℤ) :
    (s.getBlockHash h).1.chainActive = s.chainActive := by
  unfold getBlockHash
  split_ifs
  · rfl
  · split
    · rfl
    · split <;> rfl

lemma getBlockHash_cache {h k : ℤ} {x : Uint256}
    (hx : (s.getBlockHash h).1.mapCacheBlockHashes k = some x) :
    s.mapCacheBlockHashes k = some x ∨ 0 < s.nHeight ∧ k = s.key h ∧ s.lookUp k = some x := by
  by_cases hlen : s.chainActive.length ≤ 1
  · rw [getBlockHash, if_pos hlen] at hx
    exact .inl hx
  · cases hcache : s.mapCacheBlockHashes (s.key h) with
    | some y =>
      rw [getBlockHash, if_neg hlen, hcache] at hx
      exact .inl hx
    | none =>
      rw [getBlockHash_of_none hlen hcache] at hx
      dsimp only at hx
      by_cases hk : k = s.key h
      · rw [hk, Function.update_self] at hx
        exact .inr ⟨nHeight_pos hlen, hk, hk ▸ hx⟩
      · rw [Function.update_of_ne hk] at hx
        exact .inl hx

/-! ### Heights of the chain -/

/-- What is remembered for a height of the chain is right. -/
structure Right (s : BlockHashes) : Prop where
  one : s.mapCacheBlockHashes 1 = none
  right : ∀ h x, 1 < h → h ≤ s.nHeight + 1 → s.mapCacheBlockHashes h = some x →
    s.hashAt (h - 1).toNat = some x

lemma right_start (chain : List Uint256) : Right (start chain) :=
  ⟨rfl, fun _ _ _ _ h => by cases h⟩

lemma hashAt_connect {hash : Uint256} {k : ℕ} (hk : k < s.chainActive.length) :
    (s.step (.connect hash)).hashAt k = s.hashAt k := by
  have hk : k < s.chainActive.reverse.length := by simpa using hk
  simp only [step, hashAt, List.reverse_cons]
  exact List.getElem?_append_left hk

lemma Right.step {op : Op} (h : Right s) (hop : s.Careful op) : Right (s.step op) := by
  cases op with
  | connect hash =>
    have hheight : (s.step (.connect hash)).nHeight = s.nHeight + 1 := by
      simp [BlockHashes.step, nHeight]
    refine ⟨h.one, fun k x hk hle hx => ?_⟩
    have hx : s.mapCacheBlockHashes k = some x := hx
    rw [hheight] at hle
    by_cases hnew : k = s.nHeight + 2
    · subst hnew
      obtain rfl := hop x hx
      have hidx : (s.nHeight + 2 - 1).toNat = s.chainActive.length := by
        unfold nHeight
        omega
      rw [hidx]
      simp [BlockHashes.step, hashAt]
    · rw [hashAt_connect (by unfold nHeight at hle hnew; omega)]
      exact h.right k x hk (by omega) hx
  | disconnect =>
    unfold BlockHashes.step
    split_ifs with hlen
    · exact h
    · refine ⟨h.one, fun k x hk hle hx => ?_⟩
      obtain ⟨chain, cache⟩ := s
      cases chain with
      | nil => simp at hlen
      | cons tip rest =>
        have hle : k ≤ (rest.length : ℤ) - 1 + 1 := hle
        have hkept := h.right k x hk (by simp [nHeight]; omega) hx
        rw [hashAt, List.reverse_cons, List.getElem?_append_left (by simp; omega)] at hkept
        exact hkept
  | getBlockHash q =>
    have hheight : (s.getBlockHash q).1.nHeight = s.nHeight := by simp [nHeight]
    refine ⟨?_, fun k x hk hle hx => ?_⟩
    · by_contra hne
      obtain ⟨x, hx⟩ := Option.ne_none_iff_exists'.mp hne
      rcases getBlockHash_cache hx with hx | ⟨-, -, hx⟩
      · simp [h.one] at hx
      · simp [lookUp_of_pos] at hx
    · have hle : k ≤ s.nHeight + 1 := hheight ▸ hle
      have hsame : (s.step (.getBlockHash q)).hashAt (k - 1).toNat = s.hashAt (k - 1).toNat := by
        simp [BlockHashes.step, hashAt]
      rw [hsame]
      rcases getBlockHash_cache hx with hx | ⟨-, -, hx⟩
      · exact h.right k x hk hle hx
      · rw [lookUp_of_pos (by omega), if_pos ⟨hk, hle⟩] at hx
        exact hx

lemma Right.getBlockHash (h : Right s) {q : ℤ} (hq : 1 < q) (hle : q ≤ s.nHeight + 1) :
    (s.getBlockHash q).2 = s.hashAt (q - 1).toNat := by
  have hlen : ¬ s.chainActive.length ≤ 1 := by
    unfold nHeight at hle
    omega
  have hkey : s.key q = q := if_neg (by omega)
  cases hcache : s.mapCacheBlockHashes (s.key q) with
  | none =>
    rw [getBlockHash_of_none hlen hcache, hkey, lookUp_of_pos (by omega), if_pos ⟨hq, hle⟩]
  | some x =>
    rw [BlockHashes.getBlockHash, if_neg hlen, hcache]
    rw [hkey] at hcache
    exact (h.right q x hq hle hcache).symm

lemma Right.getBlockHash_zero (h : Right s) :
    (s.getBlockHash 0).2 = if 1 < s.nHeight then s.hashAt (s.nHeight - 1).toNat else none := by
  by_cases hlen : s.chainActive.length ≤ 1
  · rw [BlockHashes.getBlockHash, if_pos hlen, if_neg (by unfold nHeight; omega)]
  · have hkey : s.key 0 = s.nHeight := if_pos rfl
    by_cases htip : 1 < s.nHeight
    · have hsame : s.getBlockHash 0 = s.getBlockHash s.nHeight := by
        have hkey' : s.key s.nHeight = s.nHeight := if_neg (by omega)
        rw [BlockHashes.getBlockHash, BlockHashes.getBlockHash, hkey, hkey']
      rw [hsame, h.getBlockHash htip (by omega), if_pos htip]
    · have hone : s.nHeight = 1 := by
        have := nHeight_pos hlen
        omega
      have hcache : s.mapCacheBlockHashes (s.key 0) = none := by rw [hkey, hone, h.one]
      rw [getBlockHash_of_none hlen hcache, hkey, hone, lookUp_of_pos one_pos]
      simp

/-! ### All heights -/

/-- Everything that is remembered would be found again. -/
structure Fresh (s : BlockHashes) : Prop where
  zero : s.mapCacheBlockHashes 0 = none
  fresh : ∀ h x, s.mapCacheBlockHashes h = some x → s.lookUp h = some x

lemma fresh_start (chain : List Uint256) : Fresh (start chain) :=
  ⟨rfl, fun _ _ h => by cases h⟩

lemma lookUp_congr {t : BlockHashes} (h : s.chainActive = t.chainActive) (q : ℤ) :
    s.lookUp q = t.lookUp q := by
  simp [lookUp, nHeight, h]

lemma Fresh.pos (h : Fresh s) (hneg : ∀ h < 0, s.mapCacheBlockHashes h = none) {q : ℤ} {x : Uint256}
    (hx : s.mapCacheBlockHashes q = some x) :
    1 < q ∧ q ≤ s.nHeight + 1 ∧ s.hashAt (q - 1).toNat = some x := by
  rcases lt_trichotomy q 0 with hq | rfl | hq
  · simp [hneg q hq] at hx
  · simp [h.zero] at hx
  · have hlook := h.fresh q x hx
    rw [lookUp_of_pos hq] at hlook
    split_ifs at hlook with hrange
    exact ⟨hrange.1, hrange.2, hlook⟩

lemma Fresh.step {op : Op} (h : Fresh s) (hop : s.Steady op) : Fresh (s.step op) := by
  cases op with
  | connect hash =>
    refine ⟨h.zero, fun q x hx => ?_⟩
    obtain ⟨hq, hle, hat⟩ := h.pos hop hx
    have hheight : (s.step (.connect hash)).nHeight = s.nHeight + 1 := by
      simp [BlockHashes.step, nHeight]
    rw [lookUp_of_pos (by omega), if_pos ⟨hq, by omega⟩,
      hashAt_connect (by unfold nHeight at hle; omega)]
    exact hat
  | disconnect =>
    unfold BlockHashes.step
    split_ifs with hlen
    · exact h
    · refine ⟨h.zero, fun q x hx => ?_⟩
      obtain ⟨hq, hle, hat⟩ := h.pos hop.1 hx
      have hne : q ≠ s.nHeight + 1 := by
        rintro rfl
        simp [hop.2] at hx
      obtain ⟨chain, cache⟩ := s
      cases chain with
      | nil => simp at hlen
      | cons tip rest =>
        have hlt : q ≤ (rest.length : ℤ) := by
          simp only [nHeight, List.length_cons, Nat.cast_add, Nat.cast_one] at hle hne
          omega
        rw [lookUp_of_pos (by omega), if_pos ⟨hq, by simp [nHeight]; omega⟩]
        rw [hashAt, List.reverse_cons, List.getElem?_append_left (by simp; omega)] at hat
        exact hat
  | getBlockHash q =>
    have hsame : ∀ k, (s.step (.getBlockHash q)).lookUp k = s.lookUp k := fun k =>
      lookUp_congr (getBlockHash_chainActive q) k
    refine ⟨?_, fun k x hx => ?_⟩
    · by_contra hne
      obtain ⟨x, hx⟩ := Option.ne_none_iff_exists'.mp hne
      rcases getBlockHash_cache hx with hx | ⟨hpos, hkey, -⟩
      · simp [h.zero] at hx
      · unfold key at hkey
        split_ifs at hkey <;> omega
    · rw [hsame]
      rcases getBlockHash_cache hx with hx | ⟨-, -, hx⟩
      · exact h.fresh k x hx
      · exact hx

lemma Fresh.getBlockHash (h : Fresh s) (q : ℤ) :
    (s.getBlockHash q).2 = if s.chainActive.length ≤ 1 then none else s.lookUp (s.key q) := by
  by_cases hlen : s.chainActive.length ≤ 1
  · rw [BlockHashes.getBlockHash, if_pos hlen, if_pos hlen]
  · rw [if_neg hlen]
    cases hcache : s.mapCacheBlockHashes (s.key q) with
    | none => rw [getBlockHash_of_none hlen hcache]
    | some x =>
      rw [BlockHashes.getBlockHash, if_neg hlen, hcache, h.fresh _ x hcache]

/-! ### The election -/

lemma calculateScore_congr {t : BlockHashes} (H : ScoreHasher) (vin : CTxIn) {h : ℤ}
    (hchain : s.chainActive = t.chainActive)
    (hhash : (s.getBlockHash (wrap 32 h)).2 = (t.getBlockHash (wrap 32 h)).2) :
    (s.calculateScore H vin h).2 = (t.calculateScore H vin h).2 := by
  unfold calculateScore
  rw [hchain]
  by_cases hempty : t.chainActive.isEmpty
  · rw [if_pos hempty, if_pos hempty]
  · rw [if_neg hempty, if_neg hempty]
    cases hs : s.getBlockHash (wrap 32 h) with
    | mk s' r =>
      cases ht : t.getBlockHash (wrap 32 h) with
      | mk t' r' =>
        rw [hs, ht] at hhash
        dsimp only at hhash
        subst hhash
        cases r <;> rfl

/-- The height is that of a block of the chain, the next one, or `0`. -/
def InChain (s : BlockHashes) (h : ℤ) : Prop := h = 0 ∨ 1 < h ∧ h ≤ s.nHeight + 1

lemma Right.getBlockHash_congr {t : BlockHashes} (hs : Right s) (ht : Right t)
    (hchain : s.chainActive = t.chainActive) {q : ℤ} (hq : s.InChain q) :
    (s.getBlockHash q).2 = (t.getBlockHash q).2 := by
  have hheight : s.nHeight = t.nHeight := by simp [nHeight, hchain]
  have hat : ∀ k, s.hashAt k = t.hashAt k := fun k => by simp [hashAt, hchain]
  rcases hq with rfl | ⟨hq, hle⟩
  · rw [hs.getBlockHash_zero, ht.getBlockHash_zero, hheight, hat]
  · rw [hs.getBlockHash hq hle, ht.getBlockHash hq (hheight ▸ hle), hat]

/-- **The election depends on the chain only.** As long as no block is connected at a height that
another block is remembered for, `GetBlockHash` answers with the block of the active chain below
the height, and nodes with the same chain compute the same scores for its heights. They do so for
all heights as long as no block is disconnected that has been asked for, and none comes or goes when
a negative height has been asked for. -/
theorem getBlockHash_of_run (chain : List Uint256) (l : List Op) (s : BlockHashes) :
    (Run step Careful (start chain) l s →
      ∀ h, 1 < h → h ≤ s.nHeight + 1 → (s.getBlockHash h).2 = s.hashAt (h - 1).toNat) ∧
    (∀ chain' l' s', Run step Careful (start chain) l s →
      Run step Careful (start chain') l' s' → s.chainActive = s'.chainActive →
      ∀ H vin h, s.InChain (wrap 32 h) →
        (s.calculateScore H vin h).2 = (s'.calculateScore H vin h).2) ∧
    ∀ chain' l' s', Run step Steady (start chain) l s →
      Run step Steady (start chain') l' s' → s.chainActive = s'.chainActive →
      ∀ H vin h, (s.calculateScore H vin h).2 = (s'.calculateScore H vin h).2 := by
  have hright : ∀ {chain l s}, Run step Careful (start chain) l s → Right s := fun hrun =>
    hrun.invariant (right_start _) fun _ _ hs hop => hs.step hop
  have hfresh : ∀ {chain l s}, Run step Steady (start chain) l s → Fresh s := fun hrun =>
    hrun.invariant (fresh_start _) fun _ _ hs hop => hs.step hop
  refine ⟨fun hrun h hh hle => ?_, ?_, ?_⟩
  · exact (hright hrun).getBlockHash hh hle
  · intro chain' l' s' hrun hrun' hchain H vin h hh
    exact calculateScore_congr H vin hchain
      ((hright hrun).getBlockHash_congr (hright hrun') hchain hh)
  · intro chain' l' s' hrun hrun' hchain H vin h
    refine calculateScore_congr H vin hchain ?_
    have hkey : s.key (wrap 32 h) = s'.key (wrap 32 h) := by simp [key, nHeight, hchain]
    rw [(hfresh hrun).getBlockHash, (hfresh hrun').getBlockHash, hchain, hkey, lookUp_congr hchain]

end BlockHashes

end Agenor

namespace Agenor.Concrete

open BlockHashes

/-- The tip is replaced; the height of the block below it has been asked for. -/
def reorgBelow : List Op := [.connect 2, .getBlockHash 2, .disconnect, .connect 3]

/-- The tip is replaced after it has been asked for. -/
def reorgAsked : List Op := [.connect 2, .getBlockHash 3, .disconnect, .connect 3]

end Agenor.Concrete

namespace Agenor.BlockHashes

open Lib Concrete

/-- The block that has come in decides. -/
theorem getBlockHash_after_reorg :
    ∃ s, Run step Careful (start [1, 0]) reorgBelow s ∧ (s.getBlockHash 3).2 = s.hashAt 2 ∧
      s.hashAt 2 = some 3 := by
  have hallowed : Run.Allowed step Careful (start [1, 0]) reorgBelow := by
    refine ⟨fun x hx => ?_, trivial, trivial, fun x hx => ?_, trivial⟩
    · cases hx
    · have hnone : ((((start [1, 0]).step (.connect 2)).step (.getBlockHash 2)).step
          .disconnect).mapCacheBlockHashes 3 = none := by decide
      exact absurd (hnone.symm.trans hx) (by simp)
  have hrun := Run.nil.append_allowed hallowed
  exact ⟨_, hrun, (getBlockHash_of_run _ _ _).1 hrun 3 (by decide) (by decide), by decide⟩

/-- The block that has gone still decides. -/
theorem getBlockHash_of_a_block_that_is_gone :
    ¬ ∀ (chain : List Uint256) (l : List Op) (s : BlockHashes),
      Run step (fun _ _ => True) (start chain) l s →
      ∀ h, 1 < h → h ≤ s.nHeight + 1 → (s.getBlockHash h).2 = s.hashAt (h - 1).toNat := by
  intro h
  have hrun : Run step (fun _ _ => True) (start [1, 0]) reorgAsked
      (reorgAsked.foldl step (start [1, 0])) := Run.nil.append fun _ _ _ => trivial
  exact absurd (h _ _ _ hrun 3 (by decide) (by decide)) (by decide)

end Agenor.BlockHashes
