import Agenor.GetBlocks

/-!
How far a node gets with `getblocks`: over every run in which the chain of the peer stays as it is.

Each announcement covers what is between two heights, so that the state of both is known from a few
numbers; `Phase` says for each stage of a round what these are, and how many steps are left.
-/

namespace Agenor

open Lib Lib.Ancestry CChain BlockMap

/-! ### The chain of the peer -/

/-- These are the entries of the chain. -/
structure Along (s : BlockMap Uint256) (c : CChain Uint256) (P : List Uint256) : Prop where
  chain : c.vChain = P.map some
  height : ∀ i (h : i < P.length), s.nHeight P[i] = i
  parent : ∀ i (h : i + 1 < P.length), s.pprev P[i + 1] = some P[i]
  index : ∀ hash ∈ P, hash ∈ s.mapBlockIndex

structure Serves (env : ServedChain) (P : List Uint256) : Prop
    extends Along env.index env.chainActive P where
  data : ∀ hash ∈ P, env.haveData hash = true
  zero : (0 : Uint256) ∉ P

/-- What is from one height on and below another one. -/
def segment (P : List Uint256) (i m : ℕ) : List Uint256 := (P.take m).drop i

variable {P : List Uint256} {env : ServedChain} {i k m e n : ℕ} {hashStop : Uint256}

lemma segment_nil (h : m ≤ i) : segment P i m = [] :=
  List.drop_eq_nil_of_le (by rw [List.length_take]; omega)

lemma segment_cons (him : i < m) (hm : m ≤ P.length) :
    segment P i m = P[i] :: segment P (i + 1) m := by
  have hlen : i < (P.take m).length := by
    rw [List.length_take]
    omega
  rw [segment, List.drop_eq_getElem_cons hlen, List.getElem_take]
  rfl

lemma segment_snoc (him : i ≤ m) (hm : m < P.length) :
    segment P i (m + 1) = segment P i m ++ [P[m]] := by
  have hlen : i ≤ (P.take m).length := by
    rw [List.length_take]
    omega
  rw [segment, segment, List.take_succ_eq_append_getElem hm, List.drop_append_of_le_length hlen]

lemma length_segment (hm : m ≤ P.length) : (segment P i m).length = m - i := by
  rw [segment, List.length_drop, List.length_take_of_le hm]

namespace Along

variable {s : BlockMap Uint256} {c : CChain Uint256}

lemma nodup (h : Along s c P) : P.Nodup := by
  rw [List.nodup_iff_injective_getElem]
  rintro ⟨a, ha⟩ ⟨b, hb⟩ heq
  have hh := congrArg s.nHeight heq
  rw [h.height a ha, h.height b hb] at hh
  exact Fin.ext hh

lemma contains (h : Along s c P) (hi : i < P.length) : c.contains s P[i] = true := by
  rw [contains_iff, h.chain, h.height i hi]
  simp [hi]

lemma get (h : Along s c P) (i : ℕ) : c.get i = P[i]? := by
  rw [get_natCast, h.chain, List.getElem?_map]
  cases P[i]? <;> rfl

lemma tip (h : Along s c P) : c.tip = P.getLast? := by
  rw [CChain.tip, h.chain, List.getLast?_map]
  cases P.getLast? <;> rfl

lemma of_run {t : Uint256} (h : Run s c (some t)) (hchain : c.vChain = P.map some) :
    Along s c P := by
  obtain ⟨hbuilt, ht, hpath⟩ := h.isPathTo
  have hskip := hbuilt.skipped
  have hslot : ∀ i (hi : i < P.length), c.vChain[i]? = some (some P[i]) := by
    intro i hi
    rw [hchain, List.getElem?_map, List.getElem?_eq_getElem hi]
    rfl
  have hentry : ∀ i (hi : i < P.length), Anc s.pprev P[i] t ∧ s.nHeight P[i] = i := by
    intro i hi
    have hle : i ≤ s.nHeight t := by
      have hlen := hpath.length
      rw [hchain, List.length_map] at hlen
      omega
    obtain ⟨a, ha, hanc, hh⟩ := hpath.below i hle
    rw [hslot i hi] at ha
    obtain rfl := Option.some.inj (Option.some.inj ha)
    exact ⟨hanc, hh⟩
  refine ⟨hchain, fun i hi => (hentry i hi).2, ?_, ?_⟩
  · intro i hi
    obtain ⟨hanc, hh⟩ := hentry (i + 1) hi
    have hin := hskip.graded.mem ht hanc
    cases hp : s.pprev P[i + 1] with
    | none =>
      have := hskip.root _ hin hp
      omega
    | some p =>
      -- the parent is an ancestor of the tip as well, and stands one slot lower
      have hlow := hskip.graded.height hin hp
      have hpslot := (hpath.anc_iff hskip.graded ht).mpr ((Anc.of_parent hp).trans hanc)
      have heq : s.nHeight p = i := by omega
      rw [heq, hslot i (by omega)] at hpslot
      rw [Option.some.inj (Option.some.inj hpslot)]
  · intro hash hhash
    obtain ⟨i, hi, rfl⟩ := List.getElem_of_mem hhash
    exact hskip.graded.mem ht (hentry i hi).1

end Along

namespace Serves

lemma next (h : Serves env P) (hi : i < P.length) : env.next P[i] = P[i + 1]? := by
  rw [ServedChain.next, if_pos (h.contains hi), h.height i hi]
  exact_mod_cast h.get (i + 1)

lemma findFork (h : Serves env P) (hk : k < P.length) {vHave : List Uint256}
    (hhead : vHave.head? = some P[k]) : env.findForkInGlobalIndex vHave = some P[k] := by
  obtain ⟨rest, rfl⟩ : ∃ rest, vHave = P[k] :: rest := by
    cases vHave with
    | nil => cases hhead
    | cons a rest => exact ⟨rest, by rw [Option.some.inj hhead]⟩
  have hin := h.index P[k] (List.getElem_mem hk)
  simp [ServedChain.findForkInGlobalIndex, hin, h.contains hk]

end Serves

/-- The height at which the announcements stop. -/
structure StopsAt (P : List Uint256) (hashStop : Uint256) (e : ℕ) : Prop where
  le : e ≤ P.length
  before : ∀ i (h : i < P.length), i < e → P[i] ≠ hashStop
  there : ∀ h : e < P.length, P[e] = hashStop

lemma Serves.stops_zero (h : Serves env P) : StopsAt P 0 P.length := by
  refine ⟨le_rfl, ?_, ?_⟩
  · intro i hi _ heq
    exact h.zero (heq ▸ List.getElem_mem hi)
  · intro hlt
    omega

lemma Serves.stops_at (h : Serves env P) (he : e < P.length) : StopsAt P P[e] e := by
  refine ⟨he.le, ?_, fun _ => rfl⟩
  intro i hi hlt heq
  have := (List.Nodup.getElem_inj_iff h.nodup).mp heq
  omega

lemma Serves.pushBlocks (h : Serves env P) (hstop : StopsAt P hashStop e) (hn : 0 < n)
    (hi : i ≤ e) :
    env.pushBlocks hashStop n P[i]? =
      (segment P i (min e (i + n)), if i + n ≤ e then P[i + n - 1]? else none) := by
  induction n generalizing i with
  | zero => omega
  | succ n ih =>
    have hle := hstop.le
    by_cases hend : i = e
    · subst hend
      rw [segment_nil (by omega), if_neg (by omega)]
      by_cases hlen : i < P.length
      · rw [List.getElem?_eq_getElem hlen]
        simp [ServedChain.pushBlocks, hstop.there hlen]
      · rw [List.getElem?_eq_none (by omega)]
        rfl
    · have hlen : i < P.length := by omega
      rw [List.getElem?_eq_getElem hlen, ServedChain.pushBlocks,
        if_neg (hstop.before i hlen (by omega))]
      cases n with
      | zero =>
        rw [if_pos rfl, segment_cons (by omega) (by omega), segment_nil (by omega),
          if_pos (by omega)]
        simp [hlen]
      | succ n =>
        rw [if_neg (by omega), h.next hlen, ih (by omega) (by omega)]
        rw [segment_cons (i := i) (by omega) (by omega)]
        have hsum : i + 1 + (n + 1) = i + (n + 1 + 1) := by omega
        rw [hsum]

/-! ### The locator -/

variable {s : BlockMap Uint256} {c : CChain Uint256}

/-- What `GetLocator` collects on the way down the chain. After ten entries the steps double, so
that it is done when they add up to the height. -/
lemma Along.locatorLoop (h : Along s c P) {fuel nStep d : ℕ} (vHave : List Uint256)
    (hi : i < P.length) (hfuel : i < fuel) (hstep : 0 < nStep) (hd : i + nStep ≤ nStep * 2 ^ d) :
    ∃ l, c.locatorLoop s fuel nStep vHave (some P[i]) = some (vHave ++ P[i] :: l) ∧
      (vHave ++ P[i] :: l).length ≤ max vHave.length 10 + d + 1 := by
  induction fuel generalizing i nStep d vHave with
  | zero => omega
  | succ fuel ih =>
    unfold CChain.locatorLoop
    dsimp only
    rw [h.height i hi]
    by_cases hzero : i = 0
    · refine ⟨[], if_pos hzero, ?_⟩
      rw [List.length_append, List.length_singleton]
      omega
    · have hmax : max ((i : ℤ) - nStep) 0 = ((i - nStep : ℕ) : ℤ) := by omega
      have hlt : i - nStep < P.length := by omega
      obtain ⟨d, rfl⟩ : ∃ k, d = k + 1 := by
        cases d with
        | zero => omega
        | succ d => exact ⟨d, rfl⟩
      have hpow : 1 ≤ 2 ^ d := Nat.one_le_two_pow
      have hdouble : nStep * 2 ^ (d + 1) = nStep * 2 * 2 ^ d := by
        rw [Nat.pow_succ', ← Nat.mul_assoc]
      have hlen : (vHave ++ [P[i]]).length = vHave.length + 1 := List.length_append
      rw [if_neg hzero, if_pos (h.contains hi), Option.bind_some, hmax, h.get,
        List.getElem?_eq_getElem hlt, hlen]
      by_cases hten : 10 < vHave.length + 1
      · have hle : nStep * 2 ≤ nStep * 2 * 2 ^ d := Nat.le_mul_of_pos_right _ hpow
        rw [if_pos hten]
        have hnext := @ih (i - nStep) (nStep * 2) d
        obtain ⟨l, hl, hbound⟩ := hnext (vHave ++ [P[i]]) hlt (by omega) (by omega) (by omega)
        rw [List.append_assoc, List.singleton_append] at hl hbound
        exact ⟨P[i - nStep] :: l, hl, by omega⟩
      · rw [if_neg hten]
        obtain ⟨l, hl, hbound⟩ := ih (d := d + 1) (vHave ++ [P[i]]) hlt (by omega) hstep (by omega)
        rw [List.append_assoc, List.singleton_append] at hl hbound
        exact ⟨P[i - nStep] :: l, hl, by omega⟩

lemma Along.getLocator (h : Along s c P) (hk : k + 1 = P.length) (hlen : P.length ≤ 2 ^ 31)
    {pindex : Option Uint256} (hp : pindex = none ∨ pindex = c.tip) :
    ∃ vHave, c.getLocator s id pindex = some vHave ∧ vHave.head? = some P[k] ∧
      vHave.length ≤ MAX_LOCATOR_SZ := by
  have htip : c.tip = some P[k] := by
    rw [h.tip, List.getLast?_eq_getElem?, List.getElem?_eq_getElem (by omega)]
    congr 2
    omega
  have hstart : c.locator s pindex = c.locatorLoop s (k + 2) 1 [] (some P[k]) := by
    unfold locator
    rcases hp with rfl | rfl <;> simp only [htip, Option.map_some, Option.getD_some, h.height k]
  have hloop := @Along.locatorLoop P k s c h (k + 2) 1 31
  obtain ⟨l, hl, hbound⟩ := hloop [] (by omega) (by omega) Nat.one_pos (by omega)
  refine ⟨P[k] :: l, ?_, rfl, ?_⟩
  · rw [CChain.getLocator, hstart, hl, Option.map_some, List.map_id, List.nil_append]
  · rw [List.nil_append, List.length_nil] at hbound
    unfold MAX_LOCATOR_SZ
    omega

/-! ### The node -/

/-- Each block of the chain becomes the tip when the one before it is the tip. -/
def Validates (outcome : InvClient → Uint256 → BlockOutcome) (P : List Uint256) : Prop :=
  ∀ (c : InvClient) (i : ℕ) (h : i + 1 < P.length), c.chainActive.tip = some P[i] →
    outcome c P[i + 1] = .accepted P[i + 1] 0

/-- The node has the chain of the peer up to a height, and none of the blocks above it. -/
structure ClientAt (P : List Uint256) (c : InvClient) (k : ℕ) : Prop where
  lt : k < P.length
  run : Run c.index c.chainActive P[k]?
  chain : c.chainActive.vChain = (P.take (k + 1)).map some
  mem : ∀ hash ∈ P, hash ∈ c.index.mapBlockIndex ↔ hash ∈ P.take (k + 1)
  fine : c.fMisbehaving = false

namespace ClientAt

variable {c : InvClient} {outcome : InvClient → Uint256 → BlockOutcome}

lemma along (h : ClientAt P c k) : Along c.index c.chainActive (P.take (k + 1)) := by
  have hrun := h.run
  rw [List.getElem?_eq_getElem h.lt] at hrun
  exact .of_run hrun h.chain

lemma tip (h : ClientAt P c k) : c.chainActive.tip = P[k]? := (run_tip h.run).1

lemma mem_iff (h : ClientAt P c k) (hP : P.Nodup) (hi : i < P.length) :
    P[i] ∈ c.index.mapBlockIndex ↔ i ≤ k := by
  rw [h.mem _ (List.getElem_mem hi), List.mem_take_iff_getElem]
  constructor
  · rintro ⟨j, hj, heq⟩
    have := (List.Nodup.getElem_inj_iff hP).mp heq
    omega
  · intro hle
    exact ⟨i, by omega, rfl⟩

lemma getLocator (h : ClientAt P c k) (hlen : P.length ≤ 2 ^ 31) {pindex : Option Uint256}
    (hp : pindex = none ∨ pindex = c.chainActive.tip) :
    ∃ vHave, c.chainActive.getLocator c.index id pindex = some vHave ∧
      vHave.head? = P[k]? ∧ vHave.length ≤ MAX_LOCATOR_SZ := by
  have hlt := h.lt
  have htake : k + 1 = (P.take (k + 1)).length := by
    rw [List.length_take]
    omega
  obtain ⟨vHave, hloc, hhead, hbound⟩ := h.along.getLocator htake (by omega) hp
  refine ⟨vHave, hloc, ?_, hbound⟩
  rw [hhead, List.getElem_take, List.getElem?_eq_getElem hlt]

lemma accept (h : ClientAt P c k) (hP : P.Nodup) (hvalid : Validates outcome P)
    (hk : k + 1 < P.length) :
    ∃ c', c.block outcome P[k + 1] P[k] = some (c', []) ∧ ClientAt P c' (k + 1) ∧
      c'.vBlockRequested = c.vBlockRequested := by
  have hlt := h.lt
  have houtcome := hvalid c k hk (h.tip.trans (List.getElem?_eq_getElem hlt))
  have hprev : P[k] ∈ c.index.mapBlockIndex := (h.mem_iff hP hlt).mpr le_rfl
  have hnew : P[k + 1] ∉ c.index.mapBlockIndex := by
    rw [h.mem_iff hP hk]
    omega
  have hparent : ∀ p, some P[k] = some p → p ∈ c.index.mapBlockIndex := by
    intro p hp
    rwa [← Option.some.inj hp]
  obtain ⟨index, hindex, -, hmap⟩ := h.run.isPathTo.1.exists_add P[k + 1] (some P[k]) hnew hparent
  have hrun := Run.add h.run hnew hparent hindex
  obtain ⟨hnode, -, -⟩ := addToBlockIndex_fields hindex
  have hin : P[k + 1] ∈ index.mapBlockIndex := by
    rw [hmap]
    exact List.mem_append_right _ (List.mem_singleton_self _)
  obtain ⟨hbuilt', hpathk⟩ := hrun.isPathTo
  obtain ⟨chainActive, hset, hpath'⟩ := setTip_isPath hbuilt'.skipped hpathk hin
  rw [List.getElem?_eq_getElem hlt] at hpathk
  have hchain := hpath'.eq_append hbuilt'.skipped.graded hin hnode hpathk.2
  refine ⟨{ c with index, chainActive }.misbehaving 0, ?_, ⟨hk, ?_, ?_, ?_, ?_⟩, rfl⟩
  · rw [InvClient.block, if_neg (by simp [hprev]), if_neg (by simp [hnew]),
      InvClient.processNewBlock, houtcome]
    dsimp only
    rw [hindex, Option.bind_some, hset]
    rfl
  · rw [List.getElem?_eq_getElem hk]
    refine .setTip hrun ?_ hset
    intro p hp
    rwa [← Option.some.inj hp]
  · refine hchain.trans ?_
    rw [h.chain, List.take_succ_eq_append_getElem hk, List.map_append]
    rfl
  · intro hash hhash
    change hash ∈ index.mapBlockIndex ↔ _
    rw [hmap, List.mem_append, h.mem hash hhash, List.take_succ_eq_append_getElem hk,
      List.mem_append]
  · rw [InvClient.misbehaving, h.fine]
    rfl

end ClientAt

/-! ### The messages one by one -/

lemma exists_of_mem_segment {hash : Uint256} (h : hash ∈ segment P i m) :
    ∃ (j : ℕ) (hj : j < P.length), i ≤ j ∧ j < m ∧ P[j] = hash := by
  obtain ⟨a, ha, rfl⟩ := List.getElem_of_mem h
  have hlen := ha
  rw [segment, List.length_drop, List.length_take] at hlen
  refine ⟨i + a, by omega, by omega, by omega, ?_⟩
  simp only [segment, List.getElem_drop, List.getElem_take]

def ServedChain.blockMsg (env : ServedChain) (hash : Uint256) : InvMsg :=
  .block hash ((env.index.pprev hash).getD 0)

/-- What is announced in one go, and what the peer keeps of it: everything up to where the
announcements stop, or 500 blocks and the last one of them. -/
inductive Announced (P : List Uint256) (e k : ℕ) : ℕ → Uint256 → Prop
  | all (h : e ≤ k + 500) : Announced P e k e 0
  | part {hash : Uint256} (h : k + 501 ≤ e) (hhash : P[k + 500]? = some hash) :
      Announced P e k (k + 501) hash

lemma Announced.le {hash : Uint256} (h : Announced P e k m hash) (he : e ≤ P.length) :
    m ≤ P.length ∧ m ≤ k + 501 := by
  cases h <;> omega

namespace Serves

variable {N : ℕ}

lemma sends (h : Serves env P) (hi : i < P.length) : env.sends P[i] = true := by
  have hmem : P[i] ∈ P := List.getElem_mem hi
  simp [ServedChain.sends, h.index _ hmem, h.data _ hmem, h.contains hi]

lemma blockMsg (h : Serves env P) (hi : i + 1 < P.length) :
    env.blockMsg P[i + 1] = .block P[i + 1] P[i] := by
  rw [ServedChain.blockMsg, h.parent i hi, Option.getD_some]

lemma serve_getblocks (h : Serves env P) (hk : k + 1 ≤ e) {vHave : List Uint256}
    (hhead : vHave.head? = P[k]?) (hlen : vHave.length ≤ MAX_LOCATOR_SZ)
    (hstop : StopsAt P hashStop e) (fPauseSend : Bool) : ∃ m hash, Announced P e k m hash ∧
      env.serve ⟨0, [], [], false⟩ fPauseSend (.getblocks vHave hashStop) =
        some (⟨hash, segment P (k + 1) m, [], false⟩, []) := by
  have hle := hstop.le
  have hlt : k < P.length := by omega
  rw [List.getElem?_eq_getElem hlt] at hhead
  have hserve : env.serve ⟨0, [], [], false⟩ fPauseSend (.getblocks vHave hashStop) =
      some (⟨(if k + 501 ≤ e then P[k + 500]? else none).getD 0,
        segment P (k + 1) (min e (k + 501)), [], false⟩, []) := by
    have hpush := h.pushBlocks (n := 500) hstop (by decide) hk
    have hsum : k + 1 + 500 = k + 501 := by omega
    rw [hsum] at hpush
    rw [ServedChain.serve, ServedChain.getBlocks, if_neg (by omega), h.findFork hlt hhead,
      Option.bind_some, h.next hlt]
    dsimp only
    rw [hpush]
    rfl
  by_cases hpart : k + 501 ≤ e
  · have hlast : P[k + 500]? = some P[k + 500] := List.getElem?_eq_getElem (by omega)
    refine ⟨k + 501, P[k + 500], .part hpart hlast, ?_⟩
    rw [hserve, if_pos hpart, hlast, Nat.min_eq_right hpart, Option.getD_some]
  · refine ⟨e, 0, .all (by omega), ?_⟩
    rw [hserve, if_neg hpart, Nat.min_eq_left (by omega), Option.getD_none]

lemma processGetData (h : Serves env P) (hi : i < P.length) {hashContinue : Uint256}
    (hne : P[i] ≠ hashContinue) (rest : List Uint256) :
    env.processGetData ⟨hashContinue, [], P[i] :: rest, false⟩ false =
      some (⟨hashContinue, [], rest, false⟩, [env.blockMsg P[i]]) := by
  simp [ServedChain.processGetData, h.sends hi, hne, ServedChain.blockMsg]

lemma processGetData_last (h : Serves env P) (hN : P.length = N + 1) {tip : Uint256}
    (ht : P[N]? = some tip) (hi : i < P.length) (rest : List Uint256) :
    env.processGetData ⟨P[i], [], P[i] :: rest, false⟩ false =
      some (⟨0, [], rest, false⟩, [env.blockMsg P[i], .inv [tip]]) := by
  have htip : env.chainActive.tip = some tip := by
    rw [h.tip, List.getLast?_eq_getElem?, hN, Nat.add_sub_cancel, ht]
  simp [ServedChain.processGetData, h.sends hi, htip, ServedChain.blockMsg]

end Serves

lemma sendInventory_eq {l : List Uint256} (hne : l ≠ []) (hlen : l.length < 1000) :
    sendInventory l = [.inv l] := by
  have hfold : ∀ (l vInv : List Uint256) (msgs : List InvMsg), vInv.length + l.length < 1000 →
      l.foldl (fun (r : List InvMsg × List Uint256) inv =>
        let vInv := r.2 ++ [inv]
        if 1000 ≤ vInv.length then (r.1 ++ [.inv vInv], []) else (r.1, vInv)) (msgs, vInv) =
        (msgs, vInv ++ l) := by
    intro l
    induction l with
    | nil => simp
    | cons a l ih =>
      intro vInv msgs hlt
      rw [List.length_cons] at hlt
      have hlen : (vInv ++ [a]).length = vInv.length + 1 := List.length_append
      rw [List.foldl_cons]
      dsimp only
      rw [if_neg (by omega), ih _ _ (by omega), List.append_assoc, List.singleton_append]
  have hl := hfold l [] [] (by rw [List.length_nil]; omega)
  rw [List.nil_append] at hl
  unfold sendInventory
  dsimp only at hl ⊢
  rw [hl]
  simp [hne]

namespace ClientAt

variable {c : InvClient} {outcome : InvClient → Uint256 → BlockOutcome}

lemma inv_of_new (h : ClientAt P c k) (hP : P.Nodup) {vInv : List Uint256} (hne : vInv ≠ [])
    (hlen : vInv.length ≤ MAX_INV_SZ)
    (hnew : ∀ hash ∈ vInv, ∃ (j : ℕ) (hj : j < P.length), k + 1 ≤ j ∧ P[j] = hash) :
    c.inv vInv = (c, [.getdata vInv]) := by
  have hfilter : vInv.filter (fun hash => !c.index.mapBlockIndex.contains hash) = vInv := by
    refine List.filter_eq_self.mpr fun hash hhash => ?_
    obtain ⟨j, hj, hkj, rfl⟩ := hnew hash hhash
    have hout : P[j] ∉ c.index.mapBlockIndex := by
      rw [h.mem_iff hP hj]
      omega
    simp [hout]
  rw [InvClient.inv, if_neg (by omega), hfilter]
  simp [hne]

lemma inv_of_known (h : ClientAt P c k) (hP : P.Nodup) (hi : i < P.length) (hik : i ≤ k) :
    c.inv [P[i]] = (c, []) := by
  simp [InvClient.inv, MAX_INV_SZ, (h.mem_iff hP hi).mpr hik]

/-- For a block without its parent the node asks for what leads to it, and when it has done so
before, for what leads to the parent. -/
lemma block_orphan (h : ClientAt P c k) (hP : P.Nodup) (hlen : P.length ≤ 2 ^ 31)
    (hi : i + 1 < P.length) (hki : k < i) : ∃ vHave, vHave.head? = P[k]? ∧
      vHave.length ≤ MAX_LOCATOR_SZ ∧
      c.block outcome P[i + 1] P[i] = some (if c.vBlockRequested.contains P[i + 1] then
        ({ c with vBlockRequested := c.vBlockRequested ++ [P[i]] }, [.getblocks vHave P[i]])
      else ({ c with vBlockRequested := c.vBlockRequested ++ [P[i + 1]] },
        [.getblocks vHave P[i + 1]])) := by
  obtain ⟨vHave, hloc, hhead, hbound⟩ := h.getLocator hlen (.inl rfl)
  refine ⟨vHave, hhead, hbound, ?_⟩
  have hnew : P[i] ∉ c.index.mapBlockIndex := by
    rw [h.mem_iff hP (by omega)]
    omega
  rw [InvClient.block, if_pos (by simp [hnew]), hloc, Option.map_some]

lemma request (h : ClientAt P c k) (vBlockRequested : List Uint256) :
    ClientAt P { c with vBlockRequested } k :=
  ⟨h.lt, h.run, h.chain, h.mem, h.fine⟩

end ClientAt

/-! ### What the next step can be -/

namespace InvSync

variable {outcome : InvClient → Uint256 → BlockOutcome}
variable {hash : Uint256} {c : InvClient} {st st' : InvSync} {msg : InvMsg}

lemma Step.of_request (h : Step env outcome ⟨⟨hash, [], [], false⟩, c, [msg], []⟩ st') :
    ∃ fPauseSend server msgs, env.serve ⟨hash, [], [], false⟩ fPauseSend msg = some (server, msgs) ∧
      st' = ⟨server, c, [], msgs⟩ := by
  cases h with
  | serve fPauseSend hm _ hs =>
    cases hm
    exact ⟨fPauseSend, _, _, hs, rfl⟩
  | send hdata _ => exact absurd rfl hdata
  | announce hinv => exact absurd rfl hinv
  | receive hm _ => cases hm

lemma Step.of_inventory {inv : List Uint256}
    (h : Step env outcome ⟨⟨hash, inv, [], false⟩, c, [], []⟩ st') :
    st' = ⟨⟨hash, [], [], false⟩, c, [], sendInventory inv⟩ := by
  cases h with
  | serve _ hm _ _ => cases hm
  | send hdata _ => exact absurd rfl hdata
  | announce _ => rfl
  | receive hm _ => cases hm

lemma Step.of_delivery {data : List Uint256} {toClient : List InvMsg}
    (h : Step env outcome ⟨⟨hash, [], data, false⟩, c, [], toClient⟩ st') :
    (data ≠ [] ∧ ∃ server msgs,
      env.processGetData ⟨hash, [], data, false⟩ false = some (server, msgs) ∧
        st' = ⟨server, c, [], toClient ++ msgs⟩) ∨
    ∃ m rest client msgs, toClient = m :: rest ∧ c.receive outcome m = some (client, msgs) ∧
      st' = ⟨⟨hash, [], data, false⟩, client, msgs, rest⟩ := by
  cases h with
  | serve _ hm _ _ => cases hm
  | send hdata hs => exact .inl ⟨hdata, _, _, hs, rfl⟩
  | announce hinv => exact absurd rfl hinv
  | receive hm hc => exact .inr ⟨_, _, _, _, hm, hc, rfl⟩

/-! ### The rounds -/

/-- What the node has asked for before, where the announcements stop, and from which height they
are asked for. -/
inductive Round (P : List Uint256) (N k₀ : ℕ) : List Uint256 → ℕ → ℕ → Prop
  | first : Round P N k₀ [] (N + 1) k₀
  | second {tip : Uint256} (ht : P[N]? = some tip) (h : k₀ + 502 ≤ N) :
      Round P N k₀ [tip] N (k₀ + 500)
  | later {tip : Uint256} {requested : List Uint256} {k : ℕ} (ht : P[N]? = some tip)
      (hmem : tip ∈ requested) (hk : k₀ + 1000 ≤ k) (h : k + 2 ≤ N) :
      Round P N k₀ requested (N - 1) k

variable {N k₀ : ℕ} {requested : List Uint256} {tip prev : Uint256}

lemma Round.bounds (h : Round P N k₀ requested e k) : k₀ ≤ k ∧ e ≤ N + 1 := by
  cases h <;> omega

lemma Round.rest_all (h : Round P N k₀ requested e k) (hke : k + 1 ≤ e) (hall : e ≤ k + 500) :
    restHeight k₀ N + 1 = e := by
  unfold restHeight
  cases h <;> split_ifs <;> omega

lemma Round.rest_tip (h : Round P N k₀ requested e k) (hke : k + 501 ≤ e)
    (hN : N = k + 500 ∨ N = k + 501) : restHeight k₀ N = N := by
  unfold restHeight
  cases h <;> split_ifs <;> omega

lemma Round.next (h : Round P N k₀ requested e k) (ht : P[N]? = some tip)
    (hN : k + 502 ≤ N) (hprev : P[N - 1]? = some prev) :
    if requested.contains tip then Round P N k₀ (requested ++ [prev]) (N - 1) (k + 500)
    else Round P N k₀ (requested ++ [tip]) N (k + 500) := by
  cases h with
  | first =>
    rw [if_neg (by simp)]
    exact .second ht hN
  | second ht' hk =>
    obtain rfl := Option.some.inj (ht.symm.trans ht')
    rw [if_pos (by simp)]
    exact .later ht (List.mem_append_left _ (List.mem_singleton_self _)) (by omega) (by omega)
  | later ht' hmem hk _ =>
    obtain rfl := Option.some.inj (ht.symm.trans ht')
    rw [if_pos (List.contains_iff_mem.mpr hmem)]
    exact .later ht (List.mem_append_left _ hmem) (by omega) (by omega)

/-- The blocks from one height on and below another one. -/
def blocks (env : ServedChain) (P : List Uint256) (i m : ℕ) : List InvMsg :=
  (segment P i m).map env.blockMsg

/-- The stages of a round, from the request of the announcements to the tip, with a bound on the
steps that are left. -/
inductive Phase (env : ServedChain) (P : List Uint256) (N k₀ : ℕ) : InvSync → ℕ → Prop
  | asking {c : InvClient} {e k : ℕ} {vHave : List Uint256} {hashStop : Uint256}
      (hc : ClientAt P c k) (hr : Round P N k₀ c.vBlockRequested e k) (hke : k + 1 ≤ e)
      (hstop : StopsAt P hashStop e) (hhead : vHave.head? = P[k]?)
      (hlen : vHave.length ≤ MAX_LOCATOR_SZ) :
      Phase env P N k₀ ⟨⟨0, [], [], false⟩, c, [.getblocks vHave hashStop], []⟩ (10 * (N - k) + 4)
  | announced {c : InvClient} {e k m : ℕ} {hash : Uint256} (hc : ClientAt P c k)
      (hr : Round P N k₀ c.vBlockRequested e k) (ha : Announced P e k m hash) (hkm : k + 1 < m) :
      Phase env P N k₀ ⟨⟨hash, segment P (k + 1) m, [], false⟩, c, [], []⟩ (10 * (N - k) + 3)
  | invited {c : InvClient} {e k m : ℕ} {hash : Uint256} (hc : ClientAt P c k)
      (hr : Round P N k₀ c.vBlockRequested e k) (ha : Announced P e k m hash) (hkm : k + 1 < m) :
      Phase env P N k₀ ⟨⟨hash, [], [], false⟩, c, [], [.inv (segment P (k + 1) m)]⟩
        (10 * (N - k) + 2)
  | wanted {c : InvClient} {e k m : ℕ} {hash : Uint256} (hc : ClientAt P c k)
      (hr : Round P N k₀ c.vBlockRequested e k) (ha : Announced P e k m hash) (hkm : k + 1 < m) :
      Phase env P N k₀ ⟨⟨hash, [], [], false⟩, c, [.getdata (segment P (k + 1) m)], []⟩
        (10 * (N - k) + 1)
  | delivery {c : InvClient} {e k m i j : ℕ} {hash : Uint256} (hc : ClientAt P c i)
      (hr : Round P N k₀ c.vBlockRequested e k) (ha : Announced P e k m hash) (hki : k ≤ i)
      (hij : i ≤ j) (hjm : j < m) (hlast : m = k + 501 → j + 1 < m) :
      Phase env P N k₀ ⟨⟨hash, [], segment P (j + 1) m, false⟩, c, [], blocks env P (i + 1) (j + 1)⟩
        (10 * (N - j) + (j - i))
  | tail {c : InvClient} {e k i : ℕ} {tip : Uint256} (hc : ClientAt P c i)
      (hr : Round P N k₀ c.vBlockRequested e k) (hke : k + 501 ≤ e) (hki : k ≤ i)
      (hi : i ≤ k + 500) (ht : P[N]? = some tip) :
      Phase env P N k₀ ⟨⟨0, [], [], false⟩, c, [], blocks env P (i + 1) (k + 501) ++ [.inv [tip]]⟩
        (10 * (N - (k + 500)) + (k + 500 - i) + 8)
  | wantTip {c : InvClient} {e k : ℕ} {tip : Uint256} (hc : ClientAt P c (k + 500))
      (hr : Round P N k₀ c.vBlockRequested e k) (hke : k + 501 ≤ e) (hN : k + 501 ≤ N)
      (ht : P[N]? = some tip) :
      Phase env P N k₀ ⟨⟨0, [], [], false⟩, c, [.getdata [tip]], []⟩ (10 * (N - (k + 500)) + 7)
  | givingTip {c : InvClient} {e k : ℕ} {tip : Uint256} (hc : ClientAt P c (k + 500))
      (hr : Round P N k₀ c.vBlockRequested e k) (hke : k + 501 ≤ e) (hN : k + 501 ≤ N)
      (ht : P[N]? = some tip) :
      Phase env P N k₀ ⟨⟨0, [], [tip], false⟩, c, [], []⟩ (10 * (N - (k + 500)) + 6)
  | tipSent {c : InvClient} {e k : ℕ} {tip : Uint256} (hc : ClientAt P c (k + 500))
      (hr : Round P N k₀ c.vBlockRequested e k) (hke : k + 501 ≤ e) (hN : k + 501 ≤ N)
      (ht : P[N]? = some tip) :
      Phase env P N k₀ ⟨⟨0, [], [], false⟩, c, [], [env.blockMsg tip]⟩ (10 * (N - (k + 500)) + 5)
  | rest {c : InvClient} (hc : ClientAt P c (restHeight k₀ N)) :
      Phase env P N k₀ ⟨⟨0, [], [], false⟩, c, [], []⟩ 0

/-! ### Each stage leads to a later one -/

/-- There is a next step, unless the node is where it stays, and every step brings it closer. -/
def Advances (env : ServedChain) (outcome : InvClient → Uint256 → BlockOutcome) (P : List Uint256)
    (N k₀ : ℕ) (st : InvSync) (r : ℕ) : Prop :=
  ((∃ st', Step env outcome st st') ∨ ClientAt P st.client (restHeight k₀ N)) ∧
    ∀ st', Step env outcome st st' → ∃ r' < r, Phase env P N k₀ st' r'

lemma blocks_nil (h : m ≤ i) : blocks env P i m = [] := by
  rw [blocks, segment_nil h, List.map_nil]

lemma blocks_cons (him : i < m) (hm : m ≤ P.length) :
    blocks env P i m = env.blockMsg P[i] :: blocks env P (i + 1) m := by
  rw [blocks, segment_cons him hm, List.map_cons, blocks]

lemma blocks_snoc (him : i ≤ m) (hm : m < P.length) :
    blocks env P i (m + 1) = blocks env P i m ++ [env.blockMsg P[m]] := by
  rw [blocks, segment_snoc him hm, List.map_append, List.map_singleton, blocks]

lemma segment_ne_nil (him : i < m) (hm : m ≤ P.length) : segment P i m ≠ [] := by
  rw [segment_cons him hm]
  exact List.cons_ne_nil _ _

lemma serve_getdata (env : ServedChain) (hash : Uint256) {data : List Uint256} (hne : data ≠ [])
    (hlen : data.length ≤ MAX_INV_SZ) (fPauseSend : Bool) :
    env.serve ⟨hash, [], [], false⟩ fPauseSend (.getdata data) =
      if fPauseSend then some (⟨hash, [], data, false⟩, [])
      else env.processGetData ⟨hash, [], data, false⟩ false := by
  obtain ⟨a, l, rfl⟩ := List.exists_cons_of_ne_nil hne
  rw [ServedChain.serve, if_neg (by omega)]
  cases fPauseSend <;> rfl

lemma advances_asking (h : Serves env P) {vHave : List Uint256} (hc : ClientAt P c k)
    (hr : Round P N k₀ c.vBlockRequested e k) (hke : k + 1 ≤ e) (hstop : StopsAt P hashStop e)
    (hhead : vHave.head? = P[k]?) (hlen : vHave.length ≤ MAX_LOCATOR_SZ) :
    Advances env outcome P N k₀ ⟨⟨0, [], [], false⟩, c, [.getblocks vHave hashStop], []⟩
      (10 * (N - k) + 4) := by
  have hserve := h.serve_getblocks hke hhead hlen hstop
  refine ⟨.inl ?_, fun st' hst => ?_⟩
  · obtain ⟨m, hash, -, hs⟩ := hserve false
    exact ⟨_, .serve false rfl rfl hs⟩
  · obtain ⟨fPauseSend, server, msgs, hs, rfl⟩ := hst.of_request
    obtain ⟨m, hash, ha, hs'⟩ := hserve fPauseSend
    cases hs.symm.trans hs'
    by_cases hkm : k + 1 < m
    · exact ⟨_, by omega, .announced hc hr ha hkm⟩
    · cases ha with
      | all hall =>
        -- there is nothing to announce
        have hrest := hr.rest_all hke hall
        obtain rfl : restHeight k₀ N = k := by omega
        rw [segment_nil (by omega)]
        exact ⟨0, by omega, .rest hc⟩
      | part _ _ => omega

lemma advances_announced (hN : P.length = N + 1) (hc : ClientAt P c k)
    (hr : Round P N k₀ c.vBlockRequested e k) (ha : Announced P e k m hash) (hkm : k + 1 < m) :
    Advances env outcome P N k₀ ⟨⟨hash, segment P (k + 1) m, [], false⟩, c, [], []⟩
      (10 * (N - k) + 3) := by
  obtain ⟨hm, hmk⟩ := ha.le (by have := hr.bounds; omega)
  have hne := segment_ne_nil hkm hm
  refine ⟨.inl ⟨_, .announce hne⟩, fun st' hst => ?_⟩
  have hlen := length_segment (i := k + 1) hm
  rw [hst.of_inventory, sendInventory_eq hne (by omega)]
  exact ⟨_, by omega, .invited hc hr ha hkm⟩

lemma advances_invited (h : Serves env P) (hN : P.length = N + 1) (hc : ClientAt P c k)
    (hr : Round P N k₀ c.vBlockRequested e k) (ha : Announced P e k m hash) (hkm : k + 1 < m) :
    Advances env outcome P N k₀ ⟨⟨hash, [], [], false⟩, c, [], [.inv (segment P (k + 1) m)]⟩
      (10 * (N - k) + 2) := by
  obtain ⟨hm, hmk⟩ := ha.le (by have := hr.bounds; omega)
  have hlen := length_segment (i := k + 1) hm
  have hinv : c.receive outcome (.inv (segment P (k + 1) m)) =
      some (c, [.getdata (segment P (k + 1) m)]) := by
    refine congrArg some (hc.inv_of_new h.nodup (segment_ne_nil hkm hm) ?_ fun a ha => ?_)
    · unfold MAX_INV_SZ
      omega
    · obtain ⟨j, hj, hkj, -, heq⟩ := exists_of_mem_segment ha
      exact ⟨j, hj, hkj, heq⟩
  refine ⟨.inl ⟨_, .receive rfl hinv⟩, fun st' hst => ?_⟩
  rcases hst.of_delivery with ⟨hne, -⟩ | ⟨msg, rest, client, msgs, hmsg, hs, rfl⟩
  · exact absurd rfl hne
  · cases hmsg
    cases hs.symm.trans hinv
    exact ⟨_, by omega, .wanted hc hr ha hkm⟩

lemma send_next (h : Serves env P) (hN : P.length = N + 1) (hc : ClientAt P c i)
    (hr : Round P N k₀ c.vBlockRequested e k) (ha : Announced P e k m hash) (hki : k ≤ i)
    (hij : i ≤ j) (hjm : j + 1 < m) :
    ∃ server msgs, env.processGetData ⟨hash, [], segment P (j + 1) m, false⟩ false =
        some (server, msgs) ∧ ∃ r' < 10 * (N - j) + (j - i),
      Phase env P N k₀ ⟨server, c, [], blocks env P (i + 1) (j + 1) ++ msgs⟩ r' := by
  obtain ⟨hm, hmk⟩ := ha.le (by have := hr.bounds; omega)
  have hj : j + 1 < P.length := by omega
  have hnext : blocks env P (i + 1) (j + 1 + 1) =
      blocks env P (i + 1) (j + 1) ++ [env.blockMsg P[j + 1]] := blocks_snoc (by omega) hj
  rw [segment_cons hjm hm]
  cases ha with
  | all hall =>
    have hne : P[j + 1] ≠ 0 := by
      intro heq
      exact h.zero (heq ▸ List.getElem_mem hj)
    refine ⟨_, _, h.processGetData hj hne _, 10 * (N - (j + 1)) + (j + 1 - i), by omega, ?_⟩
    rw [← hnext]
    exact .delivery hc hr (.all hall) hki (by omega) hjm (by omega)
  | part hke hhash =>
    obtain ⟨hlt, rfl⟩ := List.getElem?_eq_some_iff.mp hhash
    by_cases hlast : j + 1 = k + 500
    · obtain ⟨tip, ht⟩ : ∃ tip, P[N]? = some tip :=
        ⟨P[N], List.getElem?_eq_getElem (by omega)⟩
      simp only [hlast]
      refine ⟨_, _, h.processGetData_last hN ht hlt _, 10 * (N - (k + 500)) + (k + 500 - i) + 8,
        by omega, ?_⟩
      have htail : Phase env P N k₀ _ _ := .tail hc hr hke hki (by omega) ht
      have hsum : k + 501 = j + 1 + 1 := by omega
      rw [hsum, hnext, List.append_assoc, List.singleton_append] at htail
      simp only [hlast] at htail
      rw [segment_nil (by omega)]
      exact htail
    · have hne : P[j + 1] ≠ P[k + 500] := by
        intro heq
        exact hlast ((List.Nodup.getElem_inj_iff h.nodup).mp heq)
      refine ⟨_, _, h.processGetData hj hne _, 10 * (N - (j + 1)) + (j + 1 - i), by omega, ?_⟩
      rw [← hnext]
      exact .delivery hc hr (.part hke hhash) hki (by omega) hjm (by omega)

lemma advances_wanted (h : Serves env P) (hN : P.length = N + 1) (hc : ClientAt P c k)
    (hr : Round P N k₀ c.vBlockRequested e k) (ha : Announced P e k m hash) (hkm : k + 1 < m) :
    Advances env outcome P N k₀ ⟨⟨hash, [], [], false⟩, c, [.getdata (segment P (k + 1) m)], []⟩
      (10 * (N - k) + 1) := by
  obtain ⟨hm, hmk⟩ := ha.le (by have := hr.bounds; omega)
  have hlen := length_segment (i := k + 1) hm
  obtain ⟨server, msgs, hsend, r', hr', hphase⟩ := send_next h hN hc hr ha le_rfl le_rfl hkm
  have hserve := serve_getdata env hash (segment_ne_nil hkm hm)
    (by unfold MAX_INV_SZ; omega)
  rw [blocks_nil le_rfl, List.nil_append] at hphase
  refine ⟨.inl ⟨_, .serve false rfl rfl ((hserve false).trans hsend)⟩, fun st' hst => ?_⟩
  obtain ⟨fPauseSend, server', msgs', hs, rfl⟩ := hst.of_request
  rw [hserve] at hs
  cases fPauseSend with
  | true =>
    cases hs
    refine ⟨10 * (N - k) + (k - k), by omega, ?_⟩
    have hdelivery : Phase env P N k₀ _ _ :=
      .delivery hc hr ha le_rfl le_rfl (show k < m by omega) (by omega)
    rwa [blocks_nil le_rfl] at hdelivery
  | false =>
    cases hs.symm.trans hsend
    exact ⟨r', by omega, hphase⟩

lemma receive_next (h : Serves env P) (hvalid : Validates outcome P) (hc : ClientAt P c i)
    (hi : i + 1 < P.length) :
    ∃ c', c.receive outcome (env.blockMsg P[i + 1]) = some (c', []) ∧ ClientAt P c' (i + 1) ∧
      c'.vBlockRequested = c.vBlockRequested := by
  rw [h.blockMsg hi]
  exact hc.accept h.nodup hvalid hi

lemma advances_delivery (h : Serves env P) (hvalid : Validates outcome P) (hN : P.length = N + 1)
    (hc : ClientAt P c i)
    (hr : Round P N k₀ c.vBlockRequested e k) (ha : Announced P e k m hash) (hki : k ≤ i)
    (hij : i ≤ j) (hjm : j < m) (hlast : m = k + 501 → j + 1 < m) :
    Advances env outcome P N k₀
      ⟨⟨hash, [], segment P (j + 1) m, false⟩, c, [], blocks env P (i + 1) (j + 1)⟩
      (10 * (N - j) + (j - i)) := by
  obtain ⟨hm, hmk⟩ := ha.le (by have := hr.bounds; omega)
  refine ⟨?_, fun st' hst => ?_⟩
  · by_cases hsend : j + 1 < m
    · obtain ⟨server, msgs, hs, -⟩ := send_next h hN hc hr ha hki hij hsend
      exact .inl ⟨_, .send (segment_ne_nil hsend hm) hs⟩
    · by_cases hlt : i < j
      · obtain ⟨c', hc', -⟩ := receive_next h hvalid hc (show i + 1 < P.length by omega)
        exact .inl ⟨_, .receive (blocks_cons (by omega) (by omega)) hc'⟩
      · -- everything has come
        cases ha with
        | all hall =>
          have hrest := hr.rest_all (by omega) hall
          obtain rfl : restHeight k₀ N = i := by omega
          exact .inr hc
        | part _ _ => omega
  · rcases hst.of_delivery with ⟨hne, server, msgs, hs, rfl⟩ |
      ⟨msg, rest, client, msgs, hmsg, hs, rfl⟩
    · have hsend : j + 1 < m := by
        by_contra hge
        exact hne (segment_nil (by omega))
      obtain ⟨server', msgs', hs', hphase⟩ := send_next h hN hc hr ha hki hij hsend
      cases hs.symm.trans hs'
      exact hphase
    · by_cases hlt : i < j
      · obtain ⟨c', hc', hc₁, hreq⟩ := receive_next h hvalid hc (show i + 1 < P.length by omega)
        rw [blocks_cons (by omega) (by omega)] at hmsg
        cases hmsg
        cases hs.symm.trans hc'
        refine ⟨10 * (N - j) + (j - (i + 1)), by omega, ?_⟩
        exact .delivery hc₁ (hreq ▸ hr) ha (by omega) (by omega) hjm hlast
      · rw [blocks_nil (by omega)] at hmsg
        cases hmsg

lemma advances_tail (h : Serves env P) (hvalid : Validates outcome P) (hN : P.length = N + 1)
    (hc : ClientAt P c i)
    (hr : Round P N k₀ c.vBlockRequested e k) (hke : k + 501 ≤ e) (hki : k ≤ i)
    (hi : i ≤ k + 500) (ht : P[N]? = some tip) :
    Advances env outcome P N k₀
      ⟨⟨0, [], [], false⟩, c, [], blocks env P (i + 1) (k + 501) ++ [.inv [tip]]⟩
      (10 * (N - (k + 500)) + (k + 500 - i) + 8) := by
  have he := hr.bounds
  obtain ⟨hlt, rfl⟩ := List.getElem?_eq_some_iff.mp ht
  by_cases hblock : i < k + 500
  · obtain ⟨c', hc', hc₁, hreq⟩ := receive_next h hvalid hc (show i + 1 < P.length by omega)
    rw [blocks_cons (by omega) (by omega), List.cons_append]
    refine ⟨.inl ⟨_, .receive rfl hc'⟩, fun st' hst => ?_⟩
    rcases hst.of_delivery with ⟨hne, -⟩ | ⟨msg, rest, client, msgs, hmsg, hs, rfl⟩
    · exact absurd rfl hne
    · cases hmsg
      cases hs.symm.trans hc'
      refine ⟨10 * (N - (k + 500)) + (k + 500 - (i + 1)) + 8, by omega, ?_⟩
      exact .tail hc₁ (hreq ▸ hr) hke (by omega) (by omega) ht
  · obtain rfl : i = k + 500 := by omega
    rw [blocks_nil (by omega), List.nil_append]
    -- the tip is announced, which the node has or not
    by_cases hknown : N = k + 500
    · have hinv : c.receive outcome (.inv [P[N]]) = some (c, []) :=
        congrArg some (hc.inv_of_known h.nodup hlt (by omega))
      refine ⟨.inl ⟨_, .receive rfl hinv⟩, fun st' hst => ?_⟩
      rcases hst.of_delivery with ⟨hne, -⟩ | ⟨msg, rest, client, msgs, hmsg, hs, rfl⟩
      · exact absurd rfl hne
      · cases hmsg
        cases hs.symm.trans hinv
        have hrest := hr.rest_tip hke (.inl hknown)
        refine ⟨0, by omega, .rest ?_⟩
        rwa [hrest, hknown]
    · have hinv : c.receive outcome (.inv [P[N]]) = some (c, [.getdata [P[N]]]) := by
        refine congrArg some (hc.inv_of_new h.nodup (by simp) (by simp [MAX_INV_SZ]) ?_)
        intro a ha
        exact ⟨N, hlt, by omega, (List.mem_singleton.mp ha).symm⟩
      refine ⟨.inl ⟨_, .receive rfl hinv⟩, fun st' hst => ?_⟩
      rcases hst.of_delivery with ⟨hne, -⟩ | ⟨msg, rest, client, msgs, hmsg, hs, rfl⟩
      · exact absurd rfl hne
      · cases hmsg
        cases hs.symm.trans hinv
        exact ⟨_, by omega, .wantTip hc hr hke (by omega) ht⟩

lemma processGetData_tip (h : Serves env P) (ht : P[N]? = some tip) :
    env.processGetData ⟨0, [], [tip], false⟩ false =
      some (⟨0, [], [], false⟩, [env.blockMsg tip]) := by
  obtain ⟨hlt, rfl⟩ := List.getElem?_eq_some_iff.mp ht
  refine h.processGetData hlt ?_ []
  intro heq
  exact h.zero (heq ▸ List.getElem_mem hlt)

lemma advances_wantTip (h : Serves env P) (hc : ClientAt P c (k + 500))
    (hr : Round P N k₀ c.vBlockRequested e k) (hke : k + 501 ≤ e) (hkN : k + 501 ≤ N)
    (ht : P[N]? = some tip) :
    Advances env outcome P N k₀ ⟨⟨0, [], [], false⟩, c, [.getdata [tip]], []⟩
      (10 * (N - (k + 500)) + 7) := by
  have hserve := serve_getdata env 0 (List.cons_ne_nil tip [])
    (by simp [MAX_INV_SZ])
  have hsend := processGetData_tip h ht
  refine ⟨.inl ⟨_, .serve false rfl rfl ((hserve false).trans hsend)⟩, fun st' hst => ?_⟩
  obtain ⟨fPauseSend, server, msgs, hs, rfl⟩ := hst.of_request
  rw [hserve] at hs
  cases fPauseSend with
  | true =>
    cases hs
    exact ⟨_, by omega, .givingTip hc hr hke hkN ht⟩
  | false =>
    cases hs.symm.trans hsend
    exact ⟨10 * (N - (k + 500)) + 5, by omega, .tipSent hc hr hke hkN ht⟩

lemma advances_givingTip (h : Serves env P) (hc : ClientAt P c (k + 500))
    (hr : Round P N k₀ c.vBlockRequested e k) (hke : k + 501 ≤ e) (hkN : k + 501 ≤ N)
    (ht : P[N]? = some tip) :
    Advances env outcome P N k₀ ⟨⟨0, [], [tip], false⟩, c, [], []⟩ (10 * (N - (k + 500)) + 6) := by
  have hsend := processGetData_tip h ht
  refine ⟨.inl ⟨_, .send (List.cons_ne_nil _ _) hsend⟩, fun st' hst => ?_⟩
  rcases hst.of_delivery with ⟨-, server, msgs, hs, rfl⟩ | ⟨msg, rest, client, msgs, hmsg, -⟩
  · cases hs.symm.trans hsend
    exact ⟨_, by omega, .tipSent hc hr hke hkN ht⟩
  · cases hmsg

lemma advances_tipSent (h : Serves env P) (hvalid : Validates outcome P)
    (hN : P.length = N + 1) (hlen : P.length ≤ 2 ^ 31) (hc : ClientAt P c (k + 500))
    (hr : Round P N k₀ c.vBlockRequested e k) (hke : k + 501 ≤ e)
    (hkN : k + 501 ≤ N) (ht : P[N]? = some tip) :
    Advances env outcome P N k₀ ⟨⟨0, [], [], false⟩, c, [], [env.blockMsg tip]⟩
      (10 * (N - (k + 500)) + 5) := by
  obtain ⟨hlt, rfl⟩ := List.getElem?_eq_some_iff.mp ht
  by_cases hnext : N = k + 501
  · subst hnext
    obtain ⟨c', hc', hc₁, -⟩ := receive_next h hvalid hc hlt
    refine ⟨.inl ⟨_, .receive rfl hc'⟩, fun st' hst => ?_⟩
    rcases hst.of_delivery with ⟨hne, -⟩ | ⟨msg, rest, client, msgs, hmsg, hs, rfl⟩
    · exact absurd rfl hne
    · cases hmsg
      cases hs.symm.trans hc'
      have hrest := hr.rest_tip hke (.inr rfl)
      refine ⟨0, by omega, .rest ?_⟩
      rwa [hrest]
  · obtain ⟨M, rfl⟩ : ∃ M, N = M + 1 := ⟨N - 1, by omega⟩
    have hM : M < P.length := by omega
    obtain ⟨vHave, hhead, hbound, hblock⟩ := hc.block_orphan h.nodup hlen hlt (by omega)
    have hround := hr.next ht (by omega) (List.getElem?_eq_getElem hM)
    rw [h.blockMsg hlt]
    refine ⟨.inl ⟨_, .receive rfl hblock⟩, fun st' hst => ?_⟩
    rcases hst.of_delivery with ⟨hne, -⟩ | ⟨msg, rest, client, msgs, hmsg, hs, rfl⟩
    · exact absurd rfl hne
    · cases hmsg
      have hs' := hs.symm.trans hblock
      refine ⟨10 * (M + 1 - (k + 500)) + 4, by omega, ?_⟩
      split_ifs at hs' hround with hmem
      · cases hs'
        exact .asking (hc.request _) hround (by omega) (h.stops_at hM) hhead hbound
      · cases hs'
        exact .asking (hc.request _) hround (by omega) (h.stops_at hlt) hhead hbound

/-- **A round.** Whatever happens next, the stage after it is a later one, and if nothing can happen
the node is at the height where it stays. -/
theorem Phase.advances {r : ℕ} (hp : Phase env P N k₀ st r) (h : Serves env P)
    (hvalid : Validates outcome P) (hN : P.length = N + 1) (hlen : P.length ≤ 2 ^ 31) :
    Advances env outcome P N k₀ st r := by
  cases hp with
  | asking hc hr hke hstop hhead hbound => exact advances_asking h hc hr hke hstop hhead hbound
  | announced hc hr ha hkm => exact advances_announced hN hc hr ha hkm
  | invited hc hr ha hkm => exact advances_invited h hN hc hr ha hkm
  | wanted hc hr ha hkm => exact advances_wanted h hN hc hr ha hkm
  | delivery hc hr ha hki hij hjm hlast =>
    exact advances_delivery h hvalid hN hc hr ha hki hij hjm hlast
  | tail hc hr hke hki hi ht => exact advances_tail h hvalid hN hc hr hke hki hi ht
  | wantTip hc hr hke hkN ht => exact advances_wantTip h hc hr hke hkN ht
  | givingTip hc hr hke hkN ht => exact advances_givingTip h hc hr hke hkN ht
  | tipSent hc hr hke hkN ht => exact advances_tipSent h hvalid hN hlen hc hr hke hkN ht
  | rest hc =>
    refine ⟨.inr hc, fun st' hst => ?_⟩
    rcases hst.of_delivery with ⟨hne, -⟩ | ⟨msg, rest, client, msgs, hmsg, -⟩
    · exact absurd rfl hne
    · cases hmsg

/-! ### The whole synchronisation -/

lemma Phase.client {r : ℕ} (hp : Phase env P N k₀ st r) (hk : k₀ ≤ N) :
    st.server.fDisconnect = false ∧ ∃ i, k₀ ≤ i ∧ ClientAt P st.client i := by
  cases hp with
  | asking hc hr => exact ⟨rfl, _, hr.bounds.1, hc⟩
  | announced hc hr => exact ⟨rfl, _, hr.bounds.1, hc⟩
  | invited hc hr => exact ⟨rfl, _, hr.bounds.1, hc⟩
  | wanted hc hr => exact ⟨rfl, _, hr.bounds.1, hc⟩
  | delivery hc hr _ hki => exact ⟨rfl, _, hr.bounds.1.trans hki, hc⟩
  | tail hc hr _ hki => exact ⟨rfl, _, hr.bounds.1.trans hki, hc⟩
  | wantTip hc hr => exact ⟨rfl, _, hr.bounds.1.trans (Nat.le_add_right _ _), hc⟩
  | givingTip hc hr => exact ⟨rfl, _, hr.bounds.1.trans (Nat.le_add_right _ _), hc⟩
  | tipSent hc hr => exact ⟨rfl, _, hr.bounds.1.trans (Nat.le_add_right _ _), hc⟩
  | rest hc =>
    refine ⟨rfl, _, ?_, hc⟩
    unfold restHeight
    split_ifs <;> omega

end InvSync

lemma exists_entries {t : Uint256} (h : Run s c (some t)) :
    ∃ P : List Uint256, c.vChain = P.map some ∧ P.length = s.nHeight t + 1 := by
  obtain ⟨-, -, hpath⟩ := h.isPathTo
  refine ⟨c.vChain.map (·.getD 0), ?_, (List.length_map _).trans hpath.length⟩
  rw [List.map_map]
  refine (List.map_id' _).symm.trans (List.map_congr_left fun slot hslot => ?_)
  obtain ⟨i, hi, rfl⟩ := List.getElem_of_mem hslot
  obtain ⟨a, ha, -⟩ := hpath.below i (by rw [hpath.length] at hi; omega)
  rw [List.getElem?_eq_getElem hi] at ha
  rw [Option.some.inj ha]
  rfl

lemma ClientAt.of_prefix {c : InvClient} {start : Uint256}
    (hclient : Run c.index c.chainActive (some start))
    (hbegin : c.chainActive.vChain <+: P.map some)
    (hindex : ∀ hash ∈ c.index.mapBlockIndex, hash ∈ P → some hash ∈ c.chainActive.vChain)
    (hfine : c.fMisbehaving = false) : ClientAt P c (c.index.nHeight start) := by
  obtain ⟨-, -, hpath⟩ := hclient.isPathTo
  have hle := hbegin.length_le
  rw [List.length_map, hpath.length] at hle
  have hchain : c.chainActive.vChain = (P.take (c.index.nHeight start + 1)).map some := by
    rw [List.map_take, ← hpath.length]
    exact List.prefix_iff_eq_take.mp hbegin
  have hself := hpath.below.self hclient.isPathTo.1.skipped.graded hclient.isPathTo.2.1
  have hstart : P[c.index.nHeight start]? = some start := by
    rw [hchain, List.getElem?_map, List.getElem?_take_of_lt (Nat.lt_succ_self _)] at hself
    obtain ⟨a, ha, heq⟩ := Option.map_eq_some_iff.mp hself
    rw [ha, Option.some.inj heq]
  refine ⟨hle, by rw [hstart]; exact hclient, hchain,
    fun hash hhash => ⟨fun hmem => ?_, fun hmem => ?_⟩, hfine⟩
  · have hslot := hindex hash hmem hhash
    rw [hchain, List.mem_map] at hslot
    obtain ⟨a, ha, heq⟩ := hslot
    rwa [← Option.some.inj heq]
  · exact (Along.of_run hclient hchain).index hash hmem

namespace InvSync

/-- **The synchronisation.** The chain of the node is the beginning of that of the peer; of the
blocks above it the node has none, and each is valid for it on top of the one before. The node comes
to rest after a bounded number of steps, in whatever order they are taken, without being punished
and with the chain of the peer up to a height. This is not always the tip: when the tip is announced
after the first 500 blocks the node asks for what is below it, and from the next time on for what is
below its parent. -/
theorem comes_to_rest {c : InvClient} {st₀ st : InvSync} {n : ℕ} {tip start : Uint256}
    (hserver : Run env.index env.chainActive (some tip))
    (hdata : ∀ hash, some hash ∈ env.chainActive.vChain → env.haveData hash = true ∧ hash ≠ 0)
    (hheight : env.index.nHeight tip < 2 ^ 31)
    (hclient : Run c.index c.chainActive (some start))
    (hbegin : c.chainActive.vChain <+: env.chainActive.vChain)
    (hindex : ∀ hash ∈ c.index.mapBlockIndex, some hash ∈ env.chainActive.vChain →
      some hash ∈ c.chainActive.vChain)
    (hvalid : ∀ (c : InvClient) (hash prev : Uint256), some hash ∈ env.chainActive.vChain →
      env.index.pprev hash = some prev → c.chainActive.tip = some prev →
      outcome c hash = .accepted hash 0)
    (hrequested : c.vBlockRequested = []) (hfine : c.fMisbehaving = false)
    (hstart : c.startSync = some st₀) (hsteps : Steps (Step env outcome) st₀ n st) :
    n ≤ 10 * (env.index.nHeight tip - c.index.nHeight start) + 4 ∧
    (st.server.fDisconnect = false ∧ st.client.fMisbehaving = false) ∧
    (c.chainActive.vChain <+: st.client.chainActive.vChain ∧
      st.client.chainActive.vChain <+: env.chainActive.vChain) ∧
    ((∃ st', Step env outcome st st') ∨ st.client.chainActive.vChain =
      env.chainActive.vChain.take
        (restHeight (c.index.nHeight start) (env.index.nHeight tip) + 1)) := by
  obtain ⟨P, hchain, hN⟩ := exists_entries hserver
  have hserves : Serves env P := by
    refine ⟨.of_run hserver hchain, fun hash hmem => ?_, fun hmem => ?_⟩
    · exact (hdata hash (by rw [hchain]; exact List.mem_map_of_mem hmem)).1
    · exact (hdata 0 (by rw [hchain]; exact List.mem_map_of_mem hmem)).2 rfl
  have hvalidates : Validates outcome P := by
    intro c i hi htip
    have hslot : some P[i + 1] ∈ env.chainActive.vChain :=
      hchain ▸ List.mem_map_of_mem (List.getElem_mem hi)
    exact hvalid c P[i + 1] P[i] hslot (hserves.parent i hi) htip
  rw [hchain] at hbegin
  have hc := ClientAt.of_prefix hclient hbegin
    (fun hash hmem hhash => hindex hash hmem (hchain ▸ List.mem_map_of_mem hhash)) hfine
  have hlen : P.length ≤ 2 ^ 31 := by omega
  have hlt := hc.lt
  obtain ⟨vHave, hloc, hhead, hbound⟩ := hc.getLocator hlen (.inr rfl)
  rw [InvClient.startSync, hloc, Option.map_some] at hstart
  obtain rfl := Option.some.inj hstart
  have hround : Round P (env.index.nHeight tip) (c.index.nHeight start) c.vBlockRequested
      (env.index.nHeight tip + 1) (c.index.nHeight start) := hrequested ▸ .first
  have hasking : Phase env P _ _ _ _ :=
    .asking hc hround (by omega) (hN ▸ hserves.stops_zero) hhead hbound
  -- every step lowers the rank
  obtain ⟨r, hr, hphase⟩ := hsteps.ranked (fun st r st' hp hst =>
    (hp.advances hserves hvalidates hN hlen).2 st' hst) hasking
  obtain ⟨hdisconnect, i, hi, hat⟩ := hphase.client (by omega)
  refine ⟨by omega, ⟨hdisconnect, hat.fine⟩, ⟨?_, ?_⟩, ?_⟩
  · rw [hc.chain, hat.chain]
    exact (List.take_prefix_take_left (by omega)).map some
  · rw [hat.chain, hchain]
    exact (List.take_prefix _ _).map some
  · refine (hphase.advances hserves hvalidates hN hlen).1.imp_right fun hrest => ?_
    rw [hrest.chain, hchain, List.map_take]

end InvSync

namespace Concrete
open InvSync

/-- The blocks of a chain, and a block on another branch. -/
def lineBlock (i : ℕ) : Uint256 := BitVec.ofNat 256 (i + 1)

def branchBlock : Uint256 := 5000

lemma lineBlock_toNat {i : ℕ} (hi : i < 5000) : (lineBlock i).toNat = i + 1 := by
  rw [lineBlock, BitVec.toNat_ofNat, Nat.mod_eq_of_lt (by omega)]

lemma exists_ahead : ∃ env : ServedChain,
    Run env.index env.chainActive (some (lineBlock 1199)) ∧
    env.index.nHeight (lineBlock 1199) = 1199 ∧
    env.chainActive.vChain = (List.range 1200).map (fun i => some (lineBlock i)) ∧
    env.index.pprev (lineBlock 0) = none ∧
    (∀ i < 1199, env.index.pprev (lineBlock (i + 1)) = some (lineBlock i)) ∧
    ∀ hash, env.haveData hash = true := by
  obtain ⟨s, hbuilt, hmap, hroot, hprev, hheight⟩ :=
    BlockMap.exists_line lineBlock 1199 fun i hi j hj heq => by
      have := congrArg BitVec.toNat heq
      rw [lineBlock_toNat (by omega), lineBlock_toNat (by omega)] at this
      omega
  have hin : lineBlock 1199 ∈ s.mapBlockIndex := by
    rw [hmap]
    exact List.mem_map_of_mem (List.mem_range.mpr (by omega))
  have hgraded := hbuilt.skipped.graded
  have hempty : IsPathTo s (⟨[]⟩ : CChain Uint256).vChain none := rfl
  obtain ⟨c, hset, hpath⟩ := setTip_isPath hbuilt.skipped hempty hin
  -- every block is an ancestor of the last one
  have hanc : ∀ d ≤ 1199, Anc s.pprev (lineBlock (1199 - d)) (lineBlock 1199) := by
    intro d
    induction d with
    | zero => exact fun _ => .refl _
    | succ d ih =>
      intro hd
      have hstep := hprev (1199 - (d + 1)) (by omega)
      have hsum : 1199 - (d + 1) + 1 = 1199 - d := by omega
      rw [hsum] at hstep
      exact (Anc.of_parent hstep).trans (ih (by omega))
  refine ⟨⟨s, c, fun _ => false, fun _ => true⟩, ?_, hheight 1199 le_rfl, ?_, hroot, hprev,
    fun _ => rfl⟩
  · refine .setTip (.start hbuilt) (fun p hp => ?_) hset
    rwa [← Option.some.inj hp]
  · refine List.ext_getElem? fun i => ?_
    by_cases hi : i ≤ 1199
    · have hslot := (hpath.anc_iff hgraded hin).mpr (hanc (1199 - i) (by omega))
      have hsub : 1199 - (1199 - i) = i := by omega
      rw [hsub, hheight i hi] at hslot
      rw [hslot, List.getElem?_map, List.getElem?_range (by omega), Option.map_some]
    · have hlen := hpath.length
      rw [hheight 1199 le_rfl] at hlen
      change c.vChain[i]? = _
      rw [List.getElem?_eq_none (by omega), List.getElem?_eq_none (by simp; omega)]

/-- The node has the first block, and one on another branch. -/
def behindIndex : BlockMap Uint256 :=
  let start : BlockMap Uint256 := ⟨[lineBlock 0], fun _ => ⟨none, none, 0⟩⟩
  (start.addToBlockIndex branchBlock (some (lineBlock 0))).getD start

def behindClient : InvClient := ⟨behindIndex, ⟨[some (lineBlock 0)]⟩, [], false⟩

/-- A block whose hash is one more than that of the tip is valid. -/
def nextValid (c : InvClient) (hash : Uint256) : BlockOutcome :=
  if c.chainActive.tip = some (hash - 1) then .accepted hash 0 else .refused 100

lemma behindClient_run :
    Run behindClient.index behindClient.chainActive (some (lineBlock 0)) := by
  have hfirst : (⟨[], fun _ => ⟨none, none, 0⟩⟩ : BlockMap Uint256).addToBlockIndex (lineBlock 0)
      none = some ⟨[lineBlock 0], fun _ => ⟨none, none, 0⟩⟩ := by
    refine congrArg some (congrArg (BlockMap.mk [lineBlock 0]) ?_)
    exact Function.update_eq_self (lineBlock 0) fun _ : Uint256 =>
      (⟨none, none, 0⟩ : SkipNode Uint256)
  have hbuilt : BlockMap.Built (⟨[lineBlock 0], fun _ => ⟨none, none, 0⟩⟩ : BlockMap Uint256) :=
    .add (.empty _) List.not_mem_nil (fun _ hp => by cases hp) hfirst
  refine .add (s := ⟨[lineBlock 0], fun _ => ⟨none, none, 0⟩⟩) (.setTip (.start hbuilt) ?_ rfl)
    (b := branchBlock) (by decide) (fun p (hp : some (lineBlock 0) = some p) => ?_) rfl
  · intro p hp
    obtain rfl := Option.some.inj hp
    decide
  · obtain rfl := Option.some.inj hp
    decide

/-- A peer with 1200 blocks: whatever happens, the node gets all but the last two. -/
theorem comes_to_rest_behind : ∃ env : ServedChain,
    env.chainActive.vChain = (List.range 1200).map (fun i => some (lineBlock i)) ∧
    ∃ st₀, behindClient.startSync = some st₀ ∧ ∀ n st,
      Steps (Step env nextValid) st₀ n st → n ≤ 11994 ∧ st.client.fMisbehaving = false ∧
        ((∃ st', Step env nextValid st st') ∨ st.client.chainActive.vChain =
          (List.range 1198).map fun i => some (lineBlock i)) := by
  obtain ⟨env, hrun, hheight, hchain, hroot, hprev, hall⟩ := exists_ahead
  have hentry : ∀ hash, some hash ∈ env.chainActive.vChain → ∃ i < 1200, hash = lineBlock i := by
    intro hash hmem
    rw [hchain, List.mem_map] at hmem
    obtain ⟨i, hi, heq⟩ := hmem
    exact ⟨i, List.mem_range.mp hi, (Option.some.inj heq).symm⟩
  have hdata : ∀ hash, some hash ∈ env.chainActive.vChain →
      env.haveData hash = true ∧ hash ≠ 0 := by
    rintro _ hmem
    obtain ⟨i, hi, rfl⟩ := hentry _ hmem
    refine ⟨hall _, fun hzero => ?_⟩
    have := congrArg BitVec.toNat hzero
    rw [lineBlock_toNat (by omega)] at this
    exact absurd this (Nat.succ_ne_zero i)
  have hindex : ∀ hash ∈ behindClient.index.mapBlockIndex, some hash ∈ env.chainActive.vChain →
      some hash ∈ behindClient.chainActive.vChain := by
    intro hash hmem hslot
    rcases List.mem_pair.mp hmem with rfl | rfl
    · exact List.mem_singleton_self _
    · obtain ⟨i, hi, heq⟩ := hentry _ hslot
      have := congrArg BitVec.toNat heq
      rw [lineBlock_toNat (by omega)] at this
      have hbranch : branchBlock.toNat = 5000 := rfl
      omega
  have hvalid : ∀ (c : InvClient) (hash prev : Uint256), some hash ∈ env.chainActive.vChain →
      env.index.pprev hash = some prev → c.chainActive.tip = some prev →
      nextValid c hash = .accepted hash 0 := by
    intro c hash prev hslot hp htip
    obtain ⟨i, hi, rfl⟩ := hentry _ hslot
    cases i with
    | zero => cases hroot.symm.trans hp
    | succ i =>
      obtain rfl := Option.some.inj ((hprev i (by omega)).symm.trans hp)
      have hnext : lineBlock (i + 1) - 1 = lineBlock i := by
        rw [lineBlock, lineBlock, BitVec.ofNat_add]
        exact BitVec.add_sub_cancel _ _
      rw [nextValid, hnext, if_pos htip]
  have hbegin : ∀ n, [some (lineBlock 0)] <+: (List.range (n + 1)).map fun i =>
      some (lineBlock i) := by
    intro n
    rw [List.range_succ_eq_map, List.map_cons]
    exact List.prefix_append [_] _
  refine ⟨env, hchain, _, rfl, fun n st hsteps => ?_⟩
  obtain ⟨hn, ⟨-, hfine⟩, -, hend⟩ := comes_to_rest hrun hdata (by rw [hheight]; decide)
    behindClient_run (hchain ▸ hbegin 1199) hindex hvalid rfl rfl rfl hsteps
  have hstart : behindClient.index.nHeight (lineBlock 0) = 0 := rfl
  rw [hheight, hstart] at hn hend
  refine ⟨hn, hfine, hend.imp_right fun h => ?_⟩
  rw [h, hchain, ← List.map_take, List.take_range]
  rfl

end Concrete

end Agenor
