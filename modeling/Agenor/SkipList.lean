import Agenor.BlockTreeAccept

/-!
The search for an ancestor with skip pointers (`main.cpp`): `GetAncestor`, `BuildSkip` and
`LastCommonAncestor`.

A skip pointer is set by a search that uses the skip pointers set before it. Block index entries are
given by the fields that the search reads, and pointers to them are of any type.
-/

namespace Agenor

open Lib.Ancestry

/-- The fields of a `CBlockIndex` that the search reads. -/
structure SkipNode (α : Type*) where
  pprev : Option α
  pskip : Option α
  nHeight : ℕ
  deriving DecidableEq, Repr

/-- `mapBlockIndex` as the pointers it holds, and what they point to. -/
structure BlockMap (α : Type*) where
  mapBlockIndex : List α
  node : α → SkipNode α

namespace BlockMap

open BlockTree (getSkipHeight getSkipHeight_lt)

section

variable {α : Type*} (s : BlockMap α)

def pprev (b : α) : Option α := (s.node b).pprev
def pskip (b : α) : Option α := (s.node b).pskip
def nHeight (b : α) : ℕ := (s.node b).nHeight

/-- Whether the skip pointer is followed, and not `pprev` because its skip pointer is better. The
source subtracts 2 from `heightSkip`. -/
def followSkip (height heightWalk : ℕ) : Bool :=
  let heightSkip := getSkipHeight heightWalk
  let heightSkipPrev := getSkipHeight (heightWalk - 1)
  heightSkip == height || (decide (height < heightSkip) &&
    !(decide (heightSkipPrev + 2 < heightSkip) && decide (height ≤ heightSkipPrev)))

/-- The loop of `GetAncestor`; `none` when a null pointer is followed, or the passes run out. -/
def walk (height : ℕ) : ℕ → Option α → ℕ → Option (Option α)
  | 0, _, _ => none
  | fuel + 1, pindexWalk, heightWalk =>
    if height < heightWalk then
      if followSkip height heightWalk then
        pindexWalk.bind fun p => walk height fuel (s.pskip p) (getSkipHeight heightWalk)
      else pindexWalk.bind fun p => walk height fuel (s.pprev p) (heightWalk - 1)
    else some pindexWalk

/-- `CBlockIndex::GetAncestor`. The loop is given as many passes as there are heights. -/
def getAncestor (b : α) (height : ℤ) : Option (Option α) :=
  if (s.nHeight b : ℤ) < height ∨ height < 0 then some none
  else s.walk height.toNat (s.nHeight b + 1) (some b) (s.nHeight b)

variable [DecidableEq α]

/-- The entry gets a skip pointer. -/
def setSkip (b : α) (pskip : Option α) : BlockMap α :=
  { s with node := Function.update s.node b { s.node b with pskip } }

def buildSkip (b : α) : Option (BlockMap α) :=
  match s.pprev b with
  | none => some s
  | some pprev => (s.getAncestor pprev (getSkipHeight (s.nHeight b))).map (s.setSkip b)

/-- `AddToBlockIndex`, for a block that is not there yet. -/
def addToBlockIndex (pindexNew : α) (miPrev : Option α) : Option (BlockMap α) :=
  let node : SkipNode α := ⟨miPrev, none, (miPrev.map fun p => s.nHeight p + 1).getD 0⟩
  let s : BlockMap α :=
    ⟨s.mapBlockIndex ++ [pindexNew], Function.update s.node pindexNew node⟩
  if miPrev.isSome then s.buildSkip pindexNew else some s

/-- The loop of `LastCommonAncestor`, and its assertion. -/
def climbBoth : ℕ → Option α → Option α → Option (Option α)
  | 0, _, _ => none
  | fuel + 1, pa, pb =>
    match pa, pb with
    | some a, some b =>
      if a = b then some (some a) else climbBoth fuel (s.pprev a) (s.pprev b)
    | pa, pb => if pa = pb then some pa else none

def lastCommonAncestor (pa pb : α) : Option (Option α) :=
  if s.nHeight pb < s.nHeight pa then
    (s.getAncestor pa (s.nHeight pb)).bind fun pa => s.climbBoth (s.nHeight pb + 2) pa (some pb)
  else if s.nHeight pa < s.nHeight pb then
    (s.getAncestor pb (s.nHeight pa)).bind fun pb => s.climbBoth (s.nHeight pa + 2) (some pa) pb
  else s.climbBoth (s.nHeight pa + 2) (some pa) (some pb)

/-- The entries that are added one after the other, each after its parent and with a pointer of its
own. -/
inductive Built : BlockMap α → Prop
  | empty (node : α → SkipNode α) : Built ⟨[], node⟩
  | add {s s' : BlockMap α} {b : α} {miPrev : Option α} (h : Built s) (hb : b ∉ s.mapBlockIndex)
      (hprev : ∀ p, miPrev = some p → p ∈ s.mapBlockIndex)
      (hs : s.addToBlockIndex b miPrev = some s') : Built s'

end

/-! ### The invariant -/

variable {α : Type*} {s : BlockMap α} {S : α → Prop} {b : α}

/-- The entries of a set have their skip pointers, which go to the ancestors that they should. -/
structure Skipped (s : BlockMap α) (S : α → Prop) : Prop where
  graded : Graded s.pprev s.nHeight S
  root : ∀ b, S b → s.pprev b = none → s.nHeight b = 0
  skip : ∀ b, S b → s.pprev b ≠ none → ∃ a, s.pskip b = some a ∧ Anc s.pprev a b ∧
    s.nHeight a = getSkipHeight (s.nHeight b)

lemma le_of_followSkip {height heightWalk : ℕ} (h : followSkip height heightWalk = true) :
    height ≤ getSkipHeight heightWalk := by
  unfold followSkip at h
  simp only [Bool.or_eq_true, beq_iff_eq, Bool.and_eq_true, decide_eq_true_eq] at h
  omega

lemma getSkipHeight_lt_self {height : ℕ} (h : 0 < height) : getSkipHeight height < height := by
  by_cases h2 : 2 ≤ height
  · exact getSkipHeight_lt h2
  · obtain rfl : height = 1 := by omega
    decide

lemma Skipped.walk (h : Skipped s S) {fuel height : ℕ} (hb : S b) (hle : height ≤ s.nHeight b)
    (hfuel : s.nHeight b - height < fuel) :
    ∃ a, s.walk height fuel (some b) (s.nHeight b) = some (some a) ∧ Anc s.pprev a b ∧
      s.nHeight a = height := by
  induction fuel generalizing b with
  | zero => omega
  | succ fuel ih =>
    unfold BlockMap.walk
    by_cases hlt : height < s.nHeight b
    · rw [if_pos hlt]
      have hparent : s.pprev b ≠ none := fun hp => by
        have := h.root b hb hp
        omega
      by_cases hskip : followSkip height (s.nHeight b) = true
      · obtain ⟨k, hk, hanc, hheight⟩ := h.skip b hb hparent
        have hlow := le_of_followSkip hskip
        have hdown := getSkipHeight_lt_self (show 0 < s.nHeight b by omega)
        obtain ⟨a, ha, hak, hah⟩ := ih (h.graded.mem hb hanc) (by omega) (by omega)
        refine ⟨a, ?_, hak.trans hanc, hah⟩
        rw [if_pos hskip, Option.bind_some, hk, ← hheight]
        exact ha
      · obtain ⟨p, hp⟩ := Option.ne_none_iff_exists'.mp hparent
        have hh := h.graded.height hb hp
        obtain ⟨a, ha, hap, hah⟩ := ih (h.graded.closed hb hp) (by omega) (by omega)
        refine ⟨a, ?_, .step hp hap, hah⟩
        rw [if_neg hskip, Option.bind_some, hp, hh, Nat.add_sub_cancel]
        exact ha
    · rw [if_neg hlt]
      exact ⟨b, rfl, .refl b, by omega⟩

lemma Skipped.getAncestor (h : Skipped s S) {k : ℕ} (hb : S b) (hk : k ≤ s.nHeight b) :
    ∃ a, s.getAncestor b k = some (some a) ∧ Anc s.pprev a b ∧ s.nHeight a = k := by
  unfold BlockMap.getAncestor
  rw [if_neg (by omega), Int.toNat_natCast]
  exact h.walk hb hk (by omega)

/-! ### Common ancestors -/

section

variable [DecidableEq α] {pa pb : α}

lemma Skipped.climbBoth (h : Skipped s S) (fuel : ℕ) {r : α} (ha : S pa) (hb : S pb)
    (hh : s.nHeight pa = s.nHeight pb) (hra : Anc s.pprev r pa) (hrb : Anc s.pprev r pb)
    (hfuel : s.nHeight pa < fuel) :
    ∃ c, s.climbBoth fuel (some pa) (some pb) = some (some c) ∧ Meet s.pprev c pa pb := by
  induction fuel generalizing pa pb with
  | zero => omega
  | succ fuel ih =>
    unfold BlockMap.climbBoth
    dsimp only
    by_cases heq : pa = pb
    · subst heq
      exact ⟨pa, if_pos rfl, Meet.self pa⟩
    · obtain ⟨p, q, hp, hq, hrp, hrq⟩ :=
        h.graded.parents_of_common ha hb hh heq hra hrb
      have hhp := h.graded.height ha hp
      have hhq := h.graded.height hb hq
      obtain ⟨c, hc, hmeet⟩ := ih (h.graded.closed ha hp) (h.graded.closed hb hq) (by omega)
        hrp hrq (by omega)
      refine ⟨c, ?_, .step hp hmeet.left, .step hq hmeet.right, fun d hda hdb => ?_⟩
      · rw [if_neg heq, hp, hq]
        exact hc
      · obtain ⟨p', q', hp', hq', hdp, hdq⟩ :=
          h.graded.parents_of_common ha hb hh heq hda hdb
        obtain rfl := Option.some.inj (hp.symm.trans hp')
        obtain rfl := Option.some.inj (hq.symm.trans hq')
        exact hmeet.deepest d hdp hdq

lemma Skipped.lastCommonAncestor (h : Skipped s S) {r : α} (ha : S pa) (hb : S pb)
    (hra : Anc s.pprev r pa) (hrb : Anc s.pprev r pb) :
    ∃ c, s.lastCommonAncestor pa pb = some (some c) ∧ Meet s.pprev c pa pb := by
  unfold BlockMap.lastCommonAncestor
  by_cases hlt : s.nHeight pb < s.nHeight pa
  · obtain ⟨a, hga, hanc, hh⟩ := h.getAncestor ha hlt.le
    have hSa := h.graded.mem ha hanc
    obtain ⟨c, hc, hmeet⟩ := h.climbBoth (s.nHeight pb + 2) hSa hb hh
      (h.graded.common_of_level ha hb hanc hh hra hrb) hrb (by omega)
    refine ⟨c, ?_, h.graded.meet_of_level ha hb hanc hh hmeet⟩
    rw [if_pos hlt, hga, Option.bind_some, hc]
  rw [if_neg hlt]
  by_cases hgt : s.nHeight pa < s.nHeight pb
  · obtain ⟨a, hga, hanc, hh⟩ := h.getAncestor hb hgt.le
    have hSa := h.graded.mem hb hanc
    obtain ⟨c, hc, hmeet⟩ := h.climbBoth (s.nHeight pa + 2) ha hSa hh.symm hra
      (h.graded.common_of_level hb ha hanc hh hrb hra) (by omega)
    refine ⟨c, ?_, (h.graded.meet_of_level hb ha hanc hh hmeet.symm).symm⟩
    rw [if_pos hgt, hga, Option.bind_some, hc]
  · rw [if_neg hgt]
    exact h.climbBoth _ ha hb (by omega) hra hrb (by omega)

end

/-! ### Adding an entry -/

lemma Skipped.congr (h : Skipped s S) {s' : BlockMap α}
    (heq : ∀ b, S b → s'.node b = s.node b) : Skipped s' S := by
  have hpprev : ∀ b, S b → s'.pprev b = s.pprev b := fun b hb => congrArg SkipNode.pprev (heq b hb)
  have hpskip : ∀ b, S b → s'.pskip b = s.pskip b := fun b hb => congrArg SkipNode.pskip (heq b hb)
  have hheight : ∀ b, S b → s'.nHeight b = s.nHeight b := fun b hb =>
    congrArg SkipNode.nHeight (heq b hb)
  have hanc : ∀ {a b}, S b → (Anc s'.pprev a b ↔ Anc s.pprev a b) := fun hb =>
    anc_congr (fun _ _ hc hp => h.graded.closed hc hp) hpprev hb
  refine ⟨⟨fun hb hp => ?_, fun hb hp => ?_⟩, fun b hb hp => ?_, fun b hb hp => ?_⟩
  · rw [hpprev _ hb] at hp
    exact h.graded.closed hb hp
  · rw [hpprev _ hb] at hp
    rw [hheight _ hb, hheight _ (h.graded.closed hb hp)]
    exact h.graded.height hb hp
  · rw [hpprev b hb] at hp
    rw [hheight b hb]
    exact h.root b hb hp
  · rw [hpprev b hb] at hp
    obtain ⟨a, ha, hab, hh⟩ := h.skip b hb hp
    refine ⟨a, ?_, (hanc hb).mpr hab, ?_⟩
    · rw [hpskip b hb, ha]
    · rw [hheight a (h.graded.mem hb hab), hheight b hb, hh]

lemma Skipped.insert (h : Skipped s S)
    (hroot : s.pprev b = none → s.nHeight b = 0)
    (hparent : ∀ p, s.pprev b = some p → S p ∧ s.nHeight b = s.nHeight p + 1 ∧
      ∃ a, s.pskip b = some a ∧ Anc s.pprev a p ∧ s.nHeight a = getSkipHeight (s.nHeight b)) :
    Skipped s fun c => S c ∨ c = b := by
  refine ⟨⟨?_, ?_⟩, ?_, ?_⟩
  · rintro c p (hc | rfl) hp
    · exact .inl (h.graded.closed hc hp)
    · exact .inl (hparent p hp).1
  · rintro c p (hc | rfl) hp
    · exact h.graded.height hc hp
    · exact (hparent p hp).2.1
  · rintro c (hc | rfl) hp
    · exact h.root c hc hp
    · exact hroot hp
  · rintro c (hc | rfl) hp
    · exact h.skip c hc hp
    · obtain ⟨p, hp⟩ := Option.ne_none_iff_exists'.mp hp
      obtain ⟨-, -, a, ha, hap, hh⟩ := hparent p hp
      exact ⟨a, ha, .step hp hap, hh⟩

variable [DecidableEq α]

@[simp] lemma setSkip_pprev (pskip : Option α) : (s.setSkip b pskip).pprev = s.pprev := by
  funext c
  by_cases hc : c = b <;> simp [setSkip, pprev, Function.update, hc]

@[simp] lemma setSkip_nHeight (pskip : Option α) : (s.setSkip b pskip).nHeight = s.nHeight := by
  funext c
  by_cases hc : c = b <;> simp [setSkip, nHeight, Function.update, hc]

@[simp] lemma setSkip_pskip (pskip : Option α) : (s.setSkip b pskip).pskip b = pskip := by
  simp [setSkip, BlockMap.pskip]

lemma Skipped.buildSkip (h : Skipped s S) (hb : ¬ S b)
    (hroot : s.pprev b = none → s.nHeight b = 0)
    (hparent : ∀ p, s.pprev b = some p → S p ∧ s.nHeight b = s.nHeight p + 1) :
    ∃ s', s.buildSkip b = some s' ∧ Skipped s' (fun c => S c ∨ c = b) ∧
      s'.mapBlockIndex = s.mapBlockIndex ∧ s'.pprev = s.pprev ∧ s'.nHeight = s.nHeight := by
  unfold BlockMap.buildSkip
  cases hp : s.pprev b with
  | none => exact ⟨s, rfl, h.insert hroot (by simp [hp]), rfl, rfl, rfl⟩
  | some p =>
    obtain ⟨hSp, hh⟩ := hparent p hp
    have hlow := getSkipHeight_lt_self (show 0 < s.nHeight b by omega)
    obtain ⟨a, ha, hap, hah⟩ := h.getAncestor hSp
      (show getSkipHeight (s.nHeight b) ≤ s.nHeight p by omega)
    dsimp only
    rw [ha, Option.map_some]
    -- nothing that the search read was changed
    have hother : ∀ c, S c → (s.setSkip b (some a)).node c = s.node c := by
      intro c hc
      refine Function.update_of_ne ?_ _ _
      rintro rfl
      exact hb hc
    refine ⟨s.setSkip b (some a), rfl, (h.congr hother).insert ?_ ?_, rfl, setSkip_pprev _,
      setSkip_nHeight _⟩
    · rw [setSkip_pprev, hp]
      rintro ⟨⟩
    · intro q hq
      rw [setSkip_pprev, hp] at hq
      obtain rfl := Option.some.inj hq
      rw [setSkip_pprev, setSkip_nHeight, setSkip_pskip]
      exact ⟨hSp, hh, a, rfl, hap, hah⟩

lemma buildSkip_fields {t : BlockMap α} (h : s.buildSkip b = some t) :
    t.pprev = s.pprev ∧ t.nHeight = s.nHeight ∧ t.mapBlockIndex = s.mapBlockIndex := by
  unfold BlockMap.buildSkip at h
  split at h
  · obtain rfl := Option.some.inj h
    exact ⟨rfl, rfl, rfl⟩
  · obtain ⟨a, -, rfl⟩ := Option.map_eq_some_iff.mp h
    exact ⟨setSkip_pprev a, setSkip_nHeight a, rfl⟩

lemma addToBlockIndex_fields {t : BlockMap α} {miPrev : Option α}
    (h : s.addToBlockIndex b miPrev = some t) :
    t.pprev b = miPrev ∧ (∀ c, c ≠ b → t.pprev c = s.pprev c ∧ t.nHeight c = s.nHeight c) ∧
      t.mapBlockIndex = s.mapBlockIndex ++ [b] := by
  unfold BlockMap.addToBlockIndex at h
  dsimp only at h
  generalize hnode : (⟨miPrev, none, (miPrev.map fun p => s.nHeight p + 1).getD 0⟩ : SkipNode α) =
    node at h
  have hself : (BlockMap.mk (s.mapBlockIndex ++ [b]) (Function.update s.node b node)).pprev b =
      miPrev := by
    change (Function.update s.node b node b).pprev = miPrev
    rw [Function.update_self, ← hnode]
  have hother : ∀ c, c ≠ b → Function.update s.node b node c = s.node c :=
    fun c hc => Function.update_of_ne hc _ _
  split_ifs at h
  · obtain ⟨hpprev, hheight, hmap⟩ := buildSkip_fields h
    rw [hpprev, hheight, hmap]
    exact ⟨hself, fun c hc => ⟨congrArg SkipNode.pprev (hother c hc),
      congrArg SkipNode.nHeight (hother c hc)⟩, rfl⟩
  · obtain rfl := Option.some.inj h
    exact ⟨hself, fun c hc => ⟨congrArg SkipNode.pprev (hother c hc),
      congrArg SkipNode.nHeight (hother c hc)⟩, rfl⟩

lemma Skipped.addToBlockIndex (h : Skipped s (· ∈ s.mapBlockIndex)) {miPrev : Option α}
    (hb : b ∉ s.mapBlockIndex) (hprev : ∀ p, miPrev = some p → p ∈ s.mapBlockIndex) :
    ∃ s', s.addToBlockIndex b miPrev = some s' ∧ Skipped s' (· ∈ s'.mapBlockIndex) ∧
      s'.mapBlockIndex = s.mapBlockIndex ++ [b] := by
  unfold BlockMap.addToBlockIndex
  dsimp only
  generalize hnode : (⟨miPrev, none, (miPrev.map fun p => s.nHeight p + 1).getD 0⟩ : SkipNode α) =
    node
  generalize hadd : (⟨s.mapBlockIndex ++ [b], Function.update s.node b node⟩ : BlockMap α) = t
  have hself : t.node b = node := by
    rw [← hadd]
    exact Function.update_self _ _ _
  have hother : ∀ c ∈ s.mapBlockIndex, t.node c = s.node c := by
    intro c hc
    rw [← hadd]
    refine Function.update_of_ne ?_ _ _
    rintro rfl
    exact hb hc
  have hpprev : t.pprev b = miPrev := by rw [pprev, hself, ← hnode]
  have hheight : t.nHeight b = (miPrev.map fun p => s.nHeight p + 1).getD 0 := by
    rw [nHeight, hself, ← hnode]
  have hmem : t.mapBlockIndex = s.mapBlockIndex ++ [b] := by rw [← hadd]
  have hroot : t.pprev b = none → t.nHeight b = 0 := by
    intro hp
    rw [hpprev] at hp
    rw [hheight, hp]
    rfl
  have hparent : ∀ p, t.pprev b = some p → p ∈ s.mapBlockIndex ∧ t.nHeight b = t.nHeight p + 1 := by
    intro p hp
    rw [hpprev] at hp
    have hps := hprev p hp
    refine ⟨hps, ?_⟩
    rw [hheight, hp, nHeight, hother p hps]
    rfl
  obtain ⟨s', hs', hskip, hmem', -⟩ := (h.congr hother).buildSkip hb hroot hparent
  have hset : (fun c => c ∈ s.mapBlockIndex ∨ c = b) = (· ∈ s'.mapBlockIndex) := by
    funext c
    rw [hmem', hmem, List.mem_append, List.mem_singleton]
  rw [hset] at hskip
  cases miPrev with
  | none =>
    -- a root gets no skip pointer
    have hsame : t = s' := by
      rw [BlockMap.buildSkip, hpprev] at hs'
      exact Option.some.inj hs'
    exact ⟨t, rfl, hsame ▸ hskip, hmem⟩
  | some p => exact ⟨s', hs', hskip, hmem'.trans hmem⟩

lemma Built.skipped (h : Built s) : Skipped s (· ∈ s.mapBlockIndex) := by
  induction h with
  | empty node => exact ⟨⟨by simp, by simp⟩, by simp, by simp⟩
  | add _ hb hprev hs ih =>
    obtain ⟨s', hs', hskip, -⟩ := ih.addToBlockIndex hb hprev
    obtain rfl := Option.some.inj (hs.symm.trans hs')
    exact hskip

/-- An entry can be added to every tree. -/
theorem Built.exists_add (h : Built s) (b : α) (miPrev : Option α) (hb : b ∉ s.mapBlockIndex)
    (hprev : ∀ p, miPrev = some p → p ∈ s.mapBlockIndex) :
    ∃ s', s.addToBlockIndex b miPrev = some s' ∧ Built s' ∧
      s'.mapBlockIndex = s.mapBlockIndex ++ [b] := by
  obtain ⟨s', hs', -, hmem⟩ := h.skipped.addToBlockIndex hb hprev
  exact ⟨s', hs', .add h hb hprev hs', hmem⟩

lemma exists_line (f : ℕ → α) (n : ℕ) (hf : ∀ i ≤ n, ∀ j ≤ n, f i = f j → i = j) :
    ∃ s : BlockMap α, Built s ∧ s.mapBlockIndex = (List.range (n + 1)).map f ∧
      s.pprev (f 0) = none ∧ (∀ i < n, s.pprev (f (i + 1)) = some (f i)) ∧
      ∀ i ≤ n, s.nHeight (f i) = i := by
  suffices ∃ s : BlockMap α, Built s ∧ s.mapBlockIndex = (List.range (n + 1)).map f ∧
      s.pprev (f 0) = none ∧ ∀ i < n, s.pprev (f (i + 1)) = some (f i) by
    obtain ⟨s, hs, hmap, hroot, hprev⟩ := this
    refine ⟨s, hs, hmap, hroot, hprev, fun i hi => ?_⟩
    have hmem : ∀ j ≤ n, f j ∈ s.mapBlockIndex := fun j hj => by
      rw [hmap]
      exact List.mem_map_of_mem (List.mem_range.mpr (by omega))
    induction i with
    | zero => exact hs.skipped.root _ (hmem 0 hi) hroot
    | succ i ih =>
      rw [hs.skipped.graded.height (hmem _ hi) (hprev i (by omega)), ih (by omega)]
  induction n with
  | zero =>
    obtain ⟨s, hadd, hs, hmap⟩ := (Built.empty fun _ : α => ⟨none, none, 0⟩).exists_add (f 0) none
      (by simp) nofun
    exact ⟨s, hs, hmap, (addToBlockIndex_fields hadd).1, fun i hi => absurd hi (Nat.not_lt_zero i)⟩
  | succ n ih =>
    obtain ⟨s, hs, hmap, hroot, hprev⟩ := ih fun i hi j hj => hf i (by omega) j (by omega)
    have hne : ∀ j ≤ n, f j ≠ f (n + 1) := fun j hj heq => by
      have := hf j (by omega) (n + 1) le_rfl heq
      omega
    obtain ⟨s', hadd, hs', hmap'⟩ := hs.exists_add (f (n + 1)) (some (f n))
      (by
        rw [hmap]
        intro hmem
        obtain ⟨j, hj, heq⟩ := List.mem_map.mp hmem
        exact hne j (by simpa using Nat.lt_succ_iff.mp (List.mem_range.mp hj)) heq)
      (by
        rintro p ⟨⟩
        rw [hmap]
        exact List.mem_map_of_mem (List.mem_range.mpr (Nat.lt_succ_self n)))
    obtain ⟨hself, hother, -⟩ := addToBlockIndex_fields hadd
    refine ⟨s', hs', ?_, (hother _ (hne 0 (Nat.zero_le n))).1.trans hroot, fun i hi => ?_⟩
    · simp [hmap', hmap, List.range_succ]
    · rcases Nat.lt_succ_iff_lt_or_eq.mp hi with hlt | rfl
      · exact (hother _ (hne (i + 1) hlt)).1.trans (hprev i hlt)
      · exact hself

/-- **Skip pointers.** However the tree was built, the search comes to the entry that following
`pprev` comes to, and the last common ancestor of two entries of one tree is the deepest one. -/
theorem getAncestor_eq_climb (h : Built s) (hb : b ∈ s.mapBlockIndex) :
    (∀ k : ℕ, k ≤ s.nHeight b → ∃ a, s.getAncestor b k = some (some a) ∧
      climb s.pprev (s.nHeight b - k) b = some a) ∧
    ∀ pb ∈ s.mapBlockIndex, (∃ r, Anc s.pprev r b ∧ Anc s.pprev r pb) →
      ∃ c, s.lastCommonAncestor b pb = some (some c) ∧ Meet s.pprev c b pb := by
  refine ⟨fun k hk => ?_, fun pb hpb ⟨r, hra, hrb⟩ => ?_⟩
  · obtain ⟨a, ha, hanc, hh⟩ := h.skipped.getAncestor hb hk
    have hclimb := ((h.skipped.graded.climb_iff hb).mpr hanc).2
    rw [hh] at hclimb
    exact ⟨a, ha, hclimb⟩
  · exact h.skipped.lastCommonAncestor hb hpb hra hrb

/-- The loop of `LoadBlockIndexDB` that sets the skip pointers of what was read from disk. -/
def buildSkips (s : BlockMap α) (vSortedByHeight : List α) : Option (BlockMap α) :=
  vSortedByHeight.foldlM (fun s b => s.buildSkip b) s

/-- An order by height has each entry after its parent, so all skip pointers are set. -/
theorem Skipped.buildSkips (h : Skipped s S) {order : List α} (hnodup : order.Nodup)
    (hsorted : order.Pairwise fun a b => s.nHeight a ≤ s.nHeight b) (hnew : ∀ b ∈ order, ¬ S b)
    (hroot : ∀ b ∈ order, s.pprev b = none → s.nHeight b = 0)
    (hparent : ∀ b ∈ order, ∀ p, s.pprev b = some p →
      (S p ∨ p ∈ order) ∧ s.nHeight b = s.nHeight p + 1) :
    ∃ s', s.buildSkips order = some s' ∧ Skipped s' fun c => S c ∨ c ∈ order := by
  induction order generalizing s S with
  | nil => exact ⟨s, rfl, by simpa using h⟩
  | cons b order ih =>
    rw [List.nodup_cons] at hnodup
    rw [List.pairwise_cons] at hsorted
    rw [List.forall_mem_cons] at hnew hroot hparent
    -- the parent is lower than what comes later
    have hpar : ∀ p, s.pprev b = some p → S p ∧ s.nHeight b = s.nHeight p + 1 := by
      intro p hp
      obtain ⟨hmem, hh⟩ := hparent.1 p hp
      refine ⟨hmem.resolve_right fun hmem => ?_, hh⟩
      rcases List.mem_cons.mp hmem with rfl | hmem
      · omega
      · have := hsorted.1 p hmem
        omega
    obtain ⟨t, ht, hskip, -, hpprev, hheight⟩ := h.buildSkip hnew.1 hroot.1 hpar
    obtain ⟨s', hs', hall⟩ := ih hskip hnodup.2 (by rw [hheight]; exact hsorted.2)
      (fun c hc => not_or.mpr ⟨hnew.2 c hc, fun hcb => hnodup.1 (hcb ▸ hc)⟩)
      (by rw [hpprev, hheight]; exact hroot.2) (fun c hc p hp => by
        rw [hpprev] at hp
        rw [hheight, or_assoc, ← List.mem_cons]
        exact hparent.2 c hc p hp)
    refine ⟨s', ?_, ?_⟩
    · rw [BlockMap.buildSkips, List.foldlM_cons, ht]
      exact hs'
    · simpa only [or_assoc, ← List.mem_cons] using hall

end BlockMap

namespace BlockTree

open BlockMap

variable {s : BlockTree} {p proof : ℕ}

/-- The tree as the entries that `GetAncestor` sees. -/
def blockMap (s : BlockTree) : BlockMap ℕ :=
  ⟨List.range s.size, fun b => ⟨s.pprev b, (s.node b).pskip, s.nHeight b⟩⟩

/-- **The search without shortcuts** is what `AddToBlockIndex` does with them. -/
theorem blockMap_addToBlockIndex (h : Skipped s.blockMap (· < s.size)) (hp : p < s.size) :
    s.blockMap.addToBlockIndex s.size (some p) = some (s.addToBlockIndex p proof).blockMap := by
  obtain ⟨t, ht⟩ : ∃ t : BlockMap ℕ, t = ⟨List.range s.size ++ [s.size], Function.update
    s.blockMap.node s.size ⟨some p, none, s.nHeight p + 1⟩⟩ := ⟨_, rfl⟩
  have hself : t.node s.size = ⟨some p, none, s.nHeight p + 1⟩ := by
    rw [ht]
    exact Function.update_self _ _ _
  have hother : ∀ c < s.size, t.node c = s.blockMap.node c := by
    intro c hc
    rw [ht]
    exact Function.update_of_ne hc.ne _ _
  have hskip := h.congr hother
  have hheight : t.nHeight p = s.nHeight p := congrArg SkipNode.nHeight (hother p hp)
  have hlow : getSkipHeight (s.nHeight p + 1) < s.nHeight p + 1 :=
    getSkipHeight_lt_self (Nat.succ_pos _)
  obtain ⟨a, ha, hanc, hah⟩ := hskip.getAncestor (k := getSkipHeight (s.nHeight p + 1)) hp
    (by omega)
  -- the same ancestor is found by climbing
  have hclimb : s.getAncestor p (getSkipHeight (s.nHeight p + 1)) = some a := by
    have hup := ((hskip.graded.climb_iff hp).mpr hanc).2
    have hpprev : ∀ c < s.size, t.pprev c = s.blockMap.pprev c := fun c hc =>
      congrArg SkipNode.pprev (hother c hc)
    rw [hah, hheight, climb_congr (fun _ _ hc hq => h.graded.closed hc hq) hpprev hp] at hup
    rw [BlockTree.getAncestor, if_neg (by omega)]
    exact hup
  have hbuild : t.buildSkip s.size = some (t.setSkip s.size (some a)) := by
    rw [buildSkip, BlockMap.pprev, hself]
    dsimp only
    rw [BlockMap.nHeight, hself, ha]
    rfl
  have hadd : s.blockMap.addToBlockIndex s.size (some p) = t.buildSkip s.size := by
    rw [ht]
    rfl
  rw [hadd, hbuild]
  have hnode : ∀ c, (s.addToBlockIndex p proof).blockMap.node c =
      (fun n : BlockNode => ⟨n.pprev, n.pskip, n.nHeight⟩) ((s.addToBlockIndex p proof).node c) :=
    fun _ => rfl
  refine congrArg some (congrArg₂ BlockMap.mk ?_ (funext fun c => ?_))
  · rw [ht, addToBlockIndex_size, List.range_succ]
  · change _ = (s.addToBlockIndex p proof).blockMap.node c
    rw [hnode]
    by_cases hc : c = s.size
    · rw [hc, Function.update_self, hself, addToBlockIndex_node_size, hclimb]
    · have hsame : (s.addToBlockIndex p proof).node c = s.node c := Function.update_of_ne hc _ _
      rw [Function.update_of_ne hc, hsame, ht]
      exact Function.update_of_ne hc _ _

end BlockTree

namespace Concrete

open BlockMap

def noEntries : BlockMap ℕ := ⟨[], fun _ => ⟨none, none, 0⟩⟩

/-- Two entries on one that is on the genesis block. -/
def forkedMap : Option (BlockMap ℕ) := do
  let s ← noEntries.addToBlockIndex 0 none
  let s ← s.addToBlockIndex 1 (some 0)
  let s ← s.addToBlockIndex 2 (some 1)
  s.addToBlockIndex 3 (some 1)

lemma forkedMap_built : ∃ s, forkedMap = some s ∧ Built s ∧ s.mapBlockIndex = [0, 1, 2, 3] := by
  obtain ⟨s0, hs0, h0, hm0⟩ := (Built.empty noEntries.node).exists_add 0 none
    (by simp) (by simp)
  obtain ⟨s1, hs1, h1, hm1⟩ := h0.exists_add 1 (some 0) (by simp [hm0])
    (by simp [hm0])
  obtain ⟨s2, hs2, h2, hm2⟩ := h1.exists_add 2 (some 1) (by simp [hm0, hm1])
    (by simp [hm0, hm1])
  obtain ⟨s3, hs3, h3, hm3⟩ := h2.exists_add 3 (some 1) (by simp [hm0, hm1, hm2])
    (by simp [hm0, hm1, hm2])
  refine ⟨s3, ?_, h3, by simp [hm0, hm1, hm2, hm3]⟩
  have hnone : noEntries.addToBlockIndex 0 none = some s0 := hs0
  rw [forkedMap, hnone]
  dsimp only [bind, Option.bind]
  rw [hs1]
  dsimp only
  rw [hs2]
  exact hs3

/-- Two entries on one have that one as their last common ancestor. -/
theorem getAncestor_eq_climb_forked : ∃ s, forkedMap = some s ∧
    (∃ a, s.getAncestor 3 0 = some (some a) ∧ climb s.pprev 2 3 = some a) ∧
    ∃ c, s.lastCommonAncestor 3 2 = some (some c) ∧ Meet s.pprev c 3 2 := by
  obtain ⟨s, hs, hbuilt, hmem⟩ := forkedMap_built
  have hread : forkedMap.map (fun s => (s.pprev 2, s.pprev 3, s.nHeight 3)) =
      some (some 1, some 1, 2) := by decide
  rw [hs, Option.map_some, Option.some.injEq, Prod.mk.injEq, Prod.mk.injEq] at hread
  obtain ⟨h2, h3, hheight⟩ := hread
  obtain ⟨hclimb, hmeet⟩ := getAncestor_eq_climb hbuilt (b := 3) (by simp [hmem])
  have hzero := hclimb 0 (Nat.zero_le _)
  rw [hheight] at hzero
  exact ⟨s, hs, hzero, hmeet 2 (by simp [hmem]) ⟨1, .of_parent h3, .of_parent h2⟩⟩

end Concrete

end Agenor
