import Agenor.SkipList

/-!
The active chain as a vector (`chain.cpp`): `SetTip`, `FindFork` and `GetLocator`.

`SetTip` goes down from the new tip and stops at the first slot that already holds the entry. What
is below that slot was left there by the calls before, under other tips; it is right because a
vector that is a path under one of its entries is a path under all of them. The index may get new
entries between the calls.
-/

namespace Agenor

open Lib.Ancestry

/-- `CChain`. A slot that has been added and not filled yet holds the null pointer. -/
structure CChain (α : Type*) where
  vChain : List (Option α)
  deriving DecidableEq, Repr

namespace CChain

open BlockMap

section

variable {α : Type*} [DecidableEq α] (s : BlockMap α) (c : CChain α)

def tip : Option α := c.vChain.getLast?.join

/-- `operator[]`. -/
def get (nHeight : ℤ) : Option α :=
  if nHeight < 0 ∨ (c.vChain.length : ℤ) ≤ nHeight then none
  else c.vChain.getD nHeight.toNat none

def contains (pindex : α) : Bool := c.get (s.nHeight pindex) == some pindex

def height : ℤ := (c.vChain.length : ℤ) - 1

/-- `vChain.resize(n)`. -/
def resize (vChain : List (Option α)) (n : ℕ) : List (Option α) :=
  vChain.take n ++ List.replicate (n - vChain.length) none

/-- The loop of `SetTip`; `none` when the passes run out. -/
def setTipLoop : ℕ → List (Option α) → Option α → Option (List (Option α))
  | 0, _, _ => none
  | _ + 1, vChain, none => some vChain
  | fuel + 1, vChain, some pindex =>
    if vChain[s.nHeight pindex]? = some (some pindex) then some vChain
    else setTipLoop fuel (vChain.set (s.nHeight pindex) (some pindex)) (s.pprev pindex)

def setTip : Option α → Option (CChain α)
  | none => some ⟨[]⟩
  | some pindex =>
    (setTipLoop s (s.nHeight pindex + 2) (resize c.vChain (s.nHeight pindex + 1)) (some pindex)).map
      CChain.mk

/-- The loop of `FindFork`. -/
def findForkLoop : ℕ → Option α → Option (Option α)
  | 0, _ => none
  | _ + 1, none => some none
  | fuel + 1, some pindex =>
    if c.contains s pindex then some (some pindex) else findForkLoop fuel (s.pprev pindex)

/-- `FindFork`; `none` when a null pointer is followed, or the passes run out. -/
def findFork : Option α → Option (Option α)
  | none => some none
  | some pindex =>
    let start :=
      if c.height < s.nHeight pindex then s.getAncestor pindex c.height else some (some pindex)
    start.bind (c.findForkLoop s (s.nHeight pindex + 2))

/-- The loop of `GetLocator`, with the entries whose hashes it collects. -/
def locatorLoop : ℕ → ℕ → List α → Option α → Option (List α)
  | 0, _, _, _ => none
  | _ + 1, _, vHave, none => some vHave
  | fuel + 1, nStep, vHave, some pindex =>
    let vHave := vHave ++ [pindex]
    if s.nHeight pindex = 0 then some vHave
    else
      let nHeight : ℤ := max (s.nHeight pindex - nStep) 0
      let next := if c.contains s pindex then some (c.get nHeight) else s.getAncestor pindex nHeight
      next.bind (locatorLoop fuel (if 10 < vHave.length then nStep * 2 else nStep) vHave)

/-- The entries of `GetLocator`. -/
def locator (pindex : Option α) : Option (List α) :=
  let start := match pindex with
    | none => c.tip
    | some pindex => some pindex
  c.locatorLoop s ((start.map s.nHeight).getD 0 + 2) 1 [] start

def getLocator (getBlockHash : α → Uint256) (pindex : Option α) : Option (List Uint256) :=
  (c.locator s pindex).map (·.map getBlockHash)

/-- What can happen to the index and to the chain on it, with the tip that was set last. -/
inductive Run : BlockMap α → CChain α → Option α → Prop
  | start {s : BlockMap α} (h : Built s) : Run s ⟨[]⟩ none
  | add {s s' : BlockMap α} {c : CChain α} {tip : Option α} {b : α} {miPrev : Option α}
      (h : Run s c tip) (hb : b ∉ s.mapBlockIndex)
      (hprev : ∀ p, miPrev = some p → p ∈ s.mapBlockIndex)
      (hs : s.addToBlockIndex b miPrev = some s') : Run s' c tip
  | setTip {s : BlockMap α} {c c' : CChain α} {tip pindex : Option α} (h : Run s c tip)
      (hp : ∀ p, pindex = some p → p ∈ s.mapBlockIndex) (hc : c.setTip s pindex = some c') :
      Run s c' pindex

end

/-! ### Paths -/

section

variable {α : Type*} {s : BlockMap α} {c : CChain α} {S : α → Prop} {t p q : α}
  {v : List (Option α)}

/-- The slots up to the height of an entry hold its ancestors. -/
def Below (s : BlockMap α) (v : List (Option α)) (t : α) : Prop :=
  ∀ h ≤ s.nHeight t, ∃ a, v[h]? = some (some a) ∧ Anc s.pprev a t ∧ s.nHeight a = h

/-- The vector is the path to the tip, and nothing more. -/
structure IsPath (s : BlockMap α) (v : List (Option α)) (t : α) : Prop where
  length : v.length = s.nHeight t + 1
  below : Below s v t

/-- The vector for a tip, or without one. -/
def IsPathTo (s : BlockMap α) (v : List (Option α)) : Option α → Prop
  | none => v = []
  | some t => t ∈ s.mapBlockIndex ∧ IsPath s v t

lemma Below.self (h : Below s v t) (hg : Graded s.pprev s.nHeight S) (ht : S t) :
    v[s.nHeight t]? = some (some t) := by
  obtain ⟨a, ha, hanc, hh⟩ := h _ le_rfl
  rw [ha, hg.eq_of_height ht hanc hh]

lemma Below.mono (h : Below s v t) (hg : Graded s.pprev s.nHeight S) (ht : S t)
    (hq : Anc s.pprev q t) : Below s v q := by
  intro k hk
  obtain ⟨a, ha, hanc, hh⟩ := h k (hk.trans (hg.height_le ht hq))
  refine ⟨a, ha, ?_, hh⟩
  rcases hanc.total hq with haq | hqa
  · exact haq
  · have hle := hg.height_le (hg.mem ht hanc) hqa
    rw [hg.eq_of_height (hg.mem ht hanc) hqa (by omega)]
    exact .refl a

lemma IsPath.anc_iff (h : IsPath s v t) (hg : Graded s.pprev s.nHeight S) (ht : S t) :
    v[s.nHeight q]? = some (some q) ↔ Anc s.pprev q t := by
  constructor
  · intro hq
    have hlt : s.nHeight q < v.length := by
      by_contra hge
      rw [List.getElem?_eq_none (by omega)] at hq
      cases hq
    obtain ⟨a, ha, hanc, -⟩ := h.below (s.nHeight q) (by rw [h.length] at hlt; omega)
    rw [hq] at ha
    obtain rfl := Option.some.inj (Option.some.inj ha)
    exact hanc
  · intro hq
    obtain ⟨a, ha, hanc, hh⟩ := h.below _ (hg.height_le ht hq)
    have haq : a = q := by
      rcases hanc.total hq with haq | hqa
      · exact hg.eq_of_height (hg.mem ht hq) haq hh
      · exact (hg.eq_of_height (hg.mem ht hanc) hqa hh.symm).symm
    rw [ha, haq]

lemma IsPath.eq_append (h : IsPath s v t) (hg : Graded s.pprev s.nHeight S) (ht : S t)
    (hp : s.pprev t = some p) {v' : List (Option α)} (h' : IsPath s v' p) : v = v' ++ [some t] := by
  have hh := hg.height ht hp
  have hlen' := h'.length
  apply List.ext_getElem?
  intro k
  by_cases hk : k < v'.length
  · obtain ⟨a, ha, hanc, rfl⟩ := h'.below k (by omega)
    rw [List.getElem?_append_left hk, ha]
    exact (h.anc_iff hg ht).mpr (.step hp hanc)
  · rw [List.getElem?_append_right (by omega)]
    by_cases heq : k = s.nHeight t
    · have hzero : k - v'.length = 0 := by omega
      rw [hzero, heq, h.below.self hg ht]
      rfl
    · rw [List.getElem?_eq_none (by rw [h.length]; omega),
        List.getElem?_eq_none (by rw [List.length_singleton]; omega)]

lemma Below.congr (h : Below s v t) {v' : List (Option α)}
    (heq : ∀ k ≤ s.nHeight t, v'[k]? = v[k]?) : Below s v' t := by
  intro k hk
  rw [heq k hk]
  exact h k hk

/-! ### `SetTip` -/

lemma length_resize (v : List (Option α)) (n : ℕ) : (resize v n).length = n := by
  rw [resize, List.length_append, List.length_take, List.length_replicate]
  omega

lemma getElem?_resize {k n : ℕ} (hk : k < n) :
    (resize v n)[k]? = if k < v.length then v[k]? else some none := by
  unfold resize
  split_ifs with hlt
  · rw [List.getElem?_append_left (by rw [List.length_take]; omega), List.getElem?_take_of_lt hk]
  · rw [List.getElem?_append_right (by rw [List.length_take]; omega), List.length_take,
      List.getElem?_replicate, if_pos (by omega)]

variable [DecidableEq α]

lemma setTipLoop_below (h : Skipped s S) {fuel : ℕ} (hq : S q) (hlen : s.nHeight q < v.length)
    (hfuel : s.nHeight q + 1 < fuel)
    (hlow : ∀ r, S r → s.nHeight r ≤ s.nHeight q → v[s.nHeight r]? = some (some r) → Below s v r) :
    ∃ v', setTipLoop s fuel v (some q) = some v' ∧ v'.length = v.length ∧ Below s v' q ∧
      ∀ k, s.nHeight q < k → v'[k]? = v[k]? := by
  induction fuel generalizing q v with
  | zero => omega
  | succ fuel ih =>
    unfold setTipLoop
    by_cases hstop : v[s.nHeight q]? = some (some q)
    · exact ⟨v, if_pos hstop, rfl, hlow q hq le_rfl hstop, fun _ _ => rfl⟩
    · have hself : (v.set (s.nHeight q) (some q))[s.nHeight q]? = some (some q) :=
        List.getElem?_set_self hlen
      have hother : ∀ k, k ≠ s.nHeight q → (v.set (s.nHeight q) (some q))[k]? = v[k]? :=
        fun k hk => List.getElem?_set_ne hk.symm
      rw [if_neg hstop]
      cases hp : s.pprev q with
      | none =>
        have hzero := h.root q hq hp
        obtain ⟨fuel, rfl⟩ : ∃ n, fuel = n + 1 := ⟨fuel - 1, by omega⟩
        refine ⟨_, rfl, List.length_set, ?_, fun k hk => hother k (by omega)⟩
        intro k hk
        obtain rfl : k = s.nHeight q := by omega
        exact ⟨q, hself, .refl q, rfl⟩
      | some p =>
        have hh := h.graded.height hq hp
        obtain ⟨v', hv', hlen', hbelow, habove⟩ := ih (v := v.set (s.nHeight q) (some q))
          (h.graded.closed hq hp) (by rw [List.length_set]; omega) (by omega)
          fun r hr hrp hslot => by
            rw [hother _ (by omega)] at hslot
            exact (hlow r hr (by omega) hslot).congr fun k hk => hother k (by omega)
        refine ⟨v', hv', hlen'.trans List.length_set, ?_, fun k hk => ?_⟩
        · intro k hk
          by_cases hlt : k ≤ s.nHeight p
          · obtain ⟨a, ha, hanc, hah⟩ := hbelow k hlt
            exact ⟨a, ha, .step hp hanc, hah⟩
          · obtain rfl : k = s.nHeight q := by omega
            exact ⟨q, (habove _ (by omega)).trans hself, .refl q, rfl⟩
        · rw [habove k (by omega), hother k (by omega)]

lemma setTip_isPath (h : Skipped s (· ∈ s.mapBlockIndex)) {tip : Option α}
    (hpath : IsPathTo s c.vChain tip) (hp : p ∈ s.mapBlockIndex) :
    ∃ c', c.setTip s (some p) = some c' ∧ IsPath s c'.vChain p := by
  have hlow : ∀ r ∈ s.mapBlockIndex, s.nHeight r ≤ s.nHeight p →
      (resize c.vChain (s.nHeight p + 1))[s.nHeight r]? = some (some r) →
      Below s (resize c.vChain (s.nHeight p + 1)) r := by
    intro r hr hrp hslot
    rw [getElem?_resize (by omega)] at hslot
    split_ifs at hslot with hlt
    · cases tip with
      | none =>
        have hnil : c.vChain = [] := hpath
        rw [hnil] at hlt
        exact absurd hlt (by simp)
      | some t =>
        obtain ⟨ht, hpath⟩ := hpath
        have hanc := (hpath.anc_iff h.graded ht).mp hslot
        refine (hpath.below.mono h.graded ht hanc).congr fun k hk => ?_
        rw [getElem?_resize (by omega), if_pos (by omega)]
    · cases hslot
  obtain ⟨v', hv', hlen, hbelow, -⟩ := setTipLoop_below h hp
    (by rw [length_resize]; omega) (show s.nHeight p + 1 < s.nHeight p + 2 by omega) hlow
  exact ⟨⟨v'⟩, by rw [setTip, hv', Option.map_some], hlen.trans (length_resize _ _), hbelow⟩

lemma IsPathTo.add {s' : BlockMap α} {tip miPrev : Option α} {b : α}
    (h : Skipped s (· ∈ s.mapBlockIndex)) (hpath : IsPathTo s v tip) (hb : b ∉ s.mapBlockIndex)
    (hs : s.addToBlockIndex b miPrev = some s') : IsPathTo s' v tip := by
  obtain ⟨-, hother, hmap⟩ := addToBlockIndex_fields hs
  have hsame : ∀ q ∈ s.mapBlockIndex, s'.pprev q = s.pprev q ∧ s'.nHeight q = s.nHeight q := by
    intro q hq
    exact hother q fun heq => hb (heq ▸ hq)
  cases tip with
  | none => exact hpath
  | some t =>
    obtain ⟨ht, hlen, hbelow⟩ := hpath
    refine ⟨hmap ▸ List.mem_append_left _ ht, ?_, ?_⟩
    · rw [hlen, (hsame t ht).2]
    · intro k hk
      rw [(hsame t ht).2] at hk
      obtain ⟨a, ha, hanc, hh⟩ := hbelow k hk
      refine ⟨a, ha, ?_, ?_⟩
      · rw [anc_congr (fun _ _ hq hp => h.graded.closed hq hp) (fun q hq => (hsame q hq).1) ht]
        exact hanc
      · rw [(hsame a (h.graded.mem ht hanc)).2, hh]

lemma Run.isPathTo {tip : Option α} (h : Run s c tip) : Built s ∧ IsPathTo s c.vChain tip := by
  induction h with
  | start h => exact ⟨h, rfl⟩
  | add h hb hprev hs ih =>
    obtain ⟨hbuilt, hpath⟩ := ih
    exact ⟨.add hbuilt hb hprev hs, hpath.add hbuilt.skipped hb hs⟩
  | @setTip s c c' tip pindex h hp hc ih =>
    obtain ⟨hbuilt, hpath⟩ := ih
    refine ⟨hbuilt, ?_⟩
    cases pindex with
    | none =>
      obtain rfl := Option.some.inj hc
      rfl
    | some p =>
      obtain ⟨c₁, hc₁, hnew⟩ := setTip_isPath hbuilt.skipped hpath (hp p rfl)
      obtain rfl := Option.some.inj (hc.symm.trans hc₁)
      exact ⟨hp p rfl, hnew⟩

/-! ### `FindFork` -/

omit [DecidableEq α] in
lemma get_natCast (k : ℕ) : c.get k = (c.vChain[k]?).join := by
  unfold get
  by_cases hlt : k < c.vChain.length
  · rw [if_neg (by omega), Int.toNat_natCast, List.getD_eq_getElem?_getD]
    cases c.vChain[k]? <;> rfl
  · rw [if_pos (by omega), List.getElem?_eq_none (by omega)]
    rfl

lemma contains_iff : c.contains s q = true ↔ c.vChain[s.nHeight q]? = some (some q) := by
  rw [contains, get_natCast, beq_iff_eq]
  cases c.vChain[s.nHeight q]? <;> simp

/-- The deepest entry in the chain that is the given one or one of its ancestors, or nothing if
there is none. -/
def IsFork (s : BlockMap α) (c : CChain α) (p : α) : Option α → Prop
  | none => ∀ d, Anc s.pprev d p → c.contains s d = false
  | some a => c.contains s a = true ∧ Anc s.pprev a p ∧
    ∀ d, Anc s.pprev d p → c.contains s d = true → Anc s.pprev d a

lemma findForkLoop_isFork (h : Skipped s S) {fuel : ℕ} (hq : S q) (hfuel : s.nHeight q + 1 < fuel) :
    ∃ r, c.findForkLoop s fuel (some q) = some r ∧ IsFork s c q r := by
  induction fuel generalizing q with
  | zero => omega
  | succ fuel ih =>
    unfold findForkLoop
    by_cases hstop : c.contains s q = true
    · exact ⟨some q, if_pos hstop, hstop, .refl q, fun d hd _ => hd⟩
    · rw [if_neg hstop]
      rw [Bool.not_eq_true] at hstop
      cases hp : s.pprev q with
      | none =>
        obtain ⟨fuel, rfl⟩ : ∃ n, fuel = n + 1 := ⟨fuel - 1, by omega⟩
        refine ⟨none, rfl, fun d hd => ?_⟩
        rcases hd.cases_parent with rfl | ⟨p, hp', -⟩
        · exact hstop
        · rw [hp] at hp'
          cases hp'
      | some p =>
        have hh := h.graded.height hq hp
        obtain ⟨r, hr, hfork⟩ := ih (h.graded.closed hq hp) (by omega)
        refine ⟨r, hr, ?_⟩
        -- an ancestor in the chain is not the entry itself
        have hbelow : ∀ d, Anc s.pprev d q → c.contains s d = true → Anc s.pprev d p := by
          intro d hd hin
          rcases hd.cases_parent with rfl | ⟨p', hp', hdp⟩
          · rw [hstop] at hin
            cases hin
          · obtain rfl := Option.some.inj (hp.symm.trans hp')
            exact hdp
        cases r with
        | none =>
          intro d hd
          by_contra hin
          rw [Bool.not_eq_false] at hin
          rw [hfork d (hbelow d hd hin)] at hin
          cases hin
        | some a =>
          obtain ⟨ha, hanc, hdeep⟩ := hfork
          exact ⟨ha, .step hp hanc, fun d hd hin => hdeep d (hbelow d hd hin) hin⟩

lemma IsFork.of_level {a : α} {r : Option α} (h : Skipped s S) (hp : S p) (hanc : Anc s.pprev a p)
    (hheight : c.vChain.length = s.nHeight a + 1) (hfork : IsFork s c a r) : IsFork s c p r := by
  have hbelow : ∀ d, Anc s.pprev d p → c.contains s d = true → Anc s.pprev d a := by
    intro d hd hin
    rw [contains_iff] at hin
    have hlt : s.nHeight d < c.vChain.length := by
      by_contra hge
      rw [List.getElem?_eq_none (by omega)] at hin
      cases hin
    rcases hd.total hanc with hda | had
    · exact hda
    · have hle := h.graded.height_le (h.graded.mem hp hd) had
      rw [h.graded.eq_of_height (h.graded.mem hp hd) had (by omega)]
      exact .refl d
  cases r with
  | none =>
    intro d hd
    by_contra hin
    rw [Bool.not_eq_false] at hin
    rw [hfork d (hbelow d hd hin)] at hin
    cases hin
  | some b =>
    obtain ⟨hb, hba, hdeep⟩ := hfork
    exact ⟨hb, hba.trans hanc, fun d hd hin => hdeep d (hbelow d hd hin) hin⟩

lemma findFork_isFork (h : Skipped s (· ∈ s.mapBlockIndex)) (hp : p ∈ s.mapBlockIndex) :
    ∃ r, c.findFork s (some p) = some r ∧ IsFork s c p r := by
  unfold findFork height
  dsimp only
  by_cases hhigh : (c.vChain.length : ℤ) - 1 < s.nHeight p
  · rw [if_pos hhigh]
    rcases Nat.eq_zero_or_pos c.vChain.length with hzero | hpos
    · refine ⟨none, ?_, fun d hd => ?_⟩
      · rw [getAncestor, if_pos (by omega), Option.bind_some]
        rfl
      · rw [← Bool.not_eq_true, contains_iff, List.getElem?_eq_none (by omega)]
        exact nofun
    · obtain ⟨n, hn⟩ : ∃ n, c.vChain.length = n + 1 := ⟨c.vChain.length - 1, by omega⟩
      have hcast : (c.vChain.length : ℤ) - 1 = (n : ℕ) := by omega
      obtain ⟨a, ha, hanc, hah⟩ := h.getAncestor (k := n) hp (by omega)
      obtain ⟨r, hr, hfork⟩ := findForkLoop_isFork (c := c) h (h.graded.mem hp hanc)
        (show s.nHeight a + 1 < s.nHeight p + 2 by
          have := h.graded.height_le hp hanc
          omega)
      refine ⟨r, ?_, hfork.of_level h hp hanc (by omega)⟩
      rw [hcast, ha, Option.bind_some, hr]
  · rw [if_neg hhigh, Option.bind_some]
    exact findForkLoop_isFork h hp (by omega)

/-! ### `GetLocator` -/

/-- The entries go down from the given one to its genesis block. -/
structure Descends (s : BlockMap α) (l : List α) (p : α) : Prop where
  head : l.head? = some p
  anc : ∀ a ∈ l, Anc s.pprev a p
  sorted : l.Pairwise fun a b => s.nHeight b < s.nHeight a
  genesis : ∃ g, l.getLast? = some g ∧ s.pprev g = none

omit [DecidableEq α] in
lemma Descends.cons {l : List α} {a : α} (h : Skipped s S) (hp : S p) (hanc : Anc s.pprev a p)
    (hlt : s.nHeight a < s.nHeight p) (hd : Descends s l a) : Descends s (p :: l) p := by
  refine ⟨rfl, ?_, ?_, ?_⟩
  · intro b hb
    rcases List.mem_cons.mp hb with rfl | hb
    · exact .refl b
    · exact (hd.anc b hb).trans hanc
  · refine List.pairwise_cons.mpr ⟨fun b hb => ?_, hd.sorted⟩
    have := h.graded.height_le (h.graded.mem hp hanc) (hd.anc b hb)
    omega
  · obtain ⟨g, hg, hroot⟩ := hd.genesis
    have hne : l ≠ [] := by
      rintro rfl
      cases hg
    exact ⟨g, by rw [List.getLast?_cons_of_ne_nil hne, hg], hroot⟩

lemma locatorLoop_descends (h : Skipped s (· ∈ s.mapBlockIndex)) {tip : Option α}
    (hpath : IsPathTo s c.vChain tip) {fuel nStep : ℕ} (vHave : List α) (hq : q ∈ s.mapBlockIndex)
    (hstep : 1 ≤ nStep) (hfuel : s.nHeight q < fuel) :
    ∃ l, c.locatorLoop s fuel nStep vHave (some q) = some (vHave ++ l) ∧ Descends s l q := by
  induction fuel generalizing q nStep vHave with
  | zero => omega
  | succ fuel ih =>
    unfold locatorLoop
    dsimp only
    by_cases hzero : s.nHeight q = 0
    · refine ⟨[q], if_pos hzero, rfl, ?_, List.pairwise_singleton _ _, q, rfl, ?_⟩
      · intro a ha
        rw [List.mem_singleton.mp ha]
        exact .refl q
      · cases hp : s.pprev q with
        | none => rfl
        | some p =>
          have := h.graded.height hq hp
          omega
    · have hmax : max ((s.nHeight q : ℤ) - nStep) 0 = ((s.nHeight q - nStep : ℕ) : ℤ) := by omega
      -- either way the loop goes on from the ancestor at that height
      have hnext : ∃ a, (if c.contains s q = true then
            some (c.get (max ((s.nHeight q : ℤ) - nStep) 0))
          else s.getAncestor q (max ((s.nHeight q : ℤ) - nStep) 0)) = some (some a) ∧
          Anc s.pprev a q ∧ s.nHeight a = s.nHeight q - nStep := by
        rw [hmax]
        by_cases hin : c.contains s q = true
        · rw [if_pos hin, get_natCast]
          cases tip with
          | none =>
            have hnil : c.vChain = [] := hpath
            rw [contains_iff, hnil] at hin
            cases hin
          | some t =>
            obtain ⟨ht, hpath⟩ := hpath
            have hqt := (hpath.anc_iff h.graded ht).mp (contains_iff.mp hin)
            obtain ⟨a, ha, hanc, hh⟩ := hpath.below.mono h.graded ht hqt (s.nHeight q - nStep)
              (Nat.sub_le _ _)
            exact ⟨a, by rw [ha]; rfl, hanc, hh⟩
        · rw [if_neg hin]
          exact h.getAncestor hq (Nat.sub_le _ _)
      obtain ⟨a, ha, hanc, hh⟩ := hnext
      obtain ⟨l, hl, hdesc⟩ := ih (vHave ++ [q]) (h.graded.mem hq hanc)
        (show 1 ≤ if 10 < (vHave ++ [q]).length then nStep * 2 else nStep by split_ifs <;> omega)
        (by omega)
      refine ⟨q :: l, ?_, hdesc.cons h hq hanc (by omega)⟩
      rw [if_neg hzero, ha, Option.bind_some, hl, List.append_assoc, List.singleton_append]

end

section

variable {α : Type*} [DecidableEq α] {s : BlockMap α} {c : CChain α} {tip : Option α}

/-- **The active chain.** Whatever tips have been set, and whatever entries have come to the index
in between, the vector is the path to the tip that was set last and another tip can be set;
`FindFork` finds the deepest common entry, and `GetLocator` goes down from an entry to its genesis
block. -/
theorem run_activeChain (h : Run s c tip) :
    IsPathTo s c.vChain tip ∧ ∀ p ∈ s.mapBlockIndex,
      (∃ c', c.setTip s (some p) = some c' ∧ IsPath s c'.vChain p) ∧
      (∃ r, c.findFork s (some p) = some r ∧ IsFork s c p r) ∧
      ∀ getBlockHash : α → Uint256, ∃ l, Descends s l p ∧
        c.getLocator s getBlockHash (some p) = some (l.map getBlockHash) := by
  obtain ⟨hbuilt, hpath⟩ := h.isPathTo
  refine ⟨hpath, fun p hp => ⟨setTip_isPath hbuilt.skipped hpath hp,
    findFork_isFork hbuilt.skipped hp, fun getBlockHash => ?_⟩⟩
  obtain ⟨l, hl, hdesc⟩ := locatorLoop_descends hbuilt.skipped hpath [] hp le_rfl
    (show s.nHeight p < s.nHeight p + 2 by omega)
  refine ⟨l, hdesc, ?_⟩
  have hlocator : c.locator s (some p) = some l := hl
  rw [getLocator, hlocator, Option.map_some]

/-- The tip of the vector is the one that was set, and without an entry the locator starts there. -/
theorem run_tip (h : Run s c tip) :
    c.tip = tip ∧ c.locator s none = (tip.map fun t => c.locator s (some t)).getD (some []) := by
  obtain ⟨hbuilt, hpath⟩ := h.isPathTo
  have htip : c.tip = tip := by
    cases tip with
    | none =>
      have hnil : c.vChain = [] := hpath
      rw [CChain.tip, hnil]
      rfl
    | some t =>
      obtain ⟨ht, hpath⟩ := hpath
      have hself := hpath.below.self hbuilt.skipped.graded ht
      rw [CChain.tip, List.getLast?_eq_getElem?, hpath.length, Nat.add_sub_cancel, hself]
      rfl
  refine ⟨htip, ?_⟩
  unfold locator
  dsimp only
  rw [htip]
  cases tip <;> rfl

omit [DecidableEq α] in

end

end CChain

namespace Concrete

open CChain

/-- The tip moves from one branch to the other. -/
theorem run_activeChain_forked : ∃ s c, forkedMap = some s ∧ IsPathTo s c.vChain (some 3) ∧
    (∃ r, c.findFork s (some 2) = some r ∧ IsFork s c 2 r) ∧
    ∃ l, Descends s l 2 ∧
      c.getLocator s (BitVec.ofNat 256) (some 2) = some (l.map (BitVec.ofNat 256)) := by
  obtain ⟨s, hs, hbuilt, hmem⟩ := forkedMap_built
  have hin : ∀ k < 4, k ∈ s.mapBlockIndex := by
    intro k hk
    simp only [hmem, List.mem_cons, List.not_mem_nil, or_false]
    omega
  have hempty : IsPathTo s ([] : List (Option ℕ)) none := rfl
  obtain ⟨c₁, hc₁, -⟩ := setTip_isPath hbuilt.skipped (c := ⟨[]⟩) hempty (hin 2 (by decide))
  have hrun₁ : Run s c₁ (some 2) := .setTip (.start hbuilt) (by simpa using hin 2 (by decide)) hc₁
  obtain ⟨c₂, hc₂, -⟩ := setTip_isPath hbuilt.skipped hrun₁.isPathTo.2 (hin 3 (by decide))
  have hrun₂ : Run s c₂ (some 3) := .setTip hrun₁ (by simpa using hin 3 (by decide)) hc₂
  obtain ⟨hpath, hall⟩ := run_activeChain hrun₂
  obtain ⟨-, hfork, hloc⟩ := hall 2 (hin 2 (by decide))
  exact ⟨s, c₂, hs, hpath, hfork, hloc _⟩

end Concrete

end Agenor
