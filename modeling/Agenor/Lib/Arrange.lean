import Mathlib.Data.List.Basic
import Mathlib.Order.Lattice
import Mathlib.Order.Basic

/-!
Lists in descending order of a key.

What has the same key may stand in any order, so a list has many arrangements. The place of an
element lies between the number of those with a greater key and the number of those with one that is
not smaller, and both ends are met by some arrangement. From this follows when a choice among the
first elements is the same for all arrangements.
-/

namespace Agenor.Lib

variable {α κ β : Type*} [LinearOrder κ] [LinearOrder β] {key : α → κ} {score : α → β} {z : β}
  {v w w₁ w₂ : List α} {e x : α} {k : ℕ}

/-- The second list has the elements of the first in descending order of their keys. -/
structure Arranges (key : α → κ) (v w : List α) : Prop where
  perm : w.Perm v
  sorted : w.Pairwise fun a b => key b ≤ key a

/-- How many elements have a greater key. -/
def above (key : α → κ) (v : List α) (e : α) : ℕ := v.countP fun x => decide (key e < key x)

/-- How many elements have a key that is not smaller. -/
def atLeast (key : α → κ) (v : List α) (e : α) : ℕ := v.countP fun x => decide (key e ≤ key x)

namespace Arranges

lemma before (h : Arranges key v (w₁ ++ e :: w₂)) (hx : x ∈ w₁) : key e ≤ key x :=
  (List.pairwise_append.mp h.sorted).2.2 x hx e (List.mem_cons_self ..)

lemma after (h : Arranges key v (w₁ ++ e :: w₂)) (hx : x ∈ w₂) : key x ≤ key e :=
  (List.pairwise_cons.mp (List.pairwise_append.mp h.sorted).2.1).1 x hx

lemma notMem (h : Arranges key v (w₁ ++ e :: w₂)) (hnodup : v.Nodup) : e ∉ w₁ ∧ e ∉ w₂ := by
  have hnd := List.nodup_append.mp (h.perm.nodup_iff.mpr hnodup)
  refine ⟨fun hmem => hnd.2.2 e hmem e (List.mem_cons_self ..) rfl, ?_⟩
  exact (List.nodup_cons.mp hnd.2.1).1

lemma above_le (h : Arranges key v (w₁ ++ e :: w₂)) : above key v e ≤ w₁.length := by
  have hrest : (e :: w₂).countP (fun x => decide (key e < key x)) = 0 := by
    rw [List.countP_eq_zero]
    intro x hx
    rcases List.mem_cons.mp hx with rfl | hx
    · simp
    · simpa using h.after hx
  rw [above, ← h.perm.countP_eq, List.countP_append, hrest, Nat.add_zero]
  exact List.countP_le_length

lemma lt_atLeast (h : Arranges key v (w₁ ++ e :: w₂)) : w₁.length < atLeast key v e := by
  have hall : w₁.countP (fun x => decide (key e ≤ key x)) = w₁.length := by
    rw [List.countP_eq_length]
    intro x hx
    simpa using h.before hx
  rw [atLeast, ← h.perm.countP_eq, List.countP_append, hall, List.countP_cons]
  simp

lemma length_eq_above (h : Arranges key v (w₁ ++ e :: w₂)) (hfirst : ∀ x ∈ w₁, key e < key x) :
    w₁.length = above key v e := by
  refine le_antisymm ?_ h.above_le
  have hall : w₁.countP (fun x => decide (key e < key x)) = w₁.length := by
    rw [List.countP_eq_length]
    intro x hx
    simpa using hfirst x hx
  rw [above, ← h.perm.countP_eq, List.countP_append, hall]
  exact Nat.le_add_right _ _

lemma length_eq_atLeast (h : Arranges key v (w₁ ++ e :: w₂)) (hlast : ∀ x ∈ w₂, key x < key e) :
    w₁.length + 1 = atLeast key v e := by
  refine le_antisymm h.lt_atLeast ?_
  have hnone : w₂.countP (fun x => decide (key e ≤ key x)) = 0 := by
    rw [List.countP_eq_zero]
    intro x hx
    simpa using hlast x hx
  rw [atLeast, ← h.perm.countP_eq, List.countP_append, List.countP_cons, hnone]
  simp only [le_refl, decide_true, if_true, Nat.zero_add]
  exact Nat.add_le_add_right List.countP_le_length 1

end Arranges

lemma exists_arranges_prefer (key : α → κ) (v : List α) (pref : α → Bool) :
    ∃ w, Arranges key v w ∧
      w.Pairwise fun a b => key a = key b → pref b = true → pref a = true := by
  classical
  let le : α → α → Bool := fun a b =>
    decide (key b < key a ∨ key a = key b ∧ (pref b = true → pref a = true))
  have hpair : (v.mergeSort le).Pairwise fun a b => le a b = true := by
    refine List.pairwise_mergeSort (fun a b c hab hbc => ?_) (fun a b => ?_) v
    · simp only [le, decide_eq_true_eq] at hab hbc ⊢
      rcases hab with hab | ⟨hab, hpab⟩ <;> rcases hbc with hbc | ⟨hbc, hpbc⟩
      · exact .inl (hbc.trans hab)
      · exact .inl (hbc ▸ hab)
      · exact .inl (hab ▸ hbc)
      · exact .inr ⟨hab.trans hbc, fun h => hpab (hpbc h)⟩
    · rw [Bool.or_eq_true]
      simp only [le, decide_eq_true_eq]
      rcases lt_trichotomy (key a) (key b) with h | h | h
      · exact .inr (.inl h)
      · cases hb : pref b with
        | false => exact .inl (.inr ⟨h, fun hb => absurd hb (by simp)⟩)
        | true => exact .inr (.inr ⟨h.symm, fun _ => rfl⟩)
      · exact .inl (.inl h)
  refine ⟨v.mergeSort le, ⟨List.mergeSort_perm v le, hpair.imp ?_⟩, hpair.imp ?_⟩
  · intro a b hab
    simp only [le, decide_eq_true_eq] at hab
    rcases hab with hab | ⟨hab, -⟩
    · exact hab.le
    · exact hab.ge
  · intro a b hab heq
    simp only [le, decide_eq_true_eq] at hab
    rcases hab with hab | ⟨-, hab⟩
    · exact absurd heq hab.ne'
    · exact hab

lemma exists_arranges_first (key : α → κ) (he : e ∈ v) :
    ∃ w₁ w₂, Arranges key v (w₁ ++ e :: w₂) ∧ ∀ x ∈ w₁, key e < key x := by
  classical
  obtain ⟨w, hw, hpref⟩ := exists_arranges_prefer key v fun x => decide (x = e)
  obtain ⟨w₁, w₂, rfl, hnot⟩ := List.eq_append_cons_of_mem (hw.perm.mem_iff.mpr he)
  refine ⟨w₁, w₂, hw, fun x hx => lt_of_le_of_ne (hw.before hx) fun heq => ?_⟩
  have hxe := (List.pairwise_append.mp hpref).2.2 x hx e (List.mem_cons_self ..) heq.symm
  simp only [decide_eq_true_eq, forall_const] at hxe
  exact hnot (hxe ▸ hx)

lemma exists_arranges_last (key : α → κ) (hnodup : v.Nodup) (he : e ∈ v) :
    ∃ w₁ w₂, Arranges key v (w₁ ++ e :: w₂) ∧ ∀ x ∈ w₂, key x < key e := by
  classical
  obtain ⟨w, hw, hpref⟩ := exists_arranges_prefer key v fun x => decide (x ≠ e)
  obtain ⟨w₁, w₂, rfl⟩ := List.append_of_mem (hw.perm.mem_iff.mpr he)
  obtain ⟨-, hnot⟩ := hw.notMem hnodup
  refine ⟨w₁, w₂, hw, fun x hx => lt_of_le_of_ne (hw.after hx) fun heq => ?_⟩
  have hpair := List.pairwise_cons.mp (List.pairwise_append.mp hpref).2.1
  have hxe := hpair.1 x hx heq.symm
  simp only [decide_eq_true_eq, ne_eq, not_true_eq_false, imp_false, not_not] at hxe
  exact hnot (hxe ▸ hx)

/-! ### The best of the first elements -/

/-- The first of the elements with the highest score, when that is above the bound. -/
def bestFrom (score : α → β) : β → Option α → List α → Option α
  | _, best, [] => best
  | high, best, x :: l =>
    if high < score x then bestFrom score (score x) (some x) l else bestFrom score high best l

lemma bestFrom_cases (score : α → β) (high : β) (best : Option α) (l : List α) :
    (bestFrom score high best l = best ∧ ∀ x ∈ l, score x ≤ high) ∨
    ∃ l₁ e l₂, bestFrom score high best l = some e ∧ l = l₁ ++ e :: l₂ ∧ high < score e ∧
      (∀ x ∈ l₁, score x < score e) ∧ ∀ x ∈ l₂, score x ≤ score e := by
  induction l generalizing high best with
  | nil => exact .inl ⟨rfl, by simp⟩
  | cons x l ih =>
    rw [bestFrom]
    split_ifs with hx
    · rcases ih (score x) (some x) with ⟨heq, hle⟩ | ⟨l₁, e, l₂, heq, rfl, hlt, h₁, h₂⟩
      · exact .inr ⟨[], x, l, heq, rfl, hx, by simp, hle⟩
      · refine .inr ⟨x :: l₁, e, l₂, heq, rfl, hx.trans hlt, ?_, h₂⟩
        simpa using ⟨hlt, h₁⟩
    · rcases ih high best with ⟨heq, hle⟩ | ⟨l₁, e, l₂, heq, rfl, hlt, h₁, h₂⟩
      · exact .inl ⟨heq, by simpa using ⟨not_lt.mp hx, hle⟩⟩
      · refine .inr ⟨x :: l₁, e, l₂, heq, rfl, hlt, ?_, h₂⟩
        simpa using ⟨(not_lt.mp hx).trans_lt hlt, h₁⟩

/-- The element that is chosen among the first ones of an arrangement. -/
def choice (score : α → β) (z : β) (k : ℕ) (w : List α) : Option α :=
  bestFrom score z none (w.take k)

lemma choice_none (h : choice score z k w = none) (hx : x ∈ w.take k) : score x ≤ z := by
  rcases bestFrom_cases score z none (w.take k) with ⟨-, hle⟩ | ⟨l₁, e, l₂, heq, -⟩
  · exact hle x hx
  · exact absurd (h.symm.trans heq) (by simp)

lemma choice_some (h : choice score z k w = some e) :
    z < score e ∧ ∃ w₁ w₂, w = w₁ ++ e :: w₂ ∧ w₁.length < k ∧ (∀ x ∈ w₁, score x < score e) ∧
      ∀ x ∈ w.take k, score x ≤ score e := by
  rcases bestFrom_cases score z none (w.take k) with ⟨heq, -⟩ | ⟨l₁, e', l₂, heq, hl, hlt, h₁, h₂⟩
  · exact absurd (h.symm.trans heq) (by simp)
  · obtain rfl : e = e' := Option.some.inj (h.symm.trans heq)
    refine ⟨hlt, l₁, l₂ ++ w.drop k, ?_, ?_, h₁, fun x hx => ?_⟩
    · have hw := List.take_append_drop k w
      rw [hl] at hw
      simpa using hw.symm
    · have hlen := List.length_take_le k w
      rw [hl, List.length_append, List.length_cons] at hlen
      omega
    · rw [hl] at hx
      rcases List.mem_append.mp hx with hx | hx
      · exact (h₁ x hx).le
      · rcases List.mem_cons.mp hx with rfl | hx
        · exact le_rfl
        · exact h₂ x hx

lemma mem_take_of_length_lt (h : w₁.length < k) : e ∈ (w₁ ++ e :: w₂).take k := by
  rw [List.take_append]
  obtain ⟨m, hm⟩ : ∃ m, k - w₁.length = m + 1 := ⟨k - w₁.length - 1, by omega⟩
  rw [hm, List.take_succ_cons]
  exact List.mem_append_right _ (List.mem_cons_self ..)

namespace Arranges

lemma mem_take (h : Arranges key v w) (hx : x ∈ v) (hk : atLeast key v x ≤ k) : x ∈ w.take k := by
  obtain ⟨w₁, w₂, rfl⟩ := List.append_of_mem (h.perm.mem_iff.mpr hx)
  exact mem_take_of_length_lt (h.lt_atLeast.trans_le hk)

end Arranges

/-- The choice among the first `k` does not depend on how elements with the same key are arranged:
those that may or may not be among the first do not score more than one that always is, and among
those that always are the best one is alone with its score and key. -/
structure Decided (key : α → κ) (score : α → β) (z : β) (k : ℕ) (v : List α) : Prop where
  border : ∀ e ∈ v, above key v e < k → k < atLeast key v e → z < score e →
    ∃ a ∈ v, atLeast key v a ≤ k ∧ score e ≤ score a
  best : ∀ a ∈ v, ∀ b ∈ v, atLeast key v a ≤ k → atLeast key v b ≤ k → z < score a →
    score b = score a → key b = key a →
    (∀ x ∈ v, atLeast key v x ≤ k → score x ≤ score a ∧ (score x = score a → key x ≤ key a)) →
    a = b

lemma Decided.choice_some (h : Decided key score z k v) (hw : Arranges key v w)
    (he : choice score z k w = some e) : e ∈ v ∧ atLeast key v e ≤ k ∧
      ∀ x ∈ v, atLeast key v x ≤ k → score x ≤ score e ∧ (score x = score e → key x ≤ key e) := by
  obtain ⟨hz, w₁, w₂, rfl, hlen, hbefore, hle⟩ := Lib.choice_some he
  have hev : e ∈ v := hw.perm.mem_iff.mp (by simp)
  have hk : atLeast key v e ≤ k := by
    by_contra hk
    rw [not_le] at hk
    obtain ⟨a, ha, hak, hscore⟩ := h.border e hev (hw.above_le.trans_lt hlen) hk hz
    -- the one that scores as much comes first
    have hkey : key e < key a := by
      by_contra hkey
      rw [not_lt] at hkey
      refine absurd (hk.trans_le ?_) (not_lt.mpr hak)
      refine List.countP_mono_left fun x _ hx => ?_
      simp only [decide_eq_true_eq] at hx ⊢
      exact hkey.trans hx
    have haw : a ∈ w₁ ++ e :: w₂ := hw.perm.mem_iff.mpr ha
    rcases List.mem_append.mp haw with haw | haw
    · exact absurd (hbefore a haw) (not_lt.mpr hscore)
    · rcases List.mem_cons.mp haw with rfl | haw
      · exact lt_irrefl _ hkey
      · exact absurd (hw.after haw) (not_le.mpr hkey)
  refine ⟨hev, hk, fun x hx hxk => ⟨hle x (hw.mem_take hx hxk), fun hscore => ?_⟩⟩
  rcases List.mem_append.mp (hw.perm.mem_iff.mpr hx) with hxw | hxw
  · exact absurd (hbefore x hxw) (by simp [hscore])
  · rcases List.mem_cons.mp hxw with rfl | hxw
    · exact le_rfl
    · exact hw.after hxw

lemma Decided.choice_eq {w' : List α} (h : Decided key score z k v) (hw : Arranges key v w)
    (hw' : Arranges key v w') : choice score z k w = choice score z k w' := by
  -- when nothing is chosen from one arrangement, nothing is from the other
  have hnone : ∀ {w w' : List α}, Arranges key v w → Arranges key v w' →
      choice score z k w = none → choice score z k w' = none := by
    intro w w' hw hw' hchoice
    by_contra hne
    obtain ⟨e, he⟩ := Option.ne_none_iff_exists'.mp hne
    obtain ⟨hev, hek, -⟩ := h.choice_some hw' he
    exact absurd (Lib.choice_some he).1 (not_lt.mpr (choice_none hchoice (hw.mem_take hev hek)))
  cases he : choice score z k w with
  | none => exact (hnone hw hw' he).symm
  | some e =>
    cases he' : choice score z k w' with
    | none => exact absurd (he.symm.trans (hnone hw' hw he')) (by simp)
    | some e' =>
      obtain ⟨hev, hek, hbest⟩ := h.choice_some hw he
      obtain ⟨hev', hek', hbest'⟩ := h.choice_some hw' he'
      have hscore : score e' = score e := le_antisymm (hbest e' hev' hek').1 (hbest' e hev hek).1
      have hkey : key e' = key e :=
        le_antisymm ((hbest e' hev' hek').2 hscore) ((hbest' e hev hek).2 hscore.symm)
      have hz := (Lib.choice_some he).1
      rw [h.best e hev e' hev' hek hek' hz hscore hkey hbest]

/-- **One choice.** All arrangements lead to the same choice exactly when it is decided. -/
theorem same_choice_iff (hnodup : v.Nodup) :
    (∀ w w', Arranges key v w → Arranges key v w' → choice score z k w = choice score z k w') ↔
      Decided key score z k v := by
  refine ⟨fun h => ?_, fun h w w' hw hw' => h.choice_eq hw hw'⟩
  -- who is chosen always has a place among the first
  have halways : ∀ {w r}, Arranges key v w → choice score z k w = some r →
      r ∈ v ∧ atLeast key v r ≤ k := by
    intro w r hw hr
    obtain ⟨-, u₁, u₂, rfl, hlen, -⟩ := choice_some hr
    have hrv : r ∈ v := hw.perm.mem_iff.mp (by simp)
    obtain ⟨w₁, w₂, hlast, hafter⟩ := exists_arranges_last key hnodup hrv
    have hr' := (h _ _ hw hlast).symm.trans hr
    obtain ⟨-, t₁, t₂, heq, hlen, -⟩ := choice_some hr'
    obtain ⟨hw₁, hw₂⟩ := hlast.notMem hnodup
    obtain ⟨rfl, -, -⟩ := (List.append_cons_inj_of_notMem hw₁ hw₂).mp heq
    have hplace := hlast.length_eq_atLeast hafter
    exact ⟨hrv, by omega⟩
  constructor
  · intro e he habove _ hz
    obtain ⟨w₁, w₂, hw, hfirst⟩ := exists_arranges_first key he
    have hmem : e ∈ (w₁ ++ e :: w₂).take k := by
      refine mem_take_of_length_lt ?_
      rw [hw.length_eq_above hfirst]
      exact habove
    cases hr : choice score z k (w₁ ++ e :: w₂) with
    | none => exact absurd (choice_none hr hmem) (not_le.mpr hz)
    | some r =>
      obtain ⟨hrv, hrk⟩ := halways hw hr
      obtain ⟨-, -, -, -, -, -, hle⟩ := choice_some hr
      exact ⟨r, hrv, hrk, hle e hmem⟩
  · intro a ha b hb hak hbk hz hscore hkey hbest
    -- either of the two can be the one that is chosen
    have hchosen : ∀ c ∈ v, atLeast key v c ≤ k → score c = score a → key c = key a →
        ∃ w, Arranges key v w ∧ choice score z k w = some c := by
      intro c hc hck hcs hckey
      obtain ⟨w₁, w₂, hw, hfirst⟩ := exists_arranges_first key hc
      refine ⟨_, hw, ?_⟩
      have hmem : c ∈ (w₁ ++ c :: w₂).take k := hw.mem_take hc hck
      cases hr : choice score z k (w₁ ++ c :: w₂) with
      | none => exact absurd (choice_none hr hmem) (by rw [hcs]; exact not_le.mpr hz)
      | some r =>
        obtain ⟨hrv, hrk⟩ := halways hw hr
        obtain ⟨-, u₁, u₂, heq, -, hbefore, hle⟩ := choice_some hr
        have hrs : score r = score a := le_antisymm (hbest r hrv hrk).1 (hcs ▸ hle c hmem)
        have hrkey := (hbest r hrv hrk).2 hrs
        -- `c` stands before all others that score as much
        have hcu : c ∈ u₁ ++ r :: u₂ := heq ▸ (by simp)
        rcases List.mem_append.mp hcu with hcu | hcu
        · exact absurd (hbefore c hcu) (by rw [hcs, hrs]; exact lt_irrefl _)
        · rcases List.mem_cons.mp hcu with rfl | hcu
          · rfl
          · obtain ⟨p, q, rfl⟩ := List.append_of_mem hcu
            obtain ⟨hw₁, hw₂⟩ := hw.notMem hnodup
            rw [← List.cons_append, ← List.append_assoc] at heq
            obtain ⟨rfl, -, -⟩ := (List.append_cons_inj_of_notMem hw₁ hw₂).mp heq
            exact absurd (hfirst r (by simp)) (by rw [hckey]; exact not_lt.mpr hrkey)
    obtain ⟨w, hw, hca⟩ := hchosen a ha hak rfl rfl
    obtain ⟨w', hw', hcb⟩ := hchosen b hb hbk hscore hkey
    exact Option.some.inj (hca.symm.trans ((h w w' hw hw').trans hcb))

end Agenor.Lib
