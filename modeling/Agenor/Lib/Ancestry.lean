import Mathlib.Data.List.Nodup

/-!
Ancestors in a forest that is given by a parent function. A height that grows by one from parent to
child turns the search for an ancestor into a climb of known length.
-/

namespace Agenor.Lib.Ancestry

variable {ι : Type*} {parent : ι → Option ι}

/-- `Anc parent a b`: `a` is `b` or an ancestor of `b`. -/
inductive Anc (parent : ι → Option ι) : ι → ι → Prop
  | refl (b : ι) : Anc parent b b
  | step {a p b : ι} : parent b = some p → Anc parent a p → Anc parent a b

lemma Anc.of_parent {p b : ι} (h : parent b = some p) : Anc parent p b := .step h (.refl p)

lemma Anc.trans {a b c : ι} (hab : Anc parent a b) (hbc : Anc parent b c) : Anc parent a c := by
  induction hbc with
  | refl => exact hab
  | step hp _ ih => exact .step hp ih

lemma Anc.cases_parent {a b : ι} (h : Anc parent a b) :
    a = b ∨ ∃ p, parent b = some p ∧ Anc parent a p := by
  cases h with
  | refl => exact .inl rfl
  | step hp ha => exact .inr ⟨_, hp, ha⟩

lemma Anc.cases_child {a b : ι} (h : Anc parent a b) :
    a = b ∨ ∃ c, parent c = some a ∧ Anc parent c b := by
  induction h with
  | refl => exact .inl rfl
  | @step p b hp _ ih =>
    rcases ih with rfl | ⟨c, hc, ha⟩
    · exact .inr ⟨b, hp, .refl b⟩
    · exact .inr ⟨c, hc, .step hp ha⟩

lemma Anc.total {a b c : ι} (ha : Anc parent a c) (hb : Anc parent b c) :
    Anc parent a b ∨ Anc parent b a := by
  induction ha with
  | refl => exact .inr hb
  | step hp ha ih =>
    rcases hb.cases_parent with rfl | ⟨p, hp', hb⟩
    · exact .inl (.step hp ha)
    · obtain rfl := Option.some.inj (hp.symm.trans hp')
      exact ih hb

lemma Anc.induct {P : ι → Prop} {a b : ι} (h : Anc parent a b) (hb : P b)
    (hstep : ∀ c p, parent c = some p → P c → P p) : P a := by
  induction h with
  | refl => exact hb
  | step hp _ ih => exact ih (hstep _ _ hp hb)

lemma anc_congr {parent' : ι → Option ι} {S : ι → Prop} (hS : ∀ b p, S b → parent b = some p → S p)
    (heq : ∀ b, S b → parent' b = parent b) {a b : ι} (hb : S b) :
    Anc parent' a b ↔ Anc parent a b := by
  constructor
  · intro h
    induction h with
    | refl => exact .refl _
    | step hp _ ih =>
      rw [heq _ hb] at hp
      exact .step hp (ih (hS _ _ hb hp))
  · intro h
    induction h with
    | refl => exact .refl _
    | step hp _ ih => exact .step ((heq _ hb).trans hp) (ih (hS _ _ hb hp))

/-! ### Climbing -/

/-- The ancestor that many steps up. -/
def climb (parent : ι → Option ι) : ℕ → ι → Option ι
  | 0, b => some b
  | n + 1, b => (parent b).bind (climb parent n)

lemma anc_of_climb {n : ℕ} {a b : ι} (h : climb parent n b = some a) : Anc parent a b := by
  induction n generalizing b with
  | zero =>
    obtain rfl : b = a := Option.some.inj h
    exact .refl b
  | succ n ih =>
    obtain ⟨p, hp, h⟩ := Option.bind_eq_some_iff.mp h
    exact .step hp (ih h)

lemma climb_congr {parent' : ι → Option ι} {S : ι → Prop}
    (hS : ∀ b p, S b → parent b = some p → S p) (heq : ∀ b, S b → parent' b = parent b) {n : ℕ}
    {b : ι} (hb : S b) : climb parent' n b = climb parent n b := by
  induction n generalizing b with
  | zero => rfl
  | succ n ih =>
    rw [climb, climb, heq b hb]
    cases hp : parent b with
    | none => rfl
    | some p => exact ih (hS b p hb hp)

/-- The last blocks of the line to a block, the oldest first. -/
def line (parent : ι → Option ι) : ℕ → ι → List ι
  | 0, _ => []
  | n + 1, b => ((parent b).map (line parent n)).getD [] ++ [b]

lemma line_add {m k : ℕ} {a b : ι} (h : climb parent k b = some a) :
    line parent (m + k) b = line parent m a ++ line parent k b := by
  induction k generalizing b with
  | zero =>
    obtain rfl : b = a := Option.some.inj h
    rw [Nat.add_zero, line, List.append_nil]
  | succ k ih =>
    obtain ⟨p, hp, h⟩ := Option.bind_eq_some_iff.mp h
    rw [← Nat.add_assoc, line, line, hp, Option.map_some, Option.getD_some, ih h, Option.map_some,
      Option.getD_some, List.append_assoc]

lemma anc_of_mem_line {n : ℕ} {a b : ι} (h : a ∈ line parent n b) : Anc parent a b := by
  induction n generalizing b with
  | zero => cases h
  | succ n ih =>
    rw [line, List.mem_append, List.mem_singleton] at h
    rcases h with h | rfl
    · cases hp : parent b with
      | none =>
        rw [hp] at h
        cases h
      | some p =>
        rw [hp] at h
        exact .step hp (ih h)
    · exact .refl a

/-- The list leads from one block to another, each block being the parent of the next. -/
def Leads (parent : ι → Option ι) : ι → List ι → ι → Prop
  | a, [], b => a = b
  | a, c :: l, b => parent c = some a ∧ Leads parent c l b

lemma Leads.snoc {a p b : ι} {l : List ι} (h : Leads parent a l p) (hp : parent b = some p) :
    Leads parent a (l ++ [b]) b := by
  induction l generalizing a with
  | nil =>
    obtain rfl : a = p := h
    exact ⟨hp, rfl⟩
  | cons c l ih => exact ⟨h.1, ih h.2⟩

lemma Leads.anc {a b : ι} {l : List ι} (h : Leads parent a l b) : Anc parent a b := by
  induction l generalizing a with
  | nil =>
    obtain rfl : a = b := h
    exact .refl a
  | cons c l ih => exact (Anc.of_parent h.1).trans (ih h.2)

/-- The nodes that are reached from one, each before its children. -/
def visit (children : ι → List ι) : ℕ → ι → List ι
  | 0, _ => []
  | n + 1, b => b :: (children b).flatMap (visit children n)

section Height

variable {height : ι → ℕ} {S : ι → Prop}

/-- The height grows by one from parent to child, inside a set that is closed under parents. -/
structure Graded (parent : ι → Option ι) (height : ι → ℕ) (S : ι → Prop) : Prop where
  closed : ∀ {b p}, S b → parent b = some p → S p
  height : ∀ {b p}, S b → parent b = some p → height b = height p + 1

lemma Graded.mem (hg : Graded parent height S) {a b : ι} (hb : S b) (h : Anc parent a b) : S a :=
  h.induct hb fun _ _ hp hc => hg.closed hc hp

lemma Graded.height_le (hg : Graded parent height S) {a b : ι} (hb : S b) (h : Anc parent a b) :
    height a ≤ height b := by
  induction h with
  | refl => exact Nat.le_refl _
  | step hp _ ih =>
    have := hg.height hb hp
    have := ih (hg.closed hb hp)
    omega

lemma Graded.eq_of_height (hg : Graded parent height S) {a b : ι} (hb : S b)
    (h : Anc parent a b) (heq : height a = height b) : a = b := by
  rcases h.cases_parent with rfl | ⟨p, hp, ha⟩
  · rfl
  · have := hg.height_le (hg.closed hb hp) ha
    have := hg.height hb hp
    omega

lemma Graded.antisymm (hg : Graded parent height S) {a b : ι} (hb : S b) (hab : Anc parent a b)
    (hba : Anc parent b a) : a = b :=
  hg.eq_of_height hb hab
    (Nat.le_antisymm (hg.height_le hb hab) (hg.height_le (hg.mem hb hab) hba))

/-- The deepest common ancestor of two blocks. -/
structure Meet (parent : ι → Option ι) (c a b : ι) : Prop where
  left : Anc parent c a
  right : Anc parent c b
  deepest : ∀ d, Anc parent d a → Anc parent d b → Anc parent d c

lemma Meet.symm {a b c : ι} (h : Meet parent c a b) : Meet parent c b a :=
  ⟨h.right, h.left, fun d hb ha => h.deepest d ha hb⟩

lemma Meet.self (a : ι) : Meet parent a a a := ⟨.refl a, .refl a, fun _ h _ => h⟩

lemma Graded.common_of_level (hg : Graded parent height S) {a a' b d : ι} (ha : S a) (hb : S b)
    (hanc : Anc parent a' a) (hh : height a' = height b) (hda : Anc parent d a)
    (hdb : Anc parent d b) : Anc parent d a' := by
  rcases hda.total hanc with h | h
  · exact h
  · have h1 := hg.height_le (hg.mem ha hda) h
    have h2 := hg.height_le hb hdb
    rw [hg.eq_of_height (hg.mem ha hda) h (by omega)]
    exact .refl d

lemma Graded.meet_of_level (hg : Graded parent height S) {a a' b c : ι} (ha : S a) (hb : S b)
    (hanc : Anc parent a' a) (hh : height a' = height b) (h : Meet parent c a' b) :
    Meet parent c a b :=
  ⟨h.left.trans hanc, h.right, fun d hda hdb =>
    h.deepest d (hg.common_of_level ha hb hanc hh hda hdb) hdb⟩

lemma Graded.parents_of_common (hg : Graded parent height S) {a b d : ι} (ha : S a) (hb : S b)
    (hh : height a = height b) (hne : a ≠ b) (hda : Anc parent d a) (hdb : Anc parent d b) :
    ∃ p q, parent a = some p ∧ parent b = some q ∧ Anc parent d p ∧ Anc parent d q := by
  rcases hda.cases_parent with rfl | ⟨p, hp, hdp⟩
  · exact absurd (hg.eq_of_height hb hdb hh) hne
  rcases hdb.cases_parent with rfl | ⟨q, hq, hdq⟩
  · exact absurd (hg.eq_of_height ha hda hh.symm) (Ne.symm hne)
  exact ⟨p, q, hp, hq, hdp, hdq⟩

lemma Graded.climb_iff (hg : Graded parent height S) {a b : ι} (hb : S b) :
    height a ≤ height b ∧ climb parent (height b - height a) b = some a ↔ Anc parent a b := by
  constructor
  · rintro ⟨-, h⟩
    exact anc_of_climb h
  · intro h
    refine ⟨hg.height_le hb h, ?_⟩
    induction h with
    | refl => simp [climb]
    | @step p b hp ha ih =>
      have hh := hg.height hb hp
      have hle := hg.height_le (hg.closed hb hp) ha
      have hsucc : height b - height a = (height p - height a) + 1 := by omega
      rw [hsucc, climb, hp, Option.bind_some]
      exact ih (hg.closed hb hp)

lemma Graded.height_climb (hg : Graded parent height S) {n : ℕ} {a b : ι} (hb : S b)
    (h : climb parent n b = some a) : height a + n = height b := by
  induction n generalizing b with
  | zero =>
    obtain rfl : b = a := Option.some.inj h
    rfl
  | succ n ih =>
    obtain ⟨p, hp, h⟩ := Option.bind_eq_some_iff.mp h
    have := hg.height hb hp
    have := ih (hg.closed hb hp) h
    omega

lemma Graded.exists_climb (hg : Graded parent height S)
    (hroot : ∀ b, S b → parent b = none → height b = 0) {n : ℕ} {b : ι} (hb : S b)
    (hn : n ≤ height b) : ∃ a, climb parent n b = some a ∧ height a + n = height b := by
  induction n generalizing b with
  | zero => exact ⟨b, rfl, rfl⟩
  | succ n ih =>
    cases hp : parent b with
    | none =>
      have := hroot b hb hp
      omega
    | some p =>
      have hh := hg.height hb hp
      obtain ⟨a, ha, hheight⟩ := ih (hg.closed hb hp) (by omega)
      refine ⟨a, ?_, by omega⟩
      rw [climb, hp, Option.bind_some]
      exact ha

lemma Graded.mem_line (hg : Graded parent height S) {n : ℕ} {a b : ι} (hb : S b)
    (hn : height b < n) : a ∈ line parent n b ↔ Anc parent a b := by
  induction n generalizing b with
  | zero => omega
  | succ n ih =>
    rw [line, List.mem_append, List.mem_singleton]
    cases hp : parent b with
    | none =>
      simp only [Option.map_none, Option.getD_none, List.not_mem_nil, false_or]
      constructor
      · rintro rfl
        exact .refl a
      · intro h
        rcases h.cases_parent with rfl | ⟨p, hp', -⟩
        · rfl
        · simp [hp] at hp'
    | some p =>
      have hh := hg.height hb hp
      rw [Option.map_some, Option.getD_some, ih (hg.closed hb hp) (by omega)]
      constructor
      · rintro (h | rfl)
        · exact .step hp h
        · exact .refl a
      · intro h
        rcases h.cases_parent with rfl | ⟨p', hp', h⟩
        · exact .inr rfl
        · obtain rfl := Option.some.inj (hp.symm.trans hp')
          exact .inl h

lemma Graded.length_line (hg : Graded parent height S)
    (hroot : ∀ b, S b → parent b = none → height b = 0) {n : ℕ} {b : ι} (hb : S b)
    (hn : height b < n) : (line parent n b).length = height b + 1 := by
  induction n generalizing b with
  | zero => omega
  | succ n ih =>
    rw [line, List.length_append, List.length_singleton]
    cases hp : parent b with
    | none => simp [hroot b hb hp]
    | some p =>
      have hh := hg.height hb hp
      rw [Option.map_some, Option.getD_some, ih (hg.closed hb hp) (by omega), hh]

lemma Graded.pairwise_line (hg : Graded parent height S) {n : ℕ} {b : ι} (hb : S b) :
    (line parent n b).Pairwise fun a c => height a < height c := by
  induction n generalizing b with
  | zero => exact .nil
  | succ n ih =>
    rw [line]
    cases hp : parent b with
    | none => exact List.pairwise_singleton _ _
    | some p =>
      refine List.pairwise_append.mpr ⟨ih (hg.closed hb hp), List.pairwise_singleton _ _, ?_⟩
      intro a ha c hc
      rw [List.mem_singleton.mp hc]
      have := hg.height_le (hg.closed hb hp) (anc_of_mem_line ha)
      have := hg.height hb hp
      omega

lemma Graded.leads_line (hg : Graded parent height S) {a b : ι} (hb : S b)
    (h : Anc parent a b) : Leads parent a (line parent (height b - height a) b) b := by
  induction h with
  | refl =>
    rw [Nat.sub_self]
    exact rfl
  | @step p b hp ha ih =>
    have hh := hg.height hb hp
    have hle := hg.height_le (hg.closed hb hp) ha
    have hsucc : height b - height a = (height p - height a) + 1 := by omega
    rw [hsucc, line, hp, Option.map_some, Option.getD_some]
    exact (ih (hg.closed hb hp)).snoc hp

variable {children : ι → List ι}

lemma Graded.mem_visit (hg : Graded parent height S)
    (hchild : ∀ b c, c ∈ children b ↔ S c ∧ parent c = some b) {n : ℕ} {b c : ι} (hb : S b) :
    c ∈ visit children n b ↔ S c ∧ Anc parent b c ∧ height c < height b + n := by
  induction n generalizing b with
  | zero =>
    simp only [visit, List.not_mem_nil, Nat.add_zero, false_iff]
    rintro ⟨hc, h, hlt⟩
    have := hg.height_le hc h
    omega
  | succ n ih =>
    rw [visit, List.mem_cons, List.mem_flatMap]
    constructor
    · rintro (rfl | ⟨d, hd, hc⟩)
      · exact ⟨hb, .refl c, by omega⟩
      · obtain ⟨hd, hp⟩ := (hchild b d).mp hd
        obtain ⟨hc, ha, hlt⟩ := (ih hd).mp hc
        have hh := hg.height hd hp
        exact ⟨hc, (Anc.of_parent hp).trans ha, by omega⟩
    · rintro ⟨hc, ha, hlt⟩
      rcases ha.cases_child with rfl | ⟨d, hp, ha⟩
      · exact .inl rfl
      · have hd := hg.mem hc ha
        have hh := hg.height hd hp
        exact .inr ⟨d, (hchild b d).mpr ⟨hd, hp⟩, (ih hd).mpr ⟨hc, ha, by omega⟩⟩

lemma Graded.nodup_visit (hg : Graded parent height S)
    (hchild : ∀ b c, c ∈ children b ↔ S c ∧ parent c = some b)
    (hnodup : ∀ b, (children b).Nodup) {n : ℕ} {b : ι} (hb : S b) :
    (visit children n b).Nodup := by
  induction n generalizing b with
  | zero => exact List.nodup_nil
  | succ n ih =>
    rw [visit, List.nodup_cons, List.nodup_flatMap]
    refine ⟨?_, ?_, ?_⟩
    · intro hmem
      obtain ⟨d, hd, hmem⟩ := List.mem_flatMap.mp hmem
      obtain ⟨hd, hp⟩ := (hchild b d).mp hd
      have hle := hg.height_le hb ((hg.mem_visit hchild hd).mp hmem).2.1
      have hh := hg.height hd hp
      omega
    · intro d hd
      exact ih ((hchild b d).mp hd).1
    · refine (hnodup b).imp_of_mem ?_
      intro c d hc hd hne
      obtain ⟨hc, hpc⟩ := (hchild b c).mp hc
      obtain ⟨hd, hpd⟩ := (hchild b d).mp hd
      -- siblings have the same height, so neither is above the other
      have hh : height c = height d := by rw [hg.height hc hpc, hg.height hd hpd]
      intro x hxc hxd
      have hac := ((hg.mem_visit hchild hc).mp hxc).2.1
      have had := ((hg.mem_visit hchild hd).mp hxd).2.1
      rcases hac.total had with h | h
      · exact hne (hg.eq_of_height hd h hh)
      · exact hne (hg.eq_of_height hc h hh.symm).symm

end Height

end Agenor.Lib.Ancestry
