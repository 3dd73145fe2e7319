import Agenor.Superblocks

/-!
The same block is checked again: `CBudgetManager::IsTransactionValid` called several times in a row.

The verdict depends on `mapPayment_History`, and the check writes to it. A payment that is new is
recorded as paid while it is being checked, and a record is dropped if its height is outside the
range of a budget that finds its payment. So the first verdict may be that the payment is good, and
the next one that it is made twice.

Only the budgets that find their payment among the outputs touch the history. Such a budget accepts
if exactly one output pays it and the proposal is not recorded.
-/

namespace Agenor

namespace CFinalizedBudget

variable {b : CFinalizedBudget} {payment : CTxBudgetPayment} {hist : PaymentHistory} {h : ℤ}
  {vout : List CTxOut}

/-! ### One budget -/

lemma checkOutputs_of_notMem (hout : payment.out ∉ vout) (st : TrxValidationStatus) :
    b.checkOutputs payment h st hist vout = (st, hist) := by
  rw [← List.append_nil vout, checkOutputs_append hout]
  rfl

lemma isTransactionValid_of_notMem (hp : b.getBudgetPaymentByBlock h = some payment)
    (hout : payment.out ∉ vout) : b.isTransactionValid vout h hist = (.InValid, hist) := by
  simp only [isTransactionValid, hp]
  exact checkOutputs_of_notMem hout _

lemma checkOutputs_of_paid {x : ℤ} (hx : hist payment.nProposalHash = some x)
    (hr : b.inRange x = true) (hout : payment.out ∈ vout) (st : TrxValidationStatus) :
    b.checkOutputs payment h st hist vout = (.DoublePayment, b.dropOtherCycles hist) := by
  induction vout with
  | nil => cases hout
  | cons o vout ih =>
    rw [checkOutputs_cons, isPaidAlready_of_paid hx hr]
    by_cases ho : payment.out = o
    · rw [if_pos ho, if_pos rfl]
    · rw [if_neg ho]
      exact ih ((List.mem_cons.mp hout).resolve_left ho)

lemma isTransactionValid_of_paid (hp : b.getBudgetPaymentByBlock h = some payment)
    (hout : payment.out ∈ vout) {x : ℤ}
    (hx : b.dropOtherCycles hist payment.nProposalHash = some x) :
    b.isTransactionValid vout h hist = (.DoublePayment, b.dropOtherCycles hist) := by
  obtain ⟨hx, hr⟩ := dropOtherCycles_eq_some.mp hx
  simp only [isTransactionValid, hp]
  exact checkOutputs_of_paid hx hr hout _

lemma dropOtherCycles_record (hr : b.inRange h = true) (p : Uint256) :
    b.dropOtherCycles (Function.update (b.dropOtherCycles hist) p (some h)) =
      Function.update (b.dropOtherCycles hist) p (some h) := by
  funext q
  apply Option.ext
  intro x
  rw [dropOtherCycles_eq_some]
  refine ⟨And.left, fun hx => ⟨hx, ?_⟩⟩
  rcases eq_or_ne q p with rfl | hq
  · rw [Function.update_self] at hx
    cases hx
    exact hr
  · rw [Function.update_of_ne hq] at hx
    exact (dropOtherCycles_eq_some.mp hx).2

lemma isTransactionValid_of_new (hr : b.inRange h = true)
    (hp : b.getBudgetPaymentByBlock h = some payment) (hout : payment.out ∈ vout)
    (hnew : b.dropOtherCycles hist payment.nProposalHash = none) :
    b.isTransactionValid vout h hist =
      (if vout.count payment.out = 1 then .Valid else .DoublePayment,
        Function.update (b.dropOtherCycles hist) payment.nProposalHash (some h)) := by
  obtain ⟨front, rest, rfl, hfront⟩ := List.eq_append_cons_of_mem hout
  have hpaid : b.isPaidAlready payment.nProposalHash h hist =
      (false, Function.update (b.dropOtherCycles hist) payment.nProposalHash (some h)) := by
    simp [isPaidAlready, hnew]
  have hzero : front.count payment.out = 0 := List.count_eq_zero_of_not_mem hfront
  simp only [isTransactionValid, hp, checkOutputs_append hfront, checkOutputs_cons, hpaid,
    if_true, Bool.false_eq_true, if_false]
  rw [List.count_append, hzero, List.count_cons_self]
  by_cases hrest : payment.out ∈ rest
  · have hpos := List.count_pos_iff.mpr hrest
    rw [checkOutputs_of_paid (Function.update_self ..) hr hrest, dropOtherCycles_record hr,
      if_neg (by omega)]
  · rw [checkOutputs_of_notMem hrest, List.count_eq_zero_of_not_mem hrest]
    rfl

end CFinalizedBudget

namespace CBudgetManager

variable {h T : ℤ} {vout : List CTxOut} {hist : PaymentHistory}

/-! ### The budgets that find their payment -/

/-- The budgets of a walk that are looked at and find their payment, with that payment. -/
def paidBudgets (vout : List CTxOut) (h T : ℤ) (l : List (Uint256 × CFinalizedBudget)) :
    List (CFinalizedBudget × CTxBudgetPayment) :=
  l.filterMap fun e =>
    if T < e.2.getVoteCount ∧ e.2.inRange h = true then
      ((e.2.getBudgetPaymentByBlock h).filter fun p => decide (p.out ∈ vout)).map fun p => (e.2, p)
    else none

/-- A budget accepts: one output pays it, and the payment is new. -/
def Accepts (vout : List CTxOut) (hist : PaymentHistory) (e : CFinalizedBudget × CTxBudgetPayment) :
    Prop :=
  vout.count e.2.out = 1 ∧ e.1.dropOtherCycles hist e.2.nProposalHash = none

/-- The history after a budget that does not accept. -/
def refuse (vout : List CTxOut) (h : ℤ) (hist : PaymentHistory)
    (e : CFinalizedBudget × CTxBudgetPayment) : PaymentHistory :=
  if e.1.dropOtherCycles hist e.2.nProposalHash = none ∧ vout.count e.2.out ≠ 1 then
    Function.update (e.1.dropOtherCycles hist) e.2.nProposalHash (some h)
  else e.1.dropOtherCycles hist

def Quiet (vout : List CTxOut) (h : ℤ) (hist : PaymentHistory)
    (l : List (CFinalizedBudget × CTxBudgetPayment)) : Prop :=
  ∀ l₁ e l₂, l = l₁ ++ e :: l₂ → ¬ Accepts vout (l₁.foldl (refuse vout h) hist) e

lemma quiet_nil : Quiet vout h hist [] := by
  intro l₁ e l₂ hl
  simp at hl

lemma quiet_cons {e : CFinalizedBudget × CTxBudgetPayment}
    {l : List (CFinalizedBudget × CTxBudgetPayment)} :
    Quiet vout h hist (e :: l) ↔ ¬ Accepts vout hist e ∧ Quiet vout h (refuse vout h hist e) l := by
  constructor
  · intro hq
    refine ⟨hq [] e l rfl, fun l₁ e' l₂ hl => ?_⟩
    exact hq (e :: l₁) e' l₂ (by rw [hl, List.cons_append])
  · rintro ⟨he, hq⟩ l₁ e' l₂ hl
    cases l₁ with
    | nil =>
      cases hl
      exact he
    | cons a l₁ =>
      rw [List.cons_append, List.cons.injEq] at hl
      obtain ⟨rfl, hl⟩ := hl
      exact hq l₁ e' l₂ hl

lemma of_mem_paidBudgets {l : List (Uint256 × CFinalizedBudget)}
    {e : CFinalizedBudget × CTxBudgetPayment} (he : e ∈ paidBudgets vout h T l) :
    e.1.inRange h = true ∧ e.1.getBudgetPaymentByBlock h = some e.2 ∧ e.2.out ∈ vout := by
  obtain ⟨a, -, ha⟩ := List.mem_filterMap.mp he
  split_ifs at ha with hc
  obtain ⟨p, hp, rfl⟩ := Option.map_eq_some_iff.mp ha
  obtain ⟨hp, hout⟩ := Option.filter_eq_some_iff.mp hp
  exact ⟨hc.2, hp, of_decide_eq_true hout⟩

lemma isTransactionValid_of_pays {e : CFinalizedBudget × CTxBudgetPayment}
    (hr : e.1.inRange h = true) (hp : e.1.getBudgetPaymentByBlock h = some e.2)
    (hout : e.2.out ∈ vout) :
    (Accepts vout hist e → e.1.isTransactionValid vout h hist =
      (.Valid, Function.update (e.1.dropOtherCycles hist) e.2.nProposalHash (some h))) ∧
    (¬ Accepts vout hist e → e.1.isTransactionValid vout h hist =
      (.DoublePayment, refuse vout h hist e)) := by
  cases hd : e.1.dropOtherCycles hist e.2.nProposalHash with
  | none =>
    rw [CFinalizedBudget.isTransactionValid_of_new hr hp hout hd]
    by_cases hone : vout.count e.2.out = 1 <;> simp [Accepts, refuse, hd, hone]
  | some x =>
    rw [CFinalizedBudget.isTransactionValid_of_paid hp hout hd]
    simp [Accepts, refuse, hd]

/-! ### A whole walk -/

/-- The records at the height of the block stay, and a proposal has been added to them. -/
def Recorded (h : ℤ) (l : List (CFinalizedBudget × CTxBudgetPayment))
    (hist hist' : PaymentHistory) : Prop :=
  (∀ p, hist p = some h → hist' p = some h) ∧
    ∃ e ∈ l, hist e.2.nProposalHash ≠ some h ∧ hist' e.2.nProposalHash = some h

lemma dropOtherCycles_of_inRange {b : CFinalizedBudget} (hr : b.inRange h = true) {p : Uint256}
    (hp : hist p = some h) : b.dropOtherCycles hist p = some h :=
  CFinalizedBudget.dropOtherCycles_eq_some.mpr ⟨hp, hr⟩

lemma refuse_of_inRange {e : CFinalizedBudget × CTxBudgetPayment} (hr : e.1.inRange h = true)
    {p : Uint256} (hp : hist p = some h) : refuse vout h hist e p = some h := by
  unfold refuse
  split_ifs with hnew
  · rcases eq_or_ne p e.2.nProposalHash with rfl | hne
    · exact Function.update_self ..
    · rw [Function.update_of_ne hne]
      exact dropOtherCycles_of_inRange hr hp
  · exact dropOtherCycles_of_inRange hr hp

lemma recorded_of_accepts {e : CFinalizedBudget × CTxBudgetPayment}
    {l : List (CFinalizedBudget × CTxBudgetPayment)} (hr : e.1.inRange h = true)
    (hacc : Accepts vout hist e) :
    Recorded h (e :: l) hist
      (Function.update (e.1.dropOtherCycles hist) e.2.nProposalHash (some h)) := by
  refine ⟨fun p hp => ?_, e, List.mem_cons_self, fun hp => ?_, Function.update_self ..⟩
  · rcases eq_or_ne p e.2.nProposalHash with rfl | hne
    · exact Function.update_self ..
    · rw [Function.update_of_ne hne]
      exact dropOtherCycles_of_inRange hr hp
  · rw [Accepts, dropOtherCycles_of_inRange hr hp] at hacc
    cases hacc.2

lemma Recorded.cons {e : CFinalizedBudget × CTxBudgetPayment}
    {l : List (CFinalizedBudget × CTxBudgetPayment)} {hist' : PaymentHistory}
    (hr : e.1.inRange h = true) (hrec : Recorded h l (refuse vout h hist e) hist') :
    Recorded h (e :: l) hist hist' := by
  obtain ⟨hkeep, a, ha, hne, hnew⟩ := hrec
  exact ⟨fun p hp => hkeep p (refuse_of_inRange hr hp), a, List.mem_cons_of_mem _ ha,
    fun hp => hne (refuse_of_inRange hr hp), hnew⟩

/-- **The walk over the budgets.** It accepts unless the walk over the paid budgets is quiet; if it
does not accept, the verdict does not depend on the history. -/
theorem checkBudgets_spec (vout : List CTxOut) (h T : ℤ) (l : List (Uint256 × CFinalizedBudget))
    (f : Bool) (st : TrxValidationStatus) (hst : st ≠ .Valid) :
    ∃ verdict, verdict ≠ TrxValidationStatus.Valid ∧ ∀ hist,
      (Quiet vout h hist (paidBudgets vout h T l) → checkBudgets vout h T f st hist l =
        (verdict, (paidBudgets vout h T l).foldl (refuse vout h) hist)) ∧
      (¬ Quiet vout h hist (paidBudgets vout h T l) →
        (checkBudgets vout h T f st hist l).1 = .Valid ∧
        Recorded h (paidBudgets vout h T l) hist (checkBudgets vout h T f st hist l).2) := by
  induction l generalizing f st with
  | nil =>
    refine ⟨if f then st else .VoteThreshold, ?_, fun hist => ⟨fun _ => rfl, fun hq => ?_⟩⟩
    · split_ifs
      · exact hst
      · decide
    · exact absurd quiet_nil hq
  | cons a l ih =>
    by_cases hT : T < a.2.getVoteCount
    · by_cases hr : a.2.inRange h = true
      · obtain ⟨payment, hp⟩ := CFinalizedBudget.exists_payment hr
        by_cases hout : payment.out ∈ vout
        · -- the budget finds its payment
          have hcons : paidBudgets vout h T (a :: l) =
              (a.2, payment) :: paidBudgets vout h T l := by
            simp [paidBudgets, hT, hr, hp, hout]
          obtain ⟨verdict, hv, hrest⟩ := ih true .DoublePayment (by decide)
          refine ⟨verdict, hv, fun hist => ?_⟩
          obtain ⟨hacc, hnot⟩ := @isTransactionValid_of_pays _ vout hist (a.2, payment)
            hr hp hout
          dsimp only at hacc hnot
          rw [hcons, quiet_cons, List.foldl_cons]
          by_cases hone : Accepts vout hist (a.2, payment)
          · have hwalk : checkBudgets vout h T f st hist (a :: l) = (.Valid,
                Function.update (a.2.dropOtherCycles hist) payment.nProposalHash (some h)) := by
              simp [checkBudgets, hT, hr, hacc hone]
            rw [hwalk]
            exact ⟨fun hq => absurd hone hq.1, fun _ => ⟨rfl, recorded_of_accepts hr hone⟩⟩
          · have hwalk : checkBudgets vout h T f st hist (a :: l) =
                checkBudgets vout h T true .DoublePayment
                  (refuse vout h hist (a.2, payment)) l := by
              simp [checkBudgets, hT, hr, hnot hone]
            rw [hwalk]
            refine ⟨fun hq => (hrest _).1 hq.2, fun hq => ?_⟩
            obtain ⟨hvalid, hrec⟩ := (hrest (refuse vout h hist (a.2, payment))).2
              fun hq' => hq ⟨hone, hq'⟩
            exact ⟨hvalid, hrec.cons hr⟩
        · have hcons : paidBudgets vout h T (a :: l) = paidBudgets vout h T l := by
            simp [paidBudgets, hT, hr, hp, hout]
          have hwalk : ∀ hist, checkBudgets vout h T f st hist (a :: l) =
              checkBudgets vout h T true .InValid hist l := fun hist => by
            have hone : a.2.isTransactionValid vout h hist = (.InValid, hist) :=
              CFinalizedBudget.isTransactionValid_of_notMem hp hout
            simp [checkBudgets, hT, hr, hone]
          simp only [hcons, hwalk]
          exact ih true .InValid (by decide)
      · have hcons : paidBudgets vout h T (a :: l) = paidBudgets vout h T l := by
          simp [paidBudgets, hr]
        have hwalk : ∀ hist, checkBudgets vout h T f st hist (a :: l) =
            checkBudgets vout h T true st hist l := fun hist => by simp [checkBudgets, hT, hr]
        simp only [hcons, hwalk]
        exact ih true st hst
    · have hcons : paidBudgets vout h T (a :: l) = paidBudgets vout h T l := by
        simp [paidBudgets, hT]
      have hwalk : ∀ hist, checkBudgets vout h T f st hist (a :: l) =
          checkBudgets vout h T f st hist l := fun hist => by simp [checkBudgets, hT]
      simp only [hcons, hwalk]
      exact ih f st hst

/-! ### The history after a walk -/

variable {l : List (CFinalizedBudget × CTxBudgetPayment)} {p : Uint256}

lemma mem_of_split {l₁ l₂ : List (CFinalizedBudget × CTxBudgetPayment)}
    {e : CFinalizedBudget × CTxBudgetPayment} (hl : l = l₁ ++ e :: l₂) :
    ∀ a ∈ l₁ ++ [e], a ∈ l := by
  intro a ha
  rw [hl, List.append_cons]
  exact List.mem_append_left _ ha

/-- A proposal is recorded at a height in the range of all budgets of a list. -/
def KeptBy (hist : PaymentHistory) (l : List (CFinalizedBudget × CTxBudgetPayment)) (p : Uint256) :
    Prop :=
  ∃ x, hist p = some x ∧ ∀ e ∈ l, e.1.inRange x = true

/-- A proposal is entered on a walk by a budget that more than one output pays: the budget, or one
before it, has dropped the record there was. -/
def EnteredBy (vout : List CTxOut) (hist : PaymentHistory)
    (l : List (CFinalizedBudget × CTxBudgetPayment)) (p : Uint256) : Prop :=
  ∃ l₁ e l₂, l = l₁ ++ e :: l₂ ∧ e.2.nProposalHash = p ∧ vout.count e.2.out ≠ 1 ∧
    ¬ KeptBy hist (l₁ ++ [e]) p

lemma enteredBy_append_singleton {e : CFinalizedBudget × CTxBudgetPayment} :
    EnteredBy vout hist (l ++ [e]) p ↔ EnteredBy vout hist l p ∨
      (e.2.nProposalHash = p ∧ vout.count e.2.out ≠ 1 ∧ ¬ KeptBy hist (l ++ [e]) p) := by
  constructor
  · rintro ⟨l₁, a, l₂, hl, hp, hc, hk⟩
    rcases List.eq_nil_or_concat l₂ with rfl | ⟨l₂, c, rfl⟩
    · obtain ⟨rfl, hae⟩ := List.append_inj' hl rfl
      cases hae
      exact Or.inr ⟨hp, hc, hk⟩
    · rw [List.concat_eq_append, ← List.cons_append, ← List.append_assoc] at hl
      obtain ⟨rfl, -⟩ := List.append_inj' hl rfl
      exact Or.inl ⟨l₁, a, l₂, rfl, hp, hc, hk⟩
  · rintro (⟨l₁, a, l₂, rfl, hp, hc, hk⟩ | ⟨hp, hc, hk⟩)
    · exact ⟨l₁, a, l₂ ++ [e], by simp, hp, hc, hk⟩
    · exact ⟨l, e, [], rfl, hp, hc, hk⟩

/-- **The history after a walk that does not accept.** What is recorded then was recorded before and
is kept by all budgets, or has been entered at the height of the block. -/
theorem foldl_refuse_eq_some (hl : ∀ e ∈ l, e.1.inRange h = true) {x : ℤ} :
    l.foldl (refuse vout h) hist p = some x ↔
      (hist p = some x ∧ ∀ e ∈ l, e.1.inRange x = true) ∨ (x = h ∧ EnteredBy vout hist l p) := by
  induction l using List.reverseRecOn generalizing x with
  | nil => simp [EnteredBy]
  | append_singleton l e ih =>
    have hr : e.1.inRange h = true := hl e (by simp)
    have ih : ∀ {x}, l.foldl (refuse vout h) hist p = some x ↔ _ :=
      ih fun a ha => hl a (List.mem_append_left _ ha)
    rw [List.foldl_append, List.foldl_cons, List.foldl_nil, enteredBy_append_singleton]
    generalize hH : l.foldl (refuse vout h) hist = H at ih ⊢
    have hdrop : ∀ {x}, e.1.dropOtherCycles H p = some x ↔
        (hist p = some x ∧ ∀ a ∈ l ++ [e], a.1.inRange x = true) ∨
          (x = h ∧ EnteredBy vout hist l p) := by
      intro x
      rw [CFinalizedBudget.dropOtherCycles_eq_some, ih]
      constructor
      · rintro ⟨⟨hx, hk⟩ | ⟨rfl, hent⟩, hrx⟩
        · refine Or.inl ⟨hx, fun a ha => ?_⟩
          rcases List.mem_append.mp ha with ha | ha
          · exact hk a ha
          · rw [List.mem_singleton.mp ha]
            exact hrx
        · exact Or.inr ⟨rfl, hent⟩
      · rintro (⟨hx, hk⟩ | ⟨rfl, hent⟩)
        · exact ⟨Or.inl ⟨hx, fun a ha => hk a (List.mem_append_left _ ha)⟩, hk e (by simp)⟩
        · exact ⟨Or.inr ⟨rfl, hent⟩, hr⟩
    -- whether the walk has the proposal when it comes to the last budget
    have hnone : e.1.dropOtherCycles H p = none ↔
        ¬ KeptBy hist (l ++ [e]) p ∧ ¬ EnteredBy vout hist l p := by
      rw [Option.eq_none_iff_forall_ne_some]
      simp only [ne_eq, hdrop, not_or, forall_and]
      refine and_congr ?_ ?_
      · simp [KeptBy]
      · simp
    unfold refuse
    by_cases hp : e.2.nProposalHash = p
    · rw [hp]
      by_cases hnew : e.1.dropOtherCycles H p = none ∧ vout.count e.2.out ≠ 1
      · rw [if_pos hnew, Function.update_self]
        obtain ⟨hk, hent⟩ := hnone.mp hnew.1
        constructor
        · rintro ⟨⟩
          exact Or.inr ⟨rfl, Or.inr ⟨rfl, hnew.2, hk⟩⟩
        · rintro (hkept | ⟨rfl, -⟩)
          · exact absurd ⟨x, hkept⟩ hk
          · rfl
      · rw [if_neg hnew, hdrop]
        refine or_congr_right (and_congr_right fun _ => ⟨Or.inl, ?_⟩)
        rintro (hent | ⟨-, hc, hk⟩)
        · exact hent
        · by_contra hent
          exact hnew ⟨hnone.mpr ⟨hk, hent⟩, hc⟩
    · have hsame : (if e.1.dropOtherCycles H e.2.nProposalHash = none ∧ vout.count e.2.out ≠ 1 then
          Function.update (e.1.dropOtherCycles H) e.2.nProposalHash (some h)
          else e.1.dropOtherCycles H) p = e.1.dropOtherCycles H p := by
        split_ifs
        · exact Function.update_of_ne (Ne.symm hp) ..
        · rfl
      rw [hsame, hdrop]
      simp [hp]

lemma quiet_iff (hl : ∀ e ∈ l, e.1.inRange h = true) :
    Quiet vout h hist l ↔ ∀ l₁ e l₂, l = l₁ ++ e :: l₂ → vout.count e.2.out = 1 →
      KeptBy hist (l₁ ++ [e]) e.2.nProposalHash ∨ EnteredBy vout hist l₁ e.2.nProposalHash := by
  refine forall₄_congr fun l₁ e l₂ heq => ?_
  subst heq
  have hfound : (∃ x, e.1.dropOtherCycles (l₁.foldl (refuse vout h) hist) e.2.nProposalHash =
      some x) ↔ KeptBy hist (l₁ ++ [e]) e.2.nProposalHash ∨
        EnteredBy vout hist l₁ e.2.nProposalHash := by
    simp only [CFinalizedBudget.dropOtherCycles_eq_some,
      foldl_refuse_eq_some fun a ha => hl a (List.mem_append_left _ ha)]
    constructor
    · rintro ⟨x, ⟨hx, hk⟩ | ⟨-, hent⟩, hr⟩
      · refine Or.inl ⟨x, hx, fun a ha => ?_⟩
        rcases List.mem_append.mp ha with ha | ha
        · exact hk a ha
        · rw [List.mem_singleton.mp ha]
          exact hr
      · exact Or.inr hent
    · rintro (⟨x, hx, hk⟩ | hent)
      · exact ⟨x, Or.inl ⟨hx, fun a ha => hk a (List.mem_append_left _ ha)⟩, hk e (by simp)⟩
      · exact ⟨h, Or.inr ⟨rfl, hent⟩, hl e (by simp)⟩
  rw [← hfound, ← Option.ne_none_iff_exists', Accepts, not_and]

/-- All records are in the range of all budgets of a list. -/
def Stable (l : List (CFinalizedBudget × CTxBudgetPayment)) (hist : PaymentHistory) : Prop :=
  ∀ p x, hist p = some x → ∀ e ∈ l, e.1.inRange x = true

lemma stable_foldl_refuse (hl : ∀ e ∈ l, e.1.inRange h = true) :
    Stable l (l.foldl (refuse vout h) hist) := by
  intro p x hx e he
  rcases (foldl_refuse_eq_some hl).mp hx with ⟨-, hk⟩ | ⟨rfl, -⟩
  · exact hk e he
  · exact hl e he

lemma Stable.keptBy_iff {l₁ : List (CFinalizedBudget × CTxBudgetPayment)} (hs : Stable l hist)
    (hsub : ∀ e ∈ l₁, e ∈ l) : KeptBy hist l₁ p ↔ hist p ≠ none := by
  rw [Option.ne_none_iff_exists']
  exact ⟨fun ⟨x, hx, _⟩ => ⟨x, hx⟩, fun ⟨x, hx⟩ => ⟨x, hx, fun e he => hs p x hx e (hsub e he)⟩⟩

lemma foldl_refuse_ne_none (hl : ∀ e ∈ l, e.1.inRange h = true) :
    l.foldl (refuse vout h) hist p ≠ none ↔ KeptBy hist l p ∨ EnteredBy vout hist l p := by
  rw [Option.ne_none_iff_exists']
  simp only [foldl_refuse_eq_some hl, KeptBy, exists_or]
  simp

lemma Quiet.foldl_refuse (hl : ∀ e ∈ l, e.1.inRange h = true) (hs : Stable l hist)
    (hq : Quiet vout h hist l) : Quiet vout h (l.foldl (refuse vout h) hist) l := by
  rw [quiet_iff hl] at hq ⊢
  intro l₁ e l₂ heq hone
  have hsub := mem_of_split heq
  left
  rw [(stable_foldl_refuse hl).keptBy_iff hsub, foldl_refuse_ne_none hl]
  rcases hq l₁ e l₂ heq hone with hk | ⟨m₁, a, m₂, rfl, hent⟩
  · rw [hs.keptBy_iff hsub, ← hs.keptBy_iff fun _ ha => ha] at hk
    exact Or.inl hk
  · exact Or.inr ⟨m₁, a, m₂ ++ e :: l₂, by simp [heq], hent⟩

/-- Every budget that exactly one output pays finds its proposal recorded, on the first walk and on
the second: it was recorded before, at a height in the range of the budgets so far, or it is entered
by a budget that more than one output pays. -/
def Settled (vout : List CTxOut) (hist : PaymentHistory)
    (l : List (CFinalizedBudget × CTxBudgetPayment)) : Prop :=
  ∀ l₁ e l₂, l = l₁ ++ e :: l₂ → vout.count e.2.out = 1 →
    (KeptBy hist (l₁ ++ [e]) e.2.nProposalHash ∨ EnteredBy vout hist l₁ e.2.nProposalHash) ∧
    (KeptBy hist l e.2.nProposalHash ∨ EnteredBy vout hist l e.2.nProposalHash ∨
      ∃ a ∈ l₁, a.2.nProposalHash = e.2.nProposalHash ∧ vout.count a.2.out ≠ 1)

lemma settled_iff (hl : ∀ e ∈ l, e.1.inRange h = true) :
    Settled vout hist l ↔
      Quiet vout h hist l ∧ Quiet vout h (l.foldl (refuse vout h) hist) l := by
  rw [quiet_iff hl, quiet_iff hl]
  simp only [Settled, imp_and, forall_and]
  refine and_congr_right fun _ => forall₅_congr fun l₁ e l₂ heq _ => ?_
  have hsub := mem_of_split heq
  have hs : Stable l (l.foldl (refuse vout h) hist) := stable_foldl_refuse hl
  rw [hs.keptBy_iff hsub, foldl_refuse_ne_none hl, or_assoc]
  by_cases hrec : l.foldl (refuse vout h) hist e.2.nProposalHash = none
  · -- what is not recorded after the first walk is entered by the first budget that may
    refine or_congr_right (or_congr_right ?_)
    constructor
    · rintro ⟨a, ha, hp, hc⟩
      obtain ⟨m₁, m₂, rfl⟩ := List.append_of_mem ha
      refine ⟨m₁, a, m₂, rfl, hp, hc, ?_⟩
      rw [hs.keptBy_iff fun c hc => hsub c ?_, not_not]
      · exact hrec
      · exact List.mem_append_left _ (mem_of_split rfl c hc)
    · rintro ⟨m₁, a, m₂, rfl, hp, hc, -⟩
      exact ⟨a, by simp, hp, hc⟩
  · have hrec' := (foldl_refuse_ne_none hl).mp hrec
    rw [← or_assoc, ← or_assoc]
    exact ⟨fun _ => Or.inl hrec', fun _ => Or.inl hrec'⟩

/-! ### The check, called again -/

variable {s : CBudgetManager} {N : ℕ}

/-- The state after a call of `IsTransactionValid`. -/
def afterCheck (N : ℕ) (vout : List CTxOut) (h : ℤ) (s : CBudgetManager) : CBudgetManager :=
  { s with mapPayment_History := (s.isTransactionValid N vout h).2 }

/-- Every call in a row returns what the first one returned. -/
def Idempotent (s : CBudgetManager) (N : ℕ) (vout : List CTxOut) (h : ℤ) : Prop :=
  ∀ n, (((afterCheck N vout h)^[n] s).isTransactionValid N vout h).1 =
    (s.isTransactionValid N vout h).1

/-- The budgets that the check looks at and that find their payment. -/
def scannedBudgets (s : CBudgetManager) (N : ℕ) (vout : List CTxOut) (h : ℤ) :
    List (CFinalizedBudget × CTxBudgetPayment) :=
  if s.highestCount h 0 < (N / 20 : ℕ) then []
  else paidBudgets vout h (s.countThreshold N h) s.mapFinalizedBudgets

lemma inRange_of_scanned (s : CBudgetManager) (N : ℕ) (vout : List CTxOut) (h : ℤ) :
    ∀ e ∈ s.scannedBudgets N vout h, e.1.inRange h = true := by
  intro e he
  unfold scannedBudgets at he
  split_ifs at he
  · cases he
  · exact (of_mem_paidBudgets he).1

lemma isTransactionValid_spec (s : CBudgetManager) (N : ℕ) (vout : List CTxOut) (h : ℤ) :
    ∃ verdict, verdict ≠ TrxValidationStatus.Valid ∧ ∀ hist,
      (Quiet vout h hist (s.scannedBudgets N vout h) →
        ({ s with mapPayment_History := hist } : CBudgetManager).isTransactionValid N vout h =
          (verdict, (s.scannedBudgets N vout h).foldl (refuse vout h) hist)) ∧
      (¬ Quiet vout h hist (s.scannedBudgets N vout h) →
        (({ s with mapPayment_History := hist } : CBudgetManager).isTransactionValid N vout h).1 =
          .Valid ∧
        Recorded h (s.scannedBudgets N vout h) hist
          (({ s with mapPayment_History := hist } : CBudgetManager).isTransactionValid N vout
            h).2) := by
  by_cases hlow : s.highestCount h 0 < (N / 20 : ℕ)
  · have hnil : s.scannedBudgets N vout h = [] := if_pos hlow
    refine ⟨.InValid, by decide, fun hist => ?_⟩
    rw [hnil]
    exact ⟨fun _ => if_pos hlow, fun hq => absurd quiet_nil hq⟩
  · have hscan : s.scannedBudgets N vout h =
        paidBudgets vout h (s.countThreshold N h) s.mapFinalizedBudgets := if_neg hlow
    obtain ⟨verdict, hv, hwalk⟩ := checkBudgets_spec vout h (s.countThreshold N h)
      s.mapFinalizedBudgets false .InValid (by decide)
    refine ⟨verdict, hv, fun hist => ?_⟩
    have hcall : ({ s with mapPayment_History := hist } : CBudgetManager).isTransactionValid N vout
        h = checkBudgets vout h (s.countThreshold N h) false .InValid hist s.mapFinalizedBudgets :=
      if_neg hlow
    rw [hscan, hcall]
    exact hwalk hist

/-- On its way through the budgets the check comes to one that exactly one output pays and whose
proposal is not recorded: the record there was is dropped by then, and no budget before has entered
the proposal. -/
def PaidOnce (vout : List CTxOut) (hist : PaymentHistory)
    (l : List (CFinalizedBudget × CTxBudgetPayment)) : Prop :=
  ∃ l₁ e l₂, l = l₁ ++ e :: l₂ ∧ vout.count e.2.out = 1 ∧
    ¬ KeptBy hist (l₁ ++ [e]) e.2.nProposalHash ∧ ¬ EnteredBy vout hist l₁ e.2.nProposalHash

lemma isTransactionValid_eq_valid (s : CBudgetManager) (N : ℕ) (vout : List CTxOut) (h : ℤ) :
    (s.isTransactionValid N vout h).1 = .Valid ↔
      PaidOnce vout s.mapPayment_History (s.scannedBudgets N vout h) := by
  obtain ⟨verdict, hv, hspec⟩ := isTransactionValid_spec s N vout h
  obtain ⟨hquiet, hnot⟩ := hspec s.mapPayment_History
  have hnotQuiet : (s.isTransactionValid N vout h).1 = .Valid ↔
      ¬ Quiet vout h s.mapPayment_History (s.scannedBudgets N vout h) := by
    refine ⟨fun hvalid hq => hv ?_, fun hq => (hnot hq).1⟩
    exact (congrArg Prod.fst (hquiet hq)).symm.trans hvalid
  rw [hnotQuiet, quiet_iff (inRange_of_scanned s N vout h)]
  simp only [PaidOnce, not_forall, not_or, exists_prop]

/-! ### Producer and check -/

/-- **Producer and check of a superblock.** What the producer builds is accepted if and only if
there are ten masternodes or more, and on its way through the budgets above the threshold the check
comes to one that exactly one output pays and whose proposal is not recorded. -/
theorem superblock_accepted_iff (consensus : ChainParams) (s : CBudgetManager) (N : ℕ) {h : ℤ}
    (hh : 1 < h) (hblock : s.isBudgetPaymentBlock N h = true) {b : CFinalizedBudget}
    (hb : s.elected h = some b) {payment : CTxBudgetPayment}
    (hp : b.getBudgetPaymentByBlock h = some payment) (fProofOfStake : Bool)
    (vout : List CTxOut) :
    (s.isTransactionValid N (s.fillBlockPayee consensus (h - 1) fProofOfStake vout) h).1 = .Valid ↔
      10 ≤ N ∧ PaidOnce (otherOutputs consensus h fProofOfStake vout ++ [payment.out])
        s.mapPayment_History
        (paidBudgets (otherOutputs consensus h fProofOfStake vout ++ [payment.out]) h
          (s.countThreshold N h) s.mapFinalizedBudgets) := by
  have hfive : ((N / 20 : ℕ) : ℤ) < s.highestCount h (-1) := by
    simpa [isBudgetPaymentBlock] using hblock
  have hpos : 0 < s.highestCount h 0 := by
    rw [highestCount_zero]
    omega
  have hlow : ¬ s.highestCount h 0 < (N / 20 : ℕ) := by
    rw [highestCount_zero]
    omega
  rw [fillBlockPayee_eq consensus hh hpos hb hp, isTransactionValid_eq_valid, scannedBudgets,
    if_neg hlow]
  refine ⟨fun hpaid => ⟨?_, hpaid⟩, And.right⟩
  -- the budget that accepts has more votes than the threshold, but not more than the highest
  obtain ⟨l₁, e, l₂, hl, -⟩ := hpaid
  have he : e ∈ paidBudgets (otherOutputs consensus h fProofOfStake vout ++ [payment.out]) h
      (s.countThreshold N h) s.mapFinalizedBudgets := hl ▸ List.mem_append_cons_self
  obtain ⟨a, ha, hae⟩ := List.mem_filterMap.mp he
  split_ifs at hae with hc
  have hle : a.2.getVoteCount ≤ s.highestCount h 0 := getVoteCount_le_foldl ha hc.2 0
  have hlt := hc.1
  unfold countThreshold at hlt
  omega

lemma paidOnce_of_new {T : ℤ} {b : CFinalizedBudget} {payment : CTxBudgetPayment}
    {budgets : List (Uint256 × CFinalizedBudget)} {front : List CTxOut}
    (hmem : (b, payment) ∈ paidBudgets (front ++ [payment.out]) h T budgets)
    (hnew : ∀ x, hist payment.nProposalHash = some x → b.inRange x = false)
    (hfront : ∀ e ∈ paidBudgets (front ++ [payment.out]) h T budgets,
      e.2.nProposalHash = payment.nProposalHash → e.2.out ∉ front) :
    PaidOnce (front ++ [payment.out]) hist
      (paidBudgets (front ++ [payment.out]) h T budgets) := by
  have hone : ∀ e ∈ paidBudgets (front ++ [payment.out]) h T budgets,
      e.2.nProposalHash = payment.nProposalHash →
        (front ++ [payment.out]).count e.2.out = 1 := by
    intro e he hq
    have hnot := hfront e he hq
    have hout := (of_mem_paidBudgets he).2.2
    have hlast : e.2.out = payment.out := by
      simpa [hnot] using hout
    rw [hlast] at hnot ⊢
    rw [List.count_append, List.count_eq_zero_of_not_mem hnot, List.count_singleton_self]
  obtain ⟨l₁, l₂, hl⟩ := List.append_of_mem hmem
  refine ⟨l₁, (b, payment), l₂, hl, hone _ hmem rfl, ?_, ?_⟩
  · rintro ⟨x, hx, hrange⟩
    have := hrange (b, payment) (by simp)
    rw [hnew x hx] at this
    cases this
  · rintro ⟨m₁, e, m₂, rfl, hq, hc, -⟩
    exact hc (hone e (hl ▸ by simp) hq)

lemma afterCheck_iterate (s : CBudgetManager) (N : ℕ) (vout : List CTxOut) (h : ℤ) (n : ℕ) :
    ∃ hist, (afterCheck N vout h)^[n] s = { s with mapPayment_History := hist } := by
  induction n with
  | zero => exact ⟨s.mapPayment_History, rfl⟩
  | succ n ih =>
    obtain ⟨hist, hn⟩ := ih
    rw [Function.iterate_succ_apply', hn]
    exact ⟨_, rfl⟩

lemma exists_not_recorded (l : List (CFinalizedBudget × CTxBudgetPayment))
    (hist : ℕ → PaymentHistory) : ∃ n, ¬ Recorded h l (hist n) (hist (n + 1)) := by
  by_contra! hrec
  let paid := fun n => (l.map fun e => e.2.nProposalHash).toFinset.filter fun p =>
    hist n p = some h
  have hlt : ∀ n, (paid n).card < (paid (n + 1)).card := by
    intro n
    obtain ⟨hkeep, e, he, hold, hnew⟩ := hrec n
    apply Finset.card_lt_card
    rw [Finset.ssubset_iff_of_subset fun p hp => ?_]
    · refine ⟨e.2.nProposalHash, ?_, fun hp => hold (Finset.mem_filter.mp hp).2⟩
      rw [Finset.mem_filter, List.mem_toFinset]
      exact ⟨List.mem_map_of_mem he, hnew⟩
    · rw [Finset.mem_filter] at hp ⊢
      exact ⟨hp.1, hkeep p hp.2⟩
  have hgrow : ∀ n, n ≤ (paid n).card := by
    intro n
    induction n with
    | zero => exact Nat.zero_le _
    | succ n ih => exact lt_of_le_of_lt ih (hlt n)
  have hmax : (paid (l.length + 1)).card ≤ l.length := calc
    (paid (l.length + 1)).card ≤ (l.map fun e => e.2.nProposalHash).toFinset.card :=
      Finset.card_filter_le _ _
    _ ≤ (l.map fun e => e.2.nProposalHash).length := List.toFinset_card_le _
    _ = l.length := List.length_map _
  have := hgrow (l.length + 1)
  omega

/-- **The check called again.** Repeated calls return the status of the first one if and only if
every budget that exactly one output pays finds its proposal recorded as paid already. -/
theorem idempotent_iff (s : CBudgetManager) (N : ℕ) (vout : List CTxOut) (h : ℤ) :
    Idempotent s N vout h ↔ Settled vout s.mapPayment_History (s.scannedBudgets N vout h) := by
  obtain ⟨verdict, hv, hspec⟩ := isTransactionValid_spec s N vout h
  have hl := inRange_of_scanned s N vout h
  generalize s.scannedBudgets N vout h = l at hspec hl ⊢
  let hist := fun n => ((afterCheck N vout h)^[n] s).mapPayment_History
  have hstate : ∀ n, (afterCheck N vout h)^[n] s = { s with mapPayment_History := hist n } := by
    intro n
    obtain ⟨hist', hn⟩ := afterCheck_iterate s N vout h n
    simp only [hist, hn]
  have hnext : ∀ n, hist (n + 1) =
      (({ s with mapPayment_History := hist n } :
        CBudgetManager).isTransactionValid N vout h).2 := by
    intro n
    rw [← hstate n]
    simp only [hist, Function.iterate_succ_apply']
    rfl
  have hquiet : ∀ n, Quiet vout h (hist n) l →
      (((afterCheck N vout h)^[n] s).isTransactionValid N vout h).1 = verdict ∧
        hist (n + 1) = l.foldl (refuse vout h) (hist n) := by
    intro n hq
    rw [hnext n, hstate n, (hspec (hist n)).1 hq]
    exact ⟨rfl, rfl⟩
  have hvalid : ∀ n, ¬ Quiet vout h (hist n) l →
      (((afterCheck N vout h)^[n] s).isTransactionValid N vout h).1 = .Valid ∧
        Recorded h l (hist n) (hist (n + 1)) := by
    intro n hq
    rw [hnext n, hstate n]
    exact (hspec (hist n)).2 hq
  rw [settled_iff hl]
  constructor
  · intro hid
    -- a first call that accepts would be followed by others, which cannot go on for ever
    have hsame : ∀ n, Quiet vout h (hist n) l ↔ Quiet vout h (hist 0) l := by
      have hone : ∀ n, Quiet vout h (hist n) l ↔
          (s.isTransactionValid N vout h).1 ≠ .Valid := by
        intro n
        rw [← hid n]
        refine ⟨fun hq => ?_, fun hne => ?_⟩
        · rw [(hquiet n hq).1]
          exact hv
        · by_contra hq
          exact hne (hvalid n hq).1
      exact fun n => (hone n).trans (hone 0).symm
    have hfirst : Quiet vout h (hist 0) l := by
      by_contra hq
      obtain ⟨n, hn⟩ := exists_not_recorded (h := h) l hist
      exact hn (hvalid n fun hqn => hq ((hsame n).mp hqn)).2
    refine ⟨hfirst, ?_⟩
    have hsecond := (hsame 1).mpr hfirst
    rwa [(hquiet 0 hfirst).2] at hsecond
  · rintro ⟨hfirst, hsecond⟩
    have hall : ∀ n, Quiet vout h (hist (n + 1)) l ∧ Stable l (hist (n + 1)) := by
      intro n
      induction n with
      | zero =>
        rw [(hquiet 0 hfirst).2]
        exact ⟨hsecond, stable_foldl_refuse hl⟩
      | succ n ih =>
        rw [(hquiet (n + 1) ih.1).2]
        exact ⟨ih.1.foldl_refuse hl ih.2, stable_foldl_refuse hl⟩
    intro n
    have hzero := (hquiet 0 hfirst).1
    rw [Function.iterate_zero_apply] at hzero
    rw [hzero]
    cases n with
    | zero => exact hzero
    | succ n => exact (hquiet (n + 1) (hall n).1).1

end CBudgetManager

namespace Concrete

/-- A budget with four votes for another proposal. -/
def rivalBudget : CFinalizedBudget :=
  { nBlockStart := 144
    vecBudgetPayments := [⟨8, [Script.OP_1, Script.OP_CHECKSIG], 50 * COIN⟩]
    mapVotes := budgetVotes 4 }

/-- The state of a node that knows both budgets. -/
def rivalState : CBudgetManager :=
  { CBudgetManager.initial with mapFinalizedBudgets := [(4, rivalBudget), (5, smallBudget)] }

end Concrete

open Concrete CBudgetManager in
/-- With twenty masternodes both budgets are looked at, and the payment of the one with five votes
is accepted. -/
theorem superblock_accepted_with_twenty :
    (rivalState.isTransactionValid 20
      (rivalState.fillBlockPayee testNetParams 143 false coinBaseTemplate) 144).1 = .Valid := by
  have hfound : paidBudgets (otherOutputs testNetParams 144 false coinBaseTemplate ++
      [hundredCoins.out]) 144 (rivalState.countThreshold 20 144) rivalState.mapFinalizedBudgets =
      [(smallBudget, hundredCoins)] := rfl
  refine (superblock_accepted_iff testNetParams rivalState 20 (h := 144) (by decide) (by decide)
    (b := smallBudget) rfl
    (show smallBudget.getBudgetPaymentByBlock 144 = some hundredCoins from rfl) false
    coinBaseTemplate).mpr ⟨by decide, ?_⟩
  refine paidOnce_of_new (b := smallBudget) (hfound ▸ List.mem_singleton_self _)
    (fun x hx => by cases hx) fun e he _ => ?_
  rw [hfound, List.mem_singleton] at he
  subst he
  decide

open Concrete CBudgetManager in
/-- **A small network.** With nine masternodes, all of which could have voted, the same block is
built as a superblock and not accepted as one. -/
theorem superblock_refused_with_nine :
    budgetState.isBudgetPaymentBlock 9 144 = true ∧
    budgetState.mapPayment_History hundredCoins.nProposalHash = none ∧
    (budgetState.fillBlockPayee testNetParams 143 false coinBaseTemplate).getLast? =
      some hundredCoins.out ∧
    (budgetState.isTransactionValid 9
      (budgetState.fillBlockPayee testNetParams 143 false coinBaseTemplate) 144).1 =
        .VoteThreshold := by
  decide

open Concrete CBudgetManager in
/-- **The second look.** The coinbase that makes the scheduled payment is good the first time it is
checked, and a double payment the second time. -/
theorem payment_checked_twice :
    (budgetState.isTransactionValid 20 [⟨50 * COIN, [Script.OP_1]⟩, hundredCoins.out] 144).1 =
      .Valid ∧
    ((afterCheck 20 [⟨50 * COIN, [Script.OP_1]⟩, hundredCoins.out] 144
      budgetState).isTransactionValid 20 [⟨50 * COIN, [Script.OP_1]⟩, hundredCoins.out] 144).1 =
      .DoublePayment ∧
    ¬ Idempotent budgetState 20 [⟨50 * COIN, [Script.OP_1]⟩, hundredCoins.out] 144 := by
  have hfirst : (budgetState.isTransactionValid 20
      [⟨50 * COIN, [Script.OP_1]⟩, hundredCoins.out] 144).1 = .Valid := by decide
  have hsecond : ((afterCheck 20 [⟨50 * COIN, [Script.OP_1]⟩, hundredCoins.out] 144
      budgetState).isTransactionValid 20 [⟨50 * COIN, [Script.OP_1]⟩, hundredCoins.out] 144).1 =
      .DoublePayment := by decide
  refine ⟨hfirst, hsecond, fun hid => ?_⟩
  have hone := hid 1
  rw [Function.iterate_one, hsecond, hfirst] at hone
  cases hone

end Agenor
