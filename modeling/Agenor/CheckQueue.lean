import Agenor.Lib.Run
import Mathlib.Algebra.BigOperators.Option
import Mathlib.Data.Fintype.Option
import Mathlib.Tactic.Abel
import Mathlib.Algebra.Order.BigOperators.Group.Finset
import Mathlib.Algebra.Order.Group.Multiset

/-!
The queue for script checks (`checkqueue.h`): a master adds checks, workers take batches of them,
and `Wait` joins the workers until everything is done.

A thread is outside of `Loop`, waits on its condition variable, or has a batch. What it does while
it holds the mutex is one step: it folds in the result of the batch it has finished, and leaves,
waits or takes the next batch. Each check is executed in a step of its own, so that a run is any
interleaving of these. A thread may wake up at any time. The wake-ups that the code asks for are
kept for the master only: they matter where `Wait` must not sleep forever.

The history (what has been added, executed and returned) is not part of the code.
-/

namespace Agenor

open Lib

/-- Where a thread is; with the batch it has taken, the checks of it that are left. -/
inductive Pc (T : Type*)
  | outside
  | waiting
  | running (nNow : ℕ) (vChecks : List T) (fOk : Bool)
  deriving DecidableEq

/-- The members that the mutex protects. The vector is used as a stack, its back comes first. -/
structure CCheckQueue (T : Type*) where
  queue : List T
  nIdle : ℕ
  nTotal : ℕ
  fAllOk : Bool
  nTodo : ℕ
  fQuit : Bool
  nBatchSize : ℕ
  deriving DecidableEq

/-- A call of `Wait` that has returned: the checks added for it, those executed and the result. -/
structure Round (T : Type*) where
  added : List T
  executed : List T
  result : Bool
  deriving DecidableEq

/-- The queue with its threads, the master being `none`, and the history. -/
structure CheckWorld (T ι : Type*) where
  q : CCheckQueue T
  thread : Option ι → Pc T
  /-- the master has been notified since it went to sleep -/
  notified : Bool
  added : List T
  executed : List T
  skipped : List T
  rounds : List (Round T)

inductive CheckAction (T ι : Type*)
  /-- `Add`, by the master -/
  | add (vChecks : List T)
  /-- a thread takes the mutex in `Loop` and releases it -/
  | lock (t : Option ι)
  /-- the next check of a batch -/
  | exec (t : Option ι)

namespace CCheckQueue

variable {T : Type*} (q : CCheckQueue T)

def init (nBatchSize : ℕ) : CCheckQueue T where
  queue := []
  nIdle := 0
  nTotal := 0
  fAllOk := true
  nTodo := 0
  fQuit := false
  nBatchSize := nBatchSize

def add (vChecks : List T) : CCheckQueue T :=
  { q with queue := vChecks.reverse ++ q.queue, nTodo := q.nTodo + vChecks.length }

/-- The start of the section: the clean-up of the previous run, the first iteration, or the return
from `cond.wait`. -/
def enter : Pc T → CCheckQueue T
  | .running nNow _ fOk => { q with fAllOk := q.fAllOk && fOk, nTodo := q.nTodo - nNow }
  | .outside => { q with nTotal := q.nTotal + 1 }
  | .waiting => { q with nIdle := q.nIdle - 1 }

/-- How many work units to process now. -/
def batch : ℕ := max 1 (min q.nBatchSize (q.queue.length / (q.nTotal + q.nIdle + 1)))

def isIdle : Bool := decide (q.nTotal = q.nIdle) && decide (q.nTodo = 0) && q.fAllOk

end CCheckQueue

namespace CheckWorld

variable {T ι : Type*} [DecidableEq ι] (ok : T → Bool) (w : CheckWorld T ι)

def init (nBatchSize : ℕ) : CheckWorld T ι where
  q := .init nBatchSize
  thread := fun _ => .outside
  notified := false
  added := []
  executed := []
  skipped := []
  rounds := []

/-- A worker that has processed the last element notifies the master, if it is asleep. -/
def notifies (q : CCheckQueue T) (t : Option ι) : Bool :=
  match w.thread t, w.thread none with
  | .running _ _ _, .waiting => t.isSome && decide (q.nTodo = 0)
  | _, _ => false

/-- The section of `Loop` that is protected by the mutex. -/
def lock (t : Option ι) : CheckWorld T ι :=
  let q := w.q.enter (w.thread t)
  let w := { w with notified := (w.notified && t.isSome) || w.notifies q t }
  if q.queue.isEmpty then
    if (t.isNone || q.fQuit) && decide (q.nTodo = 0) then
      if t.isNone then
        -- `Wait` returns
        { w with
          q := { q with nTotal := q.nTotal - 1, fAllOk := true }
          thread := Function.update w.thread t .outside
          added := [], executed := [], skipped := []
          rounds := w.rounds ++ [⟨w.added, w.executed, q.fAllOk⟩] }
      else
        { w with
          q := { q with nTotal := q.nTotal - 1 }
          thread := Function.update w.thread t .outside }
    else
      { w with
        q := { q with nIdle := q.nIdle + 1 }
        thread := Function.update w.thread t .waiting }
  else
    { w with
      q := { q with queue := q.queue.drop q.batch }
      thread := Function.update w.thread t (.running q.batch (q.queue.take q.batch) q.fAllOk) }

/-- `if (fOk) fOk = check();`. -/
def exec (t : Option ι) : CheckWorld T ι :=
  match w.thread t with
  | .running nNow (check :: vChecks) true =>
    { w with
      thread := Function.update w.thread t (.running nNow vChecks (ok check))
      executed := w.executed ++ [check] }
  | .running nNow (check :: vChecks) false =>
    { w with
      thread := Function.update w.thread t (.running nNow vChecks false)
      skipped := w.skipped ++ [check] }
  | _ => w

def step : CheckAction T ι → CheckWorld T ι
  | .add vChecks => { w with q := w.q.add vChecks, added := w.added ++ vChecks }
  | .lock t => w.lock t
  | .exec t => w.exec ok t

/-- Only the master adds checks, and not while it is in `Wait`; a thread takes the mutex again when
its batch is finished. -/
def Enabled : CheckAction T ι → Prop
  | .add _ => w.thread none = .outside
  | .lock t => ∀ nNow check vChecks fOk, w.thread t ≠ .running nNow (check :: vChecks) fOk
  | .exec t => ∃ nNow check vChecks fOk, w.thread t = .running nNow (check :: vChecks) fOk

end CheckWorld

/-! ### What holds at any time -/

namespace Pc

variable {T : Type*}

/-- The checks of the batch that are still counted in `nTodo`. -/
def nNow : Pc T → ℕ
  | running n _ _ => n
  | _ => 0

def checks : Pc T → List T
  | running _ vChecks _ => vChecks
  | _ => []

def bag (p : Pc T) : Multiset T := p.checks

def idle : Pc T → ℕ
  | waiting => 1
  | _ => 0

def inside : Pc T → ℕ
  | outside => 0
  | _ => 1

/-- The batch cannot succeed any more. -/
def failed : Pc T → Bool
  | running _ _ fOk => !fOk
  | _ => false

end Pc

namespace Round

/-- **What `Wait` promises.** -/
structure Correct {T : Type*} (ok : T → Bool) (r : Round T) : Prop where
  result_eq : r.result = r.added.all ok
  executed_le : (r.executed : Multiset T) ≤ r.added
  executed_perm : r.result = true → r.executed.Perm r.added

end Round

namespace CheckWorld

open Finset

variable {T ι : Type*} [DecidableEq ι] {ok : T → Bool} {w : CheckWorld T ι} {t : Option ι}

lemma exists_failed_update {p : Pc T} :
    (∃ s, (Function.update w.thread t p s).failed = true) ↔
      p.failed = true ∨ ∃ s, s ≠ t ∧ (w.thread s).failed = true := by
  constructor
  · rintro ⟨s, hs⟩
    rcases eq_or_ne s t with rfl | hne
    · rw [Function.update_self] at hs
      exact Or.inl hs
    · rw [Function.update_of_ne hne] at hs
      exact Or.inr ⟨s, hne, hs⟩
  · rintro (hp | ⟨s, hne, hs⟩)
    · exact ⟨t, by rwa [Function.update_self]⟩
    · exact ⟨s, by rwa [Function.update_of_ne hne]⟩

lemma exists_failed :
    (∃ s, (w.thread s).failed = true) ↔
      (w.thread t).failed = true ∨ ∃ s, s ≠ t ∧ (w.thread s).failed = true := by
  rw [← exists_failed_update, Function.update_eq_self]

lemma update_none_of_running {nNow nNow' : ℕ} {vChecks vChecks' : List T} {fOk fOk' : Bool}
    (ht : w.thread t = .running nNow vChecks fOk) {p : Pc T}
    (hp : ∀ n vs b, p ≠ .running n vs b)
    (h : Function.update w.thread t (.running nNow' vChecks' fOk') none = p) :
    w.thread none = p := by
  rcases eq_or_ne none t with rfl | hne
  · rw [Function.update_self] at h
    exact absurd h.symm (hp _ _ _)
  · rwa [Function.update_of_ne hne] at h

variable [Fintype ι]

lemma sum_thread {M : Type*} [AddCommMonoid M] (f : Pc T → M) (w : CheckWorld T ι)
    (t : Option ι) : ∑ s, f (w.thread s) = f (w.thread t) + ∑ s ∈ univ.erase t, f (w.thread s) :=
  (add_sum_erase univ (fun s => f (w.thread s)) (mem_univ t)).symm

lemma sum_update {M : Type*} [AddCommMonoid M] (f : Pc T → M) (w : CheckWorld T ι)
    (t : Option ι) (p : Pc T) : ∑ s, f (Function.update w.thread t p s)
      = f p + ∑ s ∈ univ.erase t, f (w.thread s) := by
  rw [← add_sum_erase univ _ (mem_univ t), Function.update_self]
  congr 1
  refine sum_congr rfl fun s hs => ?_
  rw [Function.update_of_ne (ne_of_mem_erase hs)]

/-- **The invariant.** Every check that has been added is in the queue, in a batch, executed or
skipped; a failure is remembered in `fAllOk` or by the thread that has seen it. -/
structure Inv (ok : T → Bool) (w : CheckWorld T ι) : Prop where
  fQuit : w.q.fQuit = false
  nTodo : w.q.nTodo = w.q.queue.length + ∑ s, (w.thread s).nNow
  nIdle : w.q.nIdle = ∑ s, (w.thread s).idle
  nTotal : w.q.nTotal = ∑ s, (w.thread s).inside
  nNow_pos : ∀ s nNow vChecks fOk, w.thread s = .running nNow vChecks fOk → 0 < nNow
  checks : (w.added : Multiset T) = w.q.queue + ∑ s, (w.thread s).bag
    + w.executed + w.skipped
  failed : (w.q.fAllOk = false ∨ ∃ s, (w.thread s).failed = true) ↔
    ∃ c ∈ w.executed, ok c = false
  skipped : w.skipped ≠ [] → w.q.fAllOk = false ∨ ∃ s, (w.thread s).failed = true
  asleep : w.thread none = .waiting → w.notified = false → w.q.queue = [] ∧ 0 < w.q.nTodo
  fresh : w.thread none = .outside → w.added = [] → w.q.nTodo = 0 ∧ w.q.fAllOk = true
  rounds : ∀ r ∈ w.rounds, r.Correct ok

omit [DecidableEq ι] in
lemma inv_init (nBatchSize : ℕ) : Inv ok (init nBatchSize : CheckWorld T ι) where
  fQuit := rfl
  nTodo := by simp [init, CCheckQueue.init, Pc.nNow]
  nIdle := by simp [init, CCheckQueue.init, Pc.idle]
  nTotal := by simp [init, CCheckQueue.init, Pc.inside]
  nNow_pos s nNow vChecks fOk h := by cases h
  checks := by simp [init, CCheckQueue.init, Pc.bag, Pc.checks]
  failed := by simp [init, CCheckQueue.init, Pc.failed]
  skipped h := absurd rfl h
  asleep h := by cases h
  fresh _ _ := ⟨rfl, rfl⟩
  rounds r hr := by cases hr

lemma Inv.add (h : Inv ok w) (vChecks : List T) (hen : w.thread none = .outside) :
    Inv ok (w.step ok (.add vChecks)) where
  fQuit := h.fQuit
  nTodo := by
    simp only [step, CCheckQueue.add, h.nTodo, List.length_append, List.length_reverse]
    omega
  nIdle := h.nIdle
  nTotal := h.nTotal
  nNow_pos := h.nNow_pos
  checks := by
    simp only [step, CCheckQueue.add, ← Multiset.coe_add, Multiset.coe_reverse, h.checks]
    abel
  failed := h.failed
  skipped := h.skipped
  asleep hw := by
    rw [show (w.step ok (.add vChecks)).thread none = w.thread none from rfl, hen] at hw
    cases hw
  fresh hout hnil := by
    obtain ⟨hadded, rfl⟩ := List.append_eq_nil_iff.mp hnil
    exact h.fresh hout hadded
  rounds := h.rounds

/-! ### The execution of a check -/

/-- The invariant, with the thread that takes a step set apart from the others. -/
structure InvAt (ok : T → Bool) (w : CheckWorld T ι) (t : Option ι) (p : Pc T) : Prop where
  fQuit : w.q.fQuit = false
  nTodo : w.q.nTodo = w.q.queue.length + (p.nNow + ∑ s ∈ univ.erase t, (w.thread s).nNow)
  nIdle : w.q.nIdle = p.idle + ∑ s ∈ univ.erase t, (w.thread s).idle
  nTotal : w.q.nTotal = p.inside + ∑ s ∈ univ.erase t, (w.thread s).inside
  nNow_pos : ∀ nNow vChecks fOk, p = .running nNow vChecks fOk → 0 < nNow
  others_pos : ∀ s, s ≠ t → ∀ nNow vChecks fOk, w.thread s = .running nNow vChecks fOk → 0 < nNow
  checks : (w.added : Multiset T) = w.q.queue
    + (p.bag + ∑ s ∈ univ.erase t, (w.thread s).bag) + w.executed + w.skipped
  failed : (w.q.fAllOk = false ∨ p.failed = true ∨ ∃ s, s ≠ t ∧ (w.thread s).failed = true) ↔
    ∃ c ∈ w.executed, ok c = false
  skipped : w.skipped ≠ [] →
    w.q.fAllOk = false ∨ p.failed = true ∨ ∃ s, s ≠ t ∧ (w.thread s).failed = true
  asleep : Function.update w.thread t p none = .waiting → w.notified = false →
    w.q.queue = [] ∧ 0 < w.q.nTodo
  fresh : Function.update w.thread t p none = .outside → w.added = [] →
    w.q.nTodo = 0 ∧ w.q.fAllOk = true
  rounds : ∀ r ∈ w.rounds, r.Correct ok

lemma InvAt.update {p : Pc T} (h : InvAt ok w t p) :
    Inv ok { w with thread := Function.update w.thread t p } where
  fQuit := h.fQuit
  nTodo := by
    rw [sum_update]
    exact h.nTodo
  nIdle := by
    rw [sum_update]
    exact h.nIdle
  nTotal := by
    rw [sum_update]
    exact h.nTotal
  nNow_pos s nNow vChecks fOk hs := by
    dsimp only at hs
    rcases eq_or_ne s t with rfl | hne
    · rw [Function.update_self] at hs
      exact h.nNow_pos nNow vChecks fOk hs
    · rw [Function.update_of_ne hne] at hs
      exact h.others_pos s hne nNow vChecks fOk hs
  checks := by
    dsimp only
    rw [sum_update]
    exact h.checks
  failed := by
    rw [exists_failed_update]
    exact h.failed
  skipped hs := by
    rw [exists_failed_update]
    exact h.skipped hs
  asleep := h.asleep
  fresh := h.fresh
  rounds := h.rounds

lemma Inv.at (h : Inv ok w) (t : Option ι) : InvAt ok w t (w.thread t) where
  fQuit := h.fQuit
  nTodo := by
    rw [← sum_thread]
    exact h.nTodo
  nIdle := by
    rw [← sum_thread]
    exact h.nIdle
  nTotal := by
    rw [← sum_thread]
    exact h.nTotal
  nNow_pos := h.nNow_pos t
  others_pos s _ := h.nNow_pos s
  checks := by
    rw [← sum_thread]
    exact h.checks
  failed := by
    rw [← exists_failed]
    exact h.failed
  skipped hs := by
    rw [← exists_failed]
    exact h.skipped hs
  asleep := by
    rw [Function.update_eq_self]
    exact h.asleep
  fresh := by
    rw [Function.update_eq_self]
    exact h.fresh
  rounds := h.rounds

lemma Inv.progress (h : Inv ok w) {nNow : ℕ} {check : T} {vChecks : List T} {fOk fOk' : Bool}
    (ht : w.thread t = .running nNow (check :: vChecks) fOk) {executed skipped : List T}
    (hchecks : (executed : Multiset T) + skipped = {check} + (w.executed + w.skipped))
    (hfailed : (w.q.fAllOk = false ∨ fOk' = false ∨ ∃ s, s ≠ t ∧ (w.thread s).failed = true) ↔
      ∃ c ∈ executed, ok c = false)
    (hskipped : skipped ≠ [] →
      w.q.fAllOk = false ∨ fOk' = false ∨ ∃ s, s ≠ t ∧ (w.thread s).failed = true) :
    Inv ok { w with
      thread := Function.update w.thread t (.running nNow vChecks fOk'), executed, skipped } := by
  have hat := h.at t
  rw [ht] at hat
  have hnew : InvAt ok { w with executed, skipped } t (.running nNow vChecks fOk') :=
    { fQuit := hat.fQuit
      nTodo := hat.nTodo
      nIdle := hat.nIdle
      nTotal := hat.nTotal
      nNow_pos := fun n vs b hp => by
        cases hp
        exact hat.nNow_pos _ _ _ rfl
      others_pos := hat.others_pos
      checks := by
        have hold := hat.checks
        dsimp only
        rw [add_assoc, hchecks, hold]
        simp only [Pc.bag, Pc.checks, ← Multiset.cons_coe, ← Multiset.singleton_add]
        abel
      failed := by simpa [Pc.failed] using hfailed
      skipped := fun hs => by simpa [Pc.failed] using hskipped hs
      asleep := fun hw => h.asleep (update_none_of_running ht (by simp) hw)
      fresh := fun hout => h.fresh (update_none_of_running ht (by simp) hout)
      rounds := hat.rounds }
  exact hnew.update

lemma Inv.exec (h : Inv ok w) (hen : w.Enabled (.exec t)) : Inv ok (w.step ok (.exec t)) := by
  obtain ⟨nNow, check, vChecks, fOk, ht⟩ := hen
  have hfailed := h.failed
  rw [exists_failed (t := t), ht] at hfailed
  cases fOk with
  | true =>
    have hstep : w.step ok (.exec t) = { w with
        thread := Function.update w.thread t (.running nNow vChecks (ok check))
        executed := w.executed ++ [check] } := by
      simp only [step, CheckWorld.exec, ht]
    rw [hstep]
    refine h.progress ht ?_ ?_ fun hs => ?_
    · rw [← Multiset.coe_add, Multiset.coe_singleton]
      abel
    · have hsplit : (∃ c ∈ w.executed ++ [check], ok c = false) ↔
          (∃ c ∈ w.executed, ok c = false) ∨ ok check = false := by
        simp [or_and_right, exists_or]
      rw [hsplit, ← hfailed]
      simp only [Pc.failed, Bool.not_true, Bool.false_eq_true, false_or]
      rw [or_assoc, or_comm (a := ok check = false)]
    · have hold := h.skipped hs
      rw [exists_failed (t := t), ht] at hold
      simp only [Pc.failed, Bool.not_true, Bool.false_eq_true, false_or] at hold
      exact hold.imp_right Or.inr
  | false =>
    have hstep : w.step ok (.exec t) = { w with
        thread := Function.update w.thread t (.running nNow vChecks false)
        skipped := w.skipped ++ [check] } := by
      simp only [step, CheckWorld.exec, ht]
    rw [hstep]
    refine h.progress ht ?_ ?_ fun _ => Or.inr (Or.inl rfl)
    · rw [← Multiset.coe_add, Multiset.coe_singleton]
      abel
    · rw [← hfailed]
      simp [Pc.failed]

/-! ### The section under the mutex -/

/-- What holds after the clean-up, when the thread has no batch. -/
structure Entered (ok : T → Bool) (w : CheckWorld T ι) (t : Option ι) (q : CCheckQueue T) :
    Prop where
  queue : q.queue = w.q.queue
  fQuit : q.fQuit = false
  nTodo : q.nTodo = q.queue.length + ∑ s ∈ univ.erase t, (w.thread s).nNow
  nIdle : q.nIdle = ∑ s ∈ univ.erase t, (w.thread s).idle
  nTotal : q.nTotal = 1 + ∑ s ∈ univ.erase t, (w.thread s).inside
  others_pos : ∀ s, s ≠ t → ∀ nNow vChecks fOk, w.thread s = .running nNow vChecks fOk → 0 < nNow
  checks : (w.added : Multiset T) = q.queue + ∑ s ∈ univ.erase t, (w.thread s).bag
    + w.executed + w.skipped
  failed : (q.fAllOk = false ∨ ∃ s, s ≠ t ∧ (w.thread s).failed = true) ↔
    ∃ c ∈ w.executed, ok c = false
  skipped : w.skipped ≠ [] → q.fAllOk = false ∨ ∃ s, s ≠ t ∧ (w.thread s).failed = true
  asleep : w.thread none = .waiting → w.notified = false → t ≠ none → w.notifies q t = false →
    q.queue = [] ∧ 0 < q.nTodo
  fresh : w.thread none = .outside → w.added = [] → q.nTodo = 0 ∧ q.fAllOk = true

lemma Inv.entered (h : Inv ok w) (hen : w.Enabled (.lock t)) :
    Entered ok w t (w.q.enter (w.thread t)) := by
  have hat := h.at t
  cases ht : w.thread t with
  | outside =>
    rw [ht] at hat
    exact
      { queue := rfl
        fQuit := hat.fQuit
        nTodo := by simpa [CCheckQueue.enter, Pc.nNow] using hat.nTodo
        nIdle := by simpa [CCheckQueue.enter, Pc.idle] using hat.nIdle
        nTotal := by
          have := hat.nTotal
          simp only [CCheckQueue.enter, Pc.inside] at this ⊢
          omega
        others_pos := hat.others_pos
        checks := by simpa [CCheckQueue.enter, Pc.bag, Pc.checks] using hat.checks
        failed := by simpa [CCheckQueue.enter, Pc.failed] using hat.failed
        skipped := by simpa [CCheckQueue.enter, Pc.failed] using hat.skipped
        asleep := fun hw hn _ _ => h.asleep hw hn
        fresh := h.fresh }
  | waiting =>
    rw [ht] at hat
    exact
      { queue := rfl
        fQuit := hat.fQuit
        nTodo := by simpa [CCheckQueue.enter, Pc.nNow] using hat.nTodo
        nIdle := by
          have := hat.nIdle
          simp only [CCheckQueue.enter, Pc.idle] at this ⊢
          omega
        nTotal := by simpa [CCheckQueue.enter, Pc.inside] using hat.nTotal
        others_pos := hat.others_pos
        checks := by simpa [CCheckQueue.enter, Pc.bag, Pc.checks] using hat.checks
        failed := by simpa [CCheckQueue.enter, Pc.failed] using hat.failed
        skipped := by simpa [CCheckQueue.enter, Pc.failed] using hat.skipped
        asleep := fun hw hn _ _ => h.asleep hw hn
        fresh := h.fresh }
  | running nNow vChecks fOk =>
    have hnil : vChecks = [] := by
      cases vChecks with
      | nil => rfl
      | cons c cs => exact absurd ht (hen nNow c cs fOk)
    subst hnil
    have hpos := h.nNow_pos t _ _ _ ht
    rw [ht] at hat
    have htodo := hat.nTodo
    rw [Pc.nNow] at htodo
    have hok : (w.q.fAllOk && fOk) = false ↔
        w.q.fAllOk = false ∨ (Pc.running nNow ([] : List T) fOk).failed = true := by
      cases w.q.fAllOk <;> cases fOk <;> simp [Pc.failed]
    exact
      { queue := rfl
        fQuit := hat.fQuit
        nTodo := by
          simp only [CCheckQueue.enter]
          omega
        nIdle := by simpa [CCheckQueue.enter, Pc.idle] using hat.nIdle
        nTotal := by simpa [CCheckQueue.enter, Pc.inside] using hat.nTotal
        others_pos := hat.others_pos
        checks := by simpa [CCheckQueue.enter, Pc.bag, Pc.checks] using hat.checks
        failed := by
          simp only [CCheckQueue.enter]
          rw [hok, or_assoc]
          exact hat.failed
        skipped := fun hs => by
          simp only [CCheckQueue.enter]
          rw [hok, or_assoc]
          exact hat.skipped hs
        asleep := fun hw hn hne hq => by
          refine ⟨(h.asleep hw hn).1, Nat.pos_of_ne_zero fun hz => ?_⟩
          simp [notifies, ht, hw, hz, Option.isSome_iff_ne_none.mpr hne] at hq
        fresh := fun hout hnil => by
          have := (h.fresh hout hnil).1
          omega }

namespace Entered

variable {q : CCheckQueue T}

lemma not_running (h : Entered ok w t q) (hz : q.nTodo = 0) {s : Option ι} (hs : s ≠ t)
    (nNow : ℕ) (vChecks : List T) (fOk : Bool) : w.thread s ≠ .running nNow vChecks fOk := by
  intro hrun
  have hpos := h.others_pos s hs nNow vChecks fOk hrun
  have hsum : ∑ s ∈ univ.erase t, (w.thread s).nNow = 0 := by
    have := h.nTodo
    omega
  have := (sum_eq_zero_iff.mp hsum) s (mem_erase.mpr ⟨hs, mem_univ s⟩)
  rw [hrun, Pc.nNow] at this
  omega

lemma others_done (h : Entered ok w t q) (hz : q.nTodo = 0) :
    q.queue = [] ∧ ∑ s ∈ univ.erase t, (w.thread s).bag = 0 ∧
      ¬ ∃ s, s ≠ t ∧ (w.thread s).failed = true := by
  refine ⟨List.length_eq_zero_iff.mp (by have := h.nTodo; omega), ?_, ?_⟩
  · refine sum_eq_zero fun s hs => ?_
    cases hw : w.thread s with
    | running n vs b => exact absurd hw (h.not_running hz (ne_of_mem_erase hs) n vs b)
    | outside => rfl
    | waiting => rfl
  · rintro ⟨s, hs, hfailed⟩
    cases hw : w.thread s with
    | running n vs b => exact absurd hw (h.not_running hz hs n vs b)
    | outside =>
      rw [hw] at hfailed
      cases hfailed
    | waiting =>
      rw [hw] at hfailed
      cases hfailed

lemma correct (h : Entered ok w t q) (hz : q.nTodo = 0) :
    Round.Correct ok ⟨w.added, w.executed, q.fAllOk⟩ := by
  obtain ⟨hqueue, hbag, hfail⟩ := h.others_done hz
  have hchecks := h.checks
  rw [hqueue, hbag, Multiset.coe_nil, zero_add, zero_add] at hchecks
  have hfailed := h.failed
  rw [or_iff_left hfail] at hfailed
  have hmem : ∀ c, c ∈ w.added ↔ c ∈ w.executed ∨ c ∈ w.skipped := by
    intro c
    rw [← Multiset.mem_coe, hchecks, Multiset.mem_add, Multiset.mem_coe, Multiset.mem_coe]
  have hdone : q.fAllOk = true → w.skipped = [] := by
    intro htrue
    by_contra hne
    rcases h.skipped hne with hf | hf
    · rw [htrue] at hf
      cases hf
    · exact hfail hf
  refine ⟨?_, ?_, fun htrue => ?_⟩
  · cases hall : q.fAllOk with
    | true =>
      refine (List.all_eq_true.mpr fun c hc => ?_).symm
      rw [hmem, hdone hall] at hc
      by_contra hne
      have := hfailed.mpr ⟨c, hc.resolve_right (by simp), by simpa using hne⟩
      rw [hall] at this
      cases this
    | false =>
      obtain ⟨c, hc, hbad⟩ := hfailed.mp hall
      refine (List.all_eq_false.mpr ⟨c, (hmem c).mpr (Or.inl hc), ?_⟩).symm
      rw [hbad]
      exact Bool.false_ne_true
  · rw [hchecks]
    exact le_self_add
  · rw [hdone htrue, Multiset.coe_nil, add_zero] at hchecks
    exact Multiset.coe_eq_coe.mp hchecks.symm

end Entered

lemma batch_pos (q : CCheckQueue T) : 0 < q.batch :=
  lt_of_lt_of_le one_pos (le_max_left _ _)

lemma batch_le {q : CCheckQueue T} (hqueue : q.queue ≠ []) : q.batch ≤ q.queue.length := by
  have hlen := List.length_pos_iff.mpr hqueue
  have hdiv := Nat.div_le_self q.queue.length (q.nTotal + q.nIdle + 1)
  unfold CCheckQueue.batch
  omega

omit [Fintype ι] in
lemma lock_return {q : CCheckQueue T} (hq : w.q.enter (w.thread none) = q) (hqueue : q.queue = [])
    (hz : q.nTodo = 0) : w.lock none = { w with
      q := { q with nTotal := q.nTotal - 1, fAllOk := true }
      thread := Function.update w.thread none .outside
      notified := w.notifies q none
      added := [], executed := [], skipped := []
      rounds := w.rounds ++ [⟨w.added, w.executed, q.fAllOk⟩] } := by
  simp [lock, hq, hqueue, hz]

omit [Fintype ι] in
lemma lock_wait {q : CCheckQueue T} (hq : w.q.enter (w.thread t) = q) (hqueue : q.queue = [])
    (hquit : q.fQuit = false) (hstay : t = none → q.nTodo ≠ 0) : w.lock t = { w with
      q := { q with nIdle := q.nIdle + 1 }
      thread := Function.update w.thread t .waiting
      notified := (w.notified && t.isSome) || w.notifies q t } := by
  cases t with
  | none => simp [lock, hq, hqueue, hstay rfl]
  | some i => simp [lock, hq, hqueue, hquit]

omit [Fintype ι] in
lemma lock_batch {q : CCheckQueue T} (hq : w.q.enter (w.thread t) = q) (hqueue : q.queue ≠ []) :
    w.lock t = { w with
      q := { q with queue := q.queue.drop q.batch }
      thread := Function.update w.thread t (.running q.batch (q.queue.take q.batch) q.fAllOk)
      notified := (w.notified && t.isSome) || w.notifies q t } := by
  have hempty : q.queue.isEmpty = false := by simpa using hqueue
  simp [lock, hq, hempty]

namespace Entered

variable {q : CCheckQueue T}

lemma inv_return (h : Entered ok w none q) (hrounds : ∀ r ∈ w.rounds, r.Correct ok)
    (hz : q.nTodo = 0) : Inv ok { w with
      q := { q with nTotal := q.nTotal - 1, fAllOk := true }
      thread := Function.update w.thread none .outside
      notified := w.notifies q none
      added := [], executed := [], skipped := []
      rounds := w.rounds ++ [⟨w.added, w.executed, q.fAllOk⟩] } := by
  obtain ⟨hqueue, hbag, hfail⟩ := h.others_done hz
  refine InvAt.update (w := { w with
    q := { q with nTotal := q.nTotal - 1, fAllOk := true }
    notified := w.notifies q none, added := [], executed := [], skipped := []
    rounds := w.rounds ++ [⟨w.added, w.executed, q.fAllOk⟩] })
    { fQuit := h.fQuit
      nTodo := by simpa [Pc.nNow] using h.nTodo
      nIdle := by simpa [Pc.idle] using h.nIdle
      nTotal := by simp [Pc.inside, h.nTotal]
      nNow_pos := fun n vs b hp => by cases hp
      others_pos := h.others_pos
      checks := by
        rw [show (Pc.outside : Pc T).bag = 0 from rfl, hbag, hqueue]
        rfl
      failed := by simpa [Pc.failed] using hfail
      skipped := fun hne => absurd rfl hne
      asleep := fun hw => by
        rw [Function.update_self] at hw
        cases hw
      fresh := fun _ _ => ⟨hz, rfl⟩
      rounds := fun r hr => ?_ }
  rcases List.mem_append.mp hr with hr | hr
  · exact hrounds r hr
  · rw [List.mem_singleton.mp hr]
    exact h.correct hz

lemma inv_wait (h : Entered ok w t q) (hrounds : ∀ r ∈ w.rounds, r.Correct ok)
    (hqueue : q.queue = []) (hstay : t = none → q.nTodo ≠ 0) : Inv ok { w with
      q := { q with nIdle := q.nIdle + 1 }
      thread := Function.update w.thread t .waiting
      notified := (w.notified && t.isSome) || w.notifies q t } := by
  refine InvAt.update (w := { w with
    q := { q with nIdle := q.nIdle + 1 }
    notified := (w.notified && t.isSome) || w.notifies q t })
    { fQuit := h.fQuit
      nTodo := by simpa [Pc.nNow] using h.nTodo
      nIdle := by
        have := h.nIdle
        show q.nIdle + 1 = 1 + ∑ s ∈ univ.erase t, (w.thread s).idle
        omega
      nTotal := by simpa [Pc.inside] using h.nTotal
      nNow_pos := fun n vs b hp => by cases hp
      others_pos := h.others_pos
      checks := by simpa [Pc.bag, Pc.checks] using h.checks
      failed := by simpa [Pc.failed] using h.failed
      skipped := by simpa [Pc.failed] using h.skipped
      asleep := fun hw hn => ?_
      fresh := fun hout hnil => ?_
      rounds := hrounds }
  · rcases eq_or_ne t none with rfl | hne
    · exact ⟨hqueue, Nat.pos_of_ne_zero (hstay rfl)⟩
    · simp only [Function.update_of_ne hne.symm, Option.isSome_iff_ne_none.mpr hne, Bool.and_true,
        Bool.or_eq_false_iff] at hw hn
      exact h.asleep hw hn.1 hne hn.2
  · rcases eq_or_ne t none with rfl | hne
    · rw [Function.update_self] at hout
      cases hout
    · rw [Function.update_of_ne hne.symm] at hout
      exact h.fresh hout hnil

lemma inv_batch (h : Entered ok w t q) (hrounds : ∀ r ∈ w.rounds, r.Correct ok)
    (hqueue : q.queue ≠ []) : Inv ok { w with
      q := { q with queue := q.queue.drop q.batch }
      thread := Function.update w.thread t (.running q.batch (q.queue.take q.batch) q.fAllOk)
      notified := (w.notified && t.isSome) || w.notifies q t } := by
  have hle := batch_le hqueue
  refine InvAt.update (w := { w with
    q := { q with queue := q.queue.drop q.batch }
    notified := (w.notified && t.isSome) || w.notifies q t })
    { fQuit := h.fQuit
      nTodo := by
        have := h.nTodo
        show q.nTodo = (q.queue.drop q.batch).length
          + (q.batch + ∑ s ∈ univ.erase t, (w.thread s).nNow)
        rw [List.length_drop]
        omega
      nIdle := by simpa [Pc.idle] using h.nIdle
      nTotal := by simpa [Pc.inside] using h.nTotal
      nNow_pos := fun n vs b hp => by
        cases hp
        exact batch_pos q
      others_pos := h.others_pos
      checks := by
        have hsplit : (q.queue : Multiset T) = q.queue.take q.batch + q.queue.drop q.batch := by
          rw [Multiset.coe_add, List.take_append_drop]
        have := h.checks
        rw [hsplit] at this
        simp only [Pc.bag, Pc.checks, this]
        abel
      failed := by
        have hsame : (Pc.running q.batch (q.queue.take q.batch) q.fAllOk).failed = true ↔
            q.fAllOk = false := by simp [Pc.failed]
        dsimp only
        rw [hsame, ← or_assoc, or_self]
        exact h.failed
      skipped := fun hne => (h.skipped hne).imp_right Or.inr
      asleep := fun hw hn => ?_
      fresh := fun hout hnil => ?_
      rounds := hrounds }
  · rcases eq_or_ne t none with rfl | hne
    · rw [Function.update_self] at hw
      cases hw
    · simp only [Function.update_of_ne hne.symm, Option.isSome_iff_ne_none.mpr hne, Bool.and_true,
        Bool.or_eq_false_iff] at hw hn
      exact absurd (h.asleep hw hn.1 hne hn.2).1 hqueue
  · rcases eq_or_ne t none with rfl | hne
    · rw [Function.update_self] at hout
      cases hout
    · rw [Function.update_of_ne hne.symm] at hout
      have hz := (h.fresh hout hnil).1
      exact absurd (h.others_done hz).1 hqueue

end Entered

lemma Inv.lock (h : Inv ok w) (hen : w.Enabled (.lock t)) : Inv ok (w.step ok (.lock t)) := by
  have hent := h.entered hen
  show Inv ok (w.lock t)
  by_cases hqueue : (w.q.enter (w.thread t)).queue = []
  · by_cases hret : t = none ∧ (w.q.enter (w.thread t)).nTodo = 0
    · obtain ⟨rfl, hz⟩ := hret
      rw [lock_return rfl hqueue hz]
      exact hent.inv_return h.rounds hz
    · have hstay : t = none → (w.q.enter (w.thread t)).nTodo ≠ 0 := fun ht hz => hret ⟨ht, hz⟩
      rw [lock_wait rfl hqueue hent.fQuit hstay]
      exact hent.inv_wait h.rounds hqueue hstay
  · rw [lock_batch rfl hqueue]
    exact hent.inv_batch h.rounds hqueue

lemma Inv.step (h : Inv ok w) {a : CheckAction T ι} (hen : w.Enabled a) : Inv ok (w.step ok a) := by
  cases a with
  | add vChecks => exact h.add vChecks hen
  | lock t => exact h.lock hen
  | exec t => exact h.exec hen

/-- **Every interleaving** keeps the invariant. -/
theorem Inv.run {nBatchSize : ℕ} {l : List (CheckAction T ι)}
    (hrun : Run (CheckWorld.step ok) Enabled (init nBatchSize) l w) : Inv ok w :=
  hrun.invariant (inv_init nBatchSize) fun _ _ h hen => h.step hen

/-! ### `Wait` does not sleep forever -/

/-- The steps of threads that are awake: the master after a notification, and those with a batch. -/
def Prompt (w : CheckWorld T ι) : CheckAction T ι → Prop
  | .add _ => False
  | .lock t => w.Enabled (.lock t) ∧ w.thread t ≠ .outside ∧
      (w.thread t = .waiting → t = none ∧ w.notified = true)
  | .exec t => w.Enabled (.exec t)

def load : Pc T → ℕ
  | .running _ vChecks _ => vChecks.length + 1
  | _ => 0

def work (w : CheckWorld T ι) : ℕ := 3 * w.q.queue.length + ∑ s, load (w.thread s)

lemma work_eq (w : CheckWorld T ι) (t : Option ι) :
    w.work = 3 * w.q.queue.length
      + (load (w.thread t) + ∑ s ∈ univ.erase t, load (w.thread s)) := by
  rw [work, sum_thread]

/-- A step that gets on: `Wait` has returned, or less is left to do. -/
def Advances (w w' : CheckWorld T ι) : Prop :=
  (∃ r, w'.rounds = w.rounds ++ [r]) ∨
    (w'.rounds = w.rounds ∧ w'.thread none ≠ .outside ∧ w'.work < w.work)

omit [Fintype ι] in
lemma update_ne_outside {p : Pc T} (hp : p ≠ .outside) (h : w.thread none ≠ .outside) :
    Function.update w.thread t p none ≠ .outside := by
  rcases eq_or_ne none t with rfl | hne
  · rwa [Function.update_self]
  · rwa [Function.update_of_ne hne]

lemma advances_update {w' : CheckWorld T ι} {p : Pc T}
    (hthread : w'.thread = Function.update w.thread t p) (hrounds : w'.rounds = w.rounds)
    (hp : p ≠ .outside) (hin : w.thread none ≠ .outside)
    (hload : 3 * w'.q.queue.length + load p < 3 * w.q.queue.length + load (w.thread t)) :
    Advances w w' := by
  refine Or.inr ⟨hrounds, ?_, ?_⟩
  · rw [hthread]
    exact update_ne_outside hp hin
  · rw [work_eq w t, work, hthread, sum_update]
    omega

lemma advances_exec (ok : T → Bool) (hen : w.Enabled (.exec t)) (hin : w.thread none ≠ .outside) :
    Advances w (w.step ok (.exec t)) := by
  obtain ⟨nNow, check, vChecks, fOk, ht⟩ := hen
  have hload : ∀ b, load (.running nNow vChecks b) < load (w.thread t) := by
    intro b
    rw [ht]
    exact Nat.lt_succ_self _
  cases fOk with
  | true =>
    simp only [step, CheckWorld.exec, ht]
    exact advances_update rfl rfl (by simp) hin (Nat.add_lt_add_left (hload _) _)
  | false =>
    simp only [step, CheckWorld.exec, ht]
    exact advances_update rfl rfl (by simp) hin (Nat.add_lt_add_left (hload _) _)

lemma advances_batch {q : CCheckQueue T} (hq : w.q.enter (w.thread t) = q)
    (hsame : q.queue = w.q.queue) (hqueue : q.queue ≠ []) (hin : w.thread none ≠ .outside) :
    Advances w (w.lock t) := by
  have hlen := List.length_pos_iff.mpr hqueue
  have hle := batch_le hqueue
  have hpos := batch_pos q
  rw [lock_batch hq hqueue]
  refine advances_update rfl rfl (by simp) hin ?_
  show 3 * (q.queue.drop q.batch).length + ((q.queue.take q.batch).length + 1) < _
  rw [List.length_drop, List.length_take, ← hsame]
  omega

lemma Inv.advances (h : Inv ok w) (hin : w.thread none ≠ .outside) :
    ∃ a, w.Prompt a ∧ Advances w (w.step ok a) := by
  by_cases hrun : ∃ t nNow vChecks fOk, w.thread t = .running nNow vChecks fOk
  · obtain ⟨t, nNow, vChecks, fOk, ht⟩ := hrun
    cases vChecks with
    | cons c cs =>
      have hen : w.Enabled (.exec t) := ⟨nNow, c, cs, fOk, ht⟩
      exact ⟨.exec t, hen, advances_exec ok hen hin⟩
    | nil =>
      have hen : w.Enabled (.lock t) := by
        intro n c cs b hw
        rw [ht] at hw
        cases hw
      refine ⟨.lock t, ⟨hen, by simp [ht], by simp [ht]⟩, ?_⟩
      have hent := h.entered hen
      by_cases hqueue : (w.q.enter (w.thread t)).queue = []
      · by_cases hret : t = none ∧ (w.q.enter (w.thread t)).nTodo = 0
        · obtain ⟨rfl, hz⟩ := hret
          exact Or.inl ⟨_, by rw [CheckWorld.step, lock_return rfl hqueue hz]⟩
        · rw [CheckWorld.step, lock_wait rfl hqueue hent.fQuit fun ht hz => hret ⟨ht, hz⟩]
          refine advances_update rfl rfl (by simp) hin ?_
          show 3 * (w.q.enter (w.thread t)).queue.length + 0 < _
          rw [hent.queue, ht]
          exact Nat.lt_succ_self _
      · exact advances_batch rfl hent.queue hqueue hin
  · -- only the master is left, and it has been notified
    have hidle : ∑ s, (w.thread s).nNow = 0 := by
      refine sum_eq_zero fun s _ => ?_
      cases hw : w.thread s with
      | running n vs b => exact absurd ⟨s, n, vs, b, hw⟩ hrun
      | outside => rfl
      | waiting => rfl
    have hwait : w.thread none = .waiting := by
      cases hw : w.thread none with
      | running n vs b => exact absurd ⟨none, n, vs, b, hw⟩ hrun
      | outside => exact absurd hw hin
      | waiting => rfl
    have htodo := h.nTodo
    rw [hidle] at htodo
    have hnot : w.notified = true := by
      by_contra hn
      obtain ⟨hqueue, hpos⟩ := h.asleep hwait (by simpa using hn)
      rw [hqueue, List.length_nil] at htodo
      omega
    have hen : w.Enabled (.lock none) := by
      intro n c cs b hw
      rw [hwait] at hw
      cases hw
    refine ⟨.lock none, ⟨hen, hin, fun _ => ⟨rfl, hnot⟩⟩, ?_⟩
    have hent := h.entered hen
    by_cases hqueue : (w.q.enter (w.thread none)).queue = []
    · have hz : (w.q.enter (w.thread none)).nTodo = 0 := by
        rw [hwait]
        show w.q.nTodo = 0
        rw [htodo, ← hent.queue, hqueue]
        rfl
      exact Or.inl ⟨_, by rw [CheckWorld.step, lock_return rfl hqueue hz]⟩
    · exact advances_batch rfl hent.queue hqueue hin

/-- **`Wait` returns.** From any state in it the threads that are awake can finish it. -/
theorem Inv.wait_returns (h : Inv ok w) (hin : w.thread none ≠ .outside) :
    ∃ m r, Run.Allowed (CheckWorld.step ok) Prompt w m ∧
      (m.foldl (CheckWorld.step ok) w).rounds = w.rounds ++ [r] := by
  induction hn : w.work using Nat.strong_induction_on generalizing w with
  | _ n ih =>
    obtain ⟨a, ha, hadv⟩ := h.advances hin
    have hen : w.Enabled a := by
      cases a with
      | add vChecks => cases ha
      | lock t => exact ha.1
      | exec t => exact ha
    rcases hadv with ⟨r, hr⟩ | ⟨hrounds, hin', hwork⟩
    · exact ⟨[a], r, ⟨ha, trivial⟩, hr⟩
    · obtain ⟨m, r, hm, hr⟩ := ih _ (hn ▸ hwork) (h.step hen) hin' rfl
      exact ⟨a :: m, r, ⟨ha, hm⟩, by rw [List.foldl_cons, hr, hrounds]⟩

omit [DecidableEq ι] in
lemma Inv.isIdle (h : Inv ok w) (hz : w.q.nTodo = 0) (hok : w.q.fAllOk = true) :
    w.q.isIdle = true := by
  have hsum : ∑ s, (w.thread s).nNow = 0 := by
    have := h.nTodo
    omega
  have hsame : w.q.nTotal = w.q.nIdle := by
    rw [h.nTotal, h.nIdle]
    refine sum_congr rfl fun s hs => ?_
    cases hw : w.thread s with
    | outside => rfl
    | waiting => rfl
    | running n vs b =>
      have hpos := h.nNow_pos s n vs b hw
      have hn := sum_eq_zero_iff.mp hsum s hs
      rw [hw, Pc.nNow] at hn
      omega
  simp [CCheckQueue.isIdle, hsame, hz, hok]

/-- **Parallel checking gives the sequential answer.** In every interleaving of any number of
workers each `Wait` that has returned gave the conjunction of the checks added for it, no check is
executed twice and all are when the result is true; `nTodo` counts the checks in the queue and in
unfinished batches; the queue is idle and reset before the next checks are added; and a `Wait` that
has not returned yet can be finished by threads that are awake. -/
theorem wait_sequential {nBatchSize : ℕ} {l : List (CheckAction T ι)}
    (hrun : Run (CheckWorld.step ok) Enabled (init nBatchSize) l w) :
    (∀ r ∈ w.rounds, r.Correct ok) ∧ (w.executed : Multiset T) ≤ w.added ∧
      w.q.nTodo = w.q.queue.length + ∑ s, (w.thread s).nNow ∧
      (w.thread none = .outside → w.added = [] →
        w.q.fAllOk = true ∧ w.q.nTodo = 0 ∧ w.q.isIdle = true) ∧
      (w.thread none ≠ .outside → ∃ m r, Run.Allowed (CheckWorld.step ok) Prompt w m ∧
        (m.foldl (CheckWorld.step ok) w).rounds = w.rounds ++ [r]) := by
  have h := Inv.run hrun
  refine ⟨h.rounds, ?_, h.nTodo, fun hout hnil => ?_, h.wait_returns⟩
  · rw [h.checks]
    exact (Multiset.le_add_left _ _).trans (Multiset.le_add_right _ _)
  · obtain ⟨hz, hok⟩ := h.fresh hout hnil
    exact ⟨hok, hz, h.isIdle hz hok⟩

end CheckWorld

namespace Concrete

open CheckWorld

/-- Two checks, of which the second one fails. -/
def twoChecks : ℕ → Bool := fun n => n != 0

/-- A worker takes the check that fails, the master the other one. -/
def twoThreads : List (CheckAction ℕ Unit) :=
  [.add [1, 0], .lock (some ()), .lock none, .exec (some ()), .lock (some ()), .exec none,
    .lock none]

theorem wait_twoThreads :
    (twoThreads.foldl (step twoChecks) (init 128)).rounds = [⟨[1, 0], [0, 1], false⟩] ∧
      Round.Correct twoChecks ⟨[1, 0], [0, 1], false⟩ := by
  have hrounds : (twoThreads.foldl (step twoChecks) (init 128)).rounds
      = [⟨[1, 0], [0, 1], false⟩] := by decide
  have hrun : Run (step twoChecks) Enabled (init 128) twoThreads
      (twoThreads.foldl (step twoChecks) (init 128)) :=
    Run.append_allowed .nil ⟨rfl, nofun, nofun, ⟨1, 0, [], true, rfl⟩, nofun,
      ⟨1, 1, [], true, rfl⟩, nofun, trivial⟩
  exact ⟨hrounds, (wait_sequential hrun).1 _ (by rw [hrounds]; exact List.mem_singleton_self _)⟩

end Concrete

end Agenor
