import Agenor.BlockDownload
import Agenor.SignatureHash
import Agenor.Lib.ReverseIndex

/-!
Transactions whose inputs are not known yet (`main.cpp`), and the index that finds them by the
transactions they spend.

The index is kept in step by hand, one input at a time. The map of orphans is the list of its
entries in the order of the keys.
-/

namespace Agenor

open Lib.ReverseIndex

/-- `GetSerializeSize`. The version and the lock time take four bytes each, whatever they are. -/
def CTransaction.getSerializeSize (tx : CTransaction) : ℕ :=
  (CMutableTransaction.serialize ⟨0, tx.vin, tx.vout, 0⟩).length

structure COrphanTx where
  tx : CTransaction
  fromPeer : NodeId
  deriving DecidableEq, Repr

structure Orphans where
  mapOrphanTransactions : List (Uint256 × COrphanTx)
  mapOrphanTransactionsByPrev : Uint256 → Option (Finset Uint256)

namespace Orphans

def initial : Orphans := ⟨[], fun _ => none⟩

variable (s : Orphans)

def find (hash : Uint256) : Option COrphanTx :=
  (s.mapOrphanTransactions.find? fun e => e.1 == hash).map (·.2)

/-- A new key takes its place in the order. -/
def insertEntry (hash : Uint256) (orphan : COrphanTx) (l : List (Uint256 × COrphanTx)) :
    List (Uint256 × COrphanTx) :=
  l.takeWhile (fun e => decide (e.1 < hash)) ++
    (hash, orphan) :: l.dropWhile fun e => decide (e.1 < hash)

def addOrphanTx (tx : CTransaction) (peer : NodeId) : Orphans × Bool :=
  let hash := tx.hash
  if (s.find hash).isSome then (s, false)
  else if 5000 < tx.getSerializeSize then (s, false)
  else
    ({ mapOrphanTransactions := insertEntry hash ⟨tx, peer⟩ s.mapOrphanTransactions
       mapOrphanTransactionsByPrev := (tx.vin.map (·.prevout.hash)).foldl
         (fun index h => insertAt index h hash) s.mapOrphanTransactionsByPrev }, true)

def eraseOrphanTx (hash : Uint256) : Orphans :=
  match s.find hash with
  | none => s
  | some orphan =>
    { mapOrphanTransactions := s.mapOrphanTransactions.filter fun e => e.1 != hash
      mapOrphanTransactionsByPrev := (orphan.tx.vin.map (·.prevout.hash)).foldl
        (fun index h => eraseAt index h hash) s.mapOrphanTransactionsByPrev }

/-- `EraseOrphansFor`. The iterator has moved on when an entry is erased, so the loop sees all the
entries that there were. -/
def eraseOrphansFor (peer : NodeId) : Orphans :=
  s.mapOrphanTransactions.foldl
    (fun s e => if e.2.fromPeer = peer then s.eraseOrphanTx e.2.tx.hash else s) s

/-- The orphan at or after a hash, the first one when there is none. -/
def pickOrphan (randomhash : Uint256) : Option (Uint256 × COrphanTx) :=
  match s.mapOrphanTransactions.find? fun e => decide (randomhash ≤ e.1) with
  | some e => some e
  | none => s.mapOrphanTransactions.head?

/-- The loop of `LimitOrphanTxSize`; `none` when an iterator at the end is followed, or the passes
run out. -/
def limitLoop (nMaxOrphans : ℕ) (rand : ℕ → Uint256) : ℕ → ℕ → Orphans → Option (Orphans × ℕ)
  | 0, _, _ => none
  | fuel + 1, nEvicted, s =>
    if nMaxOrphans < s.mapOrphanTransactions.length then
      match s.pickOrphan (rand nEvicted) with
      | none => none
      | some e => limitLoop nMaxOrphans rand fuel (nEvicted + 1) (s.eraseOrphanTx e.1)
    else some (s, nEvicted)

/-- `LimitOrphanTxSize`, with the hashes that `GetRandHash` gives. -/
def limitOrphanTxSize (nMaxOrphans : ℕ) (rand : ℕ → Uint256) : Option (Orphans × ℕ) :=
  limitLoop nMaxOrphans rand (s.mapOrphanTransactions.length + 1) 0 s

/-- The calls that change the orphans. -/
inductive Op
  | add (tx : CTransaction) (peer : NodeId)
  | erase (hash : Uint256)
  | eraseFor (peer : NodeId)
  | limit (nMaxOrphans : ℕ) (rand : ℕ → Uint256)

def apply : Op → Orphans
  | .add tx peer => (s.addOrphanTx tx peer).1
  | .erase hash => s.eraseOrphanTx hash
  | .eraseFor peer => s.eraseOrphansFor peer
  | .limit nMaxOrphans rand => ((s.limitOrphanTxSize nMaxOrphans rand).map (·.1)).getD s

/-! ### The invariant -/

/-- A stored orphan has an input from the transaction. -/
def Spends (h hash : Uint256) : Prop :=
  ∃ orphan, s.find hash = some orphan ∧ h ∈ orphan.tx.vin.map (·.prevout.hash)

structure Inv (s : Orphans) : Prop where
  nodup : (s.mapOrphanTransactions.map (·.1)).Nodup
  hash : ∀ e ∈ s.mapOrphanTransactions, e.2.tx.hash = e.1
  size : ∀ e ∈ s.mapOrphanTransactions, e.2.tx.getSerializeSize ≤ 5000
  byPrev : Indexes s.mapOrphanTransactionsByPrev s.Spends

variable {s : Orphans}

lemma find_eq_some (h : (s.mapOrphanTransactions.map (·.1)).Nodup) {hash : Uint256}
    {orphan : COrphanTx} :
    s.find hash = some orphan ↔ (hash, orphan) ∈ s.mapOrphanTransactions := by
  rw [find, Option.map_eq_some_iff]
  constructor
  · rintro ⟨⟨key, orphan⟩, hfind, rfl⟩
    obtain rfl : key = hash := by simpa using List.find?_some hfind
    exact List.mem_of_find?_eq_some hfind
  · intro hmem
    cases hfind : s.mapOrphanTransactions.find? fun e => e.1 == hash with
    | none => simpa using List.find?_eq_none.mp hfind _ hmem
    | some e =>
      have hkey : e.1 = hash := by simpa using List.find?_some hfind
      rw [List.inj_on_of_nodup_map h (List.mem_of_find?_eq_some hfind) hmem hkey]
      exact ⟨_, rfl, rfl⟩

lemma find_isSome {hash : Uint256} :
    (s.find hash).isSome = true ↔ hash ∈ s.mapOrphanTransactions.map (·.1) := by
  rw [find, Option.isSome_map, List.find?_isSome, List.mem_map]
  simp only [beq_iff_eq]

lemma spends_iff (hs : (s.mapOrphanTransactions.map (·.1)).Nodup) {h hash : Uint256} :
    s.Spends h hash ↔
      ∃ e ∈ s.mapOrphanTransactions, e.1 = hash ∧ h ∈ e.2.tx.vin.map (·.prevout.hash) := by
  constructor
  · rintro ⟨orphan, hfind, hmem⟩
    exact ⟨(hash, orphan), (find_eq_some hs).mp hfind, rfl, hmem⟩
  · rintro ⟨⟨_, orphan⟩, he, rfl, hmem⟩
    exact ⟨orphan, (find_eq_some hs).mpr he, hmem⟩

lemma initial_inv : Inv initial :=
  ⟨List.nodup_nil, by simp [initial], by simp [initial],
    Indexes.empty.congr fun h hash => by simp [Spends, find, initial]⟩

/-! ### Adding -/

lemma insertEntry_perm (hash : Uint256) (orphan : COrphanTx) (l : List (Uint256 × COrphanTx)) :
    (insertEntry hash orphan l).Perm ((hash, orphan) :: l) := by
  have h : (insertEntry hash orphan l).Perm ((hash, orphan) ::
      (l.takeWhile (fun e => decide (e.1 < hash)) ++ l.dropWhile fun e => decide (e.1 < hash))) :=
    List.perm_middle
  rwa [List.takeWhile_append_dropWhile] at h

lemma Inv.addOrphanTx (h : Inv s) (tx : CTransaction) (peer : NodeId) :
    Inv (s.addOrphanTx tx peer).1 := by
  unfold Orphans.addOrphanTx
  dsimp only
  split_ifs with hfind hsize
  · exact h
  · exact h
  rw [find_isSome] at hfind
  have hperm := insertEntry_perm tx.hash ⟨tx, peer⟩ s.mapOrphanTransactions
  have hmem : ∀ e, e ∈ insertEntry tx.hash ⟨tx, peer⟩ s.mapOrphanTransactions ↔
      e = (tx.hash, ⟨tx, peer⟩) ∨ e ∈ s.mapOrphanTransactions := fun e => by
    rw [hperm.mem_iff, List.mem_cons]
  have hnodup : ((insertEntry tx.hash ⟨tx, peer⟩ s.mapOrphanTransactions).map (·.1)).Nodup := by
    rw [(hperm.map _).nodup_iff, List.map_cons, List.nodup_cons]
    exact ⟨hfind, h.nodup⟩
  refine ⟨hnodup, fun e he => ?_, fun e he => ?_, ?_⟩
  · rcases (hmem e).mp he with rfl | he
    · rfl
    · exact h.hash e he
  · rcases (hmem e).mp he with rfl | he
    · exact not_lt.mp hsize
    · exact h.size e he
  · refine (h.byPrev.foldl_insertAt _ _).congr fun k hash => ?_
    rw [spends_iff h.nodup, spends_iff hnodup]
    constructor
    · rintro (⟨e, he, hkey, hin⟩ | ⟨hin, rfl⟩)
      · exact ⟨e, (hmem e).mpr (.inr he), hkey, hin⟩
      · exact ⟨_, (hmem _).mpr (.inl rfl), rfl, hin⟩
    · rintro ⟨e, he, rfl, hin⟩
      rcases (hmem e).mp he with rfl | he
      · exact .inr ⟨hin, rfl⟩
      · exact .inl ⟨e, he, rfl, hin⟩

/-! ### Erasing -/

lemma mem_eraseOrphanTx {hash : Uint256} {e : Uint256 × COrphanTx} :
    e ∈ (s.eraseOrphanTx hash).mapOrphanTransactions ↔
      e ∈ s.mapOrphanTransactions ∧ e.1 ≠ hash := by
  unfold eraseOrphanTx
  cases hfind : s.find hash with
  | none =>
    refine ⟨fun he => ⟨he, ?_⟩, fun he => he.1⟩
    rintro rfl
    have hsome := find_isSome.mpr (List.mem_map_of_mem (f := (·.1)) he)
    rw [hfind] at hsome
    cases hsome
  | some orphan => simp

lemma Inv.eraseOrphanTx (h : Inv s) (hash : Uint256) : Inv (s.eraseOrphanTx hash) := by
  have hmem : ∀ e, e ∈ (s.eraseOrphanTx hash).mapOrphanTransactions ↔
      e ∈ s.mapOrphanTransactions ∧ e.1 ≠ hash := fun _ => mem_eraseOrphanTx
  have hnodup : ((s.eraseOrphanTx hash).mapOrphanTransactions.map (·.1)).Nodup := by
    unfold Orphans.eraseOrphanTx
    cases s.find hash with
    | none => exact h.nodup
    | some orphan => exact (List.filter_sublist.map _).nodup h.nodup
  refine ⟨hnodup, fun e he => h.hash e ((hmem e).mp he).1, fun e he => h.size e ((hmem e).mp he).1,
    ?_⟩
  cases hfind : s.find hash with
  | none =>
    have hsame : s.eraseOrphanTx hash = s := by rw [Orphans.eraseOrphanTx, hfind]
    rw [hsame]
    exact h.byPrev
  | some orphan =>
    have hbyPrev : (s.eraseOrphanTx hash).mapOrphanTransactionsByPrev =
        (orphan.tx.vin.map (·.prevout.hash)).foldl (fun index h => eraseAt index h hash)
          s.mapOrphanTransactionsByPrev := by rw [Orphans.eraseOrphanTx, hfind]
    rw [hbyPrev]
    refine (h.byPrev.foldl_eraseAt _ _).congr fun k key => ?_
    rw [spends_iff h.nodup, spends_iff hnodup]
    have horphan := (find_eq_some h.nodup).mp hfind
    constructor
    · rintro ⟨⟨e, he, rfl, hin⟩, hnot⟩
      refine ⟨e, (hmem e).mpr ⟨he, fun hkey => hnot ⟨?_, hkey⟩⟩, rfl, hin⟩
      have heq : e = (hash, orphan) := List.inj_on_of_nodup_map h.nodup he horphan hkey
      rwa [heq] at hin
    · rintro ⟨e, he, rfl, hin⟩
      obtain ⟨he, hne⟩ := (hmem e).mp he
      exact ⟨⟨e, he, rfl, hin⟩, fun hboth => hne hboth.2⟩

lemma Inv.eraseEach (h : Inv s) (peer : NodeId) {l : List (Uint256 × COrphanTx)}
    (hl : ∀ e ∈ l, e.2.tx.hash = e.1) :
    let s' := l.foldl
      (fun s e => if e.2.fromPeer = peer then s.eraseOrphanTx e.2.tx.hash else s) s
    Inv s' ∧ ∀ e, e ∈ s'.mapOrphanTransactions ↔
      e ∈ s.mapOrphanTransactions ∧ ∀ d ∈ l, d.2.fromPeer = peer → e.1 ≠ d.1 := by
  induction l generalizing s with
  | nil => exact ⟨h, fun e => by simp⟩
  | cons d l ih =>
    rw [List.forall_mem_cons] at hl
    rw [List.foldl_cons, hl.1]
    simp only [List.forall_mem_cons]
    by_cases hpeer : d.2.fromPeer = peer
    · obtain ⟨hinv, hmem⟩ := ih (h.eraseOrphanTx d.1) hl.2
      rw [if_pos hpeer]
      refine ⟨hinv, fun e => ?_⟩
      rw [hmem e, mem_eraseOrphanTx, and_assoc]
      simp [hpeer]
    · obtain ⟨hinv, hmem⟩ := ih h hl.2
      rw [if_neg hpeer]
      refine ⟨hinv, fun e => ?_⟩
      rw [hmem e]
      simp [hpeer]

lemma Inv.mem_eraseOrphansFor (h : Inv s) (peer : NodeId) {e : Uint256 × COrphanTx} :
    e ∈ (s.eraseOrphansFor peer).mapOrphanTransactions ↔
      e ∈ s.mapOrphanTransactions ∧ e.2.fromPeer ≠ peer := by
  rw [eraseOrphansFor, (h.eraseEach peer h.hash).2 e]
  refine and_congr_right fun he => ⟨fun hall hpeer => hall e he hpeer rfl, ?_⟩
  intro hpeer d hd hdpeer hkey
  rw [← List.inj_on_of_nodup_map h.nodup he hd hkey] at hdpeer
  exact hpeer hdpeer

/-! ### The limit -/

lemma length_eraseOrphanTx (h : Inv s) {e : Uint256 × COrphanTx}
    (he : e ∈ s.mapOrphanTransactions) :
    (s.eraseOrphanTx e.1).mapOrphanTransactions.length + 1 = s.mapOrphanTransactions.length := by
  have hfind : s.find e.1 = some e.2 := (find_eq_some h.nodup).mpr he
  have hcount : (s.mapOrphanTransactions.map (·.1)).count e.1 = 1 :=
    List.count_eq_one_of_mem h.nodup (List.mem_map_of_mem he)
  rw [List.count, List.countP_map] at hcount
  have hsplit := List.length_eq_countP_add_countP (fun d : Uint256 × COrphanTx => d.1 == e.1)
    (l := s.mapOrphanTransactions)
  have hrest : (s.mapOrphanTransactions.filter fun d => d.1 != e.1).length =
      s.mapOrphanTransactions.countP fun d => decide ¬ (d.1 == e.1) = true := by
    rw [List.countP_eq_length_filter]
    congr 2
    funext d
    rw [bne]
    cases d.1 == e.1 <;> rfl
  rw [eraseOrphanTx, hfind]
  dsimp only
  rw [hrest, hsplit, Nat.add_comm]
  exact congrArg (· + _) hcount.symm

lemma pickOrphan_mem (randomhash : Uint256) (hne : s.mapOrphanTransactions ≠ []) :
    ∃ e, s.pickOrphan randomhash = some e ∧ e ∈ s.mapOrphanTransactions := by
  unfold pickOrphan
  cases hfind : s.mapOrphanTransactions.find? fun e => decide (randomhash ≤ e.1) with
  | some e => exact ⟨e, rfl, List.mem_of_find?_eq_some hfind⟩
  | none =>
    obtain ⟨e, l, hl⟩ := List.exists_cons_of_ne_nil hne
    rw [hl]
    exact ⟨e, rfl, List.mem_cons_self⟩

lemma Inv.limitLoop (h : Inv s) (n : ℕ) (rand : ℕ → Uint256) {fuel : ℕ} (nEvicted : ℕ)
    (hfuel : s.mapOrphanTransactions.length < fuel) :
    ∃ s' nEvicted', Orphans.limitLoop n rand fuel nEvicted s = some (s', nEvicted') ∧ Inv s' ∧
      s'.mapOrphanTransactions.length ≤ n ∧
      s'.mapOrphanTransactions.length + nEvicted' = s.mapOrphanTransactions.length + nEvicted := by
  induction fuel generalizing s nEvicted with
  | zero => omega
  | succ fuel ih =>
    unfold Orphans.limitLoop
    by_cases hlt : n < s.mapOrphanTransactions.length
    · obtain ⟨e, hpick, he⟩ := pickOrphan_mem (s := s) (rand nEvicted)
        (List.ne_nil_of_length_pos (by omega))
      have hlen := length_eraseOrphanTx h he
      obtain ⟨s', nEvicted', hloop, hinv, hle, hsum⟩ := ih (h.eraseOrphanTx e.1) (nEvicted + 1)
        (by omega)
      rw [if_pos hlt, hpick]
      exact ⟨s', nEvicted', hloop, hinv, hle, by omega⟩
    · rw [if_neg hlt]
      exact ⟨s, nEvicted, rfl, h, by omega, rfl⟩

/-! ### Runs -/

lemma Inv.apply (h : Inv s) (op : Op) : Inv (s.apply op) := by
  cases op with
  | add tx peer => exact h.addOrphanTx tx peer
  | erase hash => exact h.eraseOrphanTx hash
  | eraseFor peer => exact (h.eraseEach peer h.hash).1
  | limit n rand =>
    obtain ⟨s', nEvicted, hloop, hinv, -⟩ := h.limitLoop n rand 0 (Nat.lt_succ_self _)
    have hs' : s.apply (.limit n rand) = s' := by
      rw [Orphans.apply, limitOrphanTxSize, hloop]
      rfl
    rw [hs']
    exact hinv

lemma inv_run (ops : List Op) : Inv (ops.foldl apply initial) := by
  induction ops using List.reverseRecOn with
  | nil => exact initial_inv
  | append_singleton ops op ih =>
    rw [List.foldl_append]
    exact ih.apply op

/-- **The orphans after any calls.** The index lists exactly the stored orphans that spend a
transaction and has no empty set, no stored orphan is large, forgetting a peer leaves no orphan of
it, and the limit is reached whatever the random hashes are. -/
theorem orphans_consistent (ops : List Op) :
    let s := ops.foldl apply initial
    (∀ h set, s.mapOrphanTransactionsByPrev h = some set → set.Nonempty) ∧
    (∀ h hash, (∃ set, s.mapOrphanTransactionsByPrev h = some set ∧ hash ∈ set) ↔
      ∃ orphan, s.find hash = some orphan ∧ ∃ txin ∈ orphan.tx.vin, txin.prevout.hash = h) ∧
    (∀ e ∈ s.mapOrphanTransactions, e.2.tx.getSerializeSize ≤ 5000) ∧
    (∀ peer, ∀ e ∈ (s.eraseOrphansFor peer).mapOrphanTransactions, e.2.fromPeer ≠ peer) ∧
    ∀ nMaxOrphans rand, ∃ s' nEvicted,
      s.limitOrphanTxSize nMaxOrphans rand = some (s', nEvicted) ∧
      s'.mapOrphanTransactions.length ≤ nMaxOrphans := by
  intro s
  have h : Inv s := inv_run ops
  refine ⟨h.byPrev.nonempty, fun k hash => ?_, h.size, fun peer e he => ?_, fun n rand => ?_⟩
  · rw [h.byPrev.mem_iff k hash]
    simp only [Spends, List.mem_map]
  · exact ((h.mem_eraseOrphansFor peer).mp he).2
  · obtain ⟨s', nEvicted, hloop, -, hle, -⟩ := h.limitLoop n rand 0 (Nat.lt_succ_self _)
    exact ⟨s', nEvicted, hloop, hle⟩

end Orphans

end Agenor
