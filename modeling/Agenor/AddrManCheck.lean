import Agenor.AddrManFile

/-!
The conditions of `CAddrMan::Check_` (`addrman.cpp`) hold after every sequence of operations that
clears the address manager only when it holds nothing.

`Clear` takes the slots, the counters and the random order back, but leaves `mapInfo`, `mapAddr` and
the numbers that wait; so a manager with one address fails its check when it has been cleared.
-/

namespace Agenor.CAddrMan

variable {env : AddrEnv} {m m' : CAddrMan}

/-- What `Check_` looks at, with the numbers it returns when it is not so. That `mapAddr` has
nothing else follows for it from the sizes. -/
structure Checked (env : AddrEnv) (m : CAddrMan) : Prop where
  /-- -7 -/
  size : (m.vRandom.length : ℤ) = m.nTried + m.nNew
  /-- -1 and -2 -/
  tried : ∀ id info, m.mapInfo.lookup id = some info → info.fInTried = true →
    info.nLastSuccess ≠ 0 ∧ info.nRefCount = 0
  /-- -3 and -4 -/
  new : ∀ id info, m.mapInfo.lookup id = some info → info.fInTried = false →
    1 ≤ info.nRefCount ∧ info.nRefCount ≤ ADDRMAN_NEW_BUCKETS_PER_ADDRESS
  /-- -5 -/
  addr : ∀ a id, m.mapAddr a = some id ↔ ∃ info, m.mapInfo.lookup id = some info ∧ info.ip = a
  /-- -14 -/
  random : ∀ id, (∃ info, m.mapInfo.lookup id = some info ∧ 0 ≤ info.nRandomPos ∧
    m.vRandom[info.nRandomPos.toNat]? = some id) ↔ id ∈ m.mapInfo
  /-- -6 and -8 -/
  times : ∀ id info, m.mapInfo.lookup id = some info → 0 ≤ info.nLastTry ∧ 0 ≤ info.nLastSuccess
  /-- -9 -/
  nTried : ((m.mapInfo.keys.filter fun id => (m.infoAt id).fInTried).card : ℤ) = m.nTried
  /-- -10 -/
  nNew : ((m.mapInfo.keys.filter fun id => (m.infoAt id).fInTried = false).card : ℤ) = m.nNew
  /-- -11, -17 and -18 -/
  triedSlot : ∀ b < ADDRMAN_TRIED_BUCKET_COUNT, ∀ p < ADDRMAN_BUCKET_SIZE, m.vvTried b p ≠ -1 →
    ∃ info, m.mapInfo.lookup (m.vvTried b p) = some info ∧ info.fInTried = true ∧
      info.getTriedBucket env m.nKey = b ∧ info.getBucketPosition env m.nKey false b = p
  /-- -13 -/
  inTried : ∀ id info, m.mapInfo.lookup id = some info → info.fInTried = true →
    m.vvTried (info.getTriedBucket env m.nKey)
      (info.getBucketPosition env m.nKey false (info.getTriedBucket env m.nKey)) = id
  /-- -12 and -19 -/
  newSlot : ∀ b < ADDRMAN_NEW_BUCKET_COUNT, ∀ p < ADDRMAN_BUCKET_SIZE, m.vvNew b p ≠ -1 →
    ∃ info, m.mapInfo.lookup (m.vvNew b p) = some info ∧ info.fInTried = false ∧
      info.getBucketPosition env m.nKey true b = p
  /-- -12 and -15 -/
  refs : ∀ id info, m.mapInfo.lookup id = some info →
    info.nRefCount = ((Finset.range ADDRMAN_NEW_BUCKET_COUNT ×ˢ
      Finset.range ADDRMAN_BUCKET_SIZE).filter fun s => m.vvNew s.1 s.2 = id).card
  /-- -16 -/
  key : m.nKey ≠ 0

lemma getBucketPosition_lt (env : AddrEnv) (info : CAddrInfo) (nKey : Uint256) (fNew : Bool)
    (b : ℕ) : info.getBucketPosition env nKey fNew b < ADDRMAN_BUCKET_SIZE :=
  Nat.mod_lt _ (by decide)

lemma card_slots_eq {t : Slots} {id : ℤ} {pos : ℕ → ℕ} {nBuckets nSize : ℕ}
    (hlt : ∀ b, pos b < nSize) (hpos : ∀ b p, t b p = id → p = pos b) :
    ((Finset.range nBuckets ×ˢ Finset.range nSize).filter fun s => t s.1 s.2 = id).card =
      ((Finset.range nBuckets).filter fun b => t b (pos b) = id).card := by
  symm
  refine Finset.card_bij (fun b _ => (b, pos b)) ?_ ?_ ?_
  · intro b hb
    obtain ⟨hmem, hslot⟩ := Finset.mem_filter.mp hb
    exact Finset.mem_filter.mpr
      ⟨Finset.mem_product.mpr ⟨hmem, Finset.mem_range.mpr (hlt b)⟩, hslot⟩
  · intro b _ b' _ heq
    exact (Prod.mk.inj heq).1
  · rintro ⟨b, p⟩ hs
    obtain ⟨hmem, hslot⟩ := Finset.mem_filter.mp hs
    have hp : p = pos b := hpos b p hslot
    exact ⟨b, Finset.mem_filter.mpr ⟨(Finset.mem_product.mp hmem).1, hp ▸ hslot⟩, by rw [hp]⟩

lemma Slotted.card_slots (h : Slotted env m) {id : ℤ} {info : CAddrInfo}
    (hinfo : m.mapInfo.lookup id = some info) :
    ((Finset.range ADDRMAN_NEW_BUCKET_COUNT ×ˢ Finset.range ADDRMAN_BUCKET_SIZE).filter fun s =>
      m.vvNew s.1 s.2 = id).card = (m.newBuckets env id info).card := by
  have hid := h.nonneg hinfo
  refine card_slots_eq (getBucketPosition_lt env info m.nKey true) fun b p hslot => ?_
  obtain ⟨-, i, hi, -, hp⟩ := h.newSlot (b := b) (p := p) (by omega)
  rw [hslot, hinfo] at hi
  rw [hp, ← Option.some.inj hi]

lemma Order.length (h : Order m) : m.vRandom.length = m.mapInfo.keys.card := by
  have hnodup : m.vRandom.Nodup := by
    rw [List.nodup_iff_injective_get]
    intro i j hij
    obtain ⟨info, hinfo, hi⟩ := h.entry (List.getElem?_eq_getElem i.2)
    obtain ⟨info', hinfo', hj⟩ := h.entry (List.getElem?_eq_getElem j.2)
    have hsame : m.vRandom[i.1] = m.vRandom[j.1] := hij
    rw [hsame, hinfo'] at hinfo
    rw [← Option.some.inj hinfo, hj] at hi
    exact Fin.ext (by exact_mod_cast hi.symm)
  rw [← List.toFinset_card_of_nodup hnodup]
  congr 1
  ext id
  rw [List.mem_toFinset, Finmap.mem_keys]
  constructor
  · intro hmem
    obtain ⟨k, hk⟩ := List.mem_iff_getElem?.mp hmem
    obtain ⟨info, hinfo, -⟩ := h.entry hk
    exact Finmap.mem_of_lookup_eq_some hinfo
  · intro hmem
    obtain ⟨info, hinfo⟩ := Finmap.mem_iff.mp hmem
    obtain ⟨k, -, hk⟩ := h.pos hinfo
    exact List.mem_iff_getElem?.mpr ⟨k, hk⟩

lemma InvBut.checked (h : Inv env m) : Checked env m where
  size := by
    have hsplit : (m.idsTried true).card + (m.idsTried false).card = m.mapInfo.keys.card := by
      have hfilter := Finset.card_filter_add_card_filter_not (s := m.mapInfo.keys)
        (fun id => (m.infoAt id).fInTried = true)
      simpa [idsTried] using hfilter
    have hlen := h.tables.order.length
    obtain ⟨hc₁, hc₂⟩ := h.counted
    omega
  tried id info hinfo ht := ⟨(h.tables.timed hinfo).2.2 ht, h.tables.slotted.refs_tried hinfo ht⟩
  new id info hinfo ht := by
    have hne := h.used (Set.notMem_empty id) hinfo ht
    have hrefs := h.tables.slotted.refs hinfo
    exact ⟨by omega, h.tables.slotted.few hinfo⟩
  addr a id := by
    refine ⟨h.tables.slotted.found, ?_⟩
    rintro ⟨info, hinfo, rfl⟩
    exact h.tables.slotted.addr hinfo
  random id := by
    rw [Finmap.mem_iff]
    constructor
    · rintro ⟨info, hinfo, -⟩
      exact ⟨info, hinfo⟩
    · rintro ⟨info, hinfo⟩
      obtain ⟨k, hk, hget⟩ := h.tables.order.pos hinfo
      exact ⟨info, hinfo, by omega, by rw [hk, Int.toNat_natCast, hget]⟩
  times id info hinfo := ⟨(h.tables.timed hinfo).1, (h.tables.timed hinfo).2.1⟩
  nTried := h.counted.1
  nNew := h.counted.2
  triedSlot b _ p _ hslot := by
    obtain ⟨info, hinfo, ht, hb, hp⟩ := h.tables.slotted.triedSlot hslot
    exact ⟨info, hinfo, ht, hb.symm, hp.symm⟩
  inTried id info hinfo ht := h.tables.slotted.inTried hinfo ht
  newSlot b _ p _ hslot := by
    obtain ⟨-, info, hinfo, ht, hp⟩ := h.tables.slotted.newSlot hslot
    exact ⟨info, hinfo, ht, hp.symm⟩
  refs id info hinfo := by
    rw [h.tables.slotted.card_slots hinfo]
    exact h.tables.slotted.refs hinfo
  key := h.key

/-! ### Every sequence of operations -/

def Op.reads : Op → Bool
  | .unserialize _ _ _ => true
  | _ => false

/-- The managers that allowed operations lead to. A stream that is read has been written by such a
manager, or reading it fails. -/
inductive Reached (env : AddrEnv) (ok : CAddrMan → Op → Prop) : CAddrMan → Prop
  | new {nKey : Uint256} : ok blank (.clear nKey) → Reached env ok (new nKey)
  | step {m : CAddrMan} {op : Op} : Reached env ok m → op.reads = false → ok m op →
      Reached env ok (m.step env op)
  | load {m m' : CAddrMan} {s : List AddrToken} {nKey nKeyAfter : Uint256} : Reached env ok m →
      Reached env ok m' → m'.serialize = some s → ok m (.unserialize nKey nKeyAfter s) →
      Reached env ok (m.step env (.unserialize nKey nKeyAfter s))
  | fail {m : CAddrMan} {s : List AddrToken} {nKey nKeyAfter : Uint256} : Reached env ok m →
      (m.unserialize env nKey s).2 = false → ok m (.unserialize nKey nKeyAfter s) →
      Reached env ok (m.step env (.unserialize nKey nKeyAfter s))

/-- The manager holds nothing when it is cleared, also by a reading and after one that failed; the
times are those of a clock, and the key that is drawn is not zero. -/
def Careful (env : AddrEnv) (m : CAddrMan) : Op → Prop
  | .good _ _ nTime _ => 0 < nTime
  | .attempt _ _ nTime => 0 ≤ nTime
  | .resolveCollisions nNow _ => 0 < nNow
  | .clear nKey => m.mapInfo = ∅ ∧ nKey ≠ 0
  | .unserialize nKey nKeyAfter s => m.mapInfo = ∅ ∧ ((m.unserialize env nKey s).2 = false →
      (m.unserialize env nKey s).1.mapInfo = ∅ ∧ nKeyAfter ≠ 0)
  | _ => True

lemma bare_blank : Bare blank := ⟨rfl, rfl, fun _ => rfl, rfl⟩

lemma InvBut.step (h : Inv env m) {op : Op} (hreads : op.reads = false) (hok : Careful env m op) :
    Inv env (m.step env op) := by
  cases op with
  | add addr source nTimePenalty nNow nRnd => exact h.add addr source nTimePenalty nNow nRnd
  | good addr testBeforeEvict nTime nRnd => exact h.good addr testBeforeEvict nRnd hok
  | attempt addr fCountFailure nTime => exact h.attempt addr fCountFailure hok
  | connected addr nTime => exact h.connected addr nTime
  | setServices addr nServices => exact h.setServices addr nServices
  | resolveCollisions nNow nRnd => exact h.resolveCollisions hok nRnd
  | selectTriedCollision nRnd => exact h.selectTriedCollision nRnd
  | getAddr nNow nRnd => exact h.getAddr nNow nRnd
  | clear nKey => exact (h.bare hok.1).clear hok.2
  | unserialize nKey nKeyAfter s => cases hreads

lemma inv_of_reached (h : Reached env (Careful env) m) : Inv env m := by
  induction h with
  | new hok => exact bare_blank.clear hok.2
  | step _ hreads hok ih => exact ih.step hreads hok
  | @load m m' s nKey nKeyAfter _ _ hs hok ih ih' =>
    obtain ⟨hdone, hinv⟩ := (ih.bare hok.1).load ih' hs nKey
    rw [CAddrMan.step]
    simp only [hdone, if_true]
    exact hinv
  | fail _ hfail hok ih =>
    obtain ⟨hempty, hkey⟩ := hok.2 hfail
    rw [CAddrMan.step]
    simp only [hfail, Bool.false_eq_true, if_false]
    exact (((ih.bare hok.1).unserialize _ _ hfail).bare hempty).clear hkey

/-- **The address manager is consistent.** After any sequence of operations that clears it only when
it holds nothing, all conditions of `Check_` hold, no assertion has failed, none would fail in
`Serialize`, and there is no entry with the number -1. -/
theorem checked_of_reached (h : Reached env (Careful env) m) :
    Checked env m ∧ m.failed = false ∧ m.serialize.isSome = true ∧ -1 ∉ m.mapInfo := by
  have hinv := inv_of_reached h
  obtain ⟨s, -, -, -, hs, -⟩ := hinv.written
  refine ⟨hinv.checked, hinv.tables.ok, by rw [hs]; rfl, fun hmem => ?_⟩
  obtain ⟨info, hinfo⟩ := Finmap.mem_iff.mp hmem
  have := hinv.tables.slotted.nonneg hinfo
  omega

/-! ### A few addresses -/

namespace Concrete

/-- The slot is given by the port, all other hashes are zero, and all addresses may be used. -/
def addrEnv : AddrEnv where
  hashKey _ _ := 0
  hashGroup _ _ _ := 0
  hashGroups _ _ _ := 0
  hashPosition _ _ _ addr := addr.port
  isRoutable _ := true
  isValid _ := true

def peerAddress : CAddress := ⟨⟨[1, 2, 3, 4], 7447⟩, 1, 1600000000⟩

/-- A manager that has been told of one address. -/
def onePeer : CAddrMan := (new 1).step addrEnv (.add peerAddress [5, 6, 7, 8] 0 1600000000 0)

def secondAddress : CAddress := ⟨⟨[1, 2, 3, 5], 7448⟩, 1, 1600000000⟩

/-- It has been told of another one, and the first one has been connected to. -/
def twoPeers : CAddrMan := onePeer.step addrEnv (.add secondAddress [5, 6, 7, 8] 0 1600000000 0)

def triedPeer : CAddrMan :=
  twoPeers.step addrEnv (.good peerAddress.toCService true 1600000100 0)

lemma triedPeer_reached : Reached addrEnv (Careful addrEnv) triedPeer := by
  have hnew : Reached addrEnv (Careful addrEnv) (new 1) := .new ⟨rfl, by decide⟩
  have hone : Reached addrEnv (Careful addrEnv) onePeer := hnew.step rfl trivial
  have htwo : Reached addrEnv (Careful addrEnv) twoPeers := hone.step rfl trivial
  exact htwo.step rfl (by decide : (0 : ℤ) < 1600000100)

end Concrete

open CAddrMan.Concrete

theorem checked_with_tried_peer : Checked addrEnv triedPeer ∧ triedPeer.nNew = 1 ∧
    triedPeer.nTried = 1 :=
  ⟨(checked_of_reached triedPeer_reached).1, by decide +kernel, by decide +kernel⟩

/-- The entry is still there when the manager has been cleared, but not in the random order. -/
theorem check_fails_after_clear :
    ¬ ∀ env m, Reached env (fun _ _ => True) m → Checked env m := by
  intro h
  have hnew : Reached addrEnv (fun _ _ => True) (new 1) := .new trivial
  have hadd : Reached addrEnv (fun _ _ => True) onePeer := hnew.step rfl trivial
  have hclear : Reached addrEnv (fun _ _ => True) (onePeer.step addrEnv (.clear 2)) :=
    hadd.step rfl trivial
  have hmem : (0 : ℤ) ∈ (onePeer.step addrEnv (.clear 2)).mapInfo := by decide
  obtain ⟨info, -, -, hget⟩ := ((h _ _ hclear).random 0).mpr hmem
  simp [CAddrMan.step, clear] at hget

end Agenor.CAddrMan
