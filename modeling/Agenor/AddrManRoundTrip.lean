import Agenor.AddrManCheck

/-!
What is read back from the file of an address manager (`CAddrMan::Serialize` and `Unserialize`).

The tables are not in the file. The entries of the new table come first and then those that were
tried, each in the order of their numbers, and their place in the file is their number afterwards.
The tried slots are found again from the hashes; of the new slots only the places in the file are
written, bucket by bucket, and each is found again from a hash. While the file is read, the manager
is a copy of the written one as far as the entries and the slots have been read. At the end it is
the same with other numbers: no slot was taken, no entry had too many of them, and none is without.
-/

namespace Agenor.CAddrMan

variable {env : AddrEnv} {m m' : CAddrMan}

/-- A manager for which `Check_` finds nothing. It counts -1 as an empty slot, so that no entry has
this number. -/
structure Consistent (env : AddrEnv) (m : CAddrMan) : Prop extends Checked env m where
  noEntry : -1 ∉ m.mapInfo

lemma consistent_of_reached (h : Reached env (Careful env) m) : Consistent env m := by
  have hinv := inv_of_reached h
  refine ⟨hinv.checked, fun hmem => ?_⟩
  obtain ⟨info, hinfo⟩ := Finmap.mem_iff.mp hmem
  have := hinv.tables.slotted.nonneg hinfo
  omega

/-! ### What is reported as lost -/

/-- A pass of the loop at the end of `Unserialize`, with the number of entries that are deleted. -/
def pruneOneCounting (s : CAddrMan × ℤ) (nId : ℤ) : CAddrMan × ℤ :=
  if (s.1.infoAt nId).fInTried = false ∧ (s.1.infoAt nId).nRefCount = 0 then
    (s.1.delete nId, s.2 + 1)
  else s

def pruneCounting (m : CAddrMan) : CAddrMan × ℤ :=
  (m.idsWith fun _ => true).foldl pruneOneCounting (m, 0)

lemma pruneOneCounting_fst (s : CAddrMan × ℤ) (nId : ℤ) :
    (pruneOneCounting s nId).1 = s.1.pruneOne nId := by
  rw [pruneOneCounting, pruneOne]
  split_ifs <;> rfl

lemma foldl_pruneOneCounting_fst (ids : List ℤ) (s : CAddrMan × ℤ) :
    (ids.foldl pruneOneCounting s).1 = ids.foldl pruneOne s.1 := by
  induction ids generalizing s with
  | nil => rfl
  | cons nId ids ih => rw [List.foldl_cons, List.foldl_cons, ih, pruneOneCounting_fst]

lemma pruneCounting_fst (m : CAddrMan) : m.pruneCounting.1 = m.prune := by
  rw [pruneCounting, foldl_pruneOneCounting_fst, idsWith, List.filter_true]
  rfl

/-- `nLostUnk` and `nLost` at the end of `Unserialize`, when it comes to its end. -/
def lost (env : AddrEnv) (m : CAddrMan) (nKey : Uint256) (s : List AddrToken) : Option (ℤ × ℤ) :=
  match (m.clear nKey).readHeader s with
  | (_, none) => none
  | (m1, some (nVersion, nUBuckets, s1)) =>
    let usable := decide (nVersion = 1 ∧ nUBuckets = ADDRMAN_NEW_BUCKET_COUNT)
    match readNew env usable m1.nNew.toNat 0 m1 s1 with
    | (_, none) => none
    | (m2, some s2) =>
      match readTried env m2.nTried.toNat 0 { m2 with nIdCount := m2.nNew } s2 with
      | (_, none) => none
      | (m3, some (nLost, s3)) =>
        match readBuckets env usable nUBuckets.toNat 0
            { m3 with nTried := m3.nTried - nLost } s3 with
        | (_, none) => none
        | (m4, some _) => some (m4.pruneCounting.2, nLost)

/-! ### Copies -/

/-- The entry `nId` as it is read at place `k`, when the slots in `S` have been read. -/
def copied (m : CAddrMan) (S : Finset (ℕ × ℕ)) (nId k : ℤ) : CAddrInfo :=
  { CAddrInfo.empty.read (m.infoAt nId).record with
    nRandomPos := k
    fInTried := (m.infoAt nId).fInTried
    nRefCount := (S.filter fun s => m.vvNew s.1 s.2 = nId).card }

/-- The manager `m'` is a copy of `m`, as far as the entries `ids` and the new slots `S` go. The
number of an entry is its place. -/
structure Copied (m m' : CAddrMan) (ids : List ℤ) (S : Finset (ℕ × ℕ)) : Prop where
  nodup : ids.Nodup
  entry : ∀ {k : ℕ} {nId}, ids[k]? = some nId → m'.mapInfo.lookup (k : ℤ) = some (m.copied S nId k)
  only : ∀ {i : ℤ} {info}, m'.mapInfo.lookup i = some info → ∃ k : ℕ, i = k ∧ k < ids.length
  addr : ∀ {k : ℕ} {nId}, ids[k]? = some nId → m'.mapAddr (m.infoAt nId).ip = some (k : ℤ)
  noAddr : ∀ {a}, (∀ nId ∈ ids, (m.infoAt nId).ip ≠ a) → m'.mapAddr a = none
  vRandom : m'.vRandom = (List.range ids.length).map Nat.cast
  tried : ∀ b p, m'.vvTried b p = if b < ADDRMAN_TRIED_BUCKET_COUNT ∧ p < ADDRMAN_BUCKET_SIZE ∧
    m.vvTried b p ∈ ids then (ids.idxOf (m.vvTried b p) : ℤ) else -1
  new : ∀ b p, m'.vvNew b p = if (b, p) ∈ S then (ids.idxOf (m.vvNew b p) : ℤ) else -1
  nKey : m'.nKey = m.nKey
  nNew : m'.nNew = m.nNew
  nTried : m'.nTried = m.nTried
  ok : m'.failed = false

section

variable {ids : List ℤ} {S : Finset (ℕ × ℕ)} {nId : ℤ} {info : CAddrInfo}

lemma Copied.lookup_length (h : Copied m m' ids S) : m'.mapInfo.lookup (ids.length : ℤ) = none := by
  cases hi : m'.mapInfo.lookup (ids.length : ℤ) with
  | none => rfl
  | some info =>
    obtain ⟨k, hk, hlt⟩ := h.only hi
    omega

lemma Copied.new_of_mem (h : Copied m m' ids S) {b p : ℕ} (hmem : (b, p) ∈ S) :
    m'.vvNew b p = ids.idxOf (m.vvNew b p) := by
  rw [h.new, if_pos hmem]

lemma Copied.new_of_notMem (h : Copied m m' ids S) {b p : ℕ} (hmem : (b, p) ∉ S) :
    m'.vvNew b p = -1 := by
  rw [h.new, if_neg hmem]

lemma Checked.ip_ne (h : Checked env m) {nId' : ℤ} {info' : CAddrInfo}
    (hinfo : m.mapInfo.lookup nId = some info) (hinfo' : m.mapInfo.lookup nId' = some info')
    (hne : nId ≠ nId') : info.ip ≠ info'.ip := by
  intro hip
  have haddr := (h.addr info'.ip nId).mpr ⟨info, hinfo, hip⟩
  have haddr' := (h.addr info'.ip nId').mpr ⟨info', hinfo', rfl⟩
  rw [haddr] at haddr'
  exact hne (Option.some.inj haddr')

lemma Copied.snoc (h : Copied m m' ids ∅) {m'' : CAddrMan} (hnId : nId ∉ ids)
    (hip : ∀ nId' ∈ ids, (m.infoAt nId').ip ≠ (m.infoAt nId).ip)
    (hmapInfo : ∀ i, m''.mapInfo.lookup i =
      if i = ids.length then some (m.copied ∅ nId ids.length) else m'.mapInfo.lookup i)
    (hmapAddr : m''.mapAddr = Function.update m'.mapAddr (m.infoAt nId).ip (some (ids.length : ℤ)))
    (hvRandom : m''.vRandom = m'.vRandom ++ [(ids.length : ℤ)])
    (htried : ∀ b p, m''.vvTried b p = if b < ADDRMAN_TRIED_BUCKET_COUNT ∧ p < ADDRMAN_BUCKET_SIZE ∧
      m.vvTried b p = nId then (ids.length : ℤ) else m'.vvTried b p)
    (hvvNew : m''.vvNew = m'.vvNew) (hnKey : m''.nKey = m'.nKey) (hnNew : m''.nNew = m'.nNew)
    (hnTried : m''.nTried = m'.nTried) (hok : m''.failed = m'.failed) :
    Copied m m'' (ids ++ [nId]) ∅ where
  nodup := by
    rw [List.nodup_append]
    refine ⟨h.nodup, List.nodup_singleton nId, fun a ha b hb hab => ?_⟩
    rw [List.mem_singleton] at hb
    exact hnId (hb ▸ hab ▸ ha)
  entry {k nId'} hk := by
    rw [hmapInfo]
    rcases getElem?_snoc hk with ⟨hlt, hk⟩ | ⟨rfl, rfl⟩
    · rw [if_neg (by omega)]
      exact h.entry hk
    · rw [if_pos rfl]
  only {i info} hi := by
    rw [hmapInfo] at hi
    rw [List.length_append, List.length_singleton]
    split_ifs at hi with heq
    · exact ⟨ids.length, heq, Nat.lt_succ_self _⟩
    · obtain ⟨k, hk, hlt⟩ := h.only hi
      exact ⟨k, hk, Nat.lt_succ_of_lt hlt⟩
  addr {k nId'} hk := by
    rw [hmapAddr]
    rcases getElem?_snoc hk with ⟨-, hk⟩ | ⟨rfl, rfl⟩
    · rw [Function.update_of_ne (hip nId' (List.mem_of_getElem? hk))]
      exact h.addr hk
    · exact Function.update_self ..
  noAddr {a} ha := by
    rw [hmapAddr, Function.update_of_ne (ha nId (by simp)).symm]
    exact h.noAddr fun nId' hnId' => ha nId' (List.mem_append_left _ hnId')
  vRandom := by
    rw [hvRandom, h.vRandom, List.length_append, List.length_singleton, List.range_succ,
      List.map_append, List.map_singleton]
  tried b p := by
    rw [htried, h.tried]
    by_cases heq : m.vvTried b p = nId
    · by_cases hrange : b < ADDRMAN_TRIED_BUCKET_COUNT ∧ p < ADDRMAN_BUCKET_SIZE
      · rw [if_pos ⟨hrange.1, hrange.2, heq⟩, if_pos ⟨hrange.1, hrange.2, by simp [heq]⟩, heq,
          List.idxOf_append_of_notMem hnId]
        simp
      · rw [if_neg fun hc => hrange ⟨hc.1, hc.2.1⟩, if_neg fun hc => hrange ⟨hc.1, hc.2.1⟩,
          if_neg fun hc => hrange ⟨hc.1, hc.2.1⟩]
    · rw [if_neg fun hc => heq hc.2.2]
      by_cases hmem : m.vvTried b p ∈ ids
      · rw [List.idxOf_append_of_mem hmem]
        simp [hmem]
      · simp [hmem, heq]
  new b p := by
    rw [hvvNew, h.new, if_neg (Finset.notMem_empty _), if_neg (Finset.notMem_empty _)]
  nKey := hnKey.trans h.nKey
  nNew := hnNew.trans h.nNew
  nTried := hnTried.trans h.nTried
  ok := hok.trans h.ok

/-! ### The entries -/

lemma infoAt_record (hinfo : m.mapInfo.lookup nId = some info) :
    (m.infoAt nId).record = info.record := by
  rw [infoAt_of_lookup hinfo]

lemma Copied.readOneNew (h : Copied m m' ids ∅) (hc : Checked env m) (hnId : nId ∉ ids)
    (hids : ∀ nId' ∈ ids, ∃ info', m.mapInfo.lookup nId' = some info')
    (hinfo : m.mapInfo.lookup nId = some info) (hnew : info.fInTried = false) (hne : nId ≠ -1) :
    Copied m (m'.readOneNew env true ids.length (m.infoAt nId).record) (ids ++ [nId]) ∅ := by
  rw [readOneNew_eq h.lookup_length]
  refine h.snoc hnId ?_ ?_ rfl rfl ?_ rfl rfl rfl rfl rfl
  · intro nId' hnId' hip
    obtain ⟨info', hinfo'⟩ := hids nId' hnId'
    rw [infoAt_of_lookup hinfo, infoAt_of_lookup hinfo'] at hip
    exact hc.ip_ne hinfo' hinfo (fun heq => hnId (heq ▸ hnId')) hip
  · intro i
    rw [lookup_append]
    have hpos : (m'.vRandom.length : ℤ) = ids.length := by
      rw [h.vRandom, List.length_map, List.length_range]
    rw [hpos, copied, infoAt_of_lookup hinfo, hnew]
    rfl
  · intro b p
    rw [if_neg]
    · rfl
    rintro ⟨hb, hp, hslot⟩
    obtain ⟨i, hi, ht, -⟩ := hc.triedSlot b hb p hp (by rw [hslot]; exact hne)
    rw [hslot, hinfo] at hi
    rw [← Option.some.inj hi, hnew] at ht
    cases ht

lemma Copied.readOneTried (h : Copied m m' ids ∅) (hc : Checked env m) (hnId : nId ∉ ids)
    (hids : ∀ nId' ∈ ids, ∃ info', m.mapInfo.lookup nId' = some info')
    (hinfo : m.mapInfo.lookup nId = some info) (htried : info.fInTried = true) (hne : nId ≠ -1)
    (hcount : m'.nIdCount = ids.length) (nLost : ℤ) :
    ∃ m'', m'.readOneTried env nLost (m.infoAt nId).record = (m'', nLost) ∧
      Copied m m'' (ids ++ [nId]) ∅ ∧ m''.nIdCount = (ids ++ [nId]).length := by
  have hslot : m.vvTried (info.getTriedBucket env m.nKey)
      (info.getBucketPosition env m.nKey false (info.getTriedBucket env m.nKey)) = nId :=
    hc.inTried nId info hinfo htried
  have hfree : m'.triedSlot env (CAddrInfo.empty.read (m.infoAt nId).record) = -1 := by
    have hsame : m'.triedSlot env (CAddrInfo.empty.read info.record) =
        m'.vvTried (info.getTriedBucket env m'.nKey)
          (info.getBucketPosition env m'.nKey false (info.getTriedBucket env m'.nKey)) := rfl
    rw [infoAt_record hinfo, hsame, h.tried, h.nKey, hslot, if_neg fun hmem => hnId hmem.2.2]
  refine ⟨_, readOneTried_eq hfree nLost, ?_, ?_⟩
  · refine h.snoc hnId ?_ ?_ ?_ ?_ ?_ rfl rfl rfl rfl rfl
    · intro nId' hnId' hip
      obtain ⟨info', hinfo'⟩ := hids nId' hnId'
      rw [infoAt_of_lookup hinfo, infoAt_of_lookup hinfo'] at hip
      exact hc.ip_ne hinfo' hinfo (fun heq => hnId (heq ▸ hnId')) hip
    · intro i
      refine (lookup_put i).trans ?_
      have hpos : (m'.vRandom.length : ℤ) = ids.length := by
        rw [h.vRandom, List.length_map, List.length_range]
      rw [hcount, hpos]
      by_cases hi : i = ids.length
      · rw [if_pos hi, if_pos hi, copied, infoAt_of_lookup hinfo, htried]
        rfl
      · rw [if_neg hi, if_neg hi, lookup_append, if_neg hi]
    · change Function.update m'.mapAddr (m.infoAt nId).ip (some m'.nIdCount) = _
      rw [hcount]
    · change m'.vRandom ++ [m'.nIdCount] = _
      rw [hcount]
    · intro b p
      change m'.vvTried.set ((m.infoAt nId).getTriedBucket env m'.nKey)
        ((m.infoAt nId).getBucketPosition env m'.nKey false
          ((m.infoAt nId).getTriedBucket env m'.nKey)) m'.nIdCount b p = _
      rw [infoAt_of_lookup hinfo, hcount, h.nKey, Slots.set]
      have hat : (b < ADDRMAN_TRIED_BUCKET_COUNT ∧ p < ADDRMAN_BUCKET_SIZE ∧
          m.vvTried b p = nId) ↔ b = info.getTriedBucket env m.nKey ∧
            p = info.getBucketPosition env m.nKey false (info.getTriedBucket env m.nKey) := by
        constructor
        · rintro ⟨hb, hp, hin⟩
          obtain ⟨i, hi, -, hbi, hpi⟩ := hc.triedSlot b hb p hp (by rw [hin]; exact hne)
          rw [hin, hinfo] at hi
          obtain rfl := Option.some.inj hi
          exact ⟨hbi.symm, by rw [hbi, hpi]⟩
        · rintro ⟨rfl, rfl⟩
          exact ⟨Nat.mod_lt _ (by decide), Nat.mod_lt _ (by decide), hslot⟩
      exact if_congr hat.symm rfl rfl
  · simp [hcount]

lemma Copied.readNew (h : Copied m m' ids ∅) (hc : Consistent env m) (l : List ℤ)
    (hnodup : (ids ++ l).Nodup) (hids : ∀ id ∈ ids, ∃ info, m.mapInfo.lookup id = some info)
    (hl : ∀ id ∈ l, ∃ info, m.mapInfo.lookup id = some info ∧ info.fInTried = false)
    (s : List AddrToken) :
    ∃ m'', readNew env true l.length ids.length m'
        (recordTokens (l.map fun id => (m.infoAt id).record) ++ s) = (m'', some s) ∧
      Copied m m'' (ids ++ l) ∅ := by
  induction l generalizing m' ids with
  | nil => exact ⟨m', rfl, by rwa [List.append_nil]⟩
  | cons id l ih =>
    obtain ⟨info, hinfo, hnew⟩ := hl id (by simp)
    have hnot : id ∉ ids := fun hmem =>
      (List.nodup_append.mp hnodup).2.2 id hmem id (by simp) rfl
    have hne : id ≠ -1 := fun heq => hc.noEntry (heq ▸ Finmap.mem_of_lookup_eq_some hinfo)
    have hone := h.readOneNew hc.toChecked hnot hids hinfo hnew hne
    rw [List.append_cons] at hnodup
    obtain ⟨m'', hread, hcopied⟩ := ih hone hnodup
      (fun id' hid' => by
        rcases List.mem_append.mp hid' with hmem | hmem
        · exact hids id' hmem
        · exact ⟨info, by rwa [List.mem_singleton.mp hmem]⟩)
      fun id' hid' => hl id' (List.mem_cons_of_mem _ hid')
    refine ⟨m'', ?_, by rwa [List.append_cons]⟩
    rw [List.length_append, List.length_singleton, Nat.cast_add, Nat.cast_one] at hread
    exact hread

lemma Copied.readTried (h : Copied m m' ids ∅) (hc : Consistent env m) (l : List ℤ)
    (hnodup : (ids ++ l).Nodup) (hids : ∀ id ∈ ids, ∃ info, m.mapInfo.lookup id = some info)
    (hl : ∀ id ∈ l, ∃ info, m.mapInfo.lookup id = some info ∧ info.fInTried = true)
    (hcount : m'.nIdCount = ids.length) (s : List AddrToken) :
    ∃ m'', readTried env l.length 0 m'
        (recordTokens (l.map fun id => (m.infoAt id).record) ++ s) = (m'', some (0, s)) ∧
      Copied m m'' (ids ++ l) ∅ := by
  induction l generalizing m' ids with
  | nil => exact ⟨m', rfl, by rwa [List.append_nil]⟩
  | cons id l ih =>
    obtain ⟨info, hinfo, htried⟩ := hl id (by simp)
    have hnot : id ∉ ids := fun hmem =>
      (List.nodup_append.mp hnodup).2.2 id hmem id (by simp) rfl
    have hne : id ≠ -1 := fun heq => hc.noEntry (heq ▸ Finmap.mem_of_lookup_eq_some hinfo)
    obtain ⟨m₁, hone, hcopied₁, hcount₁⟩ :=
      h.readOneTried hc.toChecked hnot hids hinfo htried hne hcount 0
    rw [List.append_cons] at hnodup
    obtain ⟨m'', hread, hcopied⟩ := ih hcopied₁ hnodup
      (fun id' hid' => by
        rcases List.mem_append.mp hid' with hmem | hmem
        · exact hids id' hmem
        · exact ⟨info, by rwa [List.mem_singleton.mp hmem]⟩)
      (fun id' hid' => hl id' (List.mem_cons_of_mem _ hid')) hcount₁
    refine ⟨m'', ?_, by rwa [List.append_cons]⟩
    change CAddrMan.readTried env l.length (m'.readOneTried env 0 (m.infoAt id).record).2
      (m'.readOneTried env 0 (m.infoAt id).record).1 _ = _
    rw [hone]
    exact hread

/-! ### The slots -/

lemma copied_insert {b p : ℕ} (hnot : (b, p) ∉ S) (k : ℤ) :
    { m.copied S (m.vvNew b p) k with
      nRefCount := (m.copied S (m.vvNew b p) k).nRefCount + 1 } =
    m.copied (insert (b, p) S) (m.vvNew b p) k := by
  have hcard : ((insert (b, p) S).filter fun s => m.vvNew s.1 s.2 = m.vvNew b p).card =
      (S.filter fun s => m.vvNew s.1 s.2 = m.vvNew b p).card + 1 := by
    rw [Finset.filter_insert, if_pos rfl, Finset.card_insert_of_notMem]
    exact fun hmem => hnot (Finset.mem_filter.mp hmem).1
  simp only [copied, hcard, Nat.cast_add, Nat.cast_one]

lemma copied_insert_of_ne {b p : ℕ} (hne : m.vvNew b p ≠ nId) (k : ℤ) :
    m.copied (insert (b, p) S) nId k = m.copied S nId k := by
  simp only [copied, Finset.filter_insert, if_neg hne]

lemma Checked.few (hc : Checked env m) {b p : ℕ}
    (hS : S ⊆ Finset.range ADDRMAN_NEW_BUCKET_COUNT ×ˢ Finset.range ADDRMAN_BUCKET_SIZE)
    (hb : b < ADDRMAN_NEW_BUCKET_COUNT) (hp : p < ADDRMAN_BUCKET_SIZE) (hnot : (b, p) ∉ S)
    (hslot : m.vvNew b p ≠ -1) (k : ℤ) :
    (m.copied S (m.vvNew b p) k).nRefCount < ADDRMAN_NEW_BUCKETS_PER_ADDRESS := by
  obtain ⟨info, hinfo, hnew, -⟩ := hc.newSlot b hb p hp hslot
  have hsub : insert (b, p) S ⊆
      Finset.range ADDRMAN_NEW_BUCKET_COUNT ×ˢ Finset.range ADDRMAN_BUCKET_SIZE := by
    rw [Finset.insert_subset_iff, Finset.mem_product, Finset.mem_range, Finset.mem_range]
    exact ⟨⟨hb, hp⟩, hS⟩
  calc (m.copied S (m.vvNew b p) k).nRefCount
      < (m.copied S (m.vvNew b p) k).nRefCount + 1 := lt_add_one _
    _ = (m.copied (insert (b, p) S) (m.vvNew b p) k).nRefCount := by rw [← copied_insert hnot]
    _ ≤ info.nRefCount := by
        rw [hc.refs _ info hinfo]
        exact Int.ofNat_le.mpr (Finset.card_le_card (Finset.filter_subset_filter _ hsub))
    _ ≤ ADDRMAN_NEW_BUCKETS_PER_ADDRESS := (hc.new _ info hinfo hnew).2

lemma Copied.readIndex (h : Copied m m' ids S) (hc : Checked env m)
    (hS : S ⊆ Finset.range ADDRMAN_NEW_BUCKET_COUNT ×ˢ Finset.range ADDRMAN_BUCKET_SIZE) {b p : ℕ}
    (hb : b < ADDRMAN_NEW_BUCKET_COUNT) (hp : p < ADDRMAN_BUCKET_SIZE) (hnot : (b, p) ∉ S)
    (hslot : m.vvNew b p ≠ -1) {k : ℕ} (hk : ids[k]? = some (m.vvNew b p))
    (hlt : (k : ℤ) < m.nNew) :
    Copied m (m'.readIndex env true b k) ids (insert (b, p) S) := by
  obtain ⟨info, hinfo, -, hpos⟩ := hc.newSlot b hb p hp hslot
  have hlook := h.entry hk
  have hplace : (m.copied S (m.vvNew b p) k).getBucketPosition env m'.nKey true b = p := by
    rw [copied, infoAt_of_lookup hinfo, h.nKey]
    exact hpos
  have hfree : m'.vvNew b p = -1 := h.new_of_notMem hnot
  have heq : m'.readIndex env true b k =
      m'.refer k ((m.copied S (m.vvNew b p) k).nRefCount + 1) b p := by
    rw [CAddrMan.readIndex, if_pos ⟨Int.natCast_nonneg k, by rwa [h.nNew]⟩]
    simp only [touch_of_lookup hlook, infoAt_of_lookup hlook, hplace]
    rw [if_pos ⟨trivial, hfree, hc.few hS hb hp hnot hslot k⟩]
  have hidx : ids.idxOf (m.vvNew b p) = k := by
    obtain ⟨hlen, hget⟩ := List.getElem?_eq_some_iff.mp hk
    rw [← hget]
    exact h.nodup.idxOf_getElem k hlen
  have hmap : ∀ i, (m'.refer k ((m.copied S (m.vvNew b p) k).nRefCount + 1) b p).mapInfo.lookup i =
      if i = k then some (m.copied (insert (b, p) S) (m.vvNew b p) k) else m'.mapInfo.lookup i := by
    intro i
    rw [lookup_refer hlook, copied_insert hnot]
  rw [heq]
  refine ⟨h.nodup, fun {k' nId} hk' => ?_, fun {i info'} hi => ?_, h.addr, h.noAddr, h.vRandom,
    h.tried, fun b' p' => ?_, h.nKey, h.nNew, h.nTried, h.ok⟩
  · rw [hmap]
    by_cases hkk : k' = k
    · subst hkk
      rw [hk] at hk'
      rw [if_pos rfl, Option.some.inj hk']
    · have hne : m.vvNew b p ≠ nId := by
        rintro rfl
        refine hkk ((List.getElem?_inj ?_ h.nodup).mp (hk'.trans hk.symm))
        exact (List.getElem?_eq_some_iff.mp hk').1
      rw [if_neg (by exact_mod_cast hkk), copied_insert_of_ne hne]
      exact h.entry hk'
  · rw [hmap] at hi
    split_ifs at hi with hik
    · exact ⟨k, hik, (List.getElem?_eq_some_iff.mp hk).1⟩
    · exact h.only hi
  · change m'.vvNew.set b p k b' p' = _
    rw [Slots.set, h.new]
    by_cases hbp : b' = b ∧ p' = p
    · obtain ⟨rfl, rfl⟩ := hbp
      rw [if_pos ⟨rfl, rfl⟩, if_pos (Finset.mem_insert_self _ _), hidx]
    · have hmem : (b', p') ∈ insert (b, p) S ↔ (b', p') ∈ S := by
        rw [Finset.mem_insert, Prod.mk.injEq]
        exact or_iff_right hbp
      rw [if_neg hbp]
      exact if_congr hmem.symm rfl rfl

/-- The index that is written for an entry of the new table is its place. -/
def Placed (m : CAddrMan) (ids : List ℤ) : Prop :=
  ∀ nId info, m.mapInfo.lookup nId = some info → info.fInTried = false →
    ∃ k : ℕ, m.unkId nId = k ∧ ids[k]? = some nId ∧ (k : ℤ) < m.nNew

lemma Copied.readBucket (h : Copied m m' ids S) (hc : Checked env m) (hplaced : m.Placed ids)
    (hS : S ⊆ Finset.range ADDRMAN_NEW_BUCKET_COUNT ×ˢ Finset.range ADDRMAN_BUCKET_SIZE) {b : ℕ}
    (hb : b < ADDRMAN_NEW_BUCKET_COUNT) (ps : List ℕ) (hps : ps.Nodup)
    (hslots : ∀ p ∈ ps, p < ADDRMAN_BUCKET_SIZE ∧ m.vvNew b p ≠ -1 ∧ (b, p) ∉ S)
    (s : List AddrToken) :
    ∃ m'', readBucket env true b ps.length m'
        (ps.map (fun p => .int (m.unkId (m.vvNew b p))) ++ s) = (m'', some s) ∧
      Copied m m'' ids (S ∪ ps.toFinset.image (b, ·)) := by
  induction ps generalizing m' S with
  | nil => exact ⟨m', rfl, by simpa using h⟩
  | cons p ps ih =>
    obtain ⟨hnot, hps'⟩ := List.nodup_cons.mp hps
    obtain ⟨hp, hslot, hfresh⟩ := hslots p (by simp)
    obtain ⟨info, hinfo, hnew, -⟩ := hc.newSlot b hb p hp hslot
    obtain ⟨k, hunk, hk, hlt⟩ := hplaced _ info hinfo hnew
    have hone := h.readIndex hc hS hb hp hfresh hslot hk hlt
    have hS' : insert (b, p) S ⊆
        Finset.range ADDRMAN_NEW_BUCKET_COUNT ×ˢ Finset.range ADDRMAN_BUCKET_SIZE := by
      rw [Finset.insert_subset_iff, Finset.mem_product, Finset.mem_range, Finset.mem_range]
      exact ⟨⟨hb, hp⟩, hS⟩
    obtain ⟨m'', hread, hcopied⟩ := ih hone hS' hps' fun p' hp' => by
      obtain ⟨hp'lt, hslot', hfresh'⟩ := hslots p' (List.mem_cons_of_mem _ hp')
      refine ⟨hp'lt, hslot', fun hmem => ?_⟩
      rcases Finset.mem_insert.mp hmem with heq | hmem
      · exact hnot ((Prod.mk.inj heq).2 ▸ hp')
      · exact hfresh' hmem
    refine ⟨m'', ?_, ?_⟩
    · change CAddrMan.readBucket env true b ps.length (m'.readIndex env true b (m.unkId _)) _ = _
      rw [hunk]
      exact hread
    · rw [List.toFinset_cons, Finset.image_insert, Finset.union_insert, ← Finset.insert_union]
      exact hcopied

/-- The slots of the first buckets that are not empty. -/
def slotsBelow (m : CAddrMan) (n : ℕ) : Finset (ℕ × ℕ) :=
  (Finset.range n ×ˢ Finset.range ADDRMAN_BUCKET_SIZE).filter fun s => m.vvNew s.1 s.2 ≠ -1

lemma mem_slotsBelow {n b p : ℕ} : (b, p) ∈ m.slotsBelow n ↔
    (b < n ∧ p < ADDRMAN_BUCKET_SIZE) ∧ m.vvNew b p ≠ -1 := by
  rw [slotsBelow, Finset.mem_filter, Finset.mem_product, Finset.mem_range, Finset.mem_range]

/-- The places in a bucket that are not empty. -/
def placesIn (m : CAddrMan) (b : ℕ) : List ℕ :=
  (List.range ADDRMAN_BUCKET_SIZE).filter fun p => m.vvNew b p != -1

lemma mem_placesIn {b p : ℕ} :
    p ∈ m.placesIn b ↔ p < ADDRMAN_BUCKET_SIZE ∧ m.vvNew b p ≠ -1 := by
  rw [placesIn, List.mem_filter, List.mem_range, bne_iff_ne]

lemma bucketTokens_eq (m : CAddrMan) (b : ℕ) : m.bucketTokens b =
    .int (m.placesIn b).length :: (m.placesIn b).map fun p => .int (m.unkId (m.vvNew b p)) := by
  rw [bucketTokens, List.filter_map, List.length_map, List.map_map]
  rfl

lemma slotsBelow_succ (m : CAddrMan) (b : ℕ) :
    m.slotsBelow (b + 1) = m.slotsBelow b ∪ (m.placesIn b).toFinset.image (b, ·) := by
  ext ⟨b', p⟩
  rw [Finset.mem_union, mem_slotsBelow, mem_slotsBelow, Finset.mem_image]
  constructor
  · rintro ⟨⟨hb, hp⟩, hslot⟩
    rcases Nat.lt_succ_iff_lt_or_eq.mp hb with hlt | rfl
    · exact .inl ⟨⟨hlt, hp⟩, hslot⟩
    · exact .inr ⟨p, List.mem_toFinset.mpr (mem_placesIn.mpr ⟨hp, hslot⟩), rfl⟩
  · rintro (⟨⟨hb, hp⟩, hslot⟩ | ⟨p', hp', heq⟩)
    · exact ⟨⟨Nat.lt_succ_of_lt hb, hp⟩, hslot⟩
    · obtain ⟨rfl, rfl⟩ := Prod.mk.inj heq
      obtain ⟨hp, hslot⟩ := mem_placesIn.mp (List.mem_toFinset.mp hp')
      exact ⟨⟨Nat.lt_succ_self _, hp⟩, hslot⟩

lemma slotsBelow_subset {n : ℕ} (hn : n ≤ ADDRMAN_NEW_BUCKET_COUNT) : m.slotsBelow n ⊆
    Finset.range ADDRMAN_NEW_BUCKET_COUNT ×ˢ Finset.range ADDRMAN_BUCKET_SIZE :=
  (Finset.filter_subset _ _).trans
    (Finset.product_subset_product_left (Finset.range_subset_range.mpr hn))

lemma Copied.readBuckets (hc : Checked env m) (hplaced : m.Placed ids) (n b : ℕ)
    (hbn : b + n ≤ ADDRMAN_NEW_BUCKET_COUNT) (h : Copied m m' ids (m.slotsBelow b)) :
    ∃ m'', readBuckets env true n b m' ((List.range' b n).flatMap m.bucketTokens) =
        (m'', some []) ∧ Copied m m'' ids (m.slotsBelow (b + n)) := by
  induction n generalizing b m' with
  | zero => exact ⟨m', rfl, h⟩
  | succ n ih =>
    obtain ⟨m₁, hread₁, hcopied₁⟩ := h.readBucket hc hplaced (slotsBelow_subset (by omega))
      (b := b) (by omega) (m.placesIn b) (List.nodup_range.filter _)
      (fun p hp => by
        obtain ⟨hlt, hslot⟩ := mem_placesIn.mp hp
        exact ⟨hlt, hslot, fun hmem => absurd (mem_slotsBelow.mp hmem).1.1 (lt_irrefl b)⟩)
      ((List.range' (b + 1) n).flatMap m.bucketTokens)
    rw [← slotsBelow_succ] at hcopied₁
    obtain ⟨m₂, hread₂, hcopied₂⟩ := ih (b + 1) (by omega) hcopied₁
    refine ⟨m₂, ?_, by rwa [Nat.add_right_comm, Nat.add_assoc] at hcopied₂⟩
    rw [List.range'_succ, List.flatMap_cons, bucketTokens_eq, List.cons_append,
      CAddrMan.readBuckets, Int.toNat_natCast, hread₁]
    exact hread₂

end

/-! ### The order in the file -/

lemma length_filter_lt_eq_idxOf {l : List ℤ} (hl : l.Pairwise (· < ·)) {x : ℤ} (hx : x ∈ l) :
    (l.filter fun y => decide (y < x)).length = l.idxOf x := by
  induction l with
  | nil => cases hx
  | cons y l ih =>
    obtain ⟨hhead, htail⟩ := List.pairwise_cons.mp hl
    by_cases hxy : y = x
    · subst hxy
      have hnone : l.filter (fun z => decide (z < y)) = [] := by
        rw [List.filter_eq_nil_iff]
        intro z hz
        simpa using (hhead z hz).le
      rw [List.filter_cons_of_neg (by simp), hnone, List.idxOf_cons_self, List.length_nil]
    · have hmem : x ∈ l := List.mem_of_ne_of_mem (Ne.symm hxy) hx
      rw [List.filter_cons_of_pos (by simpa using hhead x hmem), List.length_cons, ih htail hmem,
        List.idxOf_cons_ne l hxy]

/-- The numbers of the entries, in the order in which these are written. -/
def fileOrder (m : CAddrMan) : List ℤ :=
  (m.idsWith fun info => info.nRefCount != 0) ++ m.idsWith fun info => info.fInTried

section

variable {nId : ℤ} {info : CAddrInfo}

lemma Checked.refs_iff (hc : Checked env m) (hinfo : m.mapInfo.lookup nId = some info) :
    (info.nRefCount != 0) = true ↔ info.fInTried = false := by
  rw [bne_iff_ne]
  constructor
  · intro hrefs
    by_contra ht
    exact hrefs (hc.tried nId info hinfo (by simpa using ht)).2
  · intro ht
    have := (hc.new nId info hinfo ht).1
    omega

lemma Checked.mem_fileOrder (hc : Checked env m) : nId ∈ m.fileOrder ↔ nId ∈ m.mapInfo := by
  rw [fileOrder, List.mem_append, mem_idsWith, mem_idsWith, Finmap.mem_iff]
  constructor
  · rintro (⟨info, hinfo, -⟩ | ⟨info, hinfo, -⟩)
    · exact ⟨info, hinfo⟩
    · exact ⟨info, hinfo⟩
  · rintro ⟨info, hinfo⟩
    cases ht : info.fInTried with
    | false => exact .inl ⟨info, hinfo, (hc.refs_iff hinfo).mpr ht⟩
    | true => exact .inr ⟨info, hinfo, ht⟩

lemma Checked.nodup_fileOrder (hc : Checked env m) : m.fileOrder.Nodup := by
  refine List.Nodup.append (nodup_idsWith _) (nodup_idsWith _) fun id hnew htried => ?_
  obtain ⟨i, hi, hrefs⟩ := mem_idsWith.mp hnew
  obtain ⟨j, hj, ht⟩ := mem_idsWith.mp htried
  rw [hi] at hj
  rw [← Option.some.inj hj, (hc.refs_iff hi).mp hrefs] at ht
  cases ht

lemma Checked.length_new (hc : Checked env m) :
    ((m.idsWith fun info => info.nRefCount != 0).length : ℤ) = m.nNew := by
  rw [length_idsWith hc.refs_iff]
  exact hc.nNew

lemma Checked.length_tried (hc : Checked env m) :
    ((m.idsWith fun info => info.fInTried).length : ℤ) = m.nTried := by
  rw [length_idsWith (t := true) fun _ => Iff.rfl]
  exact hc.nTried

lemma Checked.placed (hc : Checked env m) : m.Placed m.fileOrder := by
  intro nId info hinfo hnew
  have hmem : nId ∈ m.idsWith fun info => info.nRefCount != 0 :=
    mem_idsWith.mpr ⟨info, hinfo, (hc.refs_iff hinfo).mpr hnew⟩
  have hlt := List.idxOf_lt_length_of_mem hmem
  have hsorted : (m.idsWith fun info => info.nRefCount != 0).Pairwise (· < ·) :=
    List.Pairwise.filter _ (Finset.sortedLT_sort _).pairwise
  refine ⟨(m.idsWith fun info => info.nRefCount != 0).idxOf nId, ?_, ?_, ?_⟩
  · rw [unkId, if_pos (Finmap.mem_of_lookup_eq_some hinfo), length_filter_lt_eq_idxOf hsorted hmem]
  · rw [fileOrder, List.getElem?_append_left hlt]
    exact List.getElem?_idxOf hmem
  · rw [← hc.length_new]
    exact Int.ofNat_lt.mpr hlt

lemma Checked.serialize_eq (hc : Checked env m) : m.serialize = some m.tokens := by
  rw [serialize]
  simp only [any_range_eq_false hc.length_new, any_range_eq_false hc.length_tried, Bool.or_false,
    Bool.false_eq_true, if_false]

/-! ### What is read at the end -/

lemma pruneCounting_eq (h : ∀ nId info, m.mapInfo.lookup nId = some info →
    ¬ (info.fInTried = false ∧ info.nRefCount = 0)) : m.pruneCounting = (m, 0) := by
  have hmem : ∀ nId ∈ m.idsWith fun _ => true, ∃ info, m.mapInfo.lookup nId = some info := by
    intro nId hnId
    obtain ⟨info, hinfo, -⟩ := mem_idsWith.mp hnId
    exact ⟨info, hinfo⟩
  rw [pruneCounting]
  revert hmem
  generalize (m.idsWith fun _ => true) = ids
  intro hmem
  induction ids with
  | nil => rfl
  | cons nId ids ih =>
    obtain ⟨info, hinfo⟩ := hmem nId (by simp)
    have hkept : pruneOneCounting (m, 0) nId = (m, 0) := by
      rw [pruneOneCounting, if_neg]
      rw [infoAt_of_lookup hinfo]
      exact h nId info hinfo
    rw [List.foldl_cons, hkept]
    exact ih fun id hid => hmem id (List.mem_cons_of_mem _ hid)

lemma Checked.copied_refs (hc : Checked env m) (hinfo : m.mapInfo.lookup nId = some info)
    (hne : nId ≠ -1) (k : ℤ) :
    (m.copied (m.slotsBelow ADDRMAN_NEW_BUCKET_COUNT) nId k).nRefCount = info.nRefCount := by
  have hboth : ∀ T : Finset (ℕ × ℕ),
      ((T.filter fun s => m.vvNew s.1 s.2 ≠ -1).filter fun s => m.vvNew s.1 s.2 = nId) =
        T.filter fun s => m.vvNew s.1 s.2 = nId := by
    intro T
    rw [Finset.filter_filter]
    refine Finset.filter_congr fun s _ => ⟨And.right, ?_⟩
    rintro rfl
    exact ⟨hne, rfl⟩
  rw [hc.refs nId info hinfo, copied, slotsBelow, hboth]

lemma Checked.vRandom_perm (hc : Checked env m) : m.vRandom.Perm m.fileOrder := by
  refine (List.Subperm.perm_of_length_le (List.subperm_of_subset hc.nodup_fileOrder ?_) ?_).symm
  · intro nId hnId
    obtain ⟨info, -, -, hget⟩ := (hc.random nId).mpr (hc.mem_fileOrder.mp hnId)
    exact List.mem_of_getElem? hget
  · have hsize := hc.size
    rw [← hc.length_new, ← hc.length_tried] at hsize
    rw [fileOrder, List.length_append]
    omega

lemma Bare.copied {m₀ : CAddrMan} (h : Bare m₀) (m : CAddrMan) (nKey : Uint256) :
    Copied m { m₀.clear nKey with nKey := m.nKey, nNew := m.nNew, nTried := m.nTried } [] ∅ where
  nodup := List.nodup_nil
  entry hk := by simp at hk
  only {i info} hi := by
    change m₀.mapInfo.lookup i = some info at hi
    rw [h.mapInfo, Finmap.lookup_empty] at hi
    cases hi
  addr hk := by simp at hk
  noAddr {a} _ := h.mapAddr a
  vRandom := rfl
  tried b p := by
    rw [if_neg fun hmem => List.not_mem_nil hmem.2.2]
    rfl
  new b p := by
    rw [if_neg (Finset.notMem_empty _)]
    rfl
  nKey := rfl
  nNew := rfl
  nTried := rfl
  ok := h.ok

lemma unserialize_of_reads {m₀ m₁ m₂ m₃ m₄ : CAddrMan} {nKey : Uint256} {nLost : ℤ}
    {s s₁ s₂ s₃ s₄ : List AddrToken}
    (hheader : (m₀.clear nKey).readHeader s = (m₁, some (1, (ADDRMAN_NEW_BUCKET_COUNT : ℤ), s₁)))
    (hnew : readNew env true m₁.nNew.toNat 0 m₁ s₁ = (m₂, some s₂))
    (htried : readTried env m₂.nTried.toNat 0 { m₂ with nIdCount := m₂.nNew } s₂ =
      (m₃, some (nLost, s₃)))
    (hbuckets : readBuckets env true ADDRMAN_NEW_BUCKET_COUNT 0
      { m₃ with nTried := m₃.nTried - nLost } s₃ = (m₄, some s₄)) :
    m₀.unserialize env nKey s = (m₄.prune, true) ∧
      m₀.lost env nKey s = some (m₄.pruneCounting.2, nLost) := by
  rw [unserialize, lost, hheader]
  simp only [readTables, decide_true, and_self, hnew, htried, Int.toNat_natCast, hbuckets]

lemma Consistent.read_back (hc : Consistent env m) {m₀ : CAddrMan} (h : Bare m₀) (nKey : Uint256) :
    ∃ m', m₀.unserialize env nKey m.tokens = (m', true) ∧
      m₀.lost env nKey m.tokens = some (0, 0) ∧
      Copied m m' m.fileOrder (m.slotsBelow ADDRMAN_NEW_BUCKET_COUNT) := by
  have hflip : flipBit (flipBit ADDRMAN_NEW_BUCKET_COUNT) = ADDRMAN_NEW_BUCKET_COUNT := by decide
  have hnodup := hc.nodup_fileOrder
  have hempty : m.slotsBelow 0 = ∅ := rfl
  -- the header
  have hheader : (m₀.clear nKey).readHeader m.tokens =
      ({ m₀.clear nKey with nKey := m.nKey, nNew := m.nNew, nTried := m.nTried },
        some (1, (ADDRMAN_NEW_BUCKET_COUNT : ℤ),
          recordTokens ((m.idsWith fun info => info.nRefCount != 0).map fun id =>
            (m.infoAt id).record) ++
          (recordTokens ((m.idsWith fun info => info.fInTried).map fun id =>
            (m.infoAt id).record) ++
          (List.range' 0 ADDRMAN_NEW_BUCKET_COUNT).flatMap m.bucketTokens))) := by
    rw [tokens, List.range_eq_range', recordTokens, recordTokens, List.map_map, List.map_map,
      List.append_assoc, List.append_assoc]
    simp only [List.cons_append, List.nil_append, readHeader, if_pos one_ne_zero, hflip]
    rfl
  -- the entries of the new table
  obtain ⟨m₁, hread₁, hcopied₁⟩ := (h.copied m nKey).readNew hc
    (m.idsWith fun info => info.nRefCount != 0) (by simpa using nodup_idsWith _)
    (fun id hid => by cases hid)
    (fun id hid => by
      obtain ⟨info, hinfo, hrefs⟩ := mem_idsWith.mp hid
      exact ⟨info, hinfo, (hc.refs_iff hinfo).mp hrefs⟩)
    (recordTokens ((m.idsWith fun info => info.fInTried).map fun id => (m.infoAt id).record) ++
      (List.range' 0 ADDRMAN_NEW_BUCKET_COUNT).flatMap m.bucketTokens)
  rw [List.nil_append] at hcopied₁
  -- the entries that were tried
  have hcopied₁' : Copied m { m₁ with nIdCount := m₁.nNew }
      (m.idsWith fun info => info.nRefCount != 0) ∅ :=
    ⟨hcopied₁.nodup, hcopied₁.entry, hcopied₁.only, hcopied₁.addr, hcopied₁.noAddr,
      hcopied₁.vRandom, hcopied₁.tried, hcopied₁.new, hcopied₁.nKey, hcopied₁.nNew,
      hcopied₁.nTried, hcopied₁.ok⟩
  obtain ⟨m₂, hread₂, hcopied₂⟩ := hcopied₁'.readTried hc (m.idsWith fun info => info.fInTried)
    hnodup
    (fun id hid => by
      obtain ⟨info, hinfo, -⟩ := mem_idsWith.mp hid
      exact ⟨info, hinfo⟩)
    (fun id hid => mem_idsWith.mp hid)
    (hcopied₁.nNew.trans hc.length_new.symm)
    ((List.range' 0 ADDRMAN_NEW_BUCKET_COUNT).flatMap m.bucketTokens)
  -- the buckets
  have hcopied₂' : Copied m { m₂ with nTried := m₂.nTried - 0 } m.fileOrder (m.slotsBelow 0) :=
    ⟨hcopied₂.nodup, hcopied₂.entry, hcopied₂.only, hcopied₂.addr, hcopied₂.noAddr,
      hcopied₂.vRandom, hcopied₂.tried, hcopied₂.new, hcopied₂.nKey, hcopied₂.nNew,
      (sub_zero _).trans hcopied₂.nTried, hcopied₂.ok⟩
  obtain ⟨m₃, hread₃, hcopied₃⟩ := hcopied₂'.readBuckets hc.toChecked hc.placed
    ADDRMAN_NEW_BUCKET_COUNT 0 (by omega)
  rw [Nat.zero_add] at hcopied₃
  -- and nothing is without a slot
  have hprune : m₃.pruneCounting = (m₃, 0) := by
    refine pruneCounting_eq fun i info hi hlost => ?_
    obtain ⟨k, rfl, hk⟩ := hcopied₃.only hi
    have hget := List.getElem?_eq_getElem hk
    rw [hcopied₃.entry hget] at hi
    obtain rfl := Option.some.inj hi
    obtain ⟨info, hinfo⟩ := Finmap.mem_iff.mp (hc.mem_fileOrder.mp (List.getElem_mem hk))
    have hne : m.fileOrder[k] ≠ -1 := fun heq =>
      hc.noEntry (heq ▸ Finmap.mem_of_lookup_eq_some hinfo)
    rw [hc.copied_refs hinfo hne] at hlost
    have hnew : info.fInTried = false := by
      have htried := hlost.1
      rwa [CAddrMan.copied, infoAt_of_lookup hinfo] at htried
    have := (hc.new _ info hinfo hnew).1
    omega
  have hlen₁ : m.nNew.toNat = (m.idsWith fun info => info.nRefCount != 0).length := by
    have := hc.length_new
    omega
  have hlen₂ : m₁.nTried.toNat = (m.idsWith fun info => info.fInTried).length := by
    rw [hcopied₁.nTried]
    have := hc.length_tried
    omega
  rw [← hlen₁] at hread₁
  rw [← hlen₂] at hread₂
  obtain ⟨hread, hlost⟩ := unserialize_of_reads hheader hread₁ hread₂ hread₃
  rw [← pruneCounting_fst, hprune] at hread
  rw [hprune] at hlost
  exact ⟨m₃, hread, hlost, hcopied₃⟩

end

/-! ### Other numbers -/

/-- The manager `m'` is `m` with the number `ρ id` for `id`, and with another random order. -/
structure Renumbered (m m' : CAddrMan) (ρ : ℤ → ℤ) : Prop where
  injective : ∀ id ∈ m.mapInfo, ∀ id' ∈ m.mapInfo, ρ id = ρ id' → id = id'
  ids : ∀ i, i ∈ m'.mapInfo ↔ ∃ id ∈ m.mapInfo, ρ id = i
  entry : ∀ id info, m.mapInfo.lookup id = some info →
    ∃ info', m'.mapInfo.lookup (ρ id) = some info' ∧ info'.record = info.record ∧
      info'.fInTried = info.fInTried ∧ info'.nRefCount = info.nRefCount
  mapAddr : ∀ a, m'.mapAddr a = (m.mapAddr a).map ρ
  tried : ∀ b < ADDRMAN_TRIED_BUCKET_COUNT, ∀ p < ADDRMAN_BUCKET_SIZE,
    m'.vvTried b p = if m.vvTried b p = -1 then -1 else ρ (m.vvTried b p)
  new : ∀ b < ADDRMAN_NEW_BUCKET_COUNT, ∀ p < ADDRMAN_BUCKET_SIZE,
    m'.vvNew b p = if m.vvNew b p = -1 then -1 else ρ (m.vvNew b p)
  vRandom : m'.vRandom.Perm (m.vRandom.map ρ)
  random : ∀ i info', m'.mapInfo.lookup i = some info' →
    0 ≤ info'.nRandomPos ∧ m'.vRandom[info'.nRandomPos.toNat]? = some i
  nTried : m'.nTried = m.nTried
  nNew : m'.nNew = m.nNew
  nKey : m'.nKey = m.nKey

lemma map_idxOf {l : List ℤ} (hl : l.Nodup) :
    l.map (fun x => (l.idxOf x : ℤ)) = (List.range l.length).map Nat.cast := by
  refine List.ext_getElem (by simp) fun k hk _ => ?_
  rw [List.getElem_map, List.getElem_map, List.getElem_range,
    hl.idxOf_getElem k (by simpa using hk)]

lemma Copied.renumbered (hc : Consistent env m)
    (h : Copied m m' m.fileOrder (m.slotsBelow ADDRMAN_NEW_BUCKET_COUNT)) :
    Renumbered m m' fun id => (m.fileOrder.idxOf id : ℤ) := by
  have hget : ∀ {id info}, m.mapInfo.lookup id = some info →
      m.fileOrder[m.fileOrder.idxOf id]? = some id := by
    intro id info hinfo
    exact List.getElem?_idxOf (hc.mem_fileOrder.mpr (Finmap.mem_of_lookup_eq_some hinfo))
  have hne : ∀ {id info}, m.mapInfo.lookup id = some info → id ≠ -1 := by
    rintro id info hinfo rfl
    exact hc.noEntry (Finmap.mem_of_lookup_eq_some hinfo)
  have hrefs : ∀ {id info} (k : ℤ), m.mapInfo.lookup id = some info →
      (m.copied (m.slotsBelow ADDRMAN_NEW_BUCKET_COUNT) id k).nRefCount = info.nRefCount :=
    fun k hinfo => hc.copied_refs hinfo (hne hinfo) k
  have hslots : ∀ b < ADDRMAN_NEW_BUCKET_COUNT, ∀ p < ADDRMAN_BUCKET_SIZE,
      ((b, p) ∈ m.slotsBelow ADDRMAN_NEW_BUCKET_COUNT ↔ m.vvNew b p ≠ -1) := by
    intro b hb p hp
    rw [mem_slotsBelow]
    exact and_iff_right ⟨hb, hp⟩
  generalize m.slotsBelow ADDRMAN_NEW_BUCKET_COUNT = S at h hrefs hslots
  refine ⟨fun id hid id' hid' heq => ?_, fun i => ⟨fun hi => ?_, ?_⟩, fun id info hinfo => ?_,
    fun a => ?_, fun b hb p hp => ?_, fun b hb p hp => ?_, ?_, fun i info' hi => ?_, h.nTried,
    h.nNew, h.nKey⟩
  · refine (List.idxOf_inj (hc.mem_fileOrder.mpr hid)).mp ?_
    exact_mod_cast heq
  · obtain ⟨info, hinfo⟩ := Finmap.mem_iff.mp hi
    obtain ⟨k, rfl, hk⟩ := h.only hinfo
    refine ⟨m.fileOrder[k], hc.mem_fileOrder.mp (List.getElem_mem hk), ?_⟩
    simp only [h.nodup.idxOf_getElem k hk]
  · rintro ⟨id, hid, rfl⟩
    obtain ⟨info, hinfo⟩ := Finmap.mem_iff.mp hid
    exact Finmap.mem_of_lookup_eq_some (h.entry (hget hinfo))
  · refine ⟨_, h.entry (hget hinfo), infoAt_record hinfo, ?_, hrefs _ hinfo⟩
    rw [CAddrMan.copied, infoAt_of_lookup hinfo]
  · cases ha : m.mapAddr a with
    | some id =>
      obtain ⟨info, hinfo, rfl⟩ := (hc.addr a id).mp ha
      have haddr := h.addr (hget hinfo)
      rwa [infoAt_of_lookup hinfo] at haddr
    | none =>
      refine h.noAddr fun id hid hip => ?_
      obtain ⟨info, hinfo⟩ := Finmap.mem_iff.mp (hc.mem_fileOrder.mp hid)
      rw [infoAt_of_lookup hinfo] at hip
      rw [(hc.addr a id).mpr ⟨info, hinfo, hip⟩] at ha
      cases ha
  · rw [h.tried]
    by_cases hslot : m.vvTried b p = -1
    · rw [if_pos hslot, if_neg]
      rintro ⟨-, -, hmem⟩
      exact hc.noEntry (hslot ▸ hc.mem_fileOrder.mp hmem)
    · obtain ⟨info, hinfo, -⟩ := hc.triedSlot b hb p hp hslot
      have hmem := hc.mem_fileOrder.mpr (Finmap.mem_of_lookup_eq_some hinfo)
      rw [if_neg hslot, if_pos ⟨hb, hp, hmem⟩]
  · by_cases hslot : m.vvNew b p = -1
    · rw [if_pos hslot]
      exact h.new_of_notMem fun hmem => (hslots b hb p hp).mp hmem hslot
    · rw [if_neg hslot]
      exact h.new_of_mem ((hslots b hb p hp).mpr hslot)
  · rw [h.vRandom, ← map_idxOf h.nodup]
    exact (hc.vRandom_perm.map _).symm
  · obtain ⟨k, rfl, hk⟩ := h.only hi
    rw [h.entry (List.getElem?_eq_getElem hk)] at hi
    obtain rfl := Option.some.inj hi
    refine ⟨Int.natCast_nonneg k, ?_⟩
    change m'.vRandom[(k : ℤ).toNat]? = some (k : ℤ)
    rw [h.vRandom, Int.toNat_natCast, List.getElem?_map, List.getElem?_range hk]
    rfl

/-- **Writing and reading gives the same tables.** A consistent manager can be written, and what is
written can be read to its end into a manager that holds nothing. This is the same manager then,
with other numbers and another random order; no assertion has failed, and nothing is reported as
lost. -/
theorem serialize_unserialize (h : Consistent env m) {m₀ : CAddrMan} (hempty : Bare m₀)
    (nKey : Uint256) :
    ∃ s m' ρ, m.serialize = some s ∧ m₀.unserialize env nKey s = (m', true) ∧
      m₀.lost env nKey s = some (0, 0) ∧ m'.failed = false ∧ Renumbered m m' ρ := by
  obtain ⟨m', hread, hlost, hcopied⟩ := h.read_back hempty nKey
  exact ⟨m.tokens, m', _, h.serialize_eq, hread, hlost, hcopied.ok, hcopied.renumbered h⟩

open CAddrMan.Concrete

theorem serialize_unserialize_tried_peer :
    ∃ s m' ρ, triedPeer.serialize = some s ∧ blank.unserialize addrEnv 2 s = (m', true) ∧
      blank.lost addrEnv 2 s = some (0, 0) ∧ m'.failed = false ∧ Renumbered triedPeer m' ρ :=
  serialize_unserialize (consistent_of_reached triedPeer_reached) bare_blank 2

end Agenor.CAddrMan
