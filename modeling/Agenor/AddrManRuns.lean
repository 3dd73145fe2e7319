import Agenor.AddrManTables

/-!
The address manager keeps its tables in order.

Each operation keeps the tables, the counters and the slots together, as long as `Clear` is called
for a manager that holds nothing: it forgets the slots and the random order, but not the entries,
nor the numbers that wait for a place in the tried table.
-/

namespace Agenor.CAddrMan

variable {env : AddrEnv} {m m' : CAddrMan} {nId : ℤ} {info info' : CAddrInfo} {X : Set ℤ}

/-- The invariant between two operations (`X` is empty then) and inside of one. -/
structure InvBut (env : AddrEnv) (m : CAddrMan) (X : Set ℤ) : Prop where
  tables : Tables env m
  counted : Counted m m.nTried m.nNew
  used : UsedBut m X
  count : 0 ≤ m.nIdCount
  below : ∀ {id info}, m.mapInfo.lookup id = some info → id < m.nIdCount
  waiting : ∀ {id}, id ∈ m.triedCollisions → id < m.nIdCount ∧
    ∀ {info}, m.mapInfo.lookup id = some info → m.triedSlot env info ≠ -1
  someTried : m.triedCollisions.Nonempty → 0 < m.nTried
  key : m.nKey ≠ 0

abbrev Inv (env : AddrEnv) (m : CAddrMan) : Prop := InvBut env m ∅

lemma InvBut.of_carried {Y : Set ℤ} (h : InvBut env m X) (hc : Carried m m')
    (htables : Tables env m') (hcounted : Counted m' m'.nTried m'.nNew) (hused : UsedBut m' Y)
    (hvv : ∀ {b p}, m.vvTried b p ≠ -1 → m'.vvTried b p ≠ -1) (hle : m.nTried ≤ m'.nTried) :
    InvBut env m' Y where
  tables := htables
  counted := hcounted
  used := hused
  count := hc.nIdCount ▸ h.count
  below hi := by
    obtain ⟨i, hi, -⟩ := hc.entry hi
    rw [hc.nIdCount]
    exact h.below hi
  waiting {id} hid := by
    rw [hc.triedCollisions] at hid
    obtain ⟨hlt, hslot⟩ := h.waiting hid
    refine ⟨hc.nIdCount ▸ hlt, fun {i'} hi' => ?_⟩
    obtain ⟨i, hi, hserv⟩ := hc.entry hi'
    have := hvv (hslot hi)
    rwa [triedSlot, getTriedBucket_congr hserv, getBucketPosition_congr hserv, hc.nKey]
  someTried hne := by
    rw [hc.triedCollisions] at hne
    exact lt_of_lt_of_le (h.someTried hne) hle
  key := hc.nKey ▸ h.key

/-! ### Changes of one entry -/

lemma InvBut.put (h : InvBut env m X) (hinfo : m.mapInfo.lookup nId = some info)
    (hkept : Kept info info') (hpos : info'.nRandomPos = info.nRandomPos)
    (htimed : Timed info') : InvBut env (m.put nId info') X := by
  have hsame := sameSlots_put hinfo hkept
  refine h.of_carried (carried_put hinfo hkept.serv) (h.tables.put hinfo hkept hpos htimed)
    (hsame.alike.counted h.counted) ?_ (fun hb => hb) le_rfl
  intro id i hid hi ht
  obtain ⟨j, hj, hserv, htried, hrefs, -⟩ := hsame.alike.lookup_of hi
  rw [hrefs]
  exact h.used hid hj (htried ▸ ht)

lemma find_eq_some {a : CNetAddr} (h : m.find a = some (nId, info)) :
    m.mapAddr a = some nId ∧ m.mapInfo.lookup nId = some info := by
  rw [find] at h
  cases ha : m.mapAddr a with
  | none => simp [ha] at h
  | some id =>
    simp only [ha, Option.map_eq_some_iff, Prod.mk.injEq] at h
    obtain ⟨i, hi, rfl, rfl⟩ := h
    exact ⟨rfl, hi⟩

lemma InvBut.change (h : InvBut env m X) (addr : CService) {f : CAddrInfo → CAddrInfo}
    (hf : ∀ i, Timed i → Kept i (f i) ∧ (f i).nRandomPos = i.nRandomPos ∧ Timed (f i)) :
    InvBut env (m.change addr f) X := by
  rw [CAddrMan.change]
  cases hfind : m.find addr.ip with
  | none => exact h
  | some found =>
    obtain ⟨id, i⟩ := found
    obtain ⟨-, hi⟩ := find_eq_some hfind
    simp only
    split_ifs with hport
    · exact h
    · obtain ⟨hkept, hpos, htimed⟩ := hf i (h.tables.timed hi)
      exact h.put hi hkept hpos htimed

lemma InvBut.attempt (h : InvBut env m X) (addr : CService) (fCountFailure : Bool) {nTime : ℤ}
    (htime : 0 ≤ nTime) : InvBut env (m.attempt_ addr fCountFailure nTime) X := by
  refine h.change addr fun i ht => ?_
  split_ifs
  · exact ⟨⟨rfl, rfl, rfl, fun h => h⟩, rfl, htime, ht.2⟩
  · exact ⟨⟨rfl, rfl, rfl, fun h => h⟩, rfl, htime, ht.2⟩

lemma InvBut.connected (h : InvBut env m X) (addr : CService) (nTime : ℤ) :
    InvBut env (m.connected_ addr nTime) X := by
  refine h.change addr fun i ht => ?_
  split_ifs
  · exact ⟨⟨rfl, rfl, rfl, fun h => h⟩, rfl, ht⟩
  · exact ⟨.refl i, rfl, ht⟩

lemma InvBut.setServices (h : InvBut env m X) (addr : CService) (nServices : UInt64) :
    InvBut env (m.setServices_ addr nServices) X :=
  h.change addr fun _ ht => ⟨⟨rfl, rfl, rfl, fun h => h⟩, rfl, ht⟩

/-! ### Good addresses and collisions -/

lemma InvBut.moved (h : Inv env m) (hm : Moved env m m') : Inv env m' :=
  h.of_carried hm.carried hm.tables (hm.counted h.counted) (hm.used h.used) hm.vvTried hm.nTried

lemma InvBut.lastGood (h : InvBut env m X) (nTime : ℤ) :
    InvBut env { m with nLastGood := nTime } X :=
  ⟨h.tables.congr rfl rfl rfl rfl rfl rfl rfl, h.counted, h.used, h.count, h.below, h.waiting,
    h.someTried, h.key⟩

lemma InvBut.wait (h : InvBut env m X) (hinfo : m.mapInfo.lookup nId = some info)
    (hslot : m.triedSlot env info ≠ -1) :
    InvBut env { m with triedCollisions := insert nId m.triedCollisions } X := by
  refine ⟨h.tables.congr rfl rfl rfl rfl rfl rfl rfl, h.counted, h.used, h.count, h.below, ?_, ?_,
    h.key⟩
  · intro id hid
    rcases Finset.mem_insert.mp hid with rfl | hid
    · refine ⟨h.below hinfo, fun {i} hi => ?_⟩
      obtain rfl := Option.some.inj (hinfo.symm.trans hi)
      exact hslot
    · exact h.waiting hid
  · intro _
    obtain ⟨i, hi, hit, -⟩ := h.tables.slotted.triedSlot hslot
    have hpos := Finset.card_pos.mpr ⟨_, mem_idsTried.mpr ⟨i, hi, hit⟩⟩
    have hcount := h.counted.1
    change 0 < m.nTried
    omega

lemma InvBut.good (h : Inv env m) (addr : CService) (testBeforeEvict : Bool) {nTime : ℤ}
    (nRnd : ℕ) (htime : 0 < nTime) : Inv env (m.good_ env addr testBeforeEvict nTime nRnd) := by
  have h₁ := h.lastGood nTime
  rw [good_]
  simp only
  cases hfind : ({ m with nLastGood := nTime } : CAddrMan).find addr.ip with
  | none => exact h₁
  | some found =>
    obtain ⟨id, i⟩ := found
    obtain ⟨-, hi⟩ := find_eq_some hfind
    simp only
    generalize ({ m with nLastGood := nTime } : CAddrMan) = m₁ at h₁ hi ⊢
    have htimed := h₁.tables.timed hi
    have h₂ : Inv env
        (m₁.put id { i with nLastSuccess := nTime, nLastTry := nTime, nAttempts := 0 }) :=
      h₁.put hi ⟨rfl, rfl, rfl, fun _ => htime.ne'⟩ rfl ⟨htime.le, htime.le, fun _ => htime.ne'⟩
    have hi₂ := lookup_put_self m₁ id
      { i with nLastSuccess := nTime, nLastTry := nTime, nAttempts := 0 }
    split_ifs with hport htried hbucket hcollision hsize
    · exact h₁
    · exact h₂
    · exact h₂
    · refine h₂.wait hi₂ ?_
      simp only [Bool.and_eq_true, bne_iff_ne] at hcollision
      exact hcollision.2
    · exact h₂
    · exact h₂.moved (h₂.tables.makeTried hi₂ (by simpa using htried) htime.ne')

/-! ### New addresses -/

lemma InvBut.entered (h : InvBut env m (insert nId X)) (he : Entered env m m' nId) :
    InvBut env m' X := by
  have hc : Counted m' m'.nTried (m'.nNew + 0) := he.counted (by rw [add_zero]; exact h.counted)
  rw [add_zero] at hc
  refine h.of_carried he.carried he.tables hc (he.used h.used) ?_ he.rest.2.ge
  rw [he.rest.1]
  exact fun hb => hb

lemma InvBut.deleted (h : InvBut env m (insert nId X)) (hd : Deleted env m m' nId) :
    InvBut env m' X := by
  have hc : Counted m' m'.nTried m'.nNew := by
    rw [hd.rest.2.2.1, hd.rest.2.2.2]
    exact hd.counted h.counted
  refine h.of_carried hd.carried hd.tables hc ?_ ?_ hd.rest.2.2.1.ge
  · intro id i hid hi ht
    have hne : id ≠ nId := by
      rintro rfl
      rw [hd.gone] at hi
      cases hi
    have hkept := hd.kept hne
    rw [hi] at hkept
    generalize ho : m.mapInfo.lookup id = o at hkept
    cases hkept with
    | some hsame =>
      rw [hsame.refs]
      exact h.used (by simp [hne, hid]) ho (hsame.tried ▸ ht)
  · rw [hd.rest.2.1]
    exact fun hb => hb

lemma InvBut.enterNew (h : InvBut env m {nId}) (hinfo : m.mapInfo.lookup nId = some info)
    (ht : info.fInTried = false) (hfew : info.nRefCount < ADDRMAN_NEW_BUCKETS_PER_ADDRESS)
    (source : CNetAddr) (nNow : ℤ) : Inv env (m.enterNew env nId source nNow) := by
  have hins : InvBut env m (insert nId ∅) := by simpa using h
  -- the entry may stay as it is when it has a slot
  have hstay : info.nRefCount ≠ 0 → Inv env m := by
    intro hrefs
    refine { h with used := fun {id i} _ hi hit => ?_ }
    by_cases hid : id = nId
    · rw [hid, hinfo] at hi
      rwa [← Option.some.inj hi]
    · exact h.used (by simpa using hid) hi hit
  have hlt := getNewBucket_lt env info m.nKey source
  rw [CAddrMan.enterNew]
  simp only [infoAt_of_lookup hinfo]
  generalize info.getNewBucket env m.nKey source = b at hlt ⊢
  have htouch : (if m.vvNew b (info.getBucketPosition env m.nKey true b) = -1 then m
      else m.touch (m.vvNew b (info.getBucketPosition env m.nKey true b))) = m := by
    split_ifs with hfree
    · rfl
    · obtain ⟨-, i, hi, -⟩ := h.tables.slotted.newSlot hfree
      exact touch_of_lookup hi
  rw [htouch]
  split_ifs with hown hinsert hrefs
  · refine hstay fun hrefs => ?_
    exact h.tables.slotted.free hinfo hrefs _ _ hown
  · obtain ⟨hentered, hcount, -⟩ := h.tables.enter hinfo ht hlt rfl hown hfew
    rw [hcount]
    exact hins.entered hentered
  · exact hins.deleted (h.tables.delete hinfo hrefs ht)
  · exact hstay hrefs

lemma InvBut.append (h : Inv env m) (hip : m.mapAddr info.ip = none) (hrefs : info.nRefCount = 0)
    (ht : info.fInTried = false) (htimed : Timed info) :
    InvBut env { m.append m.nIdCount info with
      nIdCount := m.nIdCount + 1, nNew := m.nNew + 1 } {m.nIdCount} := by
  have hnew : m.mapInfo.lookup m.nIdCount = none := by
    cases hi : m.mapInfo.lookup m.nIdCount with
    | none => rfl
    | some i => exact absurd (h.below hi) (lt_irrefl _)
  have htables := h.tables.append hnew h.count hip hrefs ht htimed
  refine ⟨htables.congr rfl rfl rfl rfl rfl rfl rfl, h.counted.append hnew ht, ?_, ?_, ?_, ?_,
    h.someTried, h.key⟩
  · intro id i hid hi hit
    have hne : id ≠ m.nIdCount := by simpa using hid
    replace hi := (lookup_append id).symm.trans hi
    rw [if_neg hne] at hi
    exact h.used (Set.notMem_empty id) hi hit
  · have := h.count
    change 0 ≤ m.nIdCount + 1
    omega
  · intro id i hi
    replace hi := (lookup_append id).symm.trans hi
    change id < m.nIdCount + 1
    split_ifs at hi with heq
    · omega
    · have := h.below hi
      omega
  · intro id hid
    obtain ⟨hlt, hslot⟩ := h.waiting hid
    refine ⟨lt_trans hlt (lt_add_one _), fun {i} hi => ?_⟩
    replace hi := (lookup_append id).symm.trans hi
    rw [if_neg hlt.ne] at hi
    exact hslot hi

lemma create_eq (addr : CAddress) (source : CNetAddr) (penalty : ℤ) :
    let m₁ := m.create addr source
    let m₂ := m₁.put m.nIdCount { m₁.infoAt m.nIdCount with
      nTime := (max 0 (((m₁.infoAt m.nIdCount).nTime : ℤ) - penalty)).toNat % 2 ^ 32 }
    ({ m₂ with nNew := m₂.nNew + 1 } : CAddrMan) =
      { m.append m.nIdCount { addr with
          nTime := (max 0 ((addr.nTime : ℤ) - penalty)).toNat % 2 ^ 32, source := source } with
        nIdCount := m.nIdCount + 1, nNew := m.nNew + 1 } := by
  have hinfo : (m.create addr source).infoAt m.nIdCount =
      { addr with source := source, nRandomPos := m.vRandom.length } :=
    infoAt_of_lookup ((lookup_insert_eq _ _ _ _).trans (if_pos rfl))
  simp only [hinfo]
  simp only [create, CAddrMan.put, CAddrMan.append, Finmap.insert_insert]

lemma InvBut.add (h : Inv env m) (addr : CAddress) (source : CNetAddr) (nTimePenalty nNow : ℤ)
    (nRnd : ℕ) : Inv env (m.add_ env addr source nTimePenalty nNow nRnd).1 := by
  rw [add_]
  by_cases hroute : (!env.isRoutable addr.ip) = true
  · rw [if_pos hroute]
    exact h
  rw [if_neg hroute]
  generalize (if addr.ip = source then 0 else nTimePenalty) = penalty
  cases hfind : m.find addr.ip with
  | some found =>
    obtain ⟨id, i⟩ := found
    obtain ⟨-, hi⟩ := find_eq_some hfind
    simp only
    have htimed := h.tables.timed hi
    have h₁ : Inv env (m.put id (i.seen addr penalty nNow)) :=
      h.put hi ⟨rfl, rfl, rfl, fun h => h⟩ rfl htimed
    have hi₁ := lookup_put_self m id (i.seen addr penalty nNow)
    split_ifs with hnews htried hmax hrnd
    · exact h₁
    · exact h₁
    · exact h₁
    · exact h₁
    · refine InvBut.enterNew ?_ hi₁ (by simpa using htried) ?_ source nNow
      · exact { h₁ with used := fun _ => h₁.used (Set.notMem_empty _) }
      · have hfew := h₁.tables.slotted.few hi₁
        omega
  | none =>
    simp only
    have hip : m.mapAddr addr.ip = none := by
      rw [find] at hfind
      cases ha : m.mapAddr addr.ip with
      | none => rfl
      | some id =>
        obtain ⟨i, hi, -⟩ := h.tables.slotted.found ha
        simp [ha, hi] at hfind
    rw [create_eq]
    have htimed : Timed { addr with
        nTime := (max 0 ((addr.nTime : ℤ) - penalty)).toNat % 2 ^ 32, source := source } :=
      ⟨le_rfl, le_rfl, fun h => Bool.noConfusion h⟩
    refine InvBut.enterNew (h.append hip rfl rfl htimed)
      ((lookup_append m.nIdCount).trans (if_pos rfl)) rfl
      (show (0 : ℤ) < ADDRMAN_NEW_BUCKETS_PER_ADDRESS by decide) source nNow

/-! ### The random order -/

lemma InvBut.swapped (h : Inv env m) {k₁ k₂ : ℕ} (hs : Swapped m m' k₁ k₂) : Inv env m' := by
  obtain ⟨hfail, hnew, htried, hcount, hwait, -⟩ := hs.rest
  have hcounted : Counted m' m'.nTried m'.nNew := by
    rw [hnew, htried]
    exact hs.same.alike.counted h.counted
  have hcarried : Carried m m' := by
    refine ⟨hs.same.nKey, hcount, hwait, fun hi => ?_⟩
    obtain ⟨i, hi, hkept⟩ := hs.same.alike.lookup_of hi
    exact ⟨i, hi, hkept.serv⟩
  refine h.of_carried hcarried ⟨hfail.trans h.tables.ok, h.tables.slotted.same hs.same, hs.order,
    hs.timed h.tables.timed⟩ hcounted ?_ ?_ htried.ge
  · intro id i hid hi ht
    obtain ⟨j, hj, hkept⟩ := hs.same.alike.lookup_of hi
    rw [hkept.refs]
    exact h.used hid hj (hkept.tried ▸ ht)
  · rw [hs.same.vvTried]
    exact fun hb => hb

lemma InvBut.getAddrStep (h : Inv env m) {l : List CAddress} {n : ℕ} (hn : n < m.vRandom.length)
    (nNow : ℤ) (nRnd : ℕ → ℕ) (nNodes : ℕ) :
    Inv env (getAddrStep nNow nRnd nNodes (m, l) n).1 ∧
      (getAddrStep nNow nRnd nNodes (m, l) n).1.vRandom.length = m.vRandom.length := by
  rw [CAddrMan.getAddrStep]
  split_ifs with hfull
  · exact ⟨h, rfl⟩
  have hpos : nRnd n % (m.vRandom.length - n) + n < m.vRandom.length := by
    have := Nat.mod_lt (nRnd n) (show 0 < m.vRandom.length - n by omega)
    omega
  have hswap := h.tables.order.swapRandom hn hpos
  have h₁ := h.swapped hswap
  simp only
  generalize m.swapRandom (n : ℤ) ((nRnd n % (m.vRandom.length - n) + n : ℕ) : ℤ) = m₁ at hswap h₁ ⊢
  have hlen := hswap.length
  obtain ⟨id, hid⟩ : ∃ id, m₁.vRandom[n]? = some id :=
    ⟨_, List.getElem?_eq_getElem (hlen ▸ hn)⟩
  obtain ⟨i, hi, -⟩ := h₁.tables.order.entry hid
  simp only [getD_of_getElem? hid, Finmap.mem_of_lookup_eq_some hi, decide_true, assert_true,
    touch_of_lookup hi]
  exact ⟨h₁, hlen⟩

lemma InvBut.getAddr (h : Inv env m) (nNow : ℤ) (nRnd : ℕ → ℕ) :
    Inv env (m.getAddr_ nNow nRnd).1 := by
  rw [getAddr_]
  generalize min (ADDRMAN_GETADDR_MAX_PCT * m.vRandom.length / 100) ADDRMAN_GETADDR_MAX = nNodes
  have hloop : ∀ (ns : List ℕ) (s : CAddrMan × List CAddress), Inv env s.1 →
      (∀ n ∈ ns, n < s.1.vRandom.length) →
      Inv env (ns.foldl (CAddrMan.getAddrStep nNow nRnd nNodes) s).1 := by
    intro ns
    induction ns with
    | nil => exact fun s hs _ => hs
    | cons n ns ih =>
      intro s hs hlt
      obtain ⟨hinv, hlen⟩ := hs.getAddrStep (l := s.2) (hlt n (by simp)) nNow nRnd nNodes
      exact ih _ hinv fun k hk => hlen ▸ hlt k (List.mem_cons_of_mem _ hk)
  exact hloop _ _ h fun n hn => List.mem_range.mp hn

/-! ### Collisions -/

lemma InvBut.erased (h : InvBut env m X) (id : ℤ) :
    InvBut env { m with triedCollisions := m.triedCollisions.erase id } X := by
  refine ⟨h.tables.congr rfl rfl rfl rfl rfl rfl rfl, h.counted, h.used, h.count, h.below, ?_, ?_,
    h.key⟩
  · intro id' hid'
    exact h.waiting (Finset.mem_of_mem_erase hid')
  · rintro ⟨id', hid'⟩
    exact h.someTried ⟨id', Finset.mem_of_mem_erase hid'⟩

lemma InvBut.touch_tried (h : InvBut env m X) (hslot : m.triedSlot env info ≠ -1) :
    m.touch (m.triedSlot env info) = m := by
  obtain ⟨i, hi, -⟩ := h.tables.slotted.triedSlot hslot
  exact touch_of_lookup hi

lemma InvBut.resolveCollision (h : Inv env m) {nNow : ℤ} (hnow : 0 < nNow) (nRnd : ℤ → ℕ)
    (idNew : ℤ) : Inv env (m.resolveCollision env nNow nRnd idNew) := by
  rw [CAddrMan.resolveCollision]
  cases hi : m.mapInfo.lookup idNew with
  | none => exact h.erased idNew
  | some infoNew =>
    simp only
    by_cases hvalid : (!env.isValid infoNew.ip) = true
    · rw [if_pos hvalid]
      exact h.erased idNew
    rw [if_neg hvalid]
    by_cases hslot : m.triedSlot env infoNew = -1
    · rw [if_pos hslot]
      exact (h.good _ _ _ hnow).erased idNew
    rw [if_neg hslot, h.touch_tried hslot]
    split_ifs
    · exact h.erased idNew
    · exact (h.good _ _ _ hnow).erased idNew
    · exact h
    · exact h

lemma InvBut.resolveCollisions (h : Inv env m) {nNow : ℤ} (hnow : 0 < nNow) (nRnd : ℤ → ℕ) :
    Inv env (m.resolveCollisions_ env nNow nRnd) := by
  rw [resolveCollisions_]
  generalize m.triedCollisions.sort (· ≤ ·) = ids
  induction ids generalizing m with
  | nil => exact h
  | cons id ids ih => exact ih (h.resolveCollision hnow nRnd id)

lemma InvBut.selectTriedCollision (h : Inv env m) (nRnd : ℕ) :
    Inv env (m.selectTriedCollision_ env nRnd).1 := by
  rw [selectTriedCollision_]
  split_ifs with hnone
  · exact h
  have hlen := Finset.length_sort (r := (· ≤ ·)) (s := m.triedCollisions)
  have hlt : nRnd % m.triedCollisions.card < (m.triedCollisions.sort (· ≤ ·)).length := by
    rw [hlen]
    exact Nat.mod_lt _ (Nat.pos_of_ne_zero hnone)
  have hmem : (m.triedCollisions.sort (· ≤ ·)).getD (nRnd % m.triedCollisions.card) 0 ∈
      m.triedCollisions := by
    rw [List.getD_eq_getElem?_getD, List.getElem?_eq_getElem hlt, Option.getD_some]
    exact (Finset.mem_sort _).mp (List.getElem_mem hlt)
  generalize (m.triedCollisions.sort (· ≤ ·)).getD (nRnd % m.triedCollisions.card) 0 = id at hmem ⊢
  cases hi : m.mapInfo.lookup id with
  | none =>
    simp only [hi]
    exact h.erased id
  | some i =>
    simp only [hi]
    rw [h.touch_tried ((h.waiting hmem).2 hi)]
    exact h

end Agenor.CAddrMan
