import Agenor.AddrMan

/-!
What holds of the tables of the address manager, and how the single changes keep it.

The slots, the numbers and the random order are each described on their own. A change of an entry
that leaves its address, its table and the number of its slots alone keeps all of them; deleting an
entry and giving a slot away are put together from such changes.
-/

namespace Agenor.CAddrMan

variable {env : AddrEnv} {m m' : CAddrMan} {nId : ℤ} {info info' : CAddrInfo}

lemma lookup_insert_eq (s : Finmap fun _ : ℤ => CAddrInfo) (a b : ℤ) (x : CAddrInfo) :
    (s.insert b x).lookup a = if a = b then some x else s.lookup a := by
  split_ifs with h
  · rw [h, Finmap.lookup_insert]
  · rw [Finmap.lookup_insert_of_ne _ h]

lemma lookup_erase_eq (s : Finmap fun _ : ℤ => CAddrInfo) (a b : ℤ) :
    (s.erase b).lookup a = if a = b then none else s.lookup a := by
  split_ifs with h
  · rw [h, Finmap.lookup_erase]
  · rw [Finmap.lookup_erase_ne h]

lemma infoAt_of_lookup (h : m.mapInfo.lookup nId = some info) : m.infoAt nId = info := by
  simp [infoAt, h]

lemma touch_of_lookup (h : m.mapInfo.lookup nId = some info) : m.touch nId = m := by
  simp [touch, Finmap.mem_of_lookup_eq_some h]

@[simp] lemma lookup_put (id : ℤ) :
    (m.put nId info).mapInfo.lookup id = if id = nId then some info else m.mapInfo.lookup id :=
  lookup_insert_eq _ _ _ _

lemma lookup_put_self (m : CAddrMan) (nId : ℤ) (info : CAddrInfo) :
    (m.put nId info).mapInfo.lookup nId = some info := by
  rw [lookup_put, if_pos rfl]

/-! ### The parts -/

/-- The new buckets that an entry is in. -/
def newBuckets (env : AddrEnv) (m : CAddrMan) (nId : ℤ) (info : CAddrInfo) : Finset ℕ :=
  (Finset.range ADDRMAN_NEW_BUCKET_COUNT).filter fun b =>
    m.vvNew b (info.getBucketPosition env m.nKey true b) = nId

/-- The slots are those of the entries, and the entries are found by their addresses. -/
structure Slotted (env : AddrEnv) (m : CAddrMan) : Prop where
  nonneg : ∀ {id info}, m.mapInfo.lookup id = some info → 0 ≤ id
  addr : ∀ {id info}, m.mapInfo.lookup id = some info → m.mapAddr info.ip = some id
  found : ∀ {a id}, m.mapAddr a = some id → ∃ info, m.mapInfo.lookup id = some info ∧ info.ip = a
  newSlot : ∀ {b p}, m.vvNew b p ≠ -1 → b < ADDRMAN_NEW_BUCKET_COUNT ∧
    ∃ info, m.mapInfo.lookup (m.vvNew b p) = some info ∧ info.fInTried = false ∧
      p = info.getBucketPosition env m.nKey true b
  refs : ∀ {id info}, m.mapInfo.lookup id = some info →
    info.nRefCount = (m.newBuckets env id info).card
  few : ∀ {id info}, m.mapInfo.lookup id = some info →
    info.nRefCount ≤ ADDRMAN_NEW_BUCKETS_PER_ADDRESS
  triedSlot : ∀ {b p}, m.vvTried b p ≠ -1 →
    ∃ info, m.mapInfo.lookup (m.vvTried b p) = some info ∧ info.fInTried = true ∧
      b = info.getTriedBucket env m.nKey ∧ p = info.getBucketPosition env m.nKey false b
  inTried : ∀ {id info}, m.mapInfo.lookup id = some info → info.fInTried = true →
    m.triedSlot env info = id

/-- The random order holds every entry once. -/
structure Order (m : CAddrMan) : Prop where
  pos : ∀ {id info}, m.mapInfo.lookup id = some info →
    ∃ k : ℕ, info.nRandomPos = k ∧ m.vRandom[k]? = some id
  entry : ∀ {k : ℕ} {id}, m.vRandom[k]? = some id →
    ∃ info, m.mapInfo.lookup id = some info ∧ info.nRandomPos = k

/-- No time is negative, and what has been tried has been reached once. -/
def Timed (info : CAddrInfo) : Prop :=
  0 ≤ info.nLastTry ∧ 0 ≤ info.nLastSuccess ∧ (info.fInTried = true → info.nLastSuccess ≠ 0)

/-- The tables are in order, whatever the counters say. -/
structure Tables (env : AddrEnv) (m : CAddrMan) : Prop where
  ok : m.failed = false
  slotted : Slotted env m
  order : Order m
  timed : ∀ {id info}, m.mapInfo.lookup id = some info → Timed info

/-- The numbers of the entries that are in the tried table, or that are not. -/
def idsTried (m : CAddrMan) (t : Bool) : Finset ℤ :=
  m.mapInfo.keys.filter fun id => (m.infoAt id).fInTried = t

lemma mem_idsTried {t : Bool} {id : ℤ} :
    id ∈ m.idsTried t ↔ ∃ info, m.mapInfo.lookup id = some info ∧ info.fInTried = t := by
  rw [idsTried, Finset.mem_filter, Finmap.mem_keys, Finmap.mem_iff]
  constructor
  · rintro ⟨⟨info, hinfo⟩, ht⟩
    exact ⟨info, hinfo, by rwa [infoAt_of_lookup hinfo] at ht⟩
  · rintro ⟨info, hinfo, ht⟩
    exact ⟨⟨info, hinfo⟩, by rwa [infoAt_of_lookup hinfo]⟩

/-- So many entries are in the tried table, and so many are not. -/
def Counted (m : CAddrMan) (nTried nNew : ℤ) : Prop :=
  (m.idsTried true).card = nTried ∧ (m.idsTried false).card = nNew

/-- An entry keeps its address, its table and the number of its slots, and is known to have been
reached if it was so before. -/
structure Kept (info info' : CAddrInfo) : Prop where
  serv : info'.toCService = info.toCService
  tried : info'.fInTried = info.fInTried
  refs : info'.nRefCount = info.nRefCount
  reached : info.nLastSuccess ≠ 0 → info'.nLastSuccess ≠ 0

lemma Kept.refl (info : CAddrInfo) : Kept info info := ⟨rfl, rfl, rfl, fun h => h⟩

lemma kept_refl (o : Option CAddrInfo) : Option.Rel Kept o o := by
  cases o with
  | none => exact .none
  | some i => exact .some (.refl i)

/-- All entries of a manager are kept, and none is new. -/
def Alike (m m' : CAddrMan) : Prop :=
  ∀ id, Option.Rel Kept (m.mapInfo.lookup id) (m'.mapInfo.lookup id)

/-- Everything but the entries and the random order is the same. -/
structure SameSlots (m m' : CAddrMan) : Prop where
  alike : Alike m m'
  mapAddr : m'.mapAddr = m.mapAddr
  vvNew : m'.vvNew = m.vvNew
  vvTried : m'.vvTried = m.vvTried
  nKey : m'.nKey = m.nKey

lemma Alike.of_lookup (h : Alike m m') (hinfo : m.mapInfo.lookup nId = some info) :
    ∃ info', m'.mapInfo.lookup nId = some info' ∧ Kept info info' := by
  have hrel := h nId
  rw [hinfo] at hrel
  generalize m'.mapInfo.lookup nId = o at hrel
  cases hrel with
  | some hsame => exact ⟨_, rfl, hsame⟩

lemma Alike.lookup_of (h : Alike m m') (hinfo : m'.mapInfo.lookup nId = some info') :
    ∃ info, m.mapInfo.lookup nId = some info ∧ Kept info info' := by
  have hrel := h nId
  rw [hinfo] at hrel
  generalize m.mapInfo.lookup nId = o at hrel
  cases hrel with
  | some hsame => exact ⟨_, rfl, hsame⟩

lemma Alike.idsTried (h : Alike m m') (t : Bool) : m'.idsTried t = m.idsTried t := by
  ext id
  rw [mem_idsTried, mem_idsTried]
  constructor
  · rintro ⟨info', hinfo', ht⟩
    obtain ⟨info, hinfo, hsame⟩ := h.lookup_of hinfo'
    exact ⟨info, hinfo, hsame.tried ▸ ht⟩
  · rintro ⟨info, hinfo, ht⟩
    obtain ⟨info', hinfo', hsame⟩ := h.of_lookup hinfo
    exact ⟨info', hinfo', hsame.tried.trans ht⟩

lemma Alike.counted (h : Alike m m') {a b : ℤ} (hc : Counted m a b) : Counted m' a b := by
  rwa [Counted, h.idsTried, h.idsTried]

section

variable (hserv : info'.toCService = info.toCService) (nKey : Uint256)
include hserv

lemma getBucketPosition_congr (fNew : Bool) (b : ℕ) :
    info'.getBucketPosition env nKey fNew b = info.getBucketPosition env nKey fNew b := by
  simp [CAddrInfo.getBucketPosition, hserv]

lemma getTriedBucket_congr : info'.getTriedBucket env nKey = info.getTriedBucket env nKey := by
  simp [CAddrInfo.getTriedBucket, hserv]

end

lemma SameSlots.newBuckets (h : SameSlots m m') (hserv : info'.toCService = info.toCService)
    (id : ℤ) : m'.newBuckets env id info' = m.newBuckets env id info := by
  simp only [CAddrMan.newBuckets, h.vvNew, h.nKey, getBucketPosition_congr hserv]

lemma SameSlots.triedSlot (h : SameSlots m m') (hserv : info'.toCService = info.toCService) :
    m'.triedSlot env info' = m.triedSlot env info := by
  simp only [CAddrMan.triedSlot, h.vvTried, h.nKey, getBucketPosition_congr hserv,
    getTriedBucket_congr hserv]

lemma Slotted.same (h : Slotted env m) (hs : SameSlots m m') : Slotted env m' where
  nonneg hinfo := by
    obtain ⟨info, hinfo, -⟩ := hs.alike.lookup_of hinfo
    exact h.nonneg hinfo
  addr hinfo := by
    obtain ⟨info, hinfo, hserv, -⟩ := hs.alike.lookup_of hinfo
    rw [hs.mapAddr, hserv]
    exact h.addr hinfo
  found ha := by
    rw [hs.mapAddr] at ha
    obtain ⟨info, hinfo, hip⟩ := h.found ha
    obtain ⟨info', hinfo', hserv, -⟩ := hs.alike.of_lookup hinfo
    exact ⟨info', hinfo', by rw [hserv, hip]⟩
  newSlot hb := by
    rw [hs.vvNew] at hb ⊢
    obtain ⟨hlt, info, hinfo, ht, hp⟩ := h.newSlot hb
    obtain ⟨info', hinfo', hserv, htried, -⟩ := hs.alike.of_lookup hinfo
    exact ⟨hlt, info', hinfo', htried.trans ht,
      by rw [hs.nKey, getBucketPosition_congr hserv, hp]⟩
  refs hinfo := by
    obtain ⟨info, hinfo, hserv, -, hrefs, -⟩ := hs.alike.lookup_of hinfo
    rw [hrefs, hs.newBuckets hserv]
    exact h.refs hinfo
  few hinfo := by
    obtain ⟨info, hinfo, -, -, hrefs, -⟩ := hs.alike.lookup_of hinfo
    rw [hrefs]
    exact h.few hinfo
  triedSlot hb := by
    rw [hs.vvTried] at hb ⊢
    obtain ⟨info, hinfo, ht, hbucket, hp⟩ := h.triedSlot hb
    obtain ⟨info', hinfo', hserv, htried, -⟩ := hs.alike.of_lookup hinfo
    exact ⟨info', hinfo', htried.trans ht, by rw [hs.nKey, getTriedBucket_congr hserv, hbucket],
      by rw [hs.nKey, getBucketPosition_congr hserv, hp]⟩
  inTried hinfo ht := by
    obtain ⟨info, hinfo, hserv, htried, -⟩ := hs.alike.lookup_of hinfo
    rw [hs.triedSlot hserv]
    exact h.inTried hinfo (htried ▸ ht)

lemma Tables.congr (h : Tables env m) (hf : m'.failed = m.failed) (hi : m'.mapInfo = m.mapInfo)
    (ha : m'.mapAddr = m.mapAddr) (hr : m'.vRandom = m.vRandom) (ht : m'.vvTried = m.vvTried)
    (hn : m'.vvNew = m.vvNew) (hk : m'.nKey = m.nKey) : Tables env m' where
  ok := hf.trans h.ok
  slotted := by
    refine h.slotted.same ⟨fun id => ?_, ha, hn, ht, hk⟩
    rw [hi]
    exact kept_refl _
  order := by
    refine ⟨?_, ?_⟩
    · rw [hi, hr]
      exact h.order.pos
    · rw [hi, hr]
      exact h.order.entry
  timed := by
    rw [hi]
    exact h.timed

lemma Tables.lt_of_lookup (h : Tables env m) (hinfo : m.mapInfo.lookup nId = some info) :
    ∃ k : ℕ, info.nRandomPos = k ∧ k < m.vRandom.length ∧ m.vRandom[k]? = some nId := by
  obtain ⟨k, hk, hget⟩ := h.order.pos hinfo
  exact ⟨k, hk, (List.getElem?_eq_some_iff.mp hget).1, hget⟩

/-! ### Changes of one entry -/

lemma sameSlots_put (hinfo : m.mapInfo.lookup nId = some info) (hkept : Kept info info') :
    SameSlots m (m.put nId info') where
  alike id := by
    rw [lookup_put]
    split_ifs with hid
    · rw [hid, hinfo]
      exact .some hkept
    · exact kept_refl _
  mapAddr := rfl
  vvNew := rfl
  vvTried := rfl
  nKey := rfl

lemma Order.put (h : Order m) (hinfo : m.mapInfo.lookup nId = some info)
    (hpos : info'.nRandomPos = info.nRandomPos) : Order (m.put nId info') where
  pos {id i} hi := by
    rw [lookup_put] at hi
    split_ifs at hi with hid
    · obtain rfl := Option.some.inj hi
      rw [hpos, hid]
      exact h.pos hinfo
    · exact h.pos hi
  entry {k id} hk := by
    obtain ⟨i, hi, hik⟩ := h.entry hk
    rw [lookup_put]
    split_ifs with hid
    · rw [hid, hinfo] at hi
      exact ⟨info', rfl, by rw [hpos, Option.some.inj hi, hik]⟩
    · exact ⟨i, hi, hik⟩

lemma Tables.timed_put (h : Tables env m) (htimed : Timed info') {id : ℤ} {i : CAddrInfo}
    (hi : (m.put nId info').mapInfo.lookup id = some i) : Timed i := by
  rw [lookup_put] at hi
  split_ifs at hi with hid
  · rwa [← Option.some.inj hi]
  · exact h.timed hi

/-- An entry may change as long as its address, its table, its slots and its place in the random
order are the same. -/
lemma Tables.put (h : Tables env m) (hinfo : m.mapInfo.lookup nId = some info)
    (hkept : Kept info info') (hpos : info'.nRandomPos = info.nRandomPos)
    (htimed : Timed info') : Tables env (m.put nId info') where
  ok := h.ok
  slotted := h.slotted.same (sameSlots_put hinfo hkept)
  order := h.order.put hinfo hpos
  timed := h.timed_put htimed

/-! ### The random order -/

@[simp] lemma assert_true : m.assert true = m := by simp [assert]

lemma getD_of_getElem? {l : List ℤ} {k : ℕ} {x y : ℤ} (h : l[k]? = some x) : l.getD k y = x := by
  simp [List.getD_eq_getElem?_getD, h]

lemma getElem?_snoc {l : List ℤ} {k : ℕ} {x y : ℤ} (h : (l ++ [x])[k]? = some y) :
    k < l.length ∧ l[k]? = some y ∨ k = l.length ∧ x = y := by
  rcases lt_or_ge k l.length with hlt | hge
  · rw [List.getElem?_append_left hlt] at h
    exact .inl ⟨hlt, h⟩
  · rw [List.getElem?_append_right hge, List.getElem?_singleton] at h
    split_ifs at h with hk
    exact .inr ⟨by omega, Option.some.inj h⟩

lemma Order.swapRandom_eq (h : Order m) {k₁ k₂ : ℕ} (h₁ : k₁ < m.vRandom.length)
    (h₂ : k₂ < m.vRandom.length) (hne : k₁ ≠ k₂) :
    ∃ id₁ id₂ info₁ info₂, m.vRandom[k₁]? = some id₁ ∧ m.vRandom[k₂]? = some id₂ ∧ id₁ ≠ id₂ ∧
      m.mapInfo.lookup id₁ = some info₁ ∧ m.mapInfo.lookup id₂ = some info₂ ∧
      m.swapRandom k₁ k₂ =
        { (m.put id₁ { info₁ with nRandomPos := k₂ }).put id₂ { info₂ with nRandomPos := k₁ } with
          vRandom := (m.vRandom.set k₁ id₂).set k₂ id₁ } := by
  obtain ⟨id₁, hid₁⟩ : ∃ id, m.vRandom[k₁]? = some id := ⟨_, List.getElem?_eq_getElem h₁⟩
  obtain ⟨id₂, hid₂⟩ : ∃ id, m.vRandom[k₂]? = some id := ⟨_, List.getElem?_eq_getElem h₂⟩
  obtain ⟨info₁, hinfo₁, hk₁⟩ := h.entry hid₁
  obtain ⟨info₂, hinfo₂, hk₂⟩ := h.entry hid₂
  have hid : id₁ ≠ id₂ := by
    rintro rfl
    rw [hinfo₁] at hinfo₂
    rw [← Option.some.inj hinfo₂, hk₁] at hk₂
    exact hne (by exact_mod_cast hk₂)
  refine ⟨id₁, id₂, info₁, info₂, hid₁, hid₂, hid, hinfo₁, hinfo₂, ?_⟩
  have hin₁ : m.inRandom k₁ = true := by simp [inRandom, h₁]
  have hin₂ : m.inRandom k₂ = true := by simp [inRandom, h₂]
  have hcast : (k₁ : ℤ) ≠ k₂ := by exact_mod_cast hne
  have hinfo : (m.put id₁ { info₁ with nRandomPos := k₂ }).infoAt id₂ = info₂ :=
    infoAt_of_lookup (by rw [lookup_put, if_neg (Ne.symm hid), hinfo₂])
  rw [swapRandom, if_neg hcast]
  simp only [Int.toNat_natCast, getD_of_getElem? hid₁, getD_of_getElem? hid₂, hin₁, hin₂,
    Finmap.mem_of_lookup_eq_some hinfo₁, Finmap.mem_of_lookup_eq_some hinfo₂, decide_true,
    Bool.and_self, assert_true, infoAt_of_lookup hinfo₁, hinfo]
  rfl

structure Swapped (m m' : CAddrMan) (k₁ k₂ : ℕ) : Prop where
  same : SameSlots m m'
  order : Order m'
  timed : (∀ {id info}, m.mapInfo.lookup id = some info → Timed info) →
    ∀ {id info}, m'.mapInfo.lookup id = some info → Timed info
  length : m'.vRandom.length = m.vRandom.length
  there : m'.vRandom[k₂]? = m.vRandom[k₁]?
  rest : m'.failed = m.failed ∧ m'.nNew = m.nNew ∧ m'.nTried = m.nTried ∧
    m'.nIdCount = m.nIdCount ∧ m'.triedCollisions = m.triedCollisions ∧ m'.nLastGood = m.nLastGood

lemma Alike.refl (m : CAddrMan) : Alike m m := fun _ => kept_refl _

lemma SameSlots.refl (m : CAddrMan) : SameSlots m m := ⟨.refl m, rfl, rfl, rfl, rfl⟩

lemma Alike.trans {m₁ m₂ m₃ : CAddrMan} (h₁ : Alike m₁ m₂) (h₂ : Alike m₂ m₃) : Alike m₁ m₃ := by
  intro id
  cases hi : m₁.mapInfo.lookup id with
  | none =>
    cases hi' : m₃.mapInfo.lookup id with
    | none => exact .none
    | some i =>
      obtain ⟨j, hj, -⟩ := h₂.lookup_of hi'
      obtain ⟨i', hi', -⟩ := h₁.lookup_of hj
      rw [hi] at hi'
      cases hi'
  | some i =>
    obtain ⟨j, hj, hs, ht, hr, hn⟩ := h₁.of_lookup hi
    obtain ⟨i', hi', hs', ht', hr', hn'⟩ := h₂.of_lookup hj
    rw [hi']
    exact .some ⟨hs'.trans hs, ht'.trans ht, hr'.trans hr, fun h => hn' (hn h)⟩

lemma SameSlots.trans {m₁ m₂ m₃ : CAddrMan} (h₁ : SameSlots m₁ m₂) (h₂ : SameSlots m₂ m₃) :
    SameSlots m₁ m₃ :=
  ⟨h₁.alike.trans h₂.alike, h₂.mapAddr.trans h₁.mapAddr, h₂.vvNew.trans h₁.vvNew,
    h₂.vvTried.trans h₁.vvTried, h₂.nKey.trans h₁.nKey⟩

lemma Order.swapRandom (h : Order m) {k₁ k₂ : ℕ} (h₁ : k₁ < m.vRandom.length)
    (h₂ : k₂ < m.vRandom.length) : Swapped m (m.swapRandom k₁ k₂) k₁ k₂ := by
  by_cases hne : k₁ = k₂
  · subst hne
    have hself : m.swapRandom k₁ k₁ = m := by simp [CAddrMan.swapRandom]
    rw [hself]
    exact ⟨.refl m, h, fun ht => ht, rfl, rfl, by simp⟩
  obtain ⟨id₁, id₂, info₁, info₂, hid₁, hid₂, hid, hinfo₁, hinfo₂, heq⟩ :=
    h.swapRandom_eq h₁ h₂ hne
  have hinfo₂' : (m.put id₁ { info₁ with nRandomPos := k₂ }).mapInfo.lookup id₂ = some info₂ := by
    rw [lookup_put, if_neg (Ne.symm hid), hinfo₂]
  have hget : ∀ k : ℕ, ((m.vRandom.set k₁ id₂).set k₂ id₁)[k]? =
      if k = k₂ then some id₁ else if k = k₁ then some id₂ else m.vRandom[k]? := by
    intro k
    rw [List.getElem?_set, List.getElem?_set, List.length_set]
    by_cases hk₂ : k = k₂
    · subst hk₂
      simp [h₂]
    · by_cases hk₁ : k = k₁
      · subst hk₁
        simp [h₁, hk₂, Ne.symm hk₂]
      · simp [hk₁, hk₂, Ne.symm hk₁, Ne.symm hk₂]
  have hlook : ∀ id, (m.swapRandom k₁ k₂).mapInfo.lookup id =
      if id = id₂ then some { info₂ with nRandomPos := k₁ }
      else if id = id₁ then some { info₁ with nRandomPos := k₂ } else m.mapInfo.lookup id := by
    intro id
    rw [heq]
    exact (lookup_put id).trans (by rw [lookup_put])
  refine ⟨?_, ⟨?_, ?_⟩, ?_, ?_, ?_, ?_⟩
  · rw [heq]
    have hsame₁ : SameSlots m (m.put id₁ { info₁ with nRandomPos := k₂ }) :=
      sameSlots_put hinfo₁ ⟨rfl, rfl, rfl, fun h => h⟩
    have hsame₂ : SameSlots _ ((m.put id₁ { info₁ with nRandomPos := k₂ }).put id₂
        { info₂ with nRandomPos := k₁ }) :=
      sameSlots_put hinfo₂' ⟨rfl, rfl, rfl, fun h => h⟩
    exact ⟨(hsame₁.trans hsame₂).alike, rfl, rfl, rfl, rfl⟩
  · intro id info hinfo
    rw [hlook] at hinfo
    have hvec : (m.swapRandom k₁ k₂).vRandom = (m.vRandom.set k₁ id₂).set k₂ id₁ := by rw [heq]
    rw [hvec]
    split_ifs at hinfo with hi₂ hi₁
    · obtain rfl := Option.some.inj hinfo
      exact ⟨k₁, rfl, by rw [hget, if_neg hne, if_pos rfl, hi₂]⟩
    · obtain rfl := Option.some.inj hinfo
      exact ⟨k₂, rfl, by rw [hget, if_pos rfl, hi₁]⟩
    · obtain ⟨k, hk, hkid⟩ := h.pos hinfo
      refine ⟨k, hk, ?_⟩
      rw [hget, if_neg, if_neg, hkid]
      · rintro rfl
        exact hi₁ (Option.some.inj (hkid.symm.trans hid₁))
      · rintro rfl
        exact hi₂ (Option.some.inj (hkid.symm.trans hid₂))
  · intro k id hk
    have hvec : (m.swapRandom k₁ k₂).vRandom = (m.vRandom.set k₁ id₂).set k₂ id₁ := by rw [heq]
    rw [hvec, hget] at hk
    rw [hlook]
    split_ifs at hk with hk₂ hk₁
    · obtain rfl := Option.some.inj hk
      rw [if_neg hid, if_pos rfl]
      exact ⟨_, rfl, by rw [hk₂]⟩
    · obtain rfl := Option.some.inj hk
      rw [if_pos rfl]
      exact ⟨_, rfl, by rw [hk₁]⟩
    · obtain ⟨info, hinfo, hpos⟩ := h.entry hk
      rw [if_neg, if_neg]
      · exact ⟨info, hinfo, hpos⟩
      · rintro rfl
        obtain ⟨j, hj, hjk⟩ := h.entry hid₁
        rw [hinfo] at hj
        rw [← Option.some.inj hj, hpos] at hjk
        exact hk₁ (by exact_mod_cast hjk)
      · rintro rfl
        obtain ⟨j, hj, hjk⟩ := h.entry hid₂
        rw [hinfo] at hj
        rw [← Option.some.inj hj, hpos] at hjk
        exact hk₂ (by exact_mod_cast hjk)
  · intro ht id info hinfo
    rw [hlook] at hinfo
    split_ifs at hinfo
    · obtain rfl := Option.some.inj hinfo
      have ht₂ : Timed info₂ := ht hinfo₂
      exact ht₂
    · obtain rfl := Option.some.inj hinfo
      have ht₁ : Timed info₁ := ht hinfo₁
      exact ht₁
    · exact ht hinfo
  · rw [heq]
    simp
  · rw [heq, hid₁]
    exact (hget k₂).trans (if_pos rfl)
  · rw [heq]
    exact ⟨rfl, rfl, rfl, rfl, rfl, rfl⟩

/-! ### New entries -/

/-- A new entry at the end of the random order. -/
def append (m : CAddrMan) (nId : ℤ) (info : CAddrInfo) : CAddrMan :=
  { m.put nId { info with nRandomPos := m.vRandom.length } with
    mapAddr := Function.update m.mapAddr info.ip (some nId)
    vRandom := m.vRandom ++ [nId] }

lemma lookup_append (id : ℤ) : (m.append nId info).mapInfo.lookup id =
    if id = nId then some { info with nRandomPos := m.vRandom.length }
    else m.mapInfo.lookup id :=
  lookup_put id

lemma lookup_append_self (m : CAddrMan) (nId : ℤ) (info : CAddrInfo) :
    (m.append nId info).mapInfo.lookup nId = some { info with nRandomPos := m.vRandom.length } := by
  rw [lookup_append, if_pos rfl]

lemma lookup_append_of {id : ℤ} {i : CAddrInfo} (hi : m.mapInfo.lookup id = some i)
    (hne : id ≠ nId) : (m.append nId info).mapInfo.lookup id = some i := by
  rw [lookup_append, if_neg hne, hi]

lemma Order.append (h : Order m) (hnew : m.mapInfo.lookup nId = none) :
    Order (m.append nId info) where
  pos {id i} hi := by
    rw [lookup_append] at hi
    split_ifs at hi with hid
    · obtain rfl := Option.some.inj hi
      exact ⟨m.vRandom.length, rfl, by simp [CAddrMan.append, hid]⟩
    · obtain ⟨k, hk, hget⟩ := h.pos hi
      have hlt := (List.getElem?_eq_some_iff.mp hget).1
      refine ⟨k, hk, ?_⟩
      change (m.vRandom ++ [nId])[k]? = some id
      rw [List.getElem?_append_left hlt, hget]
  entry {k id} hk := by
    change (m.vRandom ++ [nId])[k]? = some id at hk
    rw [lookup_append]
    rcases getElem?_snoc hk with ⟨-, hk⟩ | ⟨rfl, rfl⟩
    · obtain ⟨i, hi, hik⟩ := h.entry hk
      rw [if_neg]
      · exact ⟨i, hi, hik⟩
      · rintro rfl
        rw [hnew] at hi
        cases hi
    · rw [if_pos rfl]
      exact ⟨_, rfl, rfl⟩

lemma Slotted.no_slot (h : Slotted env m) (hnew : m.mapInfo.lookup nId = none) (hid : nId ≠ -1) :
    (∀ b p, m.vvNew b p ≠ nId) ∧ ∀ b p, m.vvTried b p ≠ nId := by
  refine ⟨fun b p hbp => ?_, fun b p hbp => ?_⟩
  · obtain ⟨-, i, hi, -⟩ := h.newSlot (hbp ▸ hid)
    rw [hbp, hnew] at hi
    cases hi
  · obtain ⟨i, hi, -⟩ := h.triedSlot (hbp ▸ hid)
    rw [hbp, hnew] at hi
    cases hi

lemma forall_entry (hlook : ∀ id, m'.mapInfo.lookup id =
      if id = nId then some info' else m.mapInfo.lookup id) {P : ℤ → CAddrInfo → Prop}
    (hown : P nId info') (hother : ∀ {id i}, m.mapInfo.lookup id = some i → id ≠ nId → P id i)
    {id : ℤ} {i : CAddrInfo} (hi : m'.mapInfo.lookup id = some i) : P id i := by
  rw [hlook] at hi
  split_ifs at hi with heq
  · obtain rfl := Option.some.inj hi
    rw [heq]
    exact hown
  · exact hother hi heq

lemma Slotted.append (h : Slotted env m) (hnew : m.mapInfo.lookup nId = none) (hid : 0 ≤ nId)
    (hip : m.mapAddr info.ip = none) (hrefs : info.nRefCount = 0) (ht : info.fInTried = false) :
    Slotted env (m.append nId info) := by
  have hslot := (h.no_slot hnew (by omega)).1
  have hother : ∀ {id i}, m.mapInfo.lookup id = some i → id ≠ nId := by
    rintro id i hi rfl
    rw [hnew] at hi
    cases hi
  have hlook : ∀ id, (m.append nId info).mapInfo.lookup id =
      if id = nId then some { info with nRandomPos := m.vRandom.length }
      else m.mapInfo.lookup id := fun id => lookup_append id
  refine ⟨?_, ?_, ?_, ?_, ?_, ?_, ?_, ?_⟩
  · exact forall_entry (P := fun id _ => 0 ≤ id) hlook hid fun hi _ => h.nonneg hi
  · intro id i hi
    refine forall_entry (P := fun id i =>
      Function.update m.mapAddr info.ip (some nId) i.ip = some id) hlook
      (Function.update_self ..) ?_ hi
    intro id i hi _
    rw [Function.update_of_ne]
    · exact h.addr hi
    · intro hsame
      have haddr := h.addr hi
      rw [hsame, hip] at haddr
      cases haddr
  · intro a id ha
    change Function.update m.mapAddr info.ip (some nId) a = some id at ha
    by_cases hsame : a = info.ip
    · subst hsame
      rw [Function.update_self] at ha
      obtain rfl := Option.some.inj ha
      exact ⟨_, (lookup_append nId).trans (if_pos rfl), rfl⟩
    · rw [Function.update_of_ne hsame] at ha
      obtain ⟨i, hi, hia⟩ := h.found ha
      exact ⟨i, lookup_append_of hi (hother hi), hia⟩
  · intro b p hb
    obtain ⟨hlt, i, hi, hit, hp⟩ := h.newSlot hb
    exact ⟨hlt, i, lookup_append_of hi (hother hi), hit, hp⟩
  · have hempty : (m.append nId info).newBuckets env nId
        { info with nRandomPos := m.vRandom.length } = ∅ :=
      Finset.filter_eq_empty_iff.mpr fun b _ => hslot b _
    intro id i hi
    refine forall_entry (P := fun id i =>
      i.nRefCount = ((m.append nId info).newBuckets env id i).card) hlook ?_
      (fun hi _ => h.refs hi) hi
    rw [hempty]
    simpa using hrefs
  · have hfew : info.nRefCount ≤ ADDRMAN_NEW_BUCKETS_PER_ADDRESS := by
      rw [hrefs]
      decide
    intro id i hi
    exact forall_entry (P := fun _ i => i.nRefCount ≤ ADDRMAN_NEW_BUCKETS_PER_ADDRESS) hlook hfew
      (fun hi _ => h.few hi) hi
  · intro b p hb
    obtain ⟨i, hi, hrest⟩ := h.triedSlot hb
    exact ⟨i, lookup_append_of hi (hother hi), hrest⟩
  · intro id i hi
    refine forall_entry (P := fun id i => i.fInTried = true → m.triedSlot env i = id) hlook ?_
      (fun hi _ => h.inTried hi) hi
    intro hit
    change info.fInTried = true at hit
    rw [ht] at hit
    cases hit

lemma Tables.append (h : Tables env m) (hnew : m.mapInfo.lookup nId = none) (hid : 0 ≤ nId)
    (hip : m.mapAddr info.ip = none) (hrefs : info.nRefCount = 0) (ht : info.fInTried = false)
    (htimed : Timed info) : Tables env (m.append nId info) where
  ok := h.ok
  slotted := h.slotted.append hnew hid hip hrefs ht
  order := h.order.append hnew
  timed hi := by
    rw [lookup_append] at hi
    split_ifs at hi
    · obtain rfl := Option.some.inj hi
      exact htimed
    · exact h.timed hi

lemma idsTried_append (hnew : m.mapInfo.lookup nId = none) (t : Bool) :
    (m.append nId info).idsTried t =
      if info.fInTried = t then insert nId (m.idsTried t) else m.idsTried t := by
  ext id
  rw [mem_idsTried, lookup_append]
  by_cases hid : id = nId
  · subst hid
    have hnot : id ∉ m.idsTried t := by simp [mem_idsTried, hnew]
    split_ifs with ht <;> simp_all
  · split_ifs with ht <;> simp [mem_idsTried, hid]

lemma Counted.append {a b : ℤ} (h : Counted m a b) (hnew : m.mapInfo.lookup nId = none)
    (ht : info.fInTried = false) : Counted (m.append nId info) a (b + 1) := by
  have hnot : nId ∉ m.idsTried false := by simp [mem_idsTried, hnew]
  refine ⟨?_, ?_⟩
  · rw [idsTried_append hnew, if_neg (by simp [ht])]
    exact h.1
  · rw [idsTried_append hnew, if_pos ht, Finset.card_insert_of_notMem hnot]
    push_cast
    rw [h.2]

/-! ### Slots -/

lemma mem_newBuckets {b : ℕ} : b ∈ m.newBuckets env nId info ↔ b < ADDRMAN_NEW_BUCKET_COUNT ∧
    m.vvNew b (info.getBucketPosition env m.nKey true b) = nId := by
  simp [newBuckets]

lemma set_self (t : Slots) (b p : ℕ) (v : ℤ) : t.set b p v b p = v := by simp [Slots.set]

lemma set_of_ne {t : Slots} {b p b' p' : ℕ} {v : ℤ} (h : ¬(b' = b ∧ p' = p)) :
    t.set b p v b' p' = t b' p' := by
  simp [Slots.set, h]

lemma newBuckets_set_of_ne {b p : ℕ} {v id : ℤ} (hnew : m'.vvNew = m.vvNew.set b p v)
    (hkey : m'.nKey = m.nKey) (hv : v ≠ id) (hold : m.vvNew b p ≠ id) :
    m'.newBuckets env id info = m.newBuckets env id info := by
  ext b'
  rw [mem_newBuckets, mem_newBuckets, hnew, hkey]
  by_cases hbp : b' = b ∧ info.getBucketPosition env m.nKey true b' = p
  · rw [Slots.set, if_pos hbp, hbp.2, hbp.1]
    simp [hv, hold]
  · rw [set_of_ne hbp]

lemma newBuckets_set {b p : ℕ} (hnew : m'.vvNew = m.vvNew.set b p nId)
    (hkey : m'.nKey = m.nKey) (hb : b < ADDRMAN_NEW_BUCKET_COUNT)
    (hp : p = info.getBucketPosition env m.nKey true b) :
    m'.newBuckets env nId info = insert b (m.newBuckets env nId info) := by
  ext b'
  rw [Finset.mem_insert, mem_newBuckets, mem_newBuckets, hnew, hkey]
  by_cases hbb : b' = b
  · subst hbb
    simp [Slots.set, ← hp, hb]
  · rw [set_of_ne (fun h => hbb h.1)]
    simp [hbb]

lemma newBuckets_clear {b p : ℕ} (hnew : m'.vvNew = m.vvNew.set b p (-1))
    (hkey : m'.nKey = m.nKey) (hid : nId ≠ -1)
    (hp : p = info.getBucketPosition env m.nKey true b) :
    m'.newBuckets env nId info = (m.newBuckets env nId info).erase b := by
  ext b'
  rw [Finset.mem_erase, mem_newBuckets, mem_newBuckets, hnew, hkey]
  by_cases hbb : b' = b
  · subst hbb
    simp [Slots.set, ← hp, Ne.symm hid]
  · rw [set_of_ne (fun h => hbb h.1)]
    simp [hbb]

lemma Slotted.free (h : Slotted env m) (hinfo : m.mapInfo.lookup nId = some info)
    (hrefs : info.nRefCount = 0) (b p : ℕ) : m.vvNew b p ≠ nId := by
  intro hbp
  have hid := h.nonneg hinfo
  obtain ⟨hb, i, hi, -, hp⟩ := h.newSlot (b := b) (p := p) (by omega)
  rw [hbp, hinfo] at hi
  obtain rfl := Option.some.inj hi
  have hmem : b ∈ m.newBuckets env nId info := mem_newBuckets.mpr ⟨hb, by rw [← hp, hbp]⟩
  have hcard := Finset.card_pos.mpr ⟨b, hmem⟩
  have := h.refs hinfo
  omega

lemma Slotted.untried (h : Slotted env m) (hinfo : m.mapInfo.lookup nId = some info)
    (ht : info.fInTried = false) (b p : ℕ) : m.vvTried b p ≠ nId := by
  intro hbp
  have hid := h.nonneg hinfo
  obtain ⟨i, hi, hit, -⟩ := h.triedSlot (b := b) (p := p) (by omega)
  rw [hbp, hinfo] at hi
  rw [← Option.some.inj hi, ht] at hit
  cases hit

lemma exists_entry (hlook : ∀ id, m'.mapInfo.lookup id =
      if id = nId then some info' else m.mapInfo.lookup id)
    (hinfo : m.mapInfo.lookup nId = some info) {P : CAddrInfo → Prop} (hown : P info → P info')
    {id : ℤ} (h : ∃ i, m.mapInfo.lookup id = some i ∧ P i) :
    ∃ i, m'.mapInfo.lookup id = some i ∧ P i := by
  obtain ⟨i, hi, hP⟩ := h
  rw [hlook]
  split_ifs with heq
  · rw [heq, hinfo] at hi
    obtain rfl := Option.some.inj hi
    exact ⟨info', rfl, hown hP⟩
  · exact ⟨i, hi, hP⟩

lemma Slotted.set_new (h : Slotted env m) (hinfo : m.mapInfo.lookup nId = some info)
    (ht : info.fInTried = false) {r v : ℤ} {b p : ℕ}
    (hnew : v = nId ∨ v = -1) (hb : v = nId → b < ADDRMAN_NEW_BUCKET_COUNT)
    (hp : p = info.getBucketPosition env m.nKey true b)
    (hold : m.vvNew b p = nId ∨ m.vvNew b p = -1)
    (hm' : m' = { m.put nId { info with nRefCount := r } with vvNew := m.vvNew.set b p v })
    (hr : r = (m'.newBuckets env nId { info with nRefCount := r }).card)
    (hfew : r ≤ ADDRMAN_NEW_BUCKETS_PER_ADDRESS) : Slotted env m' := by
  have hlook : ∀ id, m'.mapInfo.lookup id =
      if id = nId then some { info with nRefCount := r } else m.mapInfo.lookup id := by
    intro id
    rw [hm']
    exact lookup_put id
  have haddr : m'.mapAddr = m.mapAddr := by rw [hm']; rfl
  have hvvNew : m'.vvNew = m.vvNew.set b p v := by rw [hm']
  have hvvTried : m'.vvTried = m.vvTried := by rw [hm']; rfl
  have hkey : m'.nKey = m.nKey := by rw [hm']; rfl
  refine ⟨?_, ?_, ?_, ?_, ?_, ?_, ?_, ?_⟩
  · exact forall_entry (P := fun id _ => 0 ≤ id) hlook (h.nonneg hinfo) fun hi _ => h.nonneg hi
  · have hown := h.addr hinfo
    rw [haddr]
    intro id i hi
    exact forall_entry (P := fun id i => m.mapAddr i.ip = some id) hlook hown
      (fun hi _ => h.addr hi) hi
  · intro a id ha
    rw [haddr] at ha
    exact exists_entry (P := fun i => i.ip = a) hlook hinfo (fun hia => hia) (h.found ha)
  · intro b' p' hb'
    rw [hvvNew] at hb' ⊢
    rw [hkey]
    by_cases hbp : b' = b ∧ p' = p
    · rw [hbp.1, hbp.2, set_self] at hb' ⊢
      obtain rfl : v = nId := hnew.resolve_right hb'
      rw [hlook, if_pos rfl]
      exact ⟨hb rfl, _, rfl, ht, hp⟩
    · rw [set_of_ne hbp] at hb' ⊢
      obtain ⟨hlt, hentry⟩ := h.newSlot hb'
      exact ⟨hlt, exists_entry (P := fun i => i.fInTried = false ∧
        p' = i.getBucketPosition env m.nKey true b') hlook hinfo (fun hi => hi) hentry⟩
  · refine forall_entry (P := fun id i => i.nRefCount = (m'.newBuckets env id i).card) hlook hr ?_
    intro id i hi hne
    have hpos := h.nonneg hi
    rw [newBuckets_set_of_ne hvvNew hkey]
    · exact h.refs hi
    · rcases hnew with rfl | rfl
      · exact Ne.symm hne
      · omega
    · rcases hold with hv | hv
      · rw [hv]
        exact Ne.symm hne
      · omega
  · exact forall_entry (P := fun _ i => i.nRefCount ≤ ADDRMAN_NEW_BUCKETS_PER_ADDRESS) hlook hfew
      fun hi _ => h.few hi
  · intro b' p' hb'
    rw [hvvTried] at hb' ⊢
    rw [hkey]
    exact exists_entry (P := fun i => i.fInTried = true ∧ b' = i.getTriedBucket env m.nKey ∧
      p' = i.getBucketPosition env m.nKey false b') hlook hinfo (fun hi => hi) (h.triedSlot hb')
  · have htried : ∀ j, m'.triedSlot env j = m.triedSlot env j := by
      intro j
      rw [hm']
      rfl
    intro id i hi
    refine forall_entry (P := fun id i => i.fInTried = true → m'.triedSlot env i = id)
      hlook ?_ ?_ hi
    · intro hit
      change info.fInTried = true at hit
      rw [ht] at hit
      cases hit
    · intro id i hi _ hit
      rw [htried]
      exact h.inTried hi hit

lemma idsTried_put (hinfo : m.mapInfo.lookup nId = some info)
    (ht : info'.fInTried = info.fInTried) (t : Bool) :
    (m.put nId info').idsTried t = m.idsTried t := by
  ext id
  rw [mem_idsTried, mem_idsTried, lookup_put]
  split_ifs with hid
  · subst hid
    simp [hinfo, ht]
  · rfl

lemma Tables.refer (h : Tables env m) (hinfo : m.mapInfo.lookup nId = some info)
    (ht : info.fInTried = false) {r : ℤ} {b p : ℕ} (hb : b < ADDRMAN_NEW_BUCKET_COUNT)
    (hp : p = info.getBucketPosition env m.nKey true b) (hfree : m.vvNew b p = -1)
    (hr : r = info.nRefCount + 1) (hfew : r ≤ ADDRMAN_NEW_BUCKETS_PER_ADDRESS) :
    Tables env (m.refer nId r b p) := by
  have hm' : m.refer nId r b p =
      { m.put nId { info with nRefCount := r } with vvNew := m.vvNew.set b p nId } := by
    rw [CAddrMan.refer, infoAt_of_lookup hinfo]
    rfl
  have hbuckets : (m.refer nId r b p).newBuckets env nId info =
      insert b (m.newBuckets env nId info) :=
    newBuckets_set (by rw [hm']) (by rw [hm']; rfl) hb hp
  have hnot : b ∉ m.newBuckets env nId info := by
    rw [mem_newBuckets, ← hp, hfree]
    have := h.slotted.nonneg hinfo
    omega
  refine ⟨by rw [hm']; exact h.ok, ?_, ?_, ?_⟩
  · refine h.slotted.set_new hinfo ht (.inl rfl) (fun _ => hb) hp (.inr hfree) hm' ?_ hfew
    change r = ((m.refer nId r b p).newBuckets env nId info).card
    rw [hbuckets, Finset.card_insert_of_notMem hnot, hr, h.slotted.refs hinfo]
    omega
  · rw [hm']
    have horder : Order (m.put nId { info with nRefCount := r }) := h.order.put hinfo rfl
    exact ⟨horder.pos, horder.entry⟩
  · intro id i hi
    rw [hm'] at hi
    have htimed := h.timed hinfo
    refine h.timed_put ?_ hi
    exact htimed

/-- The entry in a slot of the new table loses it. -/
def unrefer (m : CAddrMan) (nId : ℤ) (info : CAddrInfo) (b p : ℕ) : CAddrMan :=
  { m.put nId { info with nRefCount := info.nRefCount - 1 } with vvNew := m.vvNew.set b p (-1) }

lemma Tables.unrefer (h : Tables env m) (hinfo : m.mapInfo.lookup nId = some info) {b p : ℕ}
    (hbp : m.vvNew b p = nId) : Tables env (m.unrefer nId info b p) ∧ 0 < info.nRefCount ∧
      info.fInTried = false ∧ p = info.getBucketPosition env m.nKey true b := by
  have hid := h.slotted.nonneg hinfo
  obtain ⟨hb, i, hi, ht, hp⟩ := h.slotted.newSlot (b := b) (p := p) (by omega)
  rw [hbp, hinfo] at hi
  obtain rfl := Option.some.inj hi
  have hmem : b ∈ m.newBuckets env nId info := by
    rw [mem_newBuckets, ← hp]
    exact ⟨hb, hbp⟩
  have hbuckets : (m.unrefer nId info b p).newBuckets env nId info =
      (m.newBuckets env nId info).erase b :=
    newBuckets_clear rfl rfl (by omega) hp
  have hrefs := h.slotted.refs hinfo
  have hcard := Finset.card_pos.mpr ⟨b, hmem⟩
  refine ⟨⟨h.ok, ?_, ?_, ?_⟩, by omega, ht, hp⟩
  · refine h.slotted.set_new hinfo ht (r := info.nRefCount - 1) (.inr rfl) (fun hv => by omega) hp
      (.inl hbp) rfl ?_ ?_
    · change info.nRefCount - 1 = ((m.unrefer nId info b p).newBuckets env nId info).card
      rw [hbuckets, Finset.card_erase_of_mem hmem]
      omega
    · have := h.slotted.few hinfo
      omega
  · have horder : Order (m.put nId { info with nRefCount := info.nRefCount - 1 }) :=
      h.order.put hinfo rfl
    exact ⟨horder.pos, horder.entry⟩
  · intro id i hi
    have htimed := h.timed hinfo
    refine h.timed_put ?_ hi
    exact htimed

/-! ### Deleting -/

lemma Slotted.erase (h : Slotted env m) (hinfo : m.mapInfo.lookup nId = some info)
    (hrefs : info.nRefCount = 0) (ht : info.fInTried = false) {l : List ℤ} {n : ℤ} :
    Slotted env { m with
      vRandom := l
      mapAddr := Function.update m.mapAddr info.ip none
      mapInfo := m.mapInfo.erase nId
      nNew := n } := by
  have hnew := h.free hinfo hrefs
  have htried := h.untried hinfo ht
  have hlook : ∀ {id i}, (m.mapInfo.erase nId).lookup id = some i →
      id ≠ nId ∧ m.mapInfo.lookup id = some i := by
    intro id i hi
    rw [lookup_erase_eq] at hi
    split_ifs at hi with heq
    exact ⟨heq, hi⟩
  have hback : ∀ {id i}, id ≠ nId → m.mapInfo.lookup id = some i →
      (m.mapInfo.erase nId).lookup id = some i := by
    intro id i hne hi
    rw [lookup_erase_eq, if_neg hne, hi]
  refine ⟨?_, ?_, ?_, ?_, ?_, ?_, ?_, ?_⟩
  · intro id i hi
    exact h.nonneg (hlook hi).2
  · intro id i hi
    obtain ⟨hne, hi⟩ := hlook hi
    change Function.update m.mapAddr info.ip none i.ip = some id
    rw [Function.update_of_ne]
    · exact h.addr hi
    · intro hip
      have haddr := h.addr hi
      rw [hip, h.addr hinfo] at haddr
      exact hne (Option.some.inj haddr).symm
  · intro a id ha
    change Function.update m.mapAddr info.ip none a = some id at ha
    have hne : a ≠ info.ip := by
      rintro rfl
      rw [Function.update_self] at ha
      cases ha
    rw [Function.update_of_ne hne] at ha
    obtain ⟨i, hi, hia⟩ := h.found ha
    refine ⟨i, hback ?_ hi, hia⟩
    rintro rfl
    rw [hinfo] at hi
    exact hne (by rw [← hia, Option.some.inj hi])
  · intro b p hb
    obtain ⟨hlt, i, hi, hrest⟩ := h.newSlot hb
    exact ⟨hlt, i, hback (hnew b p) hi, hrest⟩
  · intro id i hi
    exact h.refs (hlook hi).2
  · intro id i hi
    exact h.few (hlook hi).2
  · intro b p hb
    obtain ⟨i, hi, hrest⟩ := h.triedSlot hb
    exact ⟨i, hback (htried b p) hi, hrest⟩
  · intro id i hi
    exact h.inTried (hlook hi).2

/-- What a change does not touch. -/
structure Carried (m m' : CAddrMan) : Prop where
  nKey : m'.nKey = m.nKey
  nIdCount : m'.nIdCount = m.nIdCount
  triedCollisions : m'.triedCollisions = m.triedCollisions
  entry : ∀ {id info'}, m'.mapInfo.lookup id = some info' →
    ∃ info, m.mapInfo.lookup id = some info ∧ info'.toCService = info.toCService

lemma Carried.refl (m : CAddrMan) : Carried m m := ⟨rfl, rfl, rfl, fun hi => ⟨_, hi, rfl⟩⟩

lemma Carried.trans {m₁ m₂ m₃ : CAddrMan} (h₁ : Carried m₁ m₂) (h₂ : Carried m₂ m₃) :
    Carried m₁ m₃ where
  nKey := h₂.nKey.trans h₁.nKey
  nIdCount := h₂.nIdCount.trans h₁.nIdCount
  triedCollisions := h₂.triedCollisions.trans h₁.triedCollisions
  entry hi := by
    obtain ⟨j, hj, hserv⟩ := h₂.entry hi
    obtain ⟨k, hk, hserv'⟩ := h₁.entry hj
    exact ⟨k, hk, hserv.trans hserv'⟩

lemma carried_put (hinfo : m.mapInfo.lookup nId = some info)
    (hserv : info'.toCService = info.toCService) : Carried m (m.put nId info') where
  nKey := rfl
  nIdCount := rfl
  triedCollisions := rfl
  entry {id i} hi := by
    rw [lookup_put] at hi
    split_ifs at hi with hid
    · obtain rfl := Option.some.inj hi
      exact ⟨info, by rw [hid, hinfo], hserv⟩
    · exact ⟨i, hi, rfl⟩

/-- What `Delete` does. -/
structure Deleted (env : AddrEnv) (m m' : CAddrMan) (nId : ℤ) : Prop where
  tables : Tables env m'
  carried : Carried m m'
  gone : m'.mapInfo.lookup nId = none
  kept : ∀ {id}, id ≠ nId → Option.Rel Kept (m.mapInfo.lookup id) (m'.mapInfo.lookup id)
  counted : ∀ {a b}, Counted m a b → Counted m' a (b - 1)
  rest : m'.vvNew = m.vvNew ∧ m'.vvTried = m.vvTried ∧ m'.nTried = m.nTried ∧
    m'.nNew = m.nNew - 1

lemma idsTried_erase {m₁ : CAddrMan} (h : m₁.mapInfo = m.mapInfo.erase nId) (t : Bool) :
    m₁.idsTried t = (m.idsTried t).erase nId := by
  ext id
  rw [Finset.mem_erase, mem_idsTried, mem_idsTried, h, lookup_erase_eq]
  split_ifs with hid <;> simp [hid]

lemma Order.dropLast {m m' : CAddrMan} {nId : ℤ} (h : Order m)
    (hend : m.vRandom[m.vRandom.length - 1]? = some nId)
    (hlook : ∀ id, m'.mapInfo.lookup id = if id = nId then none else m.mapInfo.lookup id)
    (hrandom : m'.vRandom = m.vRandom.dropLast) : Order m' := by
  refine ⟨?_, ?_⟩
  · intro id i hi
    rw [hlook] at hi
    split_ifs at hi with hid
    obtain ⟨j, hj, hjid⟩ := h.pos hi
    have hjlt := (List.getElem?_eq_some_iff.mp hjid).1
    have hjne : j ≠ m.vRandom.length - 1 := by
      rintro rfl
      exact hid (Option.some.inj (hjid.symm.trans hend))
    refine ⟨j, hj, ?_⟩
    rw [hrandom, List.getElem?_dropLast, if_pos (by omega), hjid]
  · intro j id hj
    have hjid : m.vRandom[j]? = some id ∧ j < m.vRandom.length - 1 := by
      rw [hrandom, List.getElem?_dropLast] at hj
      split_ifs at hj with hjlt
      exact ⟨hj, hjlt⟩
    obtain ⟨i, hi, hij⟩ := h.entry hjid.1
    rw [hlook, if_neg]
    · exact ⟨i, hi, hij⟩
    · rintro rfl
      obtain ⟨i', hi', hij'⟩ := h.entry hend
      rw [hi] at hi'
      rw [← Option.some.inj hi', hij] at hij'
      have := hjid.2
      omega

lemma Tables.delete (h : Tables env m) (hinfo : m.mapInfo.lookup nId = some info)
    (hrefs : info.nRefCount = 0) (ht : info.fInTried = false) :
    Deleted env m (m.delete nId) nId := by
  obtain ⟨k, hk, hlt, hget⟩ := h.lt_of_lookup hinfo
  have hlast : (m.vRandom.length : ℤ) - 1 = ((m.vRandom.length - 1 : ℕ) : ℤ) := by omega
  have hswap := h.order.swapRandom hlt (show m.vRandom.length - 1 < m.vRandom.length by omega)
  have heq : m.delete nId =
      { m.swapRandom k (m.vRandom.length - 1 : ℕ) with
        vRandom := (m.swapRandom k (m.vRandom.length - 1 : ℕ)).vRandom.dropLast
        mapAddr := Function.update (m.swapRandom k (m.vRandom.length - 1 : ℕ)).mapAddr info.ip none
        mapInfo := (m.swapRandom k (m.vRandom.length - 1 : ℕ)).mapInfo.erase nId
        nNew := (m.swapRandom k (m.vRandom.length - 1 : ℕ)).nNew - 1 } := by
    rw [CAddrMan.delete]
    simp only [infoAt_of_lookup hinfo, Finmap.mem_of_lookup_eq_some hinfo, decide_true, ht, hrefs,
      Bool.not_false, BEq.rfl, assert_true, hk, hlast]
  generalize hm₁ : m.swapRandom k (m.vRandom.length - 1 : ℕ) = m₁ at hswap heq
  obtain ⟨info₁, hinfo₁, hserv₁, ht₁, hrefs₁, -⟩ := hswap.same.alike.of_lookup hinfo
  have hip : info₁.ip = info.ip := by rw [hserv₁]
  have hend : m₁.vRandom[m.vRandom.length - 1]? = some nId := hswap.there.trans hget
  have hlook : ∀ id, (m.delete nId).mapInfo.lookup id =
      if id = nId then none else m₁.mapInfo.lookup id := by
    intro id
    rw [heq]
    exact lookup_erase_eq _ _ _
  refine ⟨⟨?_, ?_, ?_, ?_⟩, ⟨?_, ?_, ?_, ?_⟩, ?_, ?_, ?_, ?_⟩
  · rw [heq]
    exact hswap.rest.1.trans h.ok
  · rw [heq, ← hip]
    exact (h.slotted.same hswap.same).erase hinfo₁ (hrefs₁.trans hrefs) (ht₁.trans ht)
  · refine hswap.order.dropLast ?_ hlook (by rw [heq])
    rw [hswap.length, hend]
  · intro id i hi
    rw [hlook] at hi
    split_ifs at hi
    exact hswap.timed h.timed hi
  · rw [heq]
    exact hswap.same.nKey
  · rw [heq]
    exact hswap.rest.2.2.2.1
  · rw [heq]
    exact hswap.rest.2.2.2.2.1
  · intro id i hi
    rw [hlook] at hi
    split_ifs at hi
    obtain ⟨j, hj, hserv, -⟩ := hswap.same.alike.lookup_of hi
    exact ⟨j, hj, hserv⟩
  · rw [hlook, if_pos rfl]
  · intro id hid
    rw [hlook, if_neg hid]
    exact hswap.same.alike id
  · intro a b hc
    have herase : ∀ t, (m.delete nId).idsTried t = (m.idsTried t).erase nId := by
      intro t
      rw [← hswap.same.alike.idsTried t]
      exact idsTried_erase (by rw [heq]) t
    have hmem : nId ∈ m.idsTried false := mem_idsTried.mpr ⟨info, hinfo, ht⟩
    have hnot : nId ∉ m.idsTried true := by simp [mem_idsTried, hinfo, ht]
    have hpos := Finset.card_pos.mpr ⟨nId, hmem⟩
    refine ⟨?_, ?_⟩
    · rw [herase, Finset.erase_eq_of_notMem hnot, hc.1]
    · rw [herase, Finset.card_erase_of_mem hmem, ← hc.2]
      omega
  · rw [heq]
    exact ⟨hswap.same.vvNew, hswap.same.vvTried, hswap.rest.2.2.1,
      congrArg (· - 1) hswap.rest.2.1⟩

/-- Every entry that is not tried has a slot, but for some. -/
def UsedBut (m : CAddrMan) (X : Set ℤ) : Prop :=
  ∀ {id info}, id ∉ X → m.mapInfo.lookup id = some info → info.fInTried = false →
    info.nRefCount ≠ 0

/-- What `ClearNew` does. -/
structure ClearedNew (env : AddrEnv) (m m' : CAddrMan) (b p : ℕ) : Prop where
  tables : Tables env m'
  carried : Carried m m'
  slot : m'.vvNew b p = -1
  kept : ∀ {id}, id ≠ m.vvNew b p → Option.Rel Kept (m.mapInfo.lookup id) (m'.mapInfo.lookup id)
  used : ∀ {info}, m'.mapInfo.lookup (m.vvNew b p) = some info → m.vvNew b p ≠ -1 →
    info.nRefCount ≠ 0
  counted : ∀ {d}, Counted m m.nTried (m.nNew + d) → Counted m' m'.nTried (m'.nNew + d)
  rest : m'.vvTried = m.vvTried ∧ m'.nTried = m.nTried

lemma Tables.clearNew (h : Tables env m) (b p : ℕ) : ClearedNew env m (m.clearNew b p) b p := by
  by_cases hslot : m.vvNew b p = -1
  · have heq : m.clearNew b p = m := by simp [CAddrMan.clearNew, hslot]
    rw [heq]
    exact ⟨h, .refl m, hslot, fun _ => kept_refl _, fun _ hne => absurd hslot hne, fun hc => hc,
      rfl, rfl⟩
  obtain ⟨-, info, hinfo, -⟩ := h.slotted.newSlot hslot
  generalize hid : m.vvNew b p = nId at hslot hinfo
  obtain ⟨htables, hpos, ht, -⟩ := h.unrefer hinfo hid
  have hlook : ∀ id, (m.unrefer nId info b p).mapInfo.lookup id =
      if id = nId then some { info with nRefCount := info.nRefCount - 1 }
      else m.mapInfo.lookup id := lookup_put
  have hcarried : Carried m (m.unrefer nId info b p) := by
    obtain ⟨h₁, h₂, h₃, h₄⟩ :
        Carried m (m.put nId { info with nRefCount := info.nRefCount - 1 }) :=
      carried_put hinfo rfl
    exact ⟨h₁, h₂, h₃, h₄⟩
  have hcounted : ∀ {a c : ℤ}, Counted m a c → Counted (m.unrefer nId info b p) a c := by
    intro a c hc
    have hids : ∀ t, (m.unrefer nId info b p).idsTried t = m.idsTried t :=
      idsTried_put (m := m) hinfo
        (show ({ info with nRefCount := info.nRefCount - 1 } : CAddrInfo).fInTried = _ from rfl)
    exact ⟨by rw [hids]; exact hc.1, by rw [hids]; exact hc.2⟩
  have heq : m.clearNew b p = if info.nRefCount - 1 = 0 then (m.unrefer nId info b p).delete nId
      else m.unrefer nId info b p := by
    rw [CAddrMan.clearNew]
    simp only [hid, if_neg hslot, touch_of_lookup hinfo, infoAt_of_lookup hinfo, hpos, decide_true,
      assert_true]
    rfl
  by_cases hlast : info.nRefCount - 1 = 0
  · rw [heq, if_pos hlast]
    have hdel := htables.delete ((hlook nId).trans (if_pos rfl)) hlast ht
    refine ⟨hdel.tables, hcarried.trans hdel.carried, ?_, ?_, ?_, ?_, hdel.rest.2.1,
      hdel.rest.2.2.1⟩
    · rw [hdel.rest.1]
      exact set_self ..
    · intro id hne
      rw [hid] at hne
      have hkept := hdel.kept hne
      rwa [hlook, if_neg hne] at hkept
    · intro i hi
      rw [hid, hdel.gone] at hi
      cases hi
    · intro d hc
      rw [hdel.rest.2.2.1, hdel.rest.2.2.2]
      have hc' := hdel.counted (hcounted hc)
      rwa [show m.nNew + d - 1 = (m.unrefer nId info b p).nNew - 1 + d by
        change m.nNew + d - 1 = m.nNew - 1 + d; omega] at hc'
  · rw [heq, if_neg hlast]
    refine ⟨htables, hcarried, set_self .., ?_, ?_, hcounted, rfl, rfl⟩
    · intro id hne
      rw [hid] at hne
      rw [hlook, if_neg hne]
      exact kept_refl _
    · intro i hi _
      rw [hid, hlook, if_pos rfl] at hi
      rwa [← Option.some.inj hi]

lemma ClearedNew.usedBut {b p : ℕ} {X : Set ℤ} (h : ClearedNew env m m' b p)
    (hused : UsedBut m X) : UsedBut m' X := by
  intro id info hne hinfo ht
  by_cases hid : id = m.vvNew b p
  · subst hid
    refine h.used hinfo ?_
    have := h.tables.slotted.nonneg hinfo
    omega
  · have hkept := h.kept hid
    rw [hinfo] at hkept
    generalize ho : m.mapInfo.lookup id = o at hkept
    cases hkept with
    | some hsame =>
      rw [hsame.refs]
      exact hused hne ho (hsame.tried ▸ ht)

/-! ### The tried table -/

lemma Slotted.refs_tried (h : Slotted env m) (hinfo : m.mapInfo.lookup nId = some info)
    (ht : info.fInTried = true) : info.nRefCount = 0 := by
  rw [h.refs hinfo]
  have hempty : m.newBuckets env nId info = ∅ := by
    refine Finset.eq_empty_of_forall_notMem fun b hb => ?_
    have hslot := (mem_newBuckets.mp hb).2
    have hid := h.nonneg hinfo
    obtain ⟨-, i, hi, hit, -⟩ := h.newSlot (b := b)
      (p := info.getBucketPosition env m.nKey true b) (by omega)
    rw [hslot, hinfo] at hi
    rw [← Option.some.inj hi, ht] at hit
    cases hit
  rw [hempty]
  rfl

/-- An entry without new slots comes to the tried table, or leaves it. -/
def setTried (env : AddrEnv) (m : CAddrMan) (nId : ℤ) (info : CAddrInfo) (t : Bool) (n : ℤ) :
    CAddrMan :=
  { m.put nId { info with fInTried := t } with
    vvTried := m.vvTried.set (info.getTriedBucket env m.nKey)
      (info.getBucketPosition env m.nKey false (info.getTriedBucket env m.nKey))
      (if t then nId else -1)
    nTried := n }

lemma lookup_setTried {t : Bool} {n : ℤ} (id : ℤ) :
    (m.setTried env nId info t n).mapInfo.lookup id =
      if id = nId then some { info with fInTried := t } else m.mapInfo.lookup id :=
  lookup_put id

lemma Slotted.setTried (h : Slotted env m) (hinfo : m.mapInfo.lookup nId = some info)
    (hrefs : info.nRefCount = 0) (hslot : m.triedSlot env info = nId ∨ m.triedSlot env info = -1)
    (t : Bool) (n : ℤ) : Slotted env (m.setTried env nId info t n) := by
  have hnew := h.free hinfo hrefs
  have hlook : ∀ id, (m.setTried env nId info t n).mapInfo.lookup id =
      if id = nId then some { info with fInTried := t } else m.mapInfo.lookup id :=
    fun id => lookup_setTried id
  refine ⟨?_, ?_, ?_, ?_, ?_, ?_, ?_, ?_⟩
  · exact forall_entry (P := fun id _ => 0 ≤ id) hlook (h.nonneg hinfo) fun hi _ => h.nonneg hi
  · have hown := h.addr hinfo
    intro id i hi
    exact forall_entry (P := fun id i => m.mapAddr i.ip = some id) hlook hown
      (fun hi _ => h.addr hi) hi
  · intro a id ha
    exact exists_entry (P := fun i => i.ip = a) hlook hinfo (fun hia => hia) (h.found ha)
  · intro b p hb
    obtain ⟨hlt, i, hi, hrest⟩ := h.newSlot hb
    refine ⟨hlt, i, (lookup_setTried _).trans ?_, hrest⟩
    exact (if_neg (hnew b p)).trans hi
  · have hown := h.refs hinfo
    intro id i hi
    exact forall_entry (P := fun id i => i.nRefCount = (m.newBuckets env id i).card) hlook hown
      (fun hi _ => h.refs hi) hi
  · have hown := h.few hinfo
    intro id i hi
    exact forall_entry (P := fun _ i => i.nRefCount ≤ ADDRMAN_NEW_BUCKETS_PER_ADDRESS) hlook hown
      (fun hi _ => h.few hi) hi
  · intro b p hb
    change m.vvTried.set _ _ (if t then nId else -1) b p ≠ -1 at hb
    change ∃ i, (m.setTried env nId info t n).mapInfo.lookup
      (m.vvTried.set _ _ (if t then nId else -1) b p) = some i ∧ _
    by_cases hbp : b = info.getTriedBucket env m.nKey ∧
        p = info.getBucketPosition env m.nKey false (info.getTriedBucket env m.nKey)
    · obtain ⟨rfl, rfl⟩ := hbp
      rw [set_self] at hb ⊢
      have ht : t = true := by
        by_contra hf
        simp [hf] at hb
      subst ht
      rw [if_pos rfl, lookup_setTried, if_pos rfl]
      exact ⟨_, rfl, rfl, rfl, rfl⟩
    · rw [set_of_ne hbp] at hb ⊢
      obtain ⟨i, hi, hit, hib, hip⟩ := h.triedSlot hb
      have hne : m.vvTried b p ≠ nId := by
        intro heq
        rw [heq, hinfo] at hi
        obtain rfl := Option.some.inj hi
        exact hbp ⟨hib, hib ▸ hip⟩
      rw [lookup_setTried, if_neg hne]
      exact ⟨i, hi, hit, hib, hip⟩
  · intro id i hi
    refine forall_entry (P := fun id i => i.fInTried = true →
      (m.setTried env nId info t n).triedSlot env i = id) hlook ?_ ?_ hi
    · intro hit
      change t = true at hit
      rw [hit]
      exact set_self ..
    · intro id i hi hne hit
      have hown := h.inTried hi hit
      rw [CAddrMan.triedSlot] at hown
      rw [CAddrMan.triedSlot]
      refine (set_of_ne (fun hsame => ?_)).trans hown
      have hslot' : m.triedSlot env info = id := by
        rw [CAddrMan.triedSlot, ← hsame.2, ← hsame.1]
        exact hown
      have hid' := h.nonneg hi
      rcases hslot with hs | hs
      · exact hne (hslot'.symm.trans hs)
      · omega

lemma Tables.setTried (h : Tables env m) (hinfo : m.mapInfo.lookup nId = some info)
    (hrefs : info.nRefCount = 0) (hslot : m.triedSlot env info = nId ∨ m.triedSlot env info = -1)
    {t : Bool} (ht : t = true → info.nLastSuccess ≠ 0) (n : ℤ) :
    Tables env (m.setTried env nId info t n) where
  ok := h.ok
  slotted := h.slotted.setTried hinfo hrefs hslot t n
  order := by
    have horder : Order (m.put nId { info with fInTried := t }) := h.order.put hinfo rfl
    exact ⟨horder.pos, horder.entry⟩
  timed {id i} hi := by
    rw [lookup_setTried] at hi
    split_ifs at hi
    · obtain rfl := Option.some.inj hi
      obtain ⟨htry, hsuccess, -⟩ := h.timed hinfo
      exact ⟨htry, hsuccess, ht⟩
    · exact h.timed hi

lemma carried_setTried (hinfo : m.mapInfo.lookup nId = some info) (t : Bool) (n : ℤ) :
    Carried m (m.setTried env nId info t n) := by
  have hput : Carried m (m.put nId { info with fInTried := t }) := carried_put hinfo rfl
  exact ⟨hput.nKey, hput.nIdCount, hput.triedCollisions, hput.entry⟩

lemma Counted.setTried (env : AddrEnv) {a b : ℤ} (h : Counted m a b)
    (hinfo : m.mapInfo.lookup nId = some info)
    (t : Bool) (n : ℤ) (ht : info.fInTried = !t) :
    Counted (m.setTried env nId info t n) (if t then a + 1 else a - 1)
      (if t then b - 1 else b + 1) := by
  have hids : ∀ t', (m.setTried env nId info t n).idsTried t' =
      if t' = t then insert nId (m.idsTried t') else (m.idsTried t').erase nId := by
    intro t'
    ext id
    rw [mem_idsTried, lookup_setTried]
    by_cases hid : id = nId
    · subst hid
      by_cases htt : t' = t
      · simp [htt]
      · simp [htt, Ne.symm htt]
    · by_cases htt : t' = t <;> simp [hid, htt, mem_idsTried]
  have hmem : nId ∈ m.idsTried (!t) := mem_idsTried.mpr ⟨info, hinfo, ht⟩
  have hnot : nId ∉ m.idsTried t := by
    cases t <;> simp [mem_idsTried, hinfo, ht]
  obtain ⟨ha, hb⟩ := h
  cases t with
  | true =>
    have hpos := Finset.card_pos.mpr ⟨nId, hmem⟩
    rw [Bool.not_true] at hmem hpos
    refine ⟨?_, ?_⟩
    · rw [hids, if_pos rfl, Finset.card_insert_of_notMem hnot, if_pos rfl]
      omega
    · rw [hids, if_neg (by simp), Finset.card_erase_of_mem hmem, if_pos rfl]
      omega
  | false =>
    have hpos := Finset.card_pos.mpr ⟨nId, hmem⟩
    rw [Bool.not_false] at hmem hpos
    refine ⟨?_, ?_⟩
    · rw [hids, if_neg (by simp), Finset.card_erase_of_mem hmem, if_neg (by simp)]
      omega
    · rw [hids, if_pos rfl, Finset.card_insert_of_notMem hnot, if_neg (by simp)]
      omega

lemma getNewBucket_lt (env : AddrEnv) (info : CAddrInfo) (nKey : Uint256) (src : CNetAddr) :
    info.getNewBucket env nKey src < ADDRMAN_NEW_BUCKET_COUNT :=
  Nat.mod_lt _ (by decide)

lemma leaveTried_eq {b p : ℕ} (hinfo : m.mapInfo.lookup (m.vvTried b p) = some info)
    (hb : b = info.getTriedBucket env m.nKey)
    (hp : p = info.getBucketPosition env m.nKey false b) :
    m.leaveTried b p = m.setTried env (m.vvTried b p) info false (m.nTried - 1) := by
  rw [CAddrMan.setTried, ← hb, ← hp, CAddrMan.leaveTried]
  simp only [Finmap.mem_of_lookup_eq_some hinfo, decide_true, assert_true, touch_of_lookup hinfo,
    infoAt_of_lookup hinfo]
  rfl

lemma refer_of_lookup (hinfo : m.mapInfo.lookup nId = some info) (r : ℤ) (b p : ℕ) :
    m.refer nId r b p =
      { m.put nId { info with nRefCount := r } with vvNew := m.vvNew.set b p nId } := by
  rw [CAddrMan.refer, infoAt_of_lookup hinfo]
  rfl

lemma lookup_refer (hinfo : m.mapInfo.lookup nId = some info) {r : ℤ} {b p : ℕ} (id : ℤ) :
    (m.refer nId r b p).mapInfo.lookup id =
      if id = nId then some { info with nRefCount := r } else m.mapInfo.lookup id := by
  rw [refer_of_lookup hinfo]
  exact lookup_put id

lemma carried_refer (hinfo : m.mapInfo.lookup nId = some info) (r : ℤ) (b p : ℕ) :
    Carried m (m.refer nId r b p) := by
  have hput : Carried m (m.put nId { info with nRefCount := r }) := carried_put hinfo rfl
  rw [refer_of_lookup hinfo]
  exact ⟨hput.nKey, hput.nIdCount, hput.triedCollisions, hput.entry⟩

lemma Counted.refer {a c : ℤ} (h : Counted m a c) (hinfo : m.mapInfo.lookup nId = some info)
    (r : ℤ) (b p : ℕ) : Counted (m.refer nId r b p) a c := by
  have hids : ∀ t, (m.refer nId r b p).idsTried t = m.idsTried t := by
    intro t
    ext id
    rw [mem_idsTried, mem_idsTried, lookup_refer hinfo]
    split_ifs with hid
    · subst hid
      simp [hinfo]
    · rfl
  exact ⟨by rw [hids]; exact h.1, by rw [hids]; exact h.2⟩

/-- What it means that an entry gets a slot of the new table which may be taken from another. -/
structure Entered (env : AddrEnv) (m m' : CAddrMan) (nId : ℤ) : Prop where
  tables : Tables env m'
  carried : Carried m m'
  kept : ∀ {id info}, id ≠ nId → m.mapInfo.lookup id = some info → info.nRefCount = 0 →
    ∃ info', m'.mapInfo.lookup id = some info' ∧ Kept info info'
  used : ∀ {X : Set ℤ}, UsedBut m (insert nId X) → UsedBut m' X
  counted : ∀ {d}, Counted m m.nTried (m.nNew + d) → Counted m' m'.nTried (m'.nNew + d)
  rest : m'.vvTried = m.vvTried ∧ m'.nTried = m.nTried

lemma Tables.enter (h : Tables env m) (hinfo : m.mapInfo.lookup nId = some info)
    (ht : info.fInTried = false) {b p : ℕ} (hb : b < ADDRMAN_NEW_BUCKET_COUNT)
    (hp : p = info.getBucketPosition env m.nKey true b) (hne : m.vvNew b p ≠ nId)
    (hfew : info.nRefCount < ADDRMAN_NEW_BUCKETS_PER_ADDRESS) :
    Entered env m ((m.clearNew b p).refer nId (info.nRefCount + 1) b p) nId ∧
      ((m.clearNew b p).infoAt nId).nRefCount = info.nRefCount ∧
      (m.clearNew b p).vvNew b p = -1 := by
  have hclear := h.clearNew b p
  obtain ⟨info₁, hinfo₁, hserv, ht₁, hrefs₁, -⟩ :
      ∃ info₁, (m.clearNew b p).mapInfo.lookup nId = some info₁ ∧ Kept info info₁ := by
    have hkept := hclear.kept (Ne.symm hne)
    rw [hinfo] at hkept
    generalize (m.clearNew b p).mapInfo.lookup nId = o at hkept
    cases hkept with
    | some hsame => exact ⟨_, rfl, hsame⟩
  have hp₁ : p = info₁.getBucketPosition env (m.clearNew b p).nKey true b := by
    rw [hclear.carried.nKey, getBucketPosition_congr hserv, hp]
  refine ⟨⟨?_, ?_, ?_, ?_, ?_, ?_⟩, ?_, hclear.slot⟩
  · exact hclear.tables.refer hinfo₁ (ht₁.trans ht) hb hp₁ hclear.slot (by rw [hrefs₁])
      (by omega)
  · exact hclear.carried.trans (carried_refer hinfo₁ _ _ _)
  · intro id i hid hi hrefs
    have hne : id ≠ m.vvNew b p := fun heq => h.slotted.free hi hrefs b p heq.symm
    have hkept := hclear.kept hne
    rw [hi] at hkept
    rw [lookup_refer hinfo₁, if_neg hid]
    generalize (m.clearNew b p).mapInfo.lookup id = o at hkept
    cases hkept with
    | some hsame => exact ⟨_, rfl, hsame⟩
  · intro X hused id i hid hi hit
    rw [lookup_refer hinfo₁] at hi
    split_ifs at hi with heq
    · obtain rfl := Option.some.inj hi
      have hnonneg := h.slotted.refs hinfo
      change info.nRefCount + 1 ≠ 0
      omega
    · exact hclear.usedBut hused (by simp [heq, hid]) hi hit
  · intro d hc
    have hc' := (hclear.counted hc).refer hinfo₁ (info.nRefCount + 1) b p
    rwa [refer_of_lookup hinfo₁] at hc' ⊢
  · rw [refer_of_lookup hinfo₁]
    exact hclear.rest
  · rw [infoAt_of_lookup hinfo₁, hrefs₁]

lemma Tables.enterAgain (h : Tables env m) (hinfo : m.mapInfo.lookup nId = some info)
    (ht : info.fInTried = false) (hrefs : info.nRefCount = 0) :
    ∃ m₁, Entered env m m₁ nId ∧ m.enterAgain env nId = { m₁ with nNew := m₁.nNew + 1 } := by
  obtain ⟨hentered, -, hslot⟩ := h.enter hinfo ht
    (getNewBucket_lt env info m.nKey info.source) rfl (h.slotted.free hinfo hrefs _ _)
    (by rw [hrefs]; decide)
  refine ⟨_, hentered, ?_⟩
  rw [CAddrMan.enterAgain]
  simp only [infoAt_of_lookup hinfo, hslot, BEq.rfl, assert_true, hrefs, zero_add]

/-- What the eviction of an entry from the tried table does, where another entry is about to take
the place. -/
structure Evicted (env : AddrEnv) (m m' : CAddrMan) (b p : ℕ) : Prop where
  tables : Tables env m'
  carried : Carried m m'
  vvTried : m'.vvTried = m.vvTried.set b p (-1)
  kept : ∀ {id info}, info.fInTried = false → m.mapInfo.lookup id = some info →
    info.nRefCount = 0 → ∃ info', m'.mapInfo.lookup id = some info' ∧ Kept info info'
  used : ∀ {X : Set ℤ}, UsedBut m X → UsedBut m' X
  counted : ∀ {d}, Counted m m.nTried (m.nNew + d) → Counted m' m'.nTried (m'.nNew + d)
  nTried : m'.nTried = m.nTried - 1

lemma Tables.evict (h : Tables env m) {b p : ℕ} (hslot : m.vvTried b p ≠ -1) :
    Evicted env m (m.evict env b p) b p := by
  obtain ⟨info, hinfo, ht, hb, hp⟩ := h.slotted.triedSlot hslot
  have hrefs := h.slotted.refs_tried hinfo ht
  have hown : m.triedSlot env info = m.vvTried b p := h.slotted.inTried hinfo ht
  have hleave := leaveTried_eq hinfo hb hp
  have htables : Tables env (m.leaveTried b p) := by
    rw [hleave]
    exact h.setTried hinfo hrefs (.inl hown) (by simp) _
  have hlook : ∀ id, (m.leaveTried b p).mapInfo.lookup id =
      if id = m.vvTried b p then some { info with fInTried := false }
      else m.mapInfo.lookup id := by
    intro id
    rw [hleave]
    exact lookup_setTried id
  obtain ⟨m₁, hentered, heq⟩ := htables.enterAgain ((hlook _).trans (if_pos rfl)) rfl hrefs
  have hevict : m.evict env b p = { m₁ with nNew := m₁.nNew + 1 } := heq
  have hcarried : Carried m (m.leaveTried b p) := by
    rw [hleave]
    exact carried_setTried hinfo false _
  have htried : (m.leaveTried b p).nTried = m.nTried - 1 := by
    rw [hleave]
    rfl
  rw [hevict]
  refine ⟨?_, ?_, ?_, ?_, ?_, ?_, ?_⟩
  · exact hentered.tables.congr rfl rfl rfl rfl rfl rfl rfl
  · obtain ⟨h₁, h₂, h₃, h₄⟩ := hcarried.trans hentered.carried
    exact ⟨h₁, h₂, h₃, h₄⟩
  · refine hentered.rest.1.trans ?_
    rw [hleave, CAddrMan.setTried, ← hb, ← hp]
    rfl
  · intro id i hit hi hir
    have hne : id ≠ m.vvTried b p := by
      rintro rfl
      rw [hinfo] at hi
      rw [← Option.some.inj hi, ht] at hit
      cases hit
    exact hentered.kept hne ((hlook id).trans ((if_neg hne).trans hi)) hir
  · intro X hused
    refine hentered.used (X := X) ?_
    intro id i hid hi hit
    simp only [Set.mem_insert_iff, not_or] at hid
    rw [hlook, if_neg hid.1] at hi
    exact hused hid.2 hi hit
  · intro d hc
    have hc₁ : Counted (m.leaveTried b p) (m.leaveTried b p).nTried
        ((m.leaveTried b p).nNew + (d + 1)) := by
      have hc' := hc.setTried env hinfo false (m.nTried - 1) ht
      rw [← hleave] at hc'
      have hnew : (m.leaveTried b p).nNew = m.nNew := by
        rw [hleave]
        rfl
      rw [htried, hnew, ← add_assoc]
      exact hc'
    have hc₂ := hentered.counted hc₁
    rw [show m₁.nNew + (d + 1) = m₁.nNew + 1 + d by omega] at hc₂
    exact hc₂
  · exact hentered.rest.2.trans htried

lemma set_eq_self {t : Slots} {b p : ℕ} {v : ℤ} (h : t b p = v) : t.set b p v = t := by
  funext b' p'
  by_cases hbp : b' = b ∧ p' = p
  · rw [hbp.1, hbp.2, set_self, h]
  · exact set_of_ne hbp

lemma Tables.makeSpace (h : Tables env m) (b p : ℕ) :
    ∃ m₁, (if m.vvTried b p = -1 then m else m.evict env b p) = m₁ ∧ Tables env m₁ ∧
      Carried m m₁ ∧ m₁.vvTried = m.vvTried.set b p (-1) ∧
      (∀ {id info}, info.fInTried = false → m.mapInfo.lookup id = some info →
        info.nRefCount = 0 → ∃ info', m₁.mapInfo.lookup id = some info' ∧ Kept info info') ∧
      (∀ {X : Set ℤ}, UsedBut m X → UsedBut m₁ X) ∧
      (∀ {d}, Counted m m.nTried (m.nNew + d) → Counted m₁ m₁.nTried (m₁.nNew + d)) ∧
      m.nTried - 1 ≤ m₁.nTried := by
  by_cases hslot : m.vvTried b p = -1
  · rw [if_pos hslot]
    exact ⟨m, rfl, h, .refl m, (set_eq_self hslot).symm, fun _ hi _ => ⟨_, hi, .refl _⟩,
      fun hused => hused, fun hc => hc, by omega⟩
  · rw [if_neg hslot]
    have hev := h.evict hslot
    exact ⟨_, rfl, hev.tables, hev.carried, hev.vvTried, hev.kept, hev.used, hev.counted,
      hev.nTried.ge⟩

lemma Tables.enterTried (h : Tables env m) (hinfo : m.mapInfo.lookup nId = some info)
    (ht : info.fInTried = false) (hrefs : info.nRefCount = 0) (htime : info.nLastSuccess ≠ 0) :
    Tables env (m.enterTried env nId) ∧ Carried m (m.enterTried env nId) ∧
      (∀ {b p}, m.vvTried b p ≠ -1 → (m.enterTried env nId).vvTried b p ≠ -1) ∧
      (UsedBut m {nId} → UsedBut (m.enterTried env nId) ∅) ∧
      (Counted m m.nTried m.nNew → Counted (m.enterTried env nId)
        (m.enterTried env nId).nTried (m.enterTried env nId).nNew) ∧
      m.nTried ≤ (m.enterTried env nId).nTried := by
  have htables : Tables env { m with nNew := m.nNew - 1 } := h.congr rfl rfl rfl rfl rfl rfl rfl
  obtain ⟨m₁, heq, htables₁, hcarried₁, hvv, hkept, hused, hcounted, hle⟩ :=
    htables.makeSpace (info.getTriedBucket env m.nKey)
      (info.getBucketPosition env m.nKey false (info.getTriedBucket env m.nKey))
  obtain ⟨info₁, hinfo₁, hserv, ht₁, hrefs₁, hreached⟩ := hkept ht hinfo hrefs
  have hbucket : info₁.getTriedBucket env m₁.nKey = info.getTriedBucket env m.nKey := by
    rw [getTriedBucket_congr hserv, hcarried₁.nKey]
  have hpos : info₁.getBucketPosition env m₁.nKey false (info.getTriedBucket env m.nKey) =
      info.getBucketPosition env m.nKey false (info.getTriedBucket env m.nKey) := by
    rw [getBucketPosition_congr hserv, hcarried₁.nKey]
  have hfree : m₁.vvTried (info.getTriedBucket env m.nKey)
      (info.getBucketPosition env m.nKey false (info.getTriedBucket env m.nKey)) = -1 := by
    rw [hvv, set_self]
  have hresult : m.enterTried env nId = m₁.setTried env nId info₁ true (m₁.nTried + 1) := by
    rw [CAddrMan.enterTried, CAddrMan.setTried, hbucket, hpos]
    have hown : ({ m with nNew := m.nNew - 1 } : CAddrMan).infoAt nId = info :=
      infoAt_of_lookup hinfo
    simp only [hown, hrefs, BEq.rfl, assert_true]
    simp only [heq, hfree, BEq.rfl, assert_true]
    have hown₁ : ({ m₁ with
        vvTried := m₁.vvTried.set (info.getTriedBucket env m.nKey)
          (info.getBucketPosition env m.nKey false (info.getTriedBucket env m.nKey)) nId
        nTried := m₁.nTried + 1 } : CAddrMan).infoAt nId = info₁ := infoAt_of_lookup hinfo₁
    rw [hown₁]
    rfl
  have hslot₁ : m₁.triedSlot env info₁ = -1 := by
    rw [CAddrMan.triedSlot, hbucket, hpos, hfree]
  rw [hresult]
  refine ⟨?_, ?_, ?_, ?_, ?_, ?_⟩
  · exact htables₁.setTried hinfo₁ (hrefs₁.trans hrefs) (.inr hslot₁)
      (fun _ => hreached htime) _
  · obtain ⟨h₁, h₂, h₃, h₄⟩ := hcarried₁.trans (carried_setTried hinfo₁ true (m₁.nTried + 1))
    exact ⟨h₁, h₂, h₃, h₄⟩
  · intro b p hb
    rw [CAddrMan.setTried]
    change m₁.vvTried.set _ _ nId b p ≠ -1
    rw [hbucket, hpos, hvv]
    by_cases hbp : b = info.getTriedBucket env m.nKey ∧
        p = info.getBucketPosition env m.nKey false (info.getTriedBucket env m.nKey)
    · rw [hbp.1, hbp.2, set_self]
      have := h.slotted.nonneg hinfo
      omega
    · rw [set_of_ne hbp, set_of_ne hbp]
      exact hb
  · intro hu id i _ hi hit
    rw [lookup_setTried] at hi
    split_ifs at hi with heq'
    · obtain rfl := Option.some.inj hi
      cases hit
    · exact hused (X := {nId}) hu (by simpa using heq') hi hit
  · intro hc
    have hc₁ : Counted m₁ m₁.nTried (m₁.nNew + 1) := by
      refine hcounted ?_
      change Counted { m with nNew := m.nNew - 1 } m.nTried (m.nNew - 1 + 1)
      rwa [sub_add_cancel]
    have hc₂ := hc₁.setTried env hinfo₁ true (m₁.nTried + 1) (ht₁.trans ht)
    rw [if_pos rfl, if_pos rfl, add_sub_cancel_right] at hc₂
    exact hc₂
  · change m.nTried - 1 ≤ m₁.nTried at hle
    change m.nTried ≤ m₁.nTried + 1
    omega

/-- The loop of `MakeTried`, after the entry has left some buckets. -/
structure Leaving (env : AddrEnv) (m m' : CAddrMan) (nId : ℤ) (info : CAddrInfo) (bs : List ℕ) :
    Prop where
  tables : Tables env m'
  carried : Carried m m'
  entry : ∃ info', m'.mapInfo.lookup nId = some info' ∧ info'.toCService = info.toCService ∧
    info'.fInTried = false ∧ info'.nLastSuccess = info.nLastSuccess
  others : ∀ {id}, id ≠ nId → m'.mapInfo.lookup id = m.mapInfo.lookup id
  buckets : ∀ b ∈ bs, b ∉ m'.newBuckets env nId info
  fewer : m'.newBuckets env nId info ⊆ m.newBuckets env nId info
  counted : ∀ {a b}, Counted m a b → Counted m' a b
  rest : m'.vvTried = m.vvTried ∧ m'.nTried = m.nTried ∧ m'.nNew = m.nNew

lemma Tables.leaveNew (h : Tables env m) (hinfo : m.mapInfo.lookup nId = some info)
    (ht : info.fInTried = false) (b : ℕ) : Leaving env m (m.leaveNew env nId b) nId info [b] := by
  by_cases hslot : m.vvNew b (info.getBucketPosition env m.nKey true b) = nId
  · have heq : m.leaveNew env nId b =
        m.unrefer nId info b (info.getBucketPosition env m.nKey true b) := by
      rw [CAddrMan.leaveNew]
      simp only [infoAt_of_lookup hinfo, if_pos hslot]
      rfl
    rw [heq]
    have hid := h.slotted.nonneg hinfo
    have hbuckets : (m.unrefer nId info b (info.getBucketPosition env m.nKey true b)).newBuckets
        env nId info = (m.newBuckets env nId info).erase b :=
      newBuckets_clear rfl rfl (by omega) rfl
    have hput : Carried m (m.put nId { info with nRefCount := info.nRefCount - 1 }) :=
      carried_put hinfo rfl
    refine ⟨(h.unrefer hinfo hslot).1, ⟨hput.nKey, hput.nIdCount, hput.triedCollisions,
      hput.entry⟩, ⟨_, (lookup_put nId).trans (if_pos rfl), rfl, ht, rfl⟩, ?_, ?_, ?_, ?_,
      rfl, rfl, rfl⟩
    · intro id hne
      exact (lookup_put id).trans (if_neg hne)
    · intro b' hb'
      rw [List.mem_singleton.mp hb', hbuckets]
      exact Finset.notMem_erase b _
    · rw [hbuckets]
      exact Finset.erase_subset b _
    · intro a c hc
      have hids : ∀ t, (m.unrefer nId info b
          (info.getBucketPosition env m.nKey true b)).idsTried t = m.idsTried t :=
        idsTried_put (m := m) hinfo
          (show ({ info with nRefCount := info.nRefCount - 1 } : CAddrInfo).fInTried = _ from rfl)
      exact ⟨by rw [hids]; exact hc.1, by rw [hids]; exact hc.2⟩
  · have heq : m.leaveNew env nId b = m := by
      rw [CAddrMan.leaveNew]
      simp only [infoAt_of_lookup hinfo, if_neg hslot]
    rw [heq]
    refine ⟨h, .refl m, ⟨info, hinfo, rfl, ht, rfl⟩, fun _ => rfl, ?_, fun _ hb => hb,
      fun hc => hc, rfl, rfl, rfl⟩
    intro b' hb' hmem
    rw [List.mem_singleton.mp hb'] at hmem
    exact hslot (mem_newBuckets.mp hmem).2

lemma newBuckets_congr (hserv : info'.toCService = info.toCService) :
    m.newBuckets env nId info' = m.newBuckets env nId info := by
  simp only [newBuckets, getBucketPosition_congr hserv]

lemma Tables.leaveAllNew (h : Tables env m) (hinfo : m.mapInfo.lookup nId = some info)
    (ht : info.fInTried = false) (bs : List ℕ) :
    Leaving env m (m.leaveAllNew env nId bs) nId info bs := by
  induction bs generalizing m info with
  | nil =>
    exact ⟨h, .refl m, ⟨info, hinfo, rfl, ht, rfl⟩, fun _ => rfl, by simp, fun _ hb => hb,
      fun hc => hc, rfl, rfl, rfl⟩
  | cons b bs ih =>
    have hone := h.leaveNew hinfo ht b
    obtain ⟨info₁, hinfo₁, hserv₁, ht₁, hsucc₁⟩ := hone.entry
    have hrest := ih hone.tables hinfo₁ ht₁
    obtain ⟨info₂, hinfo₂, hserv₂, ht₂, hsucc₂⟩ := hrest.entry
    have hfewer := hrest.fewer
    rw [newBuckets_congr hserv₁, newBuckets_congr hserv₁] at hfewer
    refine ⟨hrest.tables, hone.carried.trans hrest.carried,
      ⟨info₂, hinfo₂, hserv₂.trans hserv₁, ht₂, hsucc₂.trans hsucc₁⟩, ?_, ?_,
      hfewer.trans hone.fewer, fun hc => hrest.counted (hone.counted hc), ?_⟩
    · intro id hne
      exact (hrest.others hne).trans (hone.others hne)
    · intro b' hb' hmem
      rcases List.mem_cons.mp hb' with rfl | hb'
      · exact hone.buckets b' (by simp) (hfewer hmem)
      · have hnot := hrest.buckets b' hb'
        rw [newBuckets_congr hserv₁] at hnot
        exact hnot hmem
    · exact ⟨hrest.rest.1.trans hone.rest.1, hrest.rest.2.1.trans hone.rest.2.1,
        hrest.rest.2.2.trans hone.rest.2.2⟩

/-- What `MakeTried` does. -/
structure Moved (env : AddrEnv) (m m' : CAddrMan) : Prop where
  tables : Tables env m'
  carried : Carried m m'
  vvTried : ∀ {b p}, m.vvTried b p ≠ -1 → m'.vvTried b p ≠ -1
  used : UsedBut m ∅ → UsedBut m' ∅
  counted : Counted m m.nTried m.nNew → Counted m' m'.nTried m'.nNew
  nTried : m.nTried ≤ m'.nTried

/-- **Moving to the tried table.** The entry leaves all new buckets, and whoever is in its place is
moved to the new table, where a third one may be deleted. -/
theorem Tables.makeTried (h : Tables env m) (hinfo : m.mapInfo.lookup nId = some info)
    (ht : info.fInTried = false) (htime : info.nLastSuccess ≠ 0) :
    Moved env m (m.makeTried env nId) := by
  have hleave := h.leaveAllNew hinfo ht (List.range ADDRMAN_NEW_BUCKET_COUNT)
  rw [CAddrMan.makeTried]
  generalize m.leaveAllNew env nId (List.range ADDRMAN_NEW_BUCKET_COUNT) = m₁ at hleave ⊢
  obtain ⟨info₁, hinfo₁, hserv₁, ht₁, hsucc₁⟩ := hleave.entry
  have hempty : m₁.newBuckets env nId info₁ = ∅ := by
    rw [newBuckets_congr hserv₁]
    refine Finset.eq_empty_of_forall_notMem fun b hb => ?_
    exact hleave.buckets b (List.mem_range.mpr (mem_newBuckets.mp hb).1) hb
  have hrefs : info₁.nRefCount = 0 := by
    rw [hleave.tables.slotted.refs hinfo₁, hempty]
    rfl
  obtain ⟨htables, hcarried, hvv, hused, hcounted, hle⟩ :=
    hleave.tables.enterTried hinfo₁ ht₁ hrefs (by rwa [hsucc₁])
  refine ⟨htables, hleave.carried.trans hcarried, ?_, ?_, ?_, ?_⟩
  · intro b p hb
    exact hvv (by rwa [hleave.rest.1])
  · intro hu
    refine hused fun {id i} hid hi hit => ?_
    have hne : id ≠ nId := by simpa using hid
    rw [hleave.others hne] at hi
    exact hu (Set.notMem_empty id) hi hit
  · intro hc
    refine hcounted ?_
    rw [hleave.rest.2.1, hleave.rest.2.2]
    exact hleave.counted hc
  · rw [← hleave.rest.2.1]
    exact hle

end Agenor.CAddrMan
