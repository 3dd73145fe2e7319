import Agenor.AddrManRuns

/-!
Writing the address manager to a file, and reading it again.

A manager is read into one that holds nothing. What a consistent manager writes is read to its end,
and the tables are in order then; what remains of a stream that breaks off is only some entries,
which `Clear` does not remove.
-/

namespace Agenor.CAddrMan

variable {env : AddrEnv} {m m' : CAddrMan} {nId : ℤ} {info info' : CAddrInfo}

/-! ### Clearing -/

/-- Nothing is left but what `Clear` sets. -/
structure Bare (m : CAddrMan) : Prop where
  ok : m.failed = false
  mapInfo : m.mapInfo = ∅
  mapAddr : ∀ a, m.mapAddr a = none
  waiting : m.triedCollisions = ∅

lemma InvBut.bare (h : Inv env m) (hempty : m.mapInfo = ∅) : Bare m where
  ok := h.tables.ok
  mapInfo := hempty
  mapAddr a := by
    cases ha : m.mapAddr a with
    | none => rfl
    | some id =>
      obtain ⟨i, hi, -⟩ := h.tables.slotted.found ha
      rw [hempty, Finmap.lookup_empty] at hi
      cases hi
  waiting := by
    by_contra hne
    have hpos := h.someTried (Finset.nonempty_iff_ne_empty.mpr hne)
    have hzero : (m.idsTried true).card = 0 := by
      rw [Finset.card_eq_zero]
      refine Finset.eq_empty_of_forall_notMem fun id hid => ?_
      obtain ⟨i, hi, -⟩ := mem_idsTried.mp hid
      rw [hempty, Finmap.lookup_empty] at hi
      cases hi
    have hcount := h.counted.1
    omega

lemma Bare.tables (h : Bare m) (nKey : Uint256) : Tables env (m.clear nKey) := by
  have hnone : ∀ id, (m.clear nKey).mapInfo.lookup id = none := by
    intro id
    change m.mapInfo.lookup id = none
    rw [h.mapInfo, Finmap.lookup_empty]
  refine ⟨h.ok, ⟨?_, ?_, ?_, ?_, ?_, ?_, ?_, ?_⟩, ⟨?_, ?_⟩, ?_⟩
  case refine_3 =>
    intro a id ha
    change m.mapAddr a = some id at ha
    rw [h.mapAddr] at ha
    cases ha
  case refine_4 => exact fun hb => absurd rfl hb
  case refine_7 => exact fun hb => absurd rfl hb
  case refine_10 =>
    intro k id hk
    change ([] : List ℤ)[k]? = some id at hk
    simp at hk
  all_goals
    intro id i hi
    rw [hnone] at hi
    cases hi

lemma Bare.counted (h : Bare m) (nKey : Uint256) : Counted (m.clear nKey) 0 0 := by
  have hempty : ∀ t, (m.clear nKey).idsTried t = ∅ := by
    intro t
    refine Finset.eq_empty_of_forall_notMem fun id hid => ?_
    obtain ⟨i, hi, -⟩ := mem_idsTried.mp hid
    change m.mapInfo.lookup id = some i at hi
    rw [h.mapInfo, Finmap.lookup_empty] at hi
    cases hi
  simp [Counted, hempty]

lemma Bare.clear (h : Bare m) {nKey : Uint256} (hkey : nKey ≠ 0) : Inv env (m.clear nKey) where
  tables := h.tables nKey
  counted := h.counted nKey
  used := by
    intro id i _ hi
    change m.mapInfo.lookup id = some i at hi
    rw [h.mapInfo, Finmap.lookup_empty] at hi
    cases hi
  count := le_rfl
  below := by
    intro id i hi
    change m.mapInfo.lookup id = some i at hi
    rw [h.mapInfo, Finmap.lookup_empty] at hi
    cases hi
  waiting := by
    intro id hid
    change id ∈ m.triedCollisions at hid
    rw [h.waiting] at hid
    simp at hid
  someTried := by
    intro hne
    change m.triedCollisions.Nonempty at hne
    rw [h.waiting] at hne
    simp at hne
  key := hkey

/-! ### A stream that breaks off -/

/-- Reading adds entries, and whatever is found by its address is one of them. -/
structure Quiet (m : CAddrMan) : Prop where
  ok : m.failed = false
  waiting : m.triedCollisions = ∅
  found : ∀ {a id}, m.mapAddr a = some id → id ∈ m.mapInfo

lemma Bare.quiet (h : Bare m) : Quiet m :=
  ⟨h.ok, h.waiting, fun ha => by rw [h.mapAddr] at ha; cases ha⟩

lemma Quiet.bare (h : Quiet m) (hempty : m.mapInfo = ∅) : Bare m := by
  refine ⟨h.ok, hempty, fun a => ?_, h.waiting⟩
  cases ha : m.mapAddr a with
  | none => rfl
  | some id =>
    have hmem := h.found ha
    rw [hempty] at hmem
    exact absurd hmem Finmap.notMem_empty

lemma Quiet.put (h : Quiet m) (nId : ℤ) (info : CAddrInfo) : Quiet (m.put nId info) :=
  ⟨h.ok, h.waiting, fun ha => Finmap.mem_insert.mpr (.inr (h.found ha))⟩

lemma Quiet.touch (h : Quiet m) (nId : ℤ) : Quiet (m.touch nId) := by
  rw [CAddrMan.touch]
  split_ifs
  · exact h
  · exact h.put nId _

lemma Quiet.refer (h : Quiet m) (nId r : ℤ) (b p : ℕ) : Quiet (m.refer nId r b p) := by
  have hput := h.put nId { m.infoAt nId with nRefCount := r }
  exact ⟨hput.ok, hput.waiting, hput.found⟩

lemma Quiet.update (h : Quiet m) {a : CNetAddr} (hmem : nId ∈ m.mapInfo) {l : List ℤ} :
    Quiet { m with
      mapAddr := Function.update m.mapAddr a (some nId)
      vRandom := l } := by
  refine ⟨h.ok, h.waiting, fun {a' id} ha => ?_⟩
  change Function.update m.mapAddr a (some nId) a' = some id at ha
  by_cases haa : a' = a
  · subst haa
    rw [Function.update_self] at ha
    rwa [← Option.some.inj ha]
  · rw [Function.update_of_ne haa] at ha
    exact h.found ha

lemma Quiet.readOneNew (env : AddrEnv) (h : Quiet m) (usable : Bool) (n : ℤ) (r : AddrRecord) :
    Quiet (m.readOneNew env usable n r) := by
  rw [CAddrMan.readOneNew]
  have hput := h.put n { (m.infoAt n).read r with nRandomPos := m.vRandom.length }
  have hmem : n ∈ (m.put n { (m.infoAt n).read r with nRandomPos := m.vRandom.length }).mapInfo :=
    Finmap.mem_insert.mpr (.inl rfl)
  simp only
  split_ifs
  · exact (hput.update hmem).refer _ _ _ _
  · exact hput.update hmem

lemma Quiet.readNew (env : AddrEnv) (h : Quiet m) (usable : Bool) (k : ℕ) (n : ℤ)
    (s : List AddrToken) :
    Quiet (readNew env usable k n m s).1 := by
  induction k generalizing m n s with
  | zero => exact h
  | succ k ih =>
    cases s with
    | nil => exact h.touch n
    | cons token s =>
      cases token with
      | record r => exact ih (h.readOneNew env usable n r) (n + 1) s
      | byte b => exact h.touch n
      | key nKey => exact h.touch n
      | int i => exact h.touch n

lemma Quiet.readOneTried (env : AddrEnv) (h : Quiet m) (nLost : ℤ) (r : AddrRecord) :
    Quiet (m.readOneTried env nLost r).1 := by
  rw [CAddrMan.readOneTried]
  simp only
  split_ifs
  · have hput := h.put m.nIdCount
      { CAddrInfo.empty.read r with nRandomPos := m.vRandom.length, fInTried := true }
    have hmem : m.nIdCount ∈ (m.put m.nIdCount
        { CAddrInfo.empty.read r with nRandomPos := m.vRandom.length, fInTried := true }).mapInfo :=
      Finmap.mem_insert.mpr (.inl rfl)
    obtain ⟨h₁, h₂, h₃⟩ := hput.update (a := (CAddrInfo.empty.read r).ip) (l := []) hmem
    exact ⟨h₁, h₂, h₃⟩
  · exact h

lemma Quiet.readTried (env : AddrEnv) (h : Quiet m) (k : ℕ) (nLost : ℤ) (s : List AddrToken) :
    Quiet (readTried env k nLost m s).1 := by
  induction k generalizing m nLost s with
  | zero => exact h
  | succ k ih =>
    cases s with
    | nil => exact h
    | cons token s =>
      cases token with
      | record r => exact ih (h.readOneTried env nLost r) _ s
      | byte b => exact h
      | key nKey => exact h
      | int i => exact h

lemma Quiet.readIndex (env : AddrEnv) (h : Quiet m) (usable : Bool) (bucket : ℕ) (nIndex : ℤ) :
    Quiet (m.readIndex env usable bucket nIndex) := by
  rw [CAddrMan.readIndex]
  by_cases hrange : 0 ≤ nIndex ∧ nIndex < m.nNew
  · rw [if_pos hrange]
    simp only
    split_ifs
    · exact (h.touch nIndex).refer _ _ _ _
    · exact h.touch nIndex
  · rw [if_neg hrange]
    exact h

lemma Quiet.readBucket (env : AddrEnv) (h : Quiet m) (usable : Bool) (bucket k : ℕ)
    (s : List AddrToken) :
    Quiet (readBucket env usable bucket k m s).1 := by
  induction k generalizing m s with
  | zero => exact h
  | succ k ih =>
    cases s with
    | nil => exact h
    | cons token s =>
      cases token with
      | int i => exact ih (h.readIndex env usable bucket i) s
      | byte b => exact h
      | key nKey => exact h
      | record r => exact h

lemma Quiet.readBuckets (env : AddrEnv) (h : Quiet m) (usable : Bool) (k bucket : ℕ)
    (s : List AddrToken) :
    Quiet (readBuckets env usable k bucket m s).1 := by
  induction k generalizing m bucket s with
  | zero => exact h
  | succ k ih =>
    cases s with
    | nil => exact h
    | cons token s =>
      cases token with
      | int nSize =>
        have hone := h.readBucket env usable bucket nSize.toNat s
        rw [CAddrMan.readBuckets]
        cases hread : CAddrMan.readBucket env usable bucket nSize.toNat m s with
        | mk m₁ o =>
          rw [hread] at hone
          cases o with
          | none => exact hone
          | some s₁ => exact ih hone (bucket + 1) s₁
      | byte b => exact h
      | key nKey => exact h
      | record r => exact h

/-- **A stream that breaks off** leaves nothing that `Clear` would have to remove but entries. -/
theorem Bare.unserialize (h : Bare m) (nKey : Uint256) (s : List AddrToken)
    (hfail : (m.unserialize env nKey s).2 = false) : Quiet (m.unserialize env nKey s).1 := by
  have hclear : Quiet (m.clear nKey) := ⟨h.ok, h.waiting, fun ha => h.quiet.found ha⟩
  have hheader : Quiet ((m.clear nKey).readHeader s).1 := by
    rw [readHeader.eq_def]
    split <;> exact ⟨hclear.ok, hclear.waiting, hclear.found⟩
  rw [CAddrMan.unserialize] at hfail ⊢
  cases hread : (m.clear nKey).readHeader s with
  | mk m₁ o =>
    rw [hread] at hheader hfail
    cases o with
    | none => exact hheader
    | some header =>
      obtain ⟨nVersion, nUBuckets, s₁⟩ := header
      simp only at hfail ⊢
      rw [readTables] at hfail ⊢
      simp only at hfail ⊢
      generalize decide (nVersion = 1 ∧ nUBuckets = ADDRMAN_NEW_BUCKET_COUNT) = usable at hfail ⊢
      have hnew := hheader.readNew env usable m₁.nNew.toNat 0 s₁
      cases hread₁ : readNew env usable m₁.nNew.toNat 0 m₁ s₁ with
      | mk m₂ o₂ =>
        rw [hread₁] at hnew hfail
        cases o₂ with
        | none => exact hnew
        | some s₂ =>
          simp only at hfail ⊢
          have hids : Quiet { m₂ with nIdCount := m₂.nNew } :=
            ⟨hnew.ok, hnew.waiting, hnew.found⟩
          have htried := hids.readTried env m₂.nTried.toNat 0 s₂
          cases hread₂ : readTried env m₂.nTried.toNat 0 { m₂ with nIdCount := m₂.nNew } s₂ with
          | mk m₃ o₃ =>
            rw [hread₂] at htried hfail
            cases o₃ with
            | none => exact htried
            | some lost =>
              obtain ⟨nLost, s₃⟩ := lost
              simp only at hfail ⊢
              have hlost : Quiet { m₃ with nTried := m₃.nTried - nLost } :=
                ⟨htried.ok, htried.waiting, htried.found⟩
              have hbuckets := hlost.readBuckets env usable nUBuckets.toNat 0 s₃
              cases hread₃ : readBuckets env usable nUBuckets.toNat 0
                  { m₃ with nTried := m₃.nTried - nLost } s₃ with
              | mk m₄ o₄ =>
                rw [hread₃] at hbuckets hfail
                cases o₄ with
                | none => exact hbuckets
                | some s₄ => exact absurd hfail (by simp)

/-! ### What is read -/

def recordTokens (rs : List AddrRecord) : List AddrToken := rs.map .record

def bucketsTokens (buckets : List (List ℤ)) : List AddrToken :=
  buckets.flatMap fun l => .int l.length :: l.map .int

/-- The tables while a stream is read, with so many entries. -/
structure Loaded (env : AddrEnv) (m : CAddrMan) (nTried nNew : ℤ) : Prop where
  tables : Tables env m
  counted : Counted m nTried nNew
  waiting : m.triedCollisions = ∅

/-- The entries of the new table have the first numbers. -/
def FirstNew (m : CAddrMan) (n : ℤ) : Prop :=
  ∀ i, 0 ≤ i → i < n → ∃ info, m.mapInfo.lookup i = some info ∧ info.fInTried = false

def Below (m : CAddrMan) (n : ℤ) : Prop := ∀ {id info}, m.mapInfo.lookup id = some info → id < n

lemma Below.lookup_eq_none {n : ℤ} (h : Below m n) : m.mapInfo.lookup n = none := by
  cases hi : m.mapInfo.lookup n with
  | none => rfl
  | some i => exact absurd (h hi) (lt_irrefl _)

lemma Below.succ {n : ℤ} (h : Below m n) (hlook : ∀ id, m'.mapInfo.lookup id =
    if id = n then some info' else m.mapInfo.lookup id) : Below m' (n + 1) := by
  intro id i hi
  refine forall_entry (P := fun id _ => id < n + 1) hlook (lt_add_one n) ?_ hi
  intro id i hi _
  have := h hi
  omega

lemma readOneNew_eq {n : ℤ} (hnew : m.mapInfo.lookup n = none) (r : AddrRecord) :
    m.readOneNew env true n r = m.append n (CAddrInfo.empty.read r) := by
  have hinfo : m.infoAt n = .empty := by simp [infoAt, hnew]
  rw [readOneNew, hinfo]
  simp only [Bool.not_true, Bool.false_and, Bool.false_eq_true, if_false]
  rfl

lemma Loaded.readOneNew {n : ℤ} {r : AddrRecord} (h : Loaded env m 0 n) (hn : 0 ≤ n)
    (hbelow : Below m n) (hfirst : FirstNew m n) (hip : m.mapAddr r.addr.ip = none)
    (htime : 0 ≤ r.nLastSuccess) :
    Loaded env (m.readOneNew env true n r) 0 (n + 1) ∧
      Below (m.readOneNew env true n r) (n + 1) ∧ FirstNew (m.readOneNew env true n r) (n + 1) := by
  have hnew := hbelow.lookup_eq_none
  rw [readOneNew_eq hnew]
  refine ⟨⟨?_, h.counted.append hnew rfl, h.waiting⟩, hbelow.succ fun id => lookup_append id, ?_⟩
  · exact h.tables.append hnew hn hip rfl rfl ⟨le_rfl, htime, fun h => Bool.noConfusion h⟩
  · intro i h0 hi
    rw [lookup_append]
    by_cases hin : i = n
    · rw [if_pos hin]
      exact ⟨_, rfl, rfl⟩
    · rw [if_neg hin]
      exact hfirst i h0 (by omega)

lemma Loaded.readNew (rs : List AddrRecord) {n : ℤ} (h : Loaded env m 0 n) (hn : 0 ≤ n)
    (hbelow : Below m n) (hfirst : FirstNew m n) (hips : ∀ r ∈ rs, m.mapAddr r.addr.ip = none)
    (hne : rs.Pairwise fun r r' => r.addr.ip ≠ r'.addr.ip) (htime : ∀ r ∈ rs, 0 ≤ r.nLastSuccess)
    (s : List AddrToken) :
    ∃ m', readNew env true rs.length n m (recordTokens rs ++ s) = (m', some s) ∧
      Loaded env m' 0 (n + rs.length) ∧ Below m' (n + rs.length) ∧ FirstNew m' (n + rs.length) ∧
      m'.nNew = m.nNew ∧ m'.nTried = m.nTried ∧ m'.nKey = m.nKey ∧
      ∀ a, (∀ r ∈ rs, r.addr.ip ≠ a) → m'.mapAddr a = m.mapAddr a := by
  induction rs generalizing m n with
  | nil =>
    refine ⟨m, rfl, ?_, ?_, ?_, rfl, rfl, rfl, fun _ _ => rfl⟩
    · simpa using h
    · intro id i hi
      simpa using hbelow hi
    · simpa [FirstNew] using hfirst
  | cons r rs ih =>
    have hnew := hbelow.lookup_eq_none
    obtain ⟨hloaded, hbelow', hfirst'⟩ :=
      h.readOneNew hn hbelow hfirst (hips r (by simp)) (htime r (by simp))
    rw [readOneNew_eq hnew] at hloaded hbelow' hfirst'
    have haddr : ∀ a, a ≠ r.addr.ip →
        (m.append n (CAddrInfo.empty.read r)).mapAddr a = m.mapAddr a := by
      intro a ha
      exact Function.update_of_ne ha _ _
    obtain ⟨hhead, htail⟩ := List.pairwise_cons.mp hne
    obtain ⟨m', hread, hl, hb, hf, h₁, h₂, h₃, hmap⟩ := ih hloaded (by omega) hbelow' hfirst'
      (fun r' hr' => by
        rw [haddr _ (Ne.symm (hhead r' hr'))]
        exact hips r' (List.mem_cons_of_mem _ hr'))
      htail (fun r' hr' => htime r' (List.mem_cons_of_mem _ hr'))
    have hlen : n + 1 + (rs.length : ℤ) = n + ((r :: rs).length : ℤ) := by
      rw [List.length_cons]
      push_cast
      omega
    rw [hlen] at hl hb hf
    refine ⟨m', ?_, hl, hb, hf, h₁, h₂, h₃, fun a ha => ?_⟩
    · change CAddrMan.readNew env true rs.length (n + 1) (m.readOneNew env true n r)
        (recordTokens rs ++ s) = (m', some s)
      rw [readOneNew_eq hnew]
      exact hread
    · rw [hmap a fun r' hr' => ha r' (List.mem_cons_of_mem _ hr')]
      exact haddr a (Ne.symm (ha r (by simp)))

lemma readOneTried_eq {r : AddrRecord}
    (hfree : m.triedSlot env (CAddrInfo.empty.read r) = -1) (nLost : ℤ) :
    m.readOneTried env nLost r =
      ({ (m.append m.nIdCount (CAddrInfo.empty.read r)).setTried env m.nIdCount
          { CAddrInfo.empty.read r with nRandomPos := m.vRandom.length } true m.nTried with
        nIdCount := m.nIdCount + 1 }, nLost) := by
  rw [triedSlot] at hfree
  rw [CAddrMan.readOneTried]
  simp only [hfree, if_true]
  simp only [CAddrMan.setTried, CAddrMan.append, CAddrMan.put, Finmap.insert_insert]
  rfl

lemma Loaded.readOneTried {a b n : ℤ} {r : AddrRecord} (h : Loaded env m a b)
    (hcount : 0 ≤ m.nIdCount) (hbelow : Below m m.nIdCount) (hfirst : FirstNew m n)
    (hn : n ≤ m.nIdCount) (hip : m.mapAddr r.addr.ip = none) (htime : 0 < r.nLastSuccess)
    (hfree : m.triedSlot env (CAddrInfo.empty.read r) = -1) (nLost : ℤ) :
    Loaded env (m.readOneTried env nLost r).1 (a + 1) b ∧
      Below (m.readOneTried env nLost r).1 (m.nIdCount + 1) ∧
      FirstNew (m.readOneTried env nLost r).1 n := by
  have hnew := hbelow.lookup_eq_none
  have hip' : m.mapAddr (CAddrInfo.empty.read r).ip = none := hip
  have happ := h.tables.append hnew hcount hip' rfl rfl
    ⟨le_rfl, htime.le, fun h => Bool.noConfusion h⟩
  have hinfo := lookup_append_self m m.nIdCount (CAddrInfo.empty.read r)
  have hset := happ.setTried (t := true) hinfo rfl (.inr hfree) (fun _ => htime.ne') m.nTried
  have hcounted := (h.counted.append hnew rfl).setTried env hinfo true m.nTried rfl
  rw [if_pos rfl, if_pos rfl, add_sub_cancel_right] at hcounted
  have hlook : ∀ id, (m.readOneTried env nLost r).1.mapInfo.lookup id =
      if id = m.nIdCount then
        some { CAddrInfo.empty.read r with nRandomPos := m.vRandom.length, fInTried := true }
      else m.mapInfo.lookup id := by
    intro id
    rw [triedSlot] at hfree
    rw [CAddrMan.readOneTried]
    simp only [hfree, if_true]
    exact lookup_put id
  refine ⟨?_, hbelow.succ hlook, ?_⟩
  · rw [readOneTried_eq hfree]
    exact ⟨hset.congr rfl rfl rfl rfl rfl rfl rfl, hcounted, h.waiting⟩
  · intro i h0 hi
    rw [hlook, if_neg (by omega)]
    exact hfirst i h0 hi

lemma Loaded.readTried (rs : List AddrRecord) (nLost : ℤ) {a b n : ℤ} (h : Loaded env m a b)
    (hcount : 0 ≤ m.nIdCount) (hbelow : Below m m.nIdCount) (hfirst : FirstNew m n)
    (hn : n ≤ m.nIdCount) (hips : ∀ r ∈ rs, m.mapAddr r.addr.ip = none)
    (hne : rs.Pairwise fun r r' => r.addr.ip ≠ r'.addr.ip) (htime : ∀ r ∈ rs, 0 < r.nLastSuccess)
    (s : List AddrToken) :
    ∃ m' a' nLost', readTried env rs.length nLost m (recordTokens rs ++ s) =
        (m', some (nLost', s)) ∧ Loaded env m' a' b ∧ a' + nLost' = a + nLost + rs.length ∧
      0 ≤ m'.nIdCount ∧ Below m' m'.nIdCount ∧ FirstNew m' n ∧
      m'.nNew = m.nNew ∧ m'.nTried = m.nTried ∧ m'.nKey = m.nKey := by
  induction rs generalizing m a nLost with
  | nil => exact ⟨m, a, nLost, rfl, h, by simp, hcount, hbelow, hfirst, rfl, rfl, rfl⟩
  | cons r rs ih =>
    obtain ⟨hhead, htail⟩ := List.pairwise_cons.mp hne
    have hrest : ∀ r' ∈ rs, m.mapAddr r'.addr.ip = none :=
      fun r' hr' => hips r' (List.mem_cons_of_mem _ hr')
    have htime' : ∀ r' ∈ rs, 0 < r'.nLastSuccess :=
      fun r' hr' => htime r' (List.mem_cons_of_mem _ hr')
    by_cases hfree : m.triedSlot env (CAddrInfo.empty.read r) = -1
    · have heq := readOneTried_eq hfree nLost
      have hids : (m.readOneTried env nLost r).1.nIdCount = m.nIdCount + 1 := by rw [heq]
      obtain ⟨hloaded, hbelow', hfirst'⟩ := h.readOneTried hcount hbelow hfirst hn
        (hips r (by simp)) (htime r (by simp)) hfree nLost
      rw [← hids] at hbelow'
      obtain ⟨m', a', nLost', hread, hl, hsum, hc, hb, hf, h₁, h₂, h₃⟩ :=
        ih (m.readOneTried env nLost r).2 hloaded (by rw [hids]; omega) hbelow' hfirst'
        (by rw [hids]; omega)
        (by
          intro r' hr'
          rw [heq]
          refine (Function.update_of_ne (Ne.symm (hhead r' hr')) _ _).trans (hrest r' hr'))
        htail htime'
      refine ⟨m', a', nLost', hread, hl, ?_, hc, hb, hf, ?_, ?_, ?_⟩
      · rw [List.length_cons]
        have hkeep : (m.readOneTried env nLost r).2 = nLost := by rw [heq]
        rw [hkeep] at hsum
        push_cast
        omega
      · rw [h₁, heq]
        rfl
      · rw [h₂, heq]
        rfl
      · rw [h₃, heq]
        rfl
    · have heq : m.readOneTried env nLost r = (m, nLost + 1) := by
        rw [triedSlot] at hfree
        rw [CAddrMan.readOneTried]
        simp only [hfree, if_false]
      have hone : (m.readOneTried env nLost r).1 = m := by rw [heq]
      obtain ⟨m', a', nLost', hread, hl, hsum, hrest'⟩ := ih (nLost + 1) h hcount hbelow
        hfirst hn hrest htail htime'
      refine ⟨m', a', nLost', ?_, hl, ?_, hrest'⟩
      · change CAddrMan.readTried env rs.length (m.readOneTried env nLost r).2
          (m.readOneTried env nLost r).1 (recordTokens rs ++ s) = _
        rw [heq]
        exact hread
      · rw [List.length_cons]
        push_cast
        omega

/-- The slots are read after all entries; what does not change then. -/
structure Filling (env : AddrEnv) (m m' : CAddrMan) (a b : ℤ) : Prop where
  loaded : Loaded env m' a b
  nNew : m'.nNew = m.nNew
  nTried : m'.nTried = m.nTried
  nKey : m'.nKey = m.nKey
  nIdCount : m'.nIdCount = m.nIdCount
  below : Below m' m'.nIdCount
  first : FirstNew m' m'.nNew

lemma Filling.trans {m₁ m₂ m₃ : CAddrMan} {a b : ℤ} (h₁ : Filling env m₁ m₂ a b)
    (h₂ : Filling env m₂ m₃ a b) : Filling env m₁ m₃ a b :=
  ⟨h₂.loaded, h₂.nNew.trans h₁.nNew, h₂.nTried.trans h₁.nTried, h₂.nKey.trans h₁.nKey,
    h₂.nIdCount.trans h₁.nIdCount, h₂.below, h₂.first⟩

lemma Loaded.readIndex {a b : ℤ} (h : Loaded env m a b) (hbelow : Below m m.nIdCount)
    (hfirst : FirstNew m m.nNew) {bucket : ℕ} (hb : bucket < ADDRMAN_NEW_BUCKET_COUNT)
    (nIndex : ℤ) : Filling env m (m.readIndex env true bucket nIndex) a b := by
  have hself : Filling env m m a b := ⟨h, rfl, rfl, rfl, rfl, hbelow, hfirst⟩
  rw [CAddrMan.readIndex]
  by_cases hrange : 0 ≤ nIndex ∧ nIndex < m.nNew
  · rw [if_pos hrange]
    obtain ⟨i, hi, ht⟩ := hfirst nIndex hrange.1 hrange.2
    simp only [touch_of_lookup hi, infoAt_of_lookup hi]
    split_ifs with hslot
    · obtain ⟨-, hfree, hfew⟩ := hslot
      have hlook := lookup_refer hi (r := i.nRefCount + 1) (b := bucket)
        (p := i.getBucketPosition env m.nKey true bucket)
      have hcarried := carried_refer hi (i.nRefCount + 1) bucket
        (i.getBucketPosition env m.nKey true bucket)
      refine ⟨⟨?_, h.counted.refer hi _ _ _, hcarried.triedCollisions.trans h.waiting⟩, rfl, rfl,
        rfl, rfl, ?_, ?_⟩
      · exact h.tables.refer hi ht hb rfl hfree rfl (by omega)
      · intro id i' hi'
        obtain ⟨j, hj, -⟩ := hcarried.entry hi'
        exact hbelow hj
      · intro k h0 hk
        rw [hlook]
        split_ifs with hkn
        · exact ⟨_, rfl, ht⟩
        · exact hfirst k h0 hk
    · exact hself
  · rw [if_neg hrange]
    exact hself

lemma Loaded.readBucket {a b : ℤ} (h : Loaded env m a b) (hbelow : Below m m.nIdCount)
    (hfirst : FirstNew m m.nNew) (bucket : ℕ) (hb : bucket < ADDRMAN_NEW_BUCKET_COUNT)
    (l : List ℤ) (s : List AddrToken) :
    ∃ m', readBucket env true bucket l.length m (l.map .int ++ s) = (m', some s) ∧
      Filling env m m' a b := by
  induction l generalizing m with
  | nil => exact ⟨m, rfl, h, rfl, rfl, rfl, rfl, hbelow, hfirst⟩
  | cons i l ih =>
    have hone := h.readIndex hbelow hfirst hb i
    obtain ⟨m', hread, hfill⟩ := ih hone.loaded hone.below hone.first
    exact ⟨m', hread, hone.trans hfill⟩

lemma Loaded.readBuckets {a b : ℤ} (h : Loaded env m a b) (hbelow : Below m m.nIdCount)
    (hfirst : FirstNew m m.nNew) (buckets : List (List ℤ)) (start : ℕ)
    (hb : start + buckets.length ≤ ADDRMAN_NEW_BUCKET_COUNT) :
    ∃ m', readBuckets env true buckets.length start m
        (bucketsTokens buckets) = (m', some []) ∧
      Filling env m m' a b := by
  induction buckets generalizing m start with
  | nil => exact ⟨m, rfl, h, rfl, rfl, rfl, rfl, hbelow, hfirst⟩
  | cons l buckets ih =>
    rw [List.length_cons] at hb
    obtain ⟨m₁, hread₁, hfill₁⟩ := h.readBucket hbelow hfirst start (by omega) l
      (bucketsTokens buckets)
    obtain ⟨m₂, hread₂, hfill₂⟩ := ih hfill₁.loaded hfill₁.below hfill₁.first
      (start + 1) (by omega)
    refine ⟨m₂, ?_, hfill₁.trans hfill₂⟩
    have htokens : bucketsTokens (l :: buckets) =
        .int l.length :: (l.map .int ++ bucketsTokens buckets) := rfl
    rw [htokens, List.length_cons, CAddrMan.readBuckets, Int.toNat_natCast, hread₁]
    exact hread₂

lemma InvBut.prune {ids : List ℤ} (hnodup : ids.Nodup) (h : InvBut env m {id | id ∈ ids})
    (hmem : ∀ id ∈ ids, id ∈ m.mapInfo) : Inv env (ids.foldl pruneOne m) := by
  induction ids generalizing m with
  | nil => simpa using h
  | cons id ids ih =>
    obtain ⟨hnot, hnodup'⟩ := List.nodup_cons.mp hnodup
    have hset : {x | x ∈ id :: ids} = insert id {x | x ∈ ids} := by
      ext x
      simp
    rw [hset] at h
    obtain ⟨i, hi⟩ := Finmap.mem_iff.mp (hmem id (by simp))
    rw [List.foldl_cons, pruneOne]
    simp only [infoAt_of_lookup hi]
    split_ifs with hprune
    · have hdel := h.tables.delete hi hprune.2 hprune.1
      refine ih hnodup' (h.deleted hdel) fun id' hid' => ?_
      have hne : id' ≠ id := fun heq => hnot (heq ▸ hid')
      obtain ⟨j, hj⟩ := Finmap.mem_iff.mp (hmem id' (List.mem_cons_of_mem _ hid'))
      have hkept := hdel.kept hne
      rw [hj] at hkept
      generalize ho : (m.delete id).mapInfo.lookup id' = o at hkept
      cases hkept with
      | some _ => exact Finmap.mem_of_lookup_eq_some ho
    · refine ih hnodup' { h with used := fun {x j} hx hj hjt => ?_ }
        fun id' hid' => hmem id' (List.mem_cons_of_mem _ hid')
      by_cases hxid : x = id
      · rw [hxid, hi] at hj
        obtain rfl := Option.some.inj hj
        exact fun hr => hprune ⟨hjt, hr⟩
      · exact h.used (by simp only [Set.mem_insert_iff, not_or]; exact ⟨hxid, hx⟩) hj hjt

/-! ### What is written -/

lemma mem_idsWith {f : CAddrInfo → Bool} {id : ℤ} :
    id ∈ m.idsWith f ↔ ∃ info, m.mapInfo.lookup id = some info ∧ f info = true := by
  rw [idsWith, List.mem_filter, Finset.mem_sort, Finmap.mem_keys, Finmap.mem_iff]
  constructor
  · rintro ⟨⟨i, hi⟩, hf⟩
    exact ⟨i, hi, by rwa [infoAt_of_lookup hi] at hf⟩
  · rintro ⟨i, hi, hf⟩
    exact ⟨⟨i, hi⟩, by rwa [infoAt_of_lookup hi]⟩

lemma nodup_idsWith (f : CAddrInfo → Bool) : (m.idsWith f).Nodup :=
  (Finset.sort_nodup _ _).filter _

lemma length_idsWith {f : CAddrInfo → Bool} {t : Bool}
    (h : ∀ {id info}, m.mapInfo.lookup id = some info → (f info = true ↔ info.fInTried = t)) :
    (m.idsWith f).length = (m.idsTried t).card := by
  rw [← List.toFinset_card_of_nodup (nodup_idsWith f)]
  congr 1
  ext id
  rw [List.mem_toFinset, mem_idsWith, mem_idsTried]
  constructor
  · rintro ⟨i, hi, hf⟩
    exact ⟨i, hi, (h hi).mp hf⟩
  · rintro ⟨i, hi, ht⟩
    exact ⟨i, hi, (h hi).mpr ht⟩

lemma InvBut.refs_iff (h : Inv env m) (hinfo : m.mapInfo.lookup nId = some info) :
    (info.nRefCount != 0) = true ↔ info.fInTried = false := by
  rw [bne_iff_ne]
  constructor
  · intro hrefs
    by_contra ht
    exact hrefs (h.tables.slotted.refs_tried hinfo (by simpa using ht))
  · exact fun ht => h.used (Set.notMem_empty _) hinfo ht

/-- The form of what a consistent manager writes. -/
structure Written (s : List AddrToken) (m : CAddrMan) (rsNew rsTried : List AddrRecord)
    (buckets : List (List ℤ)) : Prop where
  tokens : s = .byte 1 :: .byte 32 :: .key m.nKey :: .int m.nNew :: .int m.nTried ::
    .int (flipBit ADDRMAN_NEW_BUCKET_COUNT) :: (recordTokens rsNew ++ (recordTokens rsTried ++
      bucketsTokens buckets))
  nNew : (rsNew.length : ℤ) = m.nNew
  nTried : (rsTried.length : ℤ) = m.nTried
  distinct : (rsNew ++ rsTried).Pairwise fun r r' => r.addr.ip ≠ r'.addr.ip
  timeNew : ∀ r ∈ rsNew, 0 ≤ r.nLastSuccess
  timeTried : ∀ r ∈ rsTried, 0 < r.nLastSuccess
  buckets : buckets.length = ADDRMAN_NEW_BUCKET_COUNT

lemma any_range_eq_false {n : ℕ} {k : ℤ} (h : (n : ℤ) = k) :
    ((List.range n).any fun i => (i : ℤ) == k) = false := by
  rw [List.any_eq_false]
  intro i hi
  have := List.mem_range.mp hi
  simp only [beq_iff_eq]
  omega

lemma InvBut.written (h : Inv env m) : ∃ s rsNew rsTried buckets,
    m.serialize = some s ∧ Written s m rsNew rsTried buckets := by
  have hnew : ((m.idsWith fun info => info.nRefCount != 0).length : ℤ) = m.nNew := by
    rw [length_idsWith h.refs_iff]
    exact h.counted.2
  have htried : ((m.idsWith fun info => info.fInTried).length : ℤ) = m.nTried := by
    rw [length_idsWith (t := true) (fun _ => Iff.rfl)]
    exact h.counted.1
  have hser : m.serialize = some m.tokens := by
    rw [serialize]
    simp only [any_range_eq_false hnew, any_range_eq_false htried, Bool.or_false,
      Bool.false_eq_true, if_false]
  refine ⟨_, (m.idsWith fun info => info.nRefCount != 0).map fun id => (m.infoAt id).record,
    (m.idsWith fun info => info.fInTried).map fun id => (m.infoAt id).record,
    (List.range ADDRMAN_NEW_BUCKET_COUNT).map fun b =>
      (((List.range ADDRMAN_BUCKET_SIZE).map (m.vvNew b)).filter (· != -1)).map m.unkId,
    hser, ⟨?_, by rwa [List.length_map], by rwa [List.length_map], ?_, ?_, ?_, by simp⟩⟩
  · simp only [tokens, recordTokens, bucketsTokens, List.map_map, List.flatMap_map,
      List.append_assoc, List.length_map]
    rfl
  · rw [← List.map_append, List.pairwise_map]
    have hnodup : ((m.idsWith fun info => info.nRefCount != 0) ++
        m.idsWith fun info => info.fInTried).Nodup := by
      refine List.Nodup.append (nodup_idsWith _) (nodup_idsWith _) fun id h₁ h₂ => ?_
      obtain ⟨i, hi, hrefs⟩ := mem_idsWith.mp h₁
      obtain ⟨j, hj, ht⟩ := mem_idsWith.mp h₂
      rw [hi] at hj
      rw [← Option.some.inj hj, (h.refs_iff hi).mp hrefs] at ht
      cases ht
    refine hnodup.imp_of_mem fun {id id'} hid hid' hne hip => ?_
    have hlook : ∀ {x}, x ∈ (m.idsWith fun info => info.nRefCount != 0) ++
        (m.idsWith fun info => info.fInTried) → ∃ i, m.mapInfo.lookup x = some i := by
      intro x hx
      rcases List.mem_append.mp hx with hx | hx
      · obtain ⟨i, hi, -⟩ := mem_idsWith.mp hx
        exact ⟨i, hi⟩
      · obtain ⟨i, hi, -⟩ := mem_idsWith.mp hx
        exact ⟨i, hi⟩
    obtain ⟨i, hi⟩ := hlook hid
    obtain ⟨j, hj⟩ := hlook hid'
    rw [infoAt_of_lookup hi, infoAt_of_lookup hj] at hip
    have haddr := h.tables.slotted.addr hi
    change i.ip = j.ip at hip
    rw [hip, h.tables.slotted.addr hj] at haddr
    exact hne (Option.some.inj haddr).symm
  · intro r hr
    obtain ⟨id, hid, rfl⟩ := List.mem_map.mp hr
    obtain ⟨i, hi, -⟩ := mem_idsWith.mp hid
    rw [infoAt_of_lookup hi]
    exact (h.tables.timed hi).2.1
  · intro r hr
    obtain ⟨id, hid, rfl⟩ := List.mem_map.mp hr
    obtain ⟨i, hi, ht⟩ := mem_idsWith.mp hid
    rw [infoAt_of_lookup hi]
    obtain ⟨-, hle, hne⟩ := h.tables.timed hi
    exact lt_of_le_of_ne hle (Ne.symm (hne ht))

/-- **Writing and reading.** What a consistent manager writes can be read into a manager that holds
nothing, and that is consistent then. -/
theorem Bare.load (h : Bare m) (h' : Inv env m') {s : List AddrToken} (hs : m'.serialize = some s)
    (nKey : Uint256) :
    (m.unserialize env nKey s).2 = true ∧ Inv env (m.unserialize env nKey s).1 := by
  obtain ⟨s', rsNew, rsTried, buckets, hs', hw⟩ := h'.written
  obtain rfl : s' = s := Option.some.inj (hs'.symm.trans hs)
  have hflip : flipBit (flipBit ADDRMAN_NEW_BUCKET_COUNT) = ADDRMAN_NEW_BUCKET_COUNT := by decide
  have hcount : 0 ≤ m'.nNew := hw.nNew ▸ Int.natCast_nonneg _
  obtain ⟨hnewne, htriedne, hcross⟩ := List.pairwise_append.mp hw.distinct
  -- the header
  have hheader : (m.clear nKey).readHeader s' = ({ m.clear nKey with
        nKey := m'.nKey, nNew := m'.nNew, nTried := m'.nTried },
      some (1, (ADDRMAN_NEW_BUCKET_COUNT : ℤ), recordTokens rsNew ++ (recordTokens rsTried ++
        bucketsTokens buckets))) := by
    rw [hw.tokens, readHeader, if_pos one_ne_zero, hflip]
  have hstart : Loaded env ({ m.clear nKey with
      nKey := m'.nKey, nNew := m'.nNew, nTried := m'.nTried } : CAddrMan) 0 0 :=
    ⟨(h.tables m'.nKey).congr rfl rfl rfl rfl rfl rfl rfl, h.counted m'.nKey, h.waiting⟩
  have hbelow : Below ({ m.clear nKey with
      nKey := m'.nKey, nNew := m'.nNew, nTried := m'.nTried } : CAddrMan) 0 := by
    intro id i hi
    change m.mapInfo.lookup id = some i at hi
    rw [h.mapInfo, Finmap.lookup_empty] at hi
    cases hi
  -- the entries of the new table
  obtain ⟨m₁, hread₁, hl₁, hb₁, hf₁, hnew₁, htried₁, hkey₁, hmap₁⟩ := hstart.readNew rsNew
    le_rfl hbelow (fun i h0 hi => by omega)
    (fun r _ => h.mapAddr _) hnewne hw.timeNew
    (recordTokens rsTried ++ bucketsTokens buckets)
  rw [zero_add, hw.nNew] at hl₁ hb₁ hf₁
  change m₁.nNew = m'.nNew at hnew₁
  change m₁.nTried = m'.nTried at htried₁
  -- the entries of the tried table
  have hl₁' : Loaded env ({ m₁ with nIdCount := m₁.nNew } : CAddrMan) 0 m'.nNew :=
    ⟨hl₁.tables.congr rfl rfl rfl rfl rfl rfl rfl, hl₁.counted, hl₁.waiting⟩
  obtain ⟨m₂, a, nLost, hread₂, hl₂, hsum₂, hc₂, hb₂, hf₂, hnew₂, htried₂, hkey₂⟩ :=
    hl₁'.readTried rsTried 0 (n := m'.nNew) (by rw [hnew₁]; exact hcount)
      (by rw [hnew₁]; exact hb₁) hf₁ hnew₁.ge
      (fun r hr => (hmap₁ _ fun r' hr' => hcross r' hr' r hr).trans (h.mapAddr _)) htriedne
      hw.timeTried (bucketsTokens buckets)
  change m₂.nNew = m₁.nNew at hnew₂
  change m₂.nTried = m₁.nTried at htried₂
  -- the buckets
  have hl₂' : Loaded env ({ m₂ with nTried := m₂.nTried - nLost } : CAddrMan) a m'.nNew :=
    ⟨hl₂.tables.congr rfl rfl rfl rfl rfl rfl rfl, hl₂.counted, hl₂.waiting⟩
  obtain ⟨m₃, hread₃, hfill⟩ := hl₂'.readBuckets hb₂ (by rw [hnew₂, hnew₁]; exact hf₂) buckets
    0 (by rw [hw.buckets, zero_add])
  have hresult : m.unserialize env nKey s' = (m₃.prune, true) := by
    rw [CAddrMan.unserialize, hheader]
    simp only [readTables, decide_true, and_self]
    have hlen₁ : m'.nNew.toNat = rsNew.length := by
      have := hw.nNew
      omega
    have hlen₂ : m₁.nTried.toNat = rsTried.length := by
      have := hw.nTried
      omega
    rw [hlen₁, hread₁]
    simp only [hlen₂, hread₂]
    rw [Int.toNat_natCast, ← hw.buckets, hread₃]
  rw [hresult]
  refine ⟨rfl, InvBut.prune (Finset.sort_nodup _ _) ?_ ?_⟩
  · have hnewEq : m₃.nNew = m'.nNew := by rw [hfill.nNew, hnew₂, hnew₁]
    have htriedEq : m₃.nTried = a := by
      rw [hfill.nTried]
      change m₂.nTried - nLost = a
      rw [htried₂, htried₁]
      have := hw.nTried
      omega
    refine ⟨hfill.loaded.tables, ?_, ?_, ?_, hfill.below, ?_, ?_, ?_⟩
    · rw [htriedEq, hnewEq]
      exact hfill.loaded.counted
    · intro id i hid hi
      refine absurd ?_ hid
      rw [Set.mem_ofPred_eq, Finset.mem_sort, Finmap.mem_keys]
      exact Finmap.mem_of_lookup_eq_some hi
    · rw [hfill.nIdCount]
      exact hc₂
    · intro id hid
      rw [hfill.loaded.waiting] at hid
      simp at hid
    · intro hne
      rw [hfill.loaded.waiting] at hne
      simp at hne
    · rw [hfill.nKey]
      change m₂.nKey ≠ 0
      rw [hkey₂]
      change m₁.nKey ≠ 0
      rw [hkey₁]
      exact h'.key
  · intro id hid
    rwa [Finset.mem_sort, Finmap.mem_keys] at hid

end Agenor.CAddrMan
