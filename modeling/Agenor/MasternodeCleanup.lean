import Agenor.MasternodePings

/-!
`CMasternodeMan::CheckAndRemove` with its iterators.

The five maps it prunes are walked through by iterators, and an element is erased after the iterator
has been moved on. One loop uses the iterator once more: for a broadcast that has expired it erases
the hash of the next one from `mapSeenSyncMNB`, and when there is none it reads past the end.

Maps are lists in the order of their keys, as `std::map` walks through them. What the loops do to
the list of masternodes, the broadcasts and the pings is what `CMasternodeMan.checkAndRemove` says.
-/

namespace Agenor

/-- `masternodeSync.mapSeenSyncMNB`: how often a broadcast has been seen in a synchronisation. -/
abbrev SyncMap := Uint256 → Option ℤ

/-- `std::map::erase` of some keys. -/
def SyncMap.eraseKeys (sync : SyncMap) (ks : List Uint256) : SyncMap :=
  fun k => if ks.contains k then none else sync k

/-- What `CheckAndRemove` prunes. -/
structure MnLists where
  vMasternodes : List CMasternode
  mAskedUsForMasternodeList : List (List UInt8 × ℤ)
  mWeAskedForMasternodeList : List (List UInt8 × ℤ)
  mWeAskedForMasternodeListEntry : List (COutPoint × ℤ)
  mapSeenMasternodeBroadcast : List (Uint256 × CMasternodeBroadcast)
  mapSeenMasternodePing : List (Uint256 × CMasternodePing)
  mapSeenSyncMNB : SyncMap

namespace MnLists

/-! ### The loops -/

/-- A loop of `erase(it++)` and `++it`. -/
def eraseLoop {α : Type} (dead : α → Bool) : List α → List α
  | [] => []
  | e :: rest => if dead e then eraseLoop dead rest else e :: eraseLoop dead rest

/-- The loop over the broadcasts of a masternode that goes; their keys are erased from
`mapSeenSyncMNB`. -/
def forgetLoop (vin : CTxIn) : List (Uint256 × CMasternodeBroadcast) → SyncMap →
    List (Uint256 × CMasternodeBroadcast) × SyncMap
  | [], sync => ([], sync)
  | it :: rest, sync =>
    if it.2.vin = vin then forgetLoop vin rest (sync.eraseKeys [it.1])
    else
      let (left, sync) := forgetLoop vin rest sync
      (it :: left, sync)

/-- The loop over the masternodes. -/
def removeLoop (env : MnEnv) (forceExpiredRemoval : Bool) : List CMasternode → MnLists → MnLists
  | [], s => { s with vMasternodes := [] }
  | mn :: rest, s =>
    if CMasternodeMan.isRemoved env forceExpiredRemoval mn then
      let (mapSeenMasternodeBroadcast, mapSeenSyncMNB) :=
        forgetLoop mn.vin s.mapSeenMasternodeBroadcast s.mapSeenSyncMNB
      removeLoop env forceExpiredRemoval rest
        { s with
          mapSeenMasternodeBroadcast, mapSeenSyncMNB
          mWeAskedForMasternodeListEntry :=
            eraseLoop (·.1 == mn.vin.prevout) s.mWeAskedForMasternodeListEntry }
    else
      let s := removeLoop env forceExpiredRemoval rest s
      { s with vMasternodes := mn :: s.vMasternodes }

/-- The broadcast has not been pinged for too long. -/
def expired (env : MnEnv) (e : Uint256 × CMasternodeBroadcast) : Bool :=
  decide (e.2.lastPing.sigTime < env.getTime - MASTERNODE_REMOVAL_SECONDS * 2)

/-- The loop over the expired broadcasts. When one is erased the iterator is at the next one, and it
is the hash of that one that is erased from `mapSeenSyncMNB`; at the end this is undefined. -/
def expireLoop (S : Signer) (env : MnEnv) : List (Uint256 × CMasternodeBroadcast) → SyncMap →
    Option (List (Uint256 × CMasternodeBroadcast) × SyncMap)
  | [], sync => some ([], sync)
  | it :: rest, sync =>
    if expired env it then
      match rest with
      | [] => none
      | next :: _ => expireLoop S env rest (sync.eraseKeys [next.2.getHash S])
    else (expireLoop S env rest sync).map fun r => (it :: r.1, r.2)

/-- `CMasternodeMan::CheckAndRemove`; `none` when the behaviour is undefined. -/
def checkAndRemove (S : Signer) (env : MnEnv) (forceExpiredRemoval : Bool) (s : MnLists) :
    Option MnLists := do
  let s := removeLoop env forceExpiredRemoval (s.vMasternodes.map (·.check env false)) s
  let isPast := fun t : ℤ => decide (t < env.getTime)
  let (mapSeenMasternodeBroadcast, mapSeenSyncMNB) ←
    expireLoop S env s.mapSeenMasternodeBroadcast s.mapSeenSyncMNB
  return { s with
    mAskedUsForMasternodeList := eraseLoop (isPast ·.2) s.mAskedUsForMasternodeList
    mWeAskedForMasternodeList := eraseLoop (isPast ·.2) s.mWeAskedForMasternodeList
    mWeAskedForMasternodeListEntry := eraseLoop (isPast ·.2) s.mWeAskedForMasternodeListEntry
    mapSeenMasternodeBroadcast, mapSeenSyncMNB
    mapSeenMasternodePing := eraseLoop (fun e =>
      decide (e.2.sigTime < env.getTime - MASTERNODE_REMOVAL_SECONDS * 2)) s.mapSeenMasternodePing }

/-! ### What the loops do -/

section Loops

variable {S : Signer} {env : MnEnv} {force : Bool} {sync : SyncMap}

lemma eraseLoop_eq_filter {α : Type} (dead : α → Bool) (l : List α) :
    eraseLoop dead l = l.filter fun e => !dead e := by
  induction l with
  | nil => rfl
  | cons e l ih =>
    rw [eraseLoop, List.filter_cons, ih]
    cases dead e <;> rfl

lemma eraseKeys_apply (sync : SyncMap) (ks : List Uint256) (k : Uint256) :
    sync.eraseKeys ks k = if k ∈ ks then none else sync k := by
  simp [SyncMap.eraseKeys]

@[simp] lemma eraseKeys_nil (sync : SyncMap) : sync.eraseKeys [] = sync := by
  funext k
  simp [SyncMap.eraseKeys]

lemma eraseKeys_eraseKeys (sync : SyncMap) (ks ks' : List Uint256) :
    (sync.eraseKeys ks).eraseKeys ks' = sync.eraseKeys (ks ++ ks') := by
  funext k
  by_cases hk : k ∈ ks <;> simp [SyncMap.eraseKeys, hk]

/-- Masternodes of a list that go, and the broadcasts that go with them. -/
def gone (env : MnEnv) (force : Bool) (l : List CMasternode) (e : Uint256 × CMasternodeBroadcast) :
    Bool :=
  l.any fun mn => CMasternodeMan.isRemoved env force mn && (e.2.vin == mn.vin)

lemma forgetLoop_eq (vin : CTxIn) (l : List (Uint256 × CMasternodeBroadcast)) (sync : SyncMap) :
    forgetLoop vin l sync = (l.filter fun e => !(e.2.vin == vin),
      sync.eraseKeys ((l.filter fun e => e.2.vin == vin).map (·.1))) := by
  induction l generalizing sync with
  | nil => simp [forgetLoop]
  | cons e l ih =>
    rw [forgetLoop]
    by_cases he : e.2.vin = vin
    · rw [if_pos he, ih, eraseKeys_eraseKeys]
      simp [he]
    · rw [if_neg he, ih]
      simp [he]

lemma removeLoop_eq (env : MnEnv) (force : Bool) (l : List CMasternode) (s : MnLists) :
    (removeLoop env force l s).vMasternodes =
      l.filter (fun mn => !CMasternodeMan.isRemoved env force mn) ∧
    (removeLoop env force l s).mapSeenMasternodeBroadcast =
      s.mapSeenMasternodeBroadcast.filter (fun e => !gone env force l e) ∧
    (∀ k, (removeLoop env force l s).mapSeenSyncMNB k =
      if k ∈ (s.mapSeenMasternodeBroadcast.filter (gone env force l)).map (·.1) then none
      else s.mapSeenSyncMNB k) ∧
    (removeLoop env force l s).mapSeenMasternodePing = s.mapSeenMasternodePing := by
  induction l generalizing s with
  | nil => simp [removeLoop, gone]
  | cons mn l ih =>
    rw [removeLoop]
    by_cases hmn : CMasternodeMan.isRemoved env force mn = true
    · have hgone : ∀ e, gone env force (mn :: l) e =
      ((e.2.vin == mn.vin) || gone env force l e) := by
        intro e
        simp only [gone, List.any_cons, hmn, Bool.true_and]
      rw [if_pos hmn, forgetLoop_eq]
      dsimp only
      obtain ⟨hstay, hleft, hsync, hping⟩ := ih
        { s with
          mapSeenMasternodeBroadcast := s.mapSeenMasternodeBroadcast.filter
            fun e => !(e.2.vin == mn.vin)
          mapSeenSyncMNB := s.mapSeenSyncMNB.eraseKeys
            ((s.mapSeenMasternodeBroadcast.filter fun e => e.2.vin == mn.vin).map (·.1))
          mWeAskedForMasternodeListEntry :=
            eraseLoop (·.1 == mn.vin.prevout) s.mWeAskedForMasternodeListEntry }
      refine ⟨?_, ?_, fun k => ?_, hping⟩
      · rw [hstay, List.filter_cons, hmn]
        rfl
      · rw [hleft, List.filter_filter]
        refine List.filter_congr fun e _ => ?_
        rw [hgone, Bool.not_or, Bool.and_comm]
      · rw [hsync]
        dsimp only
        rw [eraseKeys_apply]
        have hmem : k ∈ (s.mapSeenMasternodeBroadcast.filter (gone env force (mn :: l))).map (·.1) ↔
            k ∈ ((s.mapSeenMasternodeBroadcast.filter fun e => !(e.2.vin == mn.vin)).filter
              (gone env force l)).map (·.1) ∨
            k ∈ (s.mapSeenMasternodeBroadcast.filter fun e => e.2.vin == mn.vin).map (·.1) := by
          simp only [List.mem_map, List.mem_filter, hgone]
          grind
        rw [if_congr hmem rfl rfl, ite_or]
    · have hgone : gone env force (mn :: l) = gone env force l := by
        funext e
        simp only [gone, List.any_cons, hmn, Bool.false_and, Bool.false_or]
      rw [if_neg hmn, hgone]
      obtain ⟨hstay, hleft, hsync, hping⟩ := ih s
      refine ⟨?_, hleft, hsync, hping⟩
      dsimp only
      rw [hstay, List.filter_cons]
      simp [hmn]

/-- The broadcast with the highest hash has expired. -/
def endsExpired (env : MnEnv) (l : List (Uint256 × CMasternodeBroadcast)) : Bool :=
  l.getLast?.any (expired env)

/-- The hashes of the broadcasts that come after an expired one. -/
def afterExpired (S : Signer) (env : MnEnv) : Bool → List (Uint256 × CMasternodeBroadcast) →
    List Uint256
  | _, [] => []
  | previous, e :: rest =>
    (if previous then [e.2.getHash S] else []) ++ afterExpired S env (expired env e) rest

lemma expireLoop_eq (l : List (Uint256 × CMasternodeBroadcast)) (sync : SyncMap) :
    expireLoop S env l sync = if endsExpired env l = true then none
      else some (l.filter fun e => !expired env e,
        sync.eraseKeys (afterExpired S env false l)) := by
  induction l generalizing sync with
  | nil => simp [expireLoop, endsExpired, afterExpired]
  | cons e l ih =>
    unfold expireLoop
    by_cases he : expired env e = true
    · cases l with
      | nil => simp [he, endsExpired]
      | cons next l =>
        have hends : endsExpired env (e :: next :: l) = endsExpired env (next :: l) := by
          simp [endsExpired]
        rw [if_pos he]
        dsimp only
        rw [ih, hends, eraseKeys_eraseKeys]
        simp [afterExpired, he]
    · have hends : endsExpired env (e :: l) = endsExpired env l := by
        cases l <;> simp_all [endsExpired]
      rw [if_neg he, ih, hends]
      by_cases hl : endsExpired env l = true
      · simp [hl]
      · simp [hl, he, afterExpired]

lemma mem_afterExpired {k : Uint256} {previous : Bool} {l : List (Uint256 × CMasternodeBroadcast)}
    (hk : k ∈ afterExpired S env previous l) : ∃ e ∈ l, e.2.getHash S = k := by
  induction l generalizing previous with
  | nil => simp [afterExpired] at hk
  | cons e l ih =>
    rw [afterExpired, List.mem_append] at hk
    rcases hk with hk | hk
    · cases previous with
      | false => simp at hk
      | true => exact ⟨e, List.mem_cons_self .., (List.mem_singleton.mp hk).symm⟩
    · obtain ⟨e', he', rfl⟩ := ih hk
      exact ⟨e', List.mem_cons_of_mem _ he', rfl⟩

end Loops

/-! ### When the clean-up is exact -/

section Exact

variable (S : Signer) (env : MnEnv) (force : Bool) (s : MnLists)

/-- The broadcasts of masternodes that go, … -/
def forgotten : List (Uint256 × CMasternodeBroadcast) :=
  s.mapSeenMasternodeBroadcast.filter (gone env force (s.vMasternodes.map (·.check env false)))

/-- … and the others, in the order of their hashes. -/
def remaining : List (Uint256 × CMasternodeBroadcast) :=
  s.mapSeenMasternodeBroadcast.filter fun e =>
    !gone env force (s.vMasternodes.map (·.check env false)) e

/-- Broadcasts are stored under their hash, in the order of the hashes. -/
structure Keyed : Prop where
  sorted : (s.mapSeenMasternodeBroadcast.map (·.1)).Pairwise (· < ·)
  keyed : ∀ e ∈ s.mapSeenMasternodeBroadcast, e.2.getHash S = e.1
  pings : (s.mapSeenMasternodePing.map (·.1)).Pairwise (· < ·)

/-- The clean-up is defined, removes the masternodes it should, and erases the hashes of the
broadcasts it erases from `mapSeenSyncMNB`, and no others. -/
def CleansUp : Prop :=
  ∃ s', checkAndRemove S env force s = some s' ∧
    s'.vMasternodes = (s.vMasternodes.map (·.check env false)).filter
      (fun mn => !CMasternodeMan.isRemoved env force mn) ∧
    (∀ e ∈ s.mapSeenMasternodeBroadcast, e ∉ s'.mapSeenMasternodeBroadcast →
      s'.mapSeenSyncMNB (e.2.getHash S) = none) ∧
    ∀ k, (∀ e ∈ s.mapSeenMasternodeBroadcast, e ∉ s'.mapSeenMasternodeBroadcast →
      e.2.getHash S ≠ k) → s'.mapSeenSyncMNB k = s.mapSeenSyncMNB k

/-- A broadcast whose hash is in `mapSeenSyncMNB` has expired if and only if the one before it has,
and the last one has not expired. -/
def Aligned (env : MnEnv) (sync : SyncMap) : Bool → List (Uint256 × CMasternodeBroadcast) → Prop
  | previous, [] => previous = false
  | previous, e :: rest => ((sync e.1).isSome = true → expired env e = previous) ∧
    Aligned env sync (expired env e) rest

variable {S env force s}

lemma checkAndRemove_cases (S : Signer) (env : MnEnv) (force : Bool) (s : MnLists) :
    endsExpired env (remaining env force s) = true ∧
      checkAndRemove S env force s = none ∨
    endsExpired env (remaining env force s) = false ∧
      ∃ s', checkAndRemove S env force s = some s' ∧
        s'.vMasternodes = (s.vMasternodes.map (·.check env false)).filter
          (fun mn => !CMasternodeMan.isRemoved env force mn) ∧
        s'.mapSeenMasternodeBroadcast =
          (remaining env force s).filter (fun e => !expired env e) ∧
        (∀ k, s'.mapSeenSyncMNB k =
          if k ∈ afterExpired S env false (remaining env force s) ∨
            k ∈ (forgotten env force s).map (·.1) then none else s.mapSeenSyncMNB k) ∧
        s'.mapSeenMasternodePing = s.mapSeenMasternodePing.filter fun e =>
          !decide (e.2.sigTime < env.getTime - MASTERNODE_REMOVAL_SECONDS * 2) := by
  obtain ⟨hstay, hleft, hsync, hping⟩ :=
    removeLoop_eq env force (s.vMasternodes.map (·.check env false)) s
  rw [checkAndRemove]
  dsimp only
  rw [hleft, expireLoop_eq]
  cases hends : endsExpired env (remaining env force s) with
  | true =>
    refine .inl ⟨rfl, ?_⟩
    rw [remaining] at hends
    rw [if_pos hends]
    rfl
  | false =>
    refine .inr ⟨rfl, ?_⟩
    rw [remaining] at hends
    rw [if_neg (by simp [hends])]
    refine ⟨_, rfl, hstay, rfl, fun k => ?_, ?_⟩
    · dsimp only
      rw [eraseKeys_apply, hsync, ← ite_or]
      rfl
    · dsimp only
      rw [eraseLoop_eq_filter, hping]

lemma aligned_iff {sync : SyncMap} {previous : Bool} {l : List (Uint256 × CMasternodeBroadcast)}
    (hnodup : (l.map (·.1)).Nodup) (hkeyed : ∀ e ∈ l, e.2.getHash S = e.1) :
    Aligned env sync previous l ↔ (l.getLast?.map (expired env)).getD previous = false ∧
      ∀ k, (sync k).isSome = true →
        (k ∈ afterExpired S env previous l ↔ k ∈ (l.filter (expired env)).map (·.1)) := by
  induction l generalizing previous with
  | nil => simp [Aligned, afterExpired]
  | cons e l ih =>
    obtain ⟨he, hnodup⟩ := List.nodup_cons.mp hnodup
    have he : e.1 ∉ l.map (·.1) := he
    obtain ⟨hhash, hkeyed⟩ := List.forall_mem_cons.mp hkeyed
    have hlast : ((e :: l).getLast?.map (expired env)).getD previous =
        (l.getLast?.map (expired env)).getD (expired env e) := by
      rw [List.getLast?_cons]
      cases l.getLast? <;> rfl
    have hafter : ∀ k, k ∈ afterExpired S env previous (e :: l) ↔
        (previous = true ∧ k = e.1) ∨ k ∈ afterExpired S env (expired env e) l := by
      intro k
      rw [afterExpired, List.mem_append, hhash]
      cases previous <;> simp
    have hdead : ∀ k, k ∈ ((e :: l).filter (expired env)).map (·.1) ↔
        (expired env e = true ∧ k = e.1) ∨ k ∈ (l.filter (expired env)).map (·.1) := by
      intro k
      rw [List.filter_cons]
      cases expired env e <;> simp
    -- the key of the first one is not among those of the rest
    have hrest : ∀ k, k ∈ afterExpired S env (expired env e) l ∨
        k ∈ (l.filter (expired env)).map (·.1) → k ≠ e.1 := by
      rintro k (hk | hk) rfl
      · obtain ⟨e', he', hk⟩ := mem_afterExpired hk
        rw [hkeyed e' he'] at hk
        exact he (hk ▸ List.mem_map_of_mem he')
      · exact he (List.map_subset _ (List.filter_subset_self _) hk)
    rw [Aligned, ih hnodup hkeyed, hlast]
    simp only [hafter, hdead]
    constructor
    · rintro ⟨hfirst, hlast, hall⟩
      refine ⟨hlast, fun k hk => ?_⟩
      rw [hall k hk]
      refine or_congr_left (and_congr_left ?_)
      rintro rfl
      rw [hfirst hk]
    · rintro ⟨hlast, hall⟩
      refine ⟨fun hk => ?_, hlast, fun k hk => ?_⟩
      · have hiff := hall e.1 hk
        have h₁ : e.1 ∉ afterExpired S env (expired env e) l := fun h => hrest _ (.inl h) rfl
        have h₂ : e.1 ∉ (l.filter (expired env)).map (·.1) := fun h => hrest _ (.inr h) rfl
        simp only [h₁, h₂, or_false, and_true] at hiff
        exact (Bool.eq_iff_iff.mpr hiff).symm
      · have hiff := hall k hk
        by_cases hke : k = e.1
        · exact iff_of_false (fun h => hrest k (.inl h) hke) fun h => hrest k (.inr h) hke
        · simpa only [hke, and_false, false_or] using hiff

end Exact

section Erased

variable {S : Signer} {env : MnEnv} {force : Bool} {s : MnLists} {k : Uint256}

lemma Keyed.apart (h : s.Keyed S) (hk : k ∈ (s.forgotten env force).map (·.1)) :
    k ∉ (s.remaining env force).map (·.1) := by
  have hnodup : (s.mapSeenMasternodeBroadcast.map (·.1)).Nodup := h.sorted.imp BitVec.ne_of_lt
  intro hk'
  obtain ⟨e, he, rfl⟩ := List.mem_map.mp hk
  obtain ⟨e', he', hkk⟩ := List.mem_map.mp hk'
  obtain ⟨he, hgone⟩ := List.mem_filter.mp he
  obtain ⟨he', hstay⟩ := List.mem_filter.mp he'
  obtain rfl := List.inj_on_of_nodup_map hnodup he' he hkk
  rw [hgone] at hstay
  cases hstay

lemma Keyed.erased_iff (h : s.Keyed S) : (∃ e ∈ s.mapSeenMasternodeBroadcast,
    e ∉ (s.remaining env force).filter (fun e => !expired env e) ∧ e.2.getHash S = k) ↔
    k ∈ ((s.remaining env force).filter (expired env)).map (·.1) ∨
      k ∈ (s.forgotten env force).map (·.1) := by
  constructor
  · rintro ⟨e, he, hout, rfl⟩
    rw [h.keyed e he]
    cases hgone : gone env force (s.vMasternodes.map (·.check env false)) e with
    | true => exact .inr (List.mem_map_of_mem (List.mem_filter.mpr ⟨he, hgone⟩))
    | false =>
      have hrem : e ∈ s.remaining env force := List.mem_filter.mpr ⟨he, by simp [hgone]⟩
      refine .inl (List.mem_map_of_mem (List.mem_filter.mpr ⟨hrem, ?_⟩))
      by_contra hlive
      exact hout (List.mem_filter.mpr ⟨hrem, by simpa using hlive⟩)
  · rintro (hk | hk)
    · obtain ⟨e, he, rfl⟩ := List.mem_map.mp hk
      obtain ⟨he, hdead⟩ := List.mem_filter.mp he
      have hseen : e ∈ s.mapSeenMasternodeBroadcast := List.mem_of_mem_filter he
      refine ⟨e, hseen, fun hin => ?_, h.keyed e hseen⟩
      simp [hdead] at hin
    · obtain ⟨e, he, rfl⟩ := List.mem_map.mp hk
      obtain ⟨hseen, -⟩ := List.mem_filter.mp he
      refine ⟨e, hseen, fun hin => ?_, h.keyed e hseen⟩
      exact h.apart hk (List.mem_map_of_mem (List.mem_of_mem_filter hin))

end Erased

end MnLists

open MnLists in
/-- **The clean-up of the masternode list.** It is defined and exact if and only if, in the order of
hashes, the last broadcast that is left has not expired, and one whose hash is in `mapSeenSyncMNB`
has expired exactly when the one before it has. -/
theorem cleansUp_iff_aligned (S : Signer) (env : MnEnv) (force : Bool) (s : MnLists)
    (hkeyed : s.Keyed S) :
    s.CleansUp S env force ↔ Aligned env s.mapSeenSyncMNB false (s.remaining env force) := by
  have hnodup : (s.mapSeenMasternodeBroadcast.map (·.1)).Nodup :=
    hkeyed.sorted.imp BitVec.ne_of_lt
  have hsub : (s.remaining env force).Sublist s.mapSeenMasternodeBroadcast := List.filter_sublist
  have hnodup' : ((s.remaining env force).map (·.1)).Nodup := (hsub.map _).nodup hnodup
  have hkeyed' : ∀ e ∈ s.remaining env force, e.2.getHash S = e.1 :=
    fun e he => hkeyed.keyed e (hsub.subset he)
  rw [aligned_iff hnodup' hkeyed']
  have hends : ((s.remaining env force).getLast?.map (expired env)).getD false =
      endsExpired env (s.remaining env force) := by
    rw [endsExpired]
    cases (s.remaining env force).getLast? <;> rfl
  rw [hends]
  rcases checkAndRemove_cases S env force s with
    ⟨hend, hnone⟩ | ⟨hend, s', hsome, hstay, hleft, hsync, -⟩
  · refine iff_of_false ?_ fun h => ?_
    · rintro ⟨s', hsome, -⟩
      rw [hnone] at hsome
      cases hsome
    · rw [hend] at h
      cases h.1
  · set A := afterExpired S env false (s.remaining env force)
    set X := ((s.remaining env force).filter (expired env)).map (·.1) with hX
    set F := (s.forgotten env force).map (·.1) with hF
    have herased : ∀ k, (∃ e ∈ s.mapSeenMasternodeBroadcast,
        e ∉ s'.mapSeenMasternodeBroadcast ∧ e.2.getHash S = k) ↔ k ∈ X ∨ k ∈ F := by
      intro k
      rw [hleft]
      exact hkeyed.erased_iff
    have hAF : ∀ k ∈ F, k ∉ A ∧ k ∉ X := by
      refine fun k hk => ⟨fun hA => ?_, fun hX' => ?_⟩
      · obtain ⟨e, he, rfl⟩ := mem_afterExpired hA
        exact hkeyed.apart hk (hkeyed' e he ▸ List.mem_map_of_mem he)
      · exact hkeyed.apart hk (List.map_subset _ (List.filter_subset_self _) hX')
    constructor
    · rintro ⟨s'', hsome', -, hgone, hkept⟩
      obtain rfl := Option.some.inj (hsome.symm.trans hsome')
      refine ⟨hend, fun k hk => ?_⟩
      by_cases hkF : k ∈ F
      · exact iff_of_false (hAF k hkF).1 (hAF k hkF).2
      have hval := hsync k
      by_cases hkX : k ∈ X
      · obtain ⟨e, he, hout, rfl⟩ := (herased k).mpr (.inl hkX)
        refine iff_of_true (by_contra fun hkA => ?_) hkX
        rw [if_neg (not_or.mpr ⟨hkA, hkF⟩), hgone e he hout] at hval
        rw [← hval] at hk
        cases hk
      · refine iff_of_false (fun hkA => ?_) hkX
        have hstays : s'.mapSeenSyncMNB k = s.mapSeenSyncMNB k := hkept k fun e he hout heq =>
          ((herased k).mp ⟨e, he, hout, heq⟩).elim hkX hkF
        rw [if_pos (.inl hkA), hstays] at hval
        rw [hval] at hk
        cases hk
    · rintro ⟨-, hiff⟩
      refine ⟨s', hsome, hstay, fun e he hout => ?_, fun k hk => ?_⟩
      · rw [hsync]
        rcases (herased _).mp ⟨e, he, hout, rfl⟩ with hkX | hkF
        · by_cases hkA : e.2.getHash S ∈ A
          · rw [if_pos (.inl hkA)]
          · have hnone : ¬ (s.mapSeenSyncMNB (e.2.getHash S)).isSome = true :=
              fun h => hkA ((hiff _ h).mpr hkX)
            split_ifs
            · rfl
            · simpa using hnone
        · rw [if_pos (.inr hkF)]
      · have hnot : k ∉ X ∧ k ∉ F := by
          rw [← not_or, ← herased]
          rintro ⟨e, he, hout, heq⟩
          exact hk e he hout heq
        rw [hsync]
        by_cases hkA : k ∈ A
        · have hnone : ¬ (s.mapSeenSyncMNB k).isSome = true :=
            fun h => hnot.1 ((hiff _ h).mp hkA)
          rw [if_pos (.inl hkA)]
          exact (by simpa using hnone : s.mapSeenSyncMNB k = none).symm
        · rw [if_neg (not_or.mpr ⟨hkA, hnot.2⟩)]

/-! ### The list of masternodes as it is elsewhere -/

namespace MnLists

variable {S : Signer} {env : MnEnv} {force : Bool} {s : MnLists}

/-- The part of the state that `CMasternodeMan` holds. -/
def man (s : MnLists) : CMasternodeMan where
  vMasternodes := s.vMasternodes
  mapSeenMasternodeBroadcast k := s.mapSeenMasternodeBroadcast.lookup k
  mapSeenMasternodePing k := s.mapSeenMasternodePing.lookup k

lemma lookup_filter {V : Type} (p : Uint256 × V → Bool) {l : List (Uint256 × V)}
    (hnodup : (l.map (·.1)).Nodup) (k : Uint256) :
    (l.filter p).lookup k = (l.lookup k).filter fun v => p (k, v) := by
  induction l with
  | nil => rfl
  | cons e l ih =>
    obtain ⟨a, v⟩ := e
    obtain ⟨he, hnodup⟩ := List.nodup_cons.mp hnodup
    have ih := ih hnodup
    rw [List.filter_cons]
    by_cases hk : k = a
    · subst hk
      have hnone : l.lookup k = none := by
        rw [List.lookup_eq_none_iff]
        intro x hx
        rw [bne_iff_ne]
        rintro heq
        exact he (List.mem_map.mpr ⟨x, hx, heq.symm⟩)
      rw [hnone, Option.filter_none] at ih
      cases hp : p (k, v) with
      | true => simp [Option.filter, hp]
      | false =>
        simp only [List.lookup_cons, BEq.rfl, Option.filter, hp]
        exact ih
    · have hne : (k == a) = false := beq_eq_false_iff_ne.mpr hk
      cases hp : p (a, v) with
      | true => simpa [hne, List.lookup_cons] using ih
      | false => simpa [hne, List.lookup_cons] using ih

/-- When the clean-up is defined, it is the one of the masternode list. -/
theorem man_checkAndRemove (hkeyed : s.Keyed S) {s' : MnLists}
    (h : checkAndRemove S env force s = some s') : s'.man = s.man.checkAndRemove env force := by
  have hnodup : (s.mapSeenMasternodeBroadcast.map (·.1)).Nodup :=
    hkeyed.sorted.imp BitVec.ne_of_lt
  rcases checkAndRemove_cases S env force s with
    ⟨-, hnone⟩ | ⟨-, s'', hsome, hstay, hleft, -, hping⟩
  · rw [hnone] at h
    cases h
  · obtain rfl := Option.some.inj (hsome.symm.trans h)
    rw [man, CMasternodeMan.checkAndRemove, CMasternodeMan.mk.injEq]
    refine ⟨hstay, funext fun k => ?_, funext fun k => ?_⟩
    · rw [hleft, remaining, List.filter_filter, lookup_filter _ hnodup]
      congr 1
      funext mnb
      have hgone : (!gone env force (s.vMasternodes.map (·.check env false)) (k, mnb)) =
          ((s.man.check env).vMasternodes.filter (CMasternodeMan.isRemoved env force)).all
            fun mn => mn.vin != mnb.vin := by
        rw [gone, List.not_any_eq_all_not, List.all_filter]
        refine List.all_congr rfl fun mn => ?_
        have hcomm : (mnb.vin == mn.vin) = (mn.vin == mnb.vin) := BEq.comm
        rw [bne, hcomm]
        cases CMasternodeMan.isRemoved env force mn <;> rfl
      rw [hgone, Bool.and_comm]
      rfl
    · rw [hping, lookup_filter _ (hkeyed.pings.imp BitVec.ne_of_lt)]
      rfl

/-! ### Broadcasts stay under their hash -/

/-- A broadcast that has been seen is stored under its hash. -/
def SeenKeyed (S : Signer) (seen : Uint256 → Option CMasternodeBroadcast) : Prop :=
  ∀ k mnb, seen k = some mnb → mnb.getHash S = k

variable {man : CMasternodeMan} {seen : Uint256 → Option CMasternodeBroadcast}

lemma SeenKeyed.update (h : SeenKeyed S seen) {k : Uint256} {b : Option CMasternodeBroadcast}
    (hb : ∀ mnb, b = some mnb → mnb.getHash S = k) : SeenKeyed S (Function.update seen k b) := by
  intro k' mnb hk'
  by_cases hk : k' = k
  · subst hk
    rw [Function.update_self] at hk'
    exact hb mnb hk'
  · rw [Function.update_of_ne hk] at hk'
    exact h k' mnb hk'

lemma seenKeyed_takePing (h : SeenKeyed S man.mapSeenMasternodeBroadcast) (mn : CMasternode)
    (mnp : CMasternodePing) :
    SeenKeyed S (man.takePing S env mn mnp).mapSeenMasternodeBroadcast := by
  refine h.update fun mnb hmnb => ?_
  obtain ⟨old, hold, rfl⟩ := Option.map_eq_some_iff.mp hmnb
  exact h _ old hold

lemma seenKeyed_checkAndUpdatePing (env : MnEnv) (h : SeenKeyed S man.mapSeenMasternodeBroadcast)
    (mnp : CMasternodePing) (fRequireEnabled : Bool) :
    SeenKeyed S (man.checkAndUpdatePing S env mnp fRequireEnabled).1.mapSeenMasternodeBroadcast :=
  CMasternodeMan.checkAndUpdatePing_preserves (R := fun t => SeenKeyed S t.mapSeenMasternodeBroadcast)
    h fun mn _ _ => seenKeyed_takePing h mn mnp

lemma seenKeyed_checkAndUpdate (env : MnEnv) (h : SeenKeyed S man.mapSeenMasternodeBroadcast)
    (mnb : CMasternodeBroadcast) :
    SeenKeyed S (man.checkAndUpdate S env mnb).1.mapSeenMasternodeBroadcast := by
  have hfields : SeenKeyed S
      (man.modify mnb.vin (CMasternodeMan.copyFields mnb)).mapSeenMasternodeBroadcast := h
  have hupdate : SeenKeyed S (man.updateFromNewBroadcast S env mnb).mapSeenMasternodeBroadcast :=
    CMasternodeMan.updateFromNewBroadcast_preserves
      (R := fun t => SeenKeyed S t.mapSeenMasternodeBroadcast) hfields
      (seenKeyed_checkAndUpdatePing env hfields mnb.lastPing false) fun _ ht => ht
  exact CMasternodeMan.checkAndUpdate_preserves
    (R := fun t => SeenKeyed S t.mapSeenMasternodeBroadcast) h fun _ _ _ _ => hupdate

lemma seenKeyed_checkInputsAndAdd (h : SeenKeyed S man.mapSeenMasternodeBroadcast)
    (mnb : CMasternodeBroadcast) :
    SeenKeyed S (man.checkInputsAndAdd S env mnb).1.mapSeenMasternodeBroadcast := by
  have hadd : ∀ t : CMasternodeMan, SeenKeyed S t.mapSeenMasternodeBroadcast →
      SeenKeyed S (t.add mnb.toMasternode).mapSeenMasternodeBroadcast := by
    intro t ht
    unfold CMasternodeMan.add
    split_ifs <;> exact ht
  exact CMasternodeMan.checkInputsAndAdd_preserves
    (R := fun t => SeenKeyed S t.mapSeenMasternodeBroadcast) h (fun _ _ => h)
    (fun t ht => ht.update fun _ hnone => by cases hnone) hadd

lemma seenKeyed_processBroadcast (h : SeenKeyed S man.mapSeenMasternodeBroadcast)
    (mnb : CMasternodeBroadcast) :
    SeenKeyed S (man.processBroadcast S env mnb).1.mapSeenMasternodeBroadcast := by
  have hsee : SeenKeyed S (man.seeBroadcast S mnb).mapSeenMasternodeBroadcast :=
    h.update fun _ hmnb => by rw [Option.some.inj hmnb]
  have hcheck := seenKeyed_checkAndUpdate env hsee mnb
  exact CMasternodeMan.processBroadcast_preserves
    (R := fun t => SeenKeyed S t.mapSeenMasternodeBroadcast) h hcheck
    fun _ => seenKeyed_checkInputsAndAdd hcheck mnb

lemma seenKeyed_processPing (h : SeenKeyed S man.mapSeenMasternodeBroadcast)
    (mnp : CMasternodePing) :
    SeenKeyed S (man.processPing S env mnp).1.mapSeenMasternodeBroadcast := by
  have hsee : SeenKeyed S (man.seePing S mnp).mapSeenMasternodeBroadcast := h
  exact CMasternodeMan.processPing_preserves
    (R := fun t => SeenKeyed S t.mapSeenMasternodeBroadcast) h
    (seenKeyed_checkAndUpdatePing env hsee mnp true)

lemma seenKeyed_getMNList (h : SeenKeyed S man.mapSeenMasternodeBroadcast) (vin : Option CTxIn) :
    SeenKeyed S (man.getMNList S env vin).mapSeenMasternodeBroadcast := by
  unfold CMasternodeMan.getMNList
  split_ifs
  · exact h
  dsimp only
  generalize man.served env vin = l
  generalize man.mapSeenMasternodeBroadcast = seen at h
  induction l generalizing seen with
  | nil => exact h
  | cons mnb l ih =>
    refine ih _ (h.update fun b hb => ?_)
    cases hseen : seen (mnb.getHash S) with
    | none =>
      rw [hseen] at hb
      rw [← Option.some.inj hb]
      rfl
    | some old =>
      rw [hseen] at hb
      rw [← Option.some.inj hb]
      exact h _ _ hseen

lemma SeenKeyed.filter (h : SeenKeyed S seen) (p : CMasternodeBroadcast → Bool) :
    SeenKeyed S fun k => (seen k).filter p :=
  fun k mnb hk => h k mnb (Option.filter_eq_some_iff.mp hk).1

/-- **Every run keeps broadcasts under their hash**, and so does the file. -/
theorem seenKeyed_of_run (S : Signer) (ops : List MnOp) :
    SeenKeyed S (ops.foldl (MnNode.step S) .initial).man.mapSeenMasternodeBroadcast ∧
    ∀ c, (ops.foldl (MnNode.step S) .initial).mncache = some c →
      SeenKeyed S c.mapSeenMasternodeBroadcast := by
  induction ops using List.reverseRecOn with
  | nil =>
    refine ⟨fun _ _ h => ?_, fun _ h => ?_⟩
    · cases h
    · cases h
  | append_singleton ops op ih =>
    rw [List.foldl_append]
    obtain ⟨hnow, hsaved⟩ := ih
    cases op with
    | broadcast env mnb => exact ⟨seenKeyed_processBroadcast hnow mnb, hsaved⟩
    | ping env mnp => exact ⟨seenKeyed_processPing hnow mnp, hsaved⟩
    | getMNList env vin => exact ⟨seenKeyed_getMNList hnow vin, hsaved⟩
    | check env => exact ⟨hnow, hsaved⟩
    | checkAndRemove env force => exact ⟨hnow.filter _, hsaved⟩
    | dump =>
      refine ⟨hnow, fun c hc => ?_⟩
      obtain rfl := Option.some.inj hc
      exact hnow
    | load env =>
      refine ⟨?_, hsaved⟩
      simp only [List.foldl_cons, List.foldl_nil, MnNode.step]
      cases hcache : (ops.foldl (MnNode.step S) .initial).mncache with
      | none => exact fun _ _ h => by cases h
      | some c => exact (hsaved c hcache).filter _

end MnLists

namespace Concrete

/-- A broadcast of some time with a ping, under its hash. -/
def seenAt (sigTime pingTime : ℤ) : Uint256 × CMasternodeBroadcast :=
  let mnb := { mnBroadcast (mnPing pingTime []) with sigTime }
  (mnb.getHash plainSigner, mnb)

/-- A node that has seen these broadcasts, those of some times once in a synchronisation. -/
def seenLists (seen : List (Uint256 × CMasternodeBroadcast)) (synced : ℤ → Bool) : MnLists where
  vMasternodes := []
  mAskedUsForMasternodeList := []
  mWeAskedForMasternodeList := []
  mWeAskedForMasternodeListEntry := []
  mapSeenMasternodeBroadcast := seen
  mapSeenMasternodePing := []
  mapSeenSyncMNB := fun k =>
    if ((seen.filter (synced ·.2.sigTime)).map (·.1)).contains k then some 1 else none

/-- Two broadcasts that have expired and two that have not; of each two the second one has been seen
in a synchronisation. -/
def expiring : MnLists :=
  seenLists [seenAt 10000 0, seenAt 10001 0, seenAt 10002 19000, seenAt 10003 19000]
    fun t => t == 10001 || t == 10003

end Concrete

open Concrete MnLists in
/-- The two that have expired go, and with them the hash that was in `mapSeenSyncMNB`. -/
theorem cleansUp_expiring :
    expiring.CleansUp plainSigner (mnEnv 20000) false ∧
    (checkAndRemove plainSigner (mnEnv 20000) false expiring).map
      (fun s => (s.mapSeenMasternodeBroadcast.map (·.1), s.mapSeenSyncMNB 110001,
        s.mapSeenSyncMNB 110003)) = some ([110002, 110003], none, some 1) := by
  have hkeyed : expiring.Keyed plainSigner := ⟨by decide, by decide, by decide⟩
  refine ⟨(cleansUp_iff_aligned plainSigner (mnEnv 20000) false expiring hkeyed).mpr ?_, by decide⟩
  refine ⟨by decide, by decide, by decide, by decide, ?_⟩
  exact (by decide : expired (mnEnv 20000) (seenAt 10003 19000) = false)

open Concrete MnLists in
/-- A single broadcast that has expired: the iterator is read at the end. Of two broadcasts the
first one has expired: it is erased, and it is the hash of the second one that is forgotten. -/
theorem cleanup_reads_the_next :
    ¬ (seenLists [seenAt 10000 0] fun _ => true).CleansUp plainSigner (mnEnv 20000) false ∧
    (checkAndRemove plainSigner (mnEnv 20000) false
        (seenLists [seenAt 10000 0, seenAt 10001 19000] fun _ => true)).map
      (fun s => (s.mapSeenMasternodeBroadcast.map (·.1), s.mapSeenSyncMNB 110000,
        s.mapSeenSyncMNB 110001)) = some ([110001], some 1, none) := by
  refine ⟨?_, by decide⟩
  rintro ⟨s', hs', -⟩
  have hnone : (checkAndRemove plainSigner (mnEnv 20000) false
      (seenLists [seenAt 10000 0] fun _ => true)).isNone = true := by decide
  rw [hs'] at hnone
  cases hnone

end Agenor
