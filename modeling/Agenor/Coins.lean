import Agenor.Transaction
import Agenor.Validation
import Agenor.Lib.WriteBack
import Mathlib.Data.List.AList

/-!
The coins cache (`coins.{h,cpp}`): a map of fetched or modified coins over a base view.

`CCoinsMap.entry` reads one key of the map as a write-back entry and `CCoinsMap.overlay` is the set
of unspent coins that the map and the coins below it describe together. Each operation has one lemma
that says what it does to the entries; what it does to the unspent coins follows from the theory of
write-back layers.
-/

namespace Agenor

open Lib Lib.WriteBack Lib.Fallible

/-- A UTXO entry. Heights are those of block indices and never negative. -/
structure Coin where
  out : CTxOut
  nHeight : ℤ
  fCoinBase : Bool
  fCoinStake : Bool
  deriving DecidableEq, Repr

namespace Coin

/-- `Coin()`, and what `Clear` leaves. -/
def empty : Coin := ⟨CTxOut.null, 0, false, false⟩

def isSpent (c : Coin) : Bool := c.out.isNull

/-- The coin, unless it is spent. -/
def live (c : Coin) : Option Coin := if c.isSpent then none else some c

@[simp] lemma live_empty : empty.live = none := rfl

@[simp] lemma live_eq_none {c : Coin} : c.live = none ↔ c.isSpent = true := by
  simp [live]

@[simp] lemma live_isNone (c : Coin) : c.live.isNone = c.isSpent := by
  cases h : c.isSpent <;> simp [live, h]

@[simp] lemma live_isSome (c : Coin) : c.live.isSome = !c.isSpent := by
  cases h : c.isSpent <;> simp [live, h]

lemma live_of_unspent {c : Coin} (h : c.isSpent = false) : c.live = some c := by
  simp [live, h]

lemma eq_of_live_eq_some {c d : Coin} (h : c.live = some d) : c = d ∧ d.isSpent = false := by
  unfold live at h
  split at h
  · cases h
  · next hs =>
    cases h
    exact ⟨rfl, by simpa using hs⟩

end Coin

/-- The unspent coins: what a view without layers and flags would hold. -/
abbrev UtxoSet := COutPoint → Option Coin

structure CCoinsCacheEntry where
  coin : Coin
  dirty : Bool
  fresh : Bool
  deriving DecidableEq, Repr

namespace CCoinsCacheEntry

/-- The entry in the terms of the write-back theory. -/
def toEntry (e : CCoinsCacheEntry) : Entry Coin := ⟨e.coin.live, e.dirty, e.fresh⟩

@[simp] lemma toEntry_val (e : CCoinsCacheEntry) : e.toEntry.val = e.coin.live := rfl
@[simp] lemma toEntry_dirty (e : CCoinsCacheEntry) : e.toEntry.dirty = e.dirty := rfl
@[simp] lemma toEntry_fresh (e : CCoinsCacheEntry) : e.toEntry.fresh = e.fresh := rfl

/-- The entry `FetchCoin` makes of a coin of the base. -/
def fetched (c : Coin) : CCoinsCacheEntry := ⟨c, false, c.isSpent⟩

@[simp] lemma toEntry_fetched (c : Coin) : (fetched c).toEntry = fill c.live := by
  simp [fetched, toEntry, fill]

end CCoinsCacheEntry

abbrev CCoinsMap := AList (fun _ : COutPoint => CCoinsCacheEntry)

namespace CCoinsMap

/-- What the map records about an outpoint. -/
def entry (m : CCoinsMap) (o : COutPoint) : Option (Entry Coin) :=
  (m.lookup o).map CCoinsCacheEntry.toEntry

/-- The unspent coins of the map over those of the view below. -/
def overlay (m : CCoinsMap) (low : UtxoSet) : UtxoSet := fun o => read (m.entry o) (low o)

/-- Every flag of the map tells the truth about the view below. -/
def Coherent (m : CCoinsMap) (low : UtxoSet) : Prop :=
  ∀ o, WriteBack.Coherent (m.entry o) (low o)

@[simp] lemma entry_empty (o : COutPoint) : entry ∅ o = none := by simp [entry]

@[simp] lemma over_empty (low : UtxoSet) : overlay ∅ low = low := by
  funext o
  simp [overlay]

@[simp] lemma coherent_empty (low : UtxoSet) : Coherent ∅ low := by
  intro o
  simp

@[simp] lemma entry_insert_self (m : CCoinsMap) (o : COutPoint) (e : CCoinsCacheEntry) :
    entry (m.insert o e) o = some e.toEntry := by
  simp [entry]

lemma entry_insert_ne (m : CCoinsMap) {o p : COutPoint} (e : CCoinsCacheEntry) (h : p ≠ o) :
    entry (m.insert o e) p = entry m p := by
  simp [entry, AList.lookup_insert_ne h]

@[simp] lemma entry_erase_self (m : CCoinsMap) (o : COutPoint) : entry (m.erase o) o = none := by
  simp [entry]

lemma entry_erase_ne (m : CCoinsMap) {o p : COutPoint} (h : p ≠ o) :
    entry (m.erase o) p = entry m p := by
  simp [entry, AList.lookup_erase_ne h]

/-! ### What changing one entry does -/

/-- Only the entry of `o` differs. -/
def Differs (m m' : CCoinsMap) (o : COutPoint) (e : Option (Entry Coin)) : Prop :=
  m'.entry = Function.update m.entry o e

lemma differs_insert (m : CCoinsMap) (o : COutPoint) (e : CCoinsCacheEntry) :
    Differs m (m.insert o e) o (some e.toEntry) := by
  funext p
  by_cases h : p = o
  · subst h
    simp
  · simp [entry_insert_ne m e h, h]

lemma differs_erase (m : CCoinsMap) (o : COutPoint) : Differs m (m.erase o) o none := by
  funext p
  by_cases h : p = o
  · subst h
    simp
  · simp [entry_erase_ne m h, h]

variable {m m' : CCoinsMap} {o : COutPoint} {e : Option (Entry Coin)} {low : UtxoSet}

lemma Differs.overlay (h : Differs m m' o e) (low : UtxoSet) :
    m'.overlay low = Function.update (m.overlay low) o (read e (low o)) := by
  funext p
  by_cases hp : p = o
  · subst hp
    simp [CCoinsMap.overlay, congrFun h p]
  · simp [CCoinsMap.overlay, congrFun h p, hp]

lemma Differs.coherent (h : Differs m m' o e) (hm : m.Coherent low)
    (he : WriteBack.Coherent e (low o)) : m'.Coherent low := by
  intro p
  rw [congrFun h p]
  by_cases hp : p = o
  · subst hp
    simpa using he
  · simpa [hp] using hm p

/-! ### The operations -/

/-- `FetchCoin`: the map afterwards. The iterator returned is the lookup of the outpoint in it.
`low` is what `base->GetCoin` answers. -/
def fetchCoin (m : CCoinsMap) (o : COutPoint) (low : Option Coin) : CCoinsMap :=
  match m.lookup o, low with
  | some _, _ => m
  | none, none => m
  | none, some c => m.insert o (.fetched c)

def addCoin (m : CCoinsMap) (o : COutPoint) (coin : Coin) (possible_overwrite : Bool) :
    Check CCoinsMap := do
  failIf coin.isSpent .assertion
  if Script.isUnspendable coin.out.scriptPubKey then return m
  -- an outpoint that is not there yet gets a spent coin and no flags
  let it := (m.lookup o).getD ⟨Coin.empty, false, false⟩
  failIf (!possible_overwrite && !it.coin.isSpent)
    (.throws "Adding new coin that replaces non-pruned entry")
  let fresh := !possible_overwrite && !it.dirty
  return m.insert o ⟨coin, true, it.fresh || fresh⟩

/-- `SpendCoin`: the coin moved out, if an entry was found, and the map afterwards. -/
def spendCoin (m : CCoinsMap) (o : COutPoint) (low : Option Coin) : Option Coin × CCoinsMap :=
  let m := m.fetchCoin o low
  match m.lookup o with
  | none => (none, m)
  | some it =>
    (some it.coin, if it.fresh then m.erase o else m.insert o ⟨Coin.empty, true, false⟩)

/-- `Uncache`: drop an entry that has no flags. -/
def uncache (m : CCoinsMap) (o : COutPoint) : CCoinsMap :=
  match m.lookup o with
  | some it => if !it.dirty && !it.fresh then m.erase o else m
  | none => m

/-- One pass of the loop of `BatchWrite`: an entry of the child is written into the map. -/
def batchWriteEntry (m : CCoinsMap) (p : (_ : COutPoint) × CCoinsCacheEntry) : Check CCoinsMap :=
  let ⟨o, it⟩ := p
  if it.dirty = false then .ok m
  else match m.lookup o with
    | none =>
      if it.fresh && it.coin.isSpent then .ok m
      else .ok (m.insert o ⟨it.coin, true, it.fresh⟩)
    | some itUs =>
      if it.fresh && !itUs.coin.isSpent then
        .error (.throws
          "FRESH flag misapplied to cache entry for base transaction with spendable outputs")
      else if itUs.fresh && it.coin.isSpent then .ok (m.erase o)
      else .ok (m.insert o ⟨it.coin, true, itUs.fresh⟩)

/-- `BatchWrite`: write the entries of a child. -/
def batchWrite (m child : CCoinsMap) : Check CCoinsMap := loop batchWriteEntry m child.entries

/-! ### Fetching -/

/-- The unspent coins behind the answers of a base view. -/
def liveOf (base : COutPoint → Option Coin) : UtxoSet := fun o => (base o).bind Coin.live

variable {c : Option Coin}

lemma fetchCoin_cases (m : CCoinsMap) (o : COutPoint) (c : Option Coin) :
    m.fetchCoin o c = m ∧ (c = none ∨ ∃ it, m.lookup o = some it) ∨
      ∃ d, c = some d ∧ m.lookup o = none ∧ m.fetchCoin o c = m.insert o (.fetched d) := by
  unfold fetchCoin
  split
  · next it hm => exact .inl ⟨rfl, .inr ⟨it, hm⟩⟩
  · exact .inl ⟨rfl, .inl rfl⟩
  · next d hm => exact .inr ⟨d, rfl, hm, rfl⟩

lemma fetchCoin_over (m : CCoinsMap) (hc : c.bind Coin.live = low o) :
    (m.fetchCoin o c).overlay low = m.overlay low := by
  rcases fetchCoin_cases m o c with ⟨h, -⟩ | ⟨d, rfl, hm, h⟩
  · rw [h]
  · rw [h, (differs_insert m o _).overlay, Function.update_eq_self_iff]
    simpa [CCoinsMap.overlay, entry, hm, fill] using hc

lemma fetchCoin_coherent (hm : m.Coherent low) (hc : c.bind Coin.live = low o) :
    (m.fetchCoin o c).Coherent low := by
  rcases fetchCoin_cases m o c with ⟨h, -⟩ | ⟨d, rfl, -, h⟩
  · rwa [h]
  · rw [h]
    refine (differs_insert m o _).coherent hm ?_
    rw [CCoinsCacheEntry.toEntry_fetched, ← hc]
    exact coherent_fill _

lemma lookup_fetchCoin (m : CCoinsMap) (hc : c.bind Coin.live = low o) :
    ((m.fetchCoin o c).lookup o).bind (·.coin.live) = m.overlay low o := by
  rcases fetchCoin_cases m o c with ⟨h, hl⟩ | ⟨d, rfl, hm, h⟩
  · rw [h]
    cases hm : m.lookup o with
    | some it => simp [CCoinsMap.overlay, entry, hm]
    | none =>
      obtain rfl : c = none := hl.resolve_right (by simp [hm])
      simpa [CCoinsMap.overlay, entry, hm] using hc
  · rw [h]
    simpa [CCoinsMap.overlay, entry, hm, CCoinsCacheEntry.fetched] using hc

lemma kept_fetchCoin {p : COutPoint} (h : (m.fetchCoin o c).lookup p = none) :
    m.lookup p = none := by
  rcases fetchCoin_cases m o c with ⟨he, -⟩ | ⟨d, -, hm, he⟩
  · rwa [he] at h
  · rw [he] at h
    by_cases hp : p = o
    · subst hp
      exact hm
    · rwa [AList.lookup_insert_ne hp] at h

/-! ### Adding -/

lemma addCoin_eq_ok {coin : Coin} {overwrite : Bool} (h : m.addCoin o coin overwrite = .ok m') :
    coin.isSpent = false ∧
      (Script.isUnspendable coin.out.scriptPubKey = true ∧ m' = m ∨
        Script.isUnspendable coin.out.scriptPubKey = false ∧
          Differs m m' o (some (put (m.entry o) coin overwrite))) := by
  simp only [addCoin, bind_eq_ok, failIf_eq_ok] at h
  obtain ⟨-, hs, h⟩ := h
  refine ⟨hs, ?_⟩
  split at h
  · next hu => exact .inl ⟨hu, (pure_eq_ok.mp h).symm⟩
  · next hu =>
    refine .inr ⟨by simpa using hu, ?_⟩
    simp only [pure_eq_ok, bind_eq_ok, failIf_eq_ok] at h
    obtain ⟨-, -, rfl⟩ := h
    have hput : put (m.entry o) coin overwrite = CCoinsCacheEntry.toEntry ⟨coin, true,
        ((m.lookup o).getD ⟨Coin.empty, false, false⟩).fresh ||
          (!overwrite && !((m.lookup o).getD ⟨Coin.empty, false, false⟩).dirty)⟩ := by
      cases hm : m.lookup o <;>
        simp [entry, hm, put, CCoinsCacheEntry.toEntry, Coin.live_of_unspent hs]
    rw [hput]
    exact differs_insert m o _

lemma addCoin_isOk {coin : Coin} {overwrite : Bool} (hs : coin.isSpent = false)
    (hw : overwrite = false → m.overlay low o = none) :
    ∃ m', m.addCoin o coin overwrite = .ok m' := by
  simp only [addCoin, hs, failIf]
  by_cases hu : Script.isUnspendable coin.out.scriptPubKey = true
  · exact ⟨m, by simp [hu, pure, Except.pure, bind, Except.bind]⟩
  have hno : (!overwrite && !((m.lookup o).getD ⟨Coin.empty, false, false⟩).coin.isSpent)
      = false := by
    cases overwrite with
    | true => rfl
    | false =>
      have := hw rfl
      cases hm : m.lookup o with
      | none => rfl
      | some it => simpa [CCoinsMap.overlay, entry, hm] using this
  simp [hu, hno, pure, Except.pure, bind, Except.bind]

/-! ### Spending -/

lemma spendCoin_moved (m : CCoinsMap) (hc : c.bind Coin.live = low o) :
    (m.spendCoin o c).1.bind Coin.live = m.overlay low o := by
  have hl := lookup_fetchCoin m hc
  unfold spendCoin
  cases hm : (m.fetchCoin o c).lookup o with
  | none => simpa [hm] using hl
  | some it => simpa [hm] using hl

lemma spendCoin_over (hm : m.Coherent low) (hc : c.bind Coin.live = low o) :
    (m.spendCoin o c).2.overlay low = Function.update (m.overlay low) o none ∧
      (m.spendCoin o c).2.Coherent low := by
  have hover := fetchCoin_over m hc
  have hco := fetchCoin_coherent hm hc
  have hl := lookup_fetchCoin m hc
  unfold spendCoin
  cases hf : (m.fetchCoin o c).lookup o with
  | none =>
    rw [hf] at hl
    refine ⟨?_, by simpa [hf] using hco⟩
    simp only [hf, hover]
    exact (Function.update_eq_self_iff.mpr hl).symm
  | some it =>
    have hx : WriteBack.Coherent (some it.toEntry) (low o) := by
      simpa [entry, hf] using hco o
    have hd : Differs (m.fetchCoin o c) (if it.fresh then (m.fetchCoin o c).erase o
        else (m.fetchCoin o c).insert o ⟨Coin.empty, true, false⟩) o (remove it.toEntry) := by
      by_cases hfr : it.fresh = true
      · rw [if_pos hfr, show remove it.toEntry = none by simp [remove, hfr]]
        exact differs_erase _ o
      · rw [if_neg hfr, show remove it.toEntry = some ⟨none, true, false⟩ by simp [remove, hfr]]
        exact differs_insert _ o _
    simp only [hf]
    exact ⟨by rw [hd.overlay, hover, read_remove hx], hd.coherent hco (coherent_remove _ _)⟩

/-! ### Uncaching -/

lemma uncache_over (hm : m.Coherent low) (o : COutPoint) :
    (m.uncache o).overlay low = m.overlay low ∧ (m.uncache o).Coherent low := by
  unfold uncache
  cases hl : m.lookup o with
  | none => exact ⟨rfl, hm⟩
  | some it =>
    by_cases hfl : (!it.dirty && !it.fresh) = true
    · simp only [hfl, if_true]
      have hd := differs_erase m o
      refine ⟨?_, hd.coherent hm (coherent_none _)⟩
      -- a clean entry only repeats what is below
      have hco := hm o
      simp only [entry, hl, Option.map_some, coherent_some] at hco
      have hclean := hco.1 (by simp only [Bool.and_eq_true, Bool.not_eq_true'] at hfl; exact hfl.1)
      rw [hd.overlay, Function.update_eq_self_iff]
      simpa [CCoinsMap.overlay, entry, hl] using hclean.symm
    · simp only [hfl]
      exact ⟨rfl, hm⟩

/-! ### Writing a child -/

lemma batchWriteEntry_spec (m : CCoinsMap) (o : COutPoint) (it : CCoinsCacheEntry)
    {e : Option (Entry Coin)} (h : merge (some it.toEntry) (m.entry o) = some e) :
    ∃ m', batchWriteEntry m ⟨o, it⟩ = .ok m' ∧ Differs m m' o e := by
  simp only [batchWriteEntry]
  simp only [merge, CCoinsCacheEntry.toEntry_dirty, CCoinsCacheEntry.toEntry_fresh,
    CCoinsCacheEntry.toEntry_val, Coin.live_isNone] at h
  by_cases hd : it.dirty = false
  · rw [if_pos hd] at h ⊢
    cases h
    exact ⟨m, rfl, by simp [Differs]⟩
  rw [if_neg hd] at h ⊢
  cases hm : m.lookup o with
  | none =>
    have he : m.entry o = none := by simp [entry, hm]
    simp only [he] at h
    split at h
    · next hc =>
      cases h
      exact ⟨m, by rw [if_pos hc], by simp [Differs, ← he]⟩
    · next hc =>
      cases h
      exact ⟨_, by rw [if_neg hc], differs_insert m o _⟩
  | some itUs =>
    simp only [entry, hm, Option.map_some, CCoinsCacheEntry.toEntry_fresh,
      CCoinsCacheEntry.toEntry_val, Coin.live_isSome] at h
    split at h
    · cases h
    next hmis =>
    have h : (if itUs.fresh && it.coin.isSpent then some none
        else some (some ⟨it.coin.live, true, itUs.fresh⟩)) = some e := h
    split at h
    · next hc =>
      cases h
      exact ⟨m.erase o, by simp only [if_neg hmis, if_pos hc], differs_erase m o⟩
    · next hc =>
      cases h
      exact ⟨m.insert o ⟨it.coin, true, itUs.fresh⟩, by simp only [if_neg hmis, if_neg hc],
        differs_insert m o _⟩

/-- **Writing a child into its parent.** From coherent maps `BatchWrite` does not throw; the
parent then holds the unspent coins of the child and stays coherent with what is below. -/
theorem batchWrite_spec {m child : CCoinsMap} {low : UtxoSet} (hm : m.Coherent low)
    (hc : child.Coherent (m.overlay low)) :
    ∃ m', m.batchWrite child = .ok m' ∧ m'.overlay low = child.overlay (m.overlay low) ∧
      m'.Coherent low := by
  suffices H : ∀ (l : List ((_ : COutPoint) × CCoinsCacheEntry)) (m₁ : CCoinsMap),
      l.NodupKeys →
      (∀ p ∈ l, m₁.entry p.1 = m.entry p.1) → (∀ p ∈ l, child.entry p.1 = some p.2.toEntry) →
      ∃ m', loop batchWriteEntry m₁ l = .ok m' ∧
        (∀ o, o ∉ l.keys → m'.entry o = m₁.entry o) ∧
        (∀ o ∈ l.keys, merge (child.entry o) (m.entry o) = some (m'.entry o)) by
    have hmem : ∀ p ∈ child.entries, child.entry p.1 = some p.2.toEntry := by
      intro p hp
      have hl : child.lookup p.1 = some p.2 := AList.mem_lookup_iff.mpr hp
      simp [entry, hl]
    obtain ⟨m', hok, hout, hin⟩ := H child.entries m child.nodupKeys (fun _ _ => rfl) hmem
    -- an outpoint the child does not know is merged with nothing
    have hall : ∀ o, merge (child.entry o) (m.entry o) = some (m'.entry o) := by
      intro o
      by_cases ho : o ∈ child.entries.keys
      · exact hin o ho
      · have hnone : child.entry o = none := by
          simp [entry, AList.lookup_eq_none.mpr (show o ∉ child from ho)]
        rw [hnone, hout o ho]
        rfl
    have hspec : ∀ o, read (m'.entry o) (low o) = child.overlay (m.overlay low) o ∧
        WriteBack.Coherent (m'.entry o) (low o) := by
      intro o
      obtain ⟨e, he, hr, hco⟩ := merge_spec (hc o) (hm o)
      rw [hall o] at he
      cases he
      exact ⟨hr, hco⟩
    exact ⟨m', hok, funext fun o => (hspec o).1, fun o => (hspec o).2⟩
  intro l
  induction l with
  | nil => exact fun m₁ _ _ _ => ⟨m₁, rfl, fun _ _ => rfl, by simp⟩
  | cons p l ih =>
    intro m₁ hnd hsame hch
    obtain ⟨hp, hnd⟩ := List.nodupKeys_cons.mp hnd
    obtain ⟨e, he, -, -⟩ := merge_spec (hc p.1) (hm p.1)
    have he' : merge (some p.2.toEntry) (m₁.entry p.1) = some e := by
      rw [hsame p (by simp), ← hch p (by simp)]
      exact he
    obtain ⟨m₂, hok, hd⟩ := batchWriteEntry_spec m₁ p.1 p.2 he'
    have hne : ∀ o ∈ l.keys, o ≠ p.1 := fun o ho h => hp (h ▸ ho)
    obtain ⟨m', hok', hout, hin⟩ := ih m₂ hnd
      (fun q hq => by
        rw [congrFun hd q.1, Function.update_of_ne (hne q.1 (List.mem_keys_of_mem hq))]
        exact hsame q (List.mem_cons_of_mem _ hq))
      (fun q hq => hch q (List.mem_cons_of_mem _ hq))
    refine ⟨m', by simpa [hok] using hok', ?_, ?_⟩
    · intro o ho
      simp only [List.keys_cons, List.mem_cons, not_or] at ho
      rw [hout o ho.2, congrFun hd o, Function.update_of_ne ho.1]
    · intro o ho
      simp only [List.keys_cons, List.mem_cons] at ho
      rcases ho with rfl | ho
      · rw [hout p.1 hp, congrFun hd p.1, Function.update_self]
        exact he
      · exact hin o ho

/-! ### A property of every coin -/

/-- Every coin in the map, spent or not, has the property. -/
def Every (P : COutPoint → Coin → Prop) (m : CCoinsMap) : Prop :=
  ∀ o it, m.lookup o = some it → P o it.coin

section Every

variable {P : COutPoint → Coin → Prop}

lemma every_empty : Every P ∅ := by
  intro o it h
  simp at h

lemma Every.insert (h : m.Every P) {it : CCoinsCacheEntry} (hit : P o it.coin) :
    Every P (m.insert o it) := by
  intro p jt hp
  by_cases hpo : p = o
  · subst hpo
    rw [AList.lookup_insert] at hp
    cases hp
    exact hit
  · rw [AList.lookup_insert_ne hpo] at hp
    exact h p jt hp

lemma Every.erase (h : m.Every P) : Every P (m.erase o) := by
  intro p jt hp
  by_cases hpo : p = o
  · subst hpo
    simp at hp
  · rw [AList.lookup_erase_ne hpo] at hp
    exact h p jt hp

lemma Every.fetchCoin (h : m.Every P) (hc : ∀ d, c = some d → P o d) :
    (m.fetchCoin o c).Every P := by
  rcases fetchCoin_cases m o c with ⟨he, -⟩ | ⟨d, hd, -, he⟩
  · rwa [he]
  · rw [he]
    exact h.insert (hc d hd)

lemma Every.addCoin (h : m.Every P) {coin : Coin} {ow : Bool}
    (hcoin : coin.isSpent = false → Script.isUnspendable coin.out.scriptPubKey = false → P o coin)
    (ha : m.addCoin o coin ow = .ok m') : m'.Every P := by
  simp only [CCoinsMap.addCoin, bind_eq_ok, failIf_eq_ok] at ha
  obtain ⟨-, hs, ha⟩ := ha
  split at ha
  · cases ha
    exact h
  · next hu =>
    simp only [bind_eq_ok, pure_eq_ok] at ha
    obtain ⟨-, -, rfl⟩ := ha
    exact h.insert (hcoin hs (by simpa using hu))

lemma Every.spendCoin (h : m.Every P) (hc : ∀ d, c = some d → P o d) (he : P o Coin.empty) :
    (∀ d, (m.spendCoin o c).1 = some d → P o d) ∧ (m.spendCoin o c).2.Every P := by
  have hf := h.fetchCoin hc
  unfold CCoinsMap.spendCoin
  cases hl : (m.fetchCoin o c).lookup o with
  | none => exact ⟨by simp [hl], by simpa [hl] using hf⟩
  | some it =>
    simp only [hl]
    refine ⟨fun d hd => Option.some.inj hd ▸ hf o it hl, ?_⟩
    split
    · exact hf.erase
    · exact hf.insert he

lemma Every.uncache (h : m.Every P) : (m.uncache o).Every P := by
  unfold CCoinsMap.uncache
  split
  · split
    · exact h.erase
    · exact h
  · exact h

lemma Every.batchWrite {child : CCoinsMap} (h : m.Every P) (hc : child.Every P)
    (hb : m.batchWrite child = .ok m') : m'.Every P := by
  refine loop_inv hb h ?_
  rintro ⟨o, it⟩ hmem t t' ht hstep
  have hit := hc o it (AList.mem_lookup_iff.mpr hmem)
  simp only [batchWriteEntry] at hstep
  split at hstep
  · cases hstep
    exact ht
  split at hstep
  · split at hstep <;> cases hstep
    · exact ht
    · exact ht.insert hit
  · split at hstep
    · cases hstep
    split at hstep <;> cases hstep
    · exact ht.erase
    · exact ht.insert hit

end Every

end CCoinsMap

/-! ### A cache over a base view -/

/-- A `CCoinsView`, by its answers. -/
structure CCoinsView where
  getCoin : COutPoint → Option Coin
  bestBlock : Uint256

structure CCoinsViewCache where
  cacheCoins : CCoinsMap
  hashBlock : Uint256
  base : CCoinsView

/-- The record of one transaction in the undo data of a block. -/
structure CTxUndo where
  vprevout : List Coin
  deriving DecidableEq, Repr

namespace UtxoSet

/-- The value at an outpoint; `-1`, the value of an empty coin, where nothing is unspent. -/
def value (u : UtxoSet) (o : COutPoint) : ℤ :=
  match u o with
  | some c => c.out.nValue
  | none => -1

/-- What the outpoints of some inputs are worth. -/
def valueOf (u : UtxoSet) (vin : List CTxIn) : ℤ := (vin.map fun i => u.value i.prevout).sum

/-- The coins after the inputs have been spent. -/
def spendInputs (u : UtxoSet) (vin : List CTxIn) : UtxoSet :=
  vin.foldl (fun u txin => Function.update u txin.prevout none) u

end UtxoSet

namespace CCoinsViewCache

variable (v : CCoinsViewCache)

/-- The unspent coins that the view shows. -/
def coins : UtxoSet := v.cacheCoins.overlay (CCoinsMap.liveOf v.base.getCoin)

/-- The flags of the cache tell the truth about the base. -/
def Coherent : Prop := v.cacheCoins.Coherent (CCoinsMap.liveOf v.base.getCoin)

/-- Every coin in the cache and in the base, spent or not, has the property. -/
def Every (P : COutPoint → Coin → Prop) : Prop :=
  v.cacheCoins.Every P ∧ ∀ o c, v.base.getCoin o = some c → P o c

/-- `CCoinsViewCache(CCoinsView* baseIn)`. -/
def ofView (base : CCoinsView) : CCoinsViewCache := ⟨∅, 0, base⟩

@[simp] lemma coins_ofView (base : CCoinsView) :
    (ofView base).coins = CCoinsMap.liveOf base.getCoin := by
  simp [coins, ofView]

lemma coherent_ofView (base : CCoinsView) : (ofView base).Coherent := by
  simp [Coherent, ofView]

def getBestBlock : Uint256 := if v.hashBlock = 0 then v.base.bestBlock else v.hashBlock

def setBestBlock (hashBlockIn : Uint256) : CCoinsViewCache := { v with hashBlock := hashBlockIn }

@[simp] lemma setBestBlock_coins (h : Uint256) : (v.setBestBlock h).coins = v.coins := rfl

def fetchCoin (o : COutPoint) : CCoinsViewCache :=
  { v with cacheCoins := v.cacheCoins.fetchCoin o (v.base.getCoin o) }

def getCoin (o : COutPoint) : Option Coin × CCoinsViewCache :=
  let v := v.fetchCoin o
  ((v.cacheCoins.lookup o).map (·.coin), v)

/-- The cache as the base of another one. -/
def toView : CCoinsView := ⟨fun o => (v.getCoin o).1, v.getBestBlock⟩

def accessCoin (o : COutPoint) : Coin × CCoinsViewCache :=
  let v := v.fetchCoin o
  (((v.cacheCoins.lookup o).map (·.coin)).getD Coin.empty, v)

def haveCoin (o : COutPoint) : Bool × CCoinsViewCache :=
  let v := v.fetchCoin o
  ((v.cacheCoins.lookup o).any (!·.coin.isSpent), v)

def addCoin (o : COutPoint) (coin : Coin) (possible_overwrite : Bool) : Check CCoinsViewCache := do
  let m ← v.cacheCoins.addCoin o coin possible_overwrite
  return { v with cacheCoins := m }

def spendCoin (o : COutPoint) : Option Coin × CCoinsViewCache :=
  let r := v.cacheCoins.spendCoin o (v.base.getCoin o)
  (r.1, { v with cacheCoins := r.2 })

def addCoins (tx : CTransaction) (nHeight : ℤ) : Check CCoinsViewCache :=
  loop (fun v p => v.addCoin ⟨tx.hash, p.2⟩ ⟨p.1, nHeight, tx.isCoinBase, tx.isCoinStake⟩ false)
    v tx.vout.zipIdx

/-- The loop of `HaveInputs`. -/
def haveAll (v : CCoinsViewCache) : List CTxIn → Bool × CCoinsViewCache
  | [] => (true, v)
  | txin :: rest =>
    let r := v.haveCoin txin.prevout
    if r.1 then haveAll r.2 rest else (false, r.2)

def haveInputs (tx : CTransaction) : Bool × CCoinsViewCache :=
  if !tx.isCoinBase && !tx.hasZerocoinSpendInputs then v.haveAll tx.vin else (true, v)

/-- The loop of `GetValueIn`. -/
def valueInFrom (v : CCoinsViewCache) (nResult : ℤ) : List CTxIn → ℤ × CCoinsViewCache
  | [] => (nResult, v)
  | txin :: rest =>
    let r := v.accessCoin txin.prevout
    valueInFrom r.2 (int64 (nResult + r.1.out.nValue)) rest

def getValueIn (tx : CTransaction) : ℤ × CCoinsViewCache :=
  if tx.isCoinBase then (0, v)
  else if tx.hasZerocoinSpendInputs then (tx.getZerocoinSpent, v)
  else v.valueInFrom 0 tx.vin

/-- The inputs of a transaction are spent in turn and the coins moved out are kept. -/
def spendInputs (v : CCoinsViewCache) : List CTxIn → List Coin × CCoinsViewCache
  | [] => ([], v)
  | txin :: rest =>
    let r := v.spendCoin txin.prevout
    let s := r.2.spendInputs rest
    (r.1.getD Coin.empty :: s.1, s.2)

def updateCoins (tx : CTransaction) (nHeight : ℤ) : Check (CTxUndo × CCoinsViewCache) := do
  let r := if !tx.isCoinBase && !tx.hasZerocoinSpendInputs then v.spendInputs tx.vin else ([], v)
  let v ← r.2.addCoins tx nHeight
  return (⟨r.1⟩, v)

/-! ### Reading -/

/-- The view has only been read: entries may have been fetched, which is not seen from above. -/
structure Reads (v v' : CCoinsViewCache) : Prop where
  base : v'.base = v.base
  hashBlock : v'.hashBlock = v.hashBlock
  coins : v'.coins = v.coins
  coherent : v.Coherent → v'.Coherent
  every : ∀ P : COutPoint → Coin → Prop, v.Every P → v'.Every P
  kept : ∀ o, v'.cacheCoins.lookup o = none → v.cacheCoins.lookup o = none

variable {v} {v' : CCoinsViewCache}

lemma Reads.refl (v : CCoinsViewCache) : Reads v v :=
  ⟨rfl, rfl, rfl, id, fun _ => id, fun _ => id⟩

lemma Reads.trans {v₁ v₂ v₃ : CCoinsViewCache} (h : Reads v₁ v₂) (h' : Reads v₂ v₃) :
    Reads v₁ v₃ :=
  ⟨h'.base.trans h.base, h'.hashBlock.trans h.hashBlock, h'.coins.trans h.coins,
    h'.coherent ∘ h.coherent, fun P => h'.every P ∘ h.every P, fun o => h.kept o ∘ h'.kept o⟩

lemma Reads.getBestBlock (h : Reads v v') : v'.getBestBlock = v.getBestBlock := by
  simp [CCoinsViewCache.getBestBlock, h.base, h.hashBlock]

lemma reads_fetchCoin (v : CCoinsViewCache) (o : COutPoint) : Reads v (v.fetchCoin o) :=
  ⟨rfl, rfl, CCoinsMap.fetchCoin_over _ rfl, fun h => CCoinsMap.fetchCoin_coherent h rfl,
    fun _ h => ⟨h.1.fetchCoin fun d hd => h.2 o d hd, h.2⟩, fun _ => CCoinsMap.kept_fetchCoin⟩

lemma reads_accessCoin (v : CCoinsViewCache) (o : COutPoint) : Reads v (v.accessCoin o).2 :=
  reads_fetchCoin v o

lemma reads_haveCoin (v : CCoinsViewCache) (o : COutPoint) : Reads v (v.haveCoin o).2 :=
  reads_fetchCoin v o

lemma lookup_fetchCoin (v : CCoinsViewCache) (o : COutPoint) :
    ((v.fetchCoin o).cacheCoins.lookup o).bind (·.coin.live) = v.coins o :=
  CCoinsMap.lookup_fetchCoin _ rfl

lemma accessCoin_live (v : CCoinsViewCache) (o : COutPoint) :
    (v.accessCoin o).1.live = v.coins o := by
  rw [← lookup_fetchCoin]
  unfold accessCoin
  cases h : (v.fetchCoin o).cacheCoins.lookup o <;> simp [h]

lemma accessCoin_nValue (v : CCoinsViewCache) (o : COutPoint) :
    (v.accessCoin o).1.out.nValue = v.coins.value o := by
  rw [UtxoSet.value, ← accessCoin_live]
  unfold Coin.live
  split
  · next c hc => split at hc <;> simp_all
  · next hn =>
    split at hn
    · next hs => simpa [Coin.isSpent, CTxOut.isNull] using hs
    · cases hn

@[simp] lemma haveCoin_eq (v : CCoinsViewCache) (o : COutPoint) :
    (v.haveCoin o).1 = (v.coins o).isSome := by
  rw [← lookup_fetchCoin]
  unfold haveCoin
  cases h : (v.fetchCoin o).cacheCoins.lookup o <;> simp [h]

lemma haveAll_spec (v : CCoinsViewCache) (vin : List CTxIn) :
    (v.haveAll vin).1 = vin.all (fun i => (v.coins i.prevout).isSome) ∧
      Reads v (v.haveAll vin).2 := by
  induction vin generalizing v with
  | nil => exact ⟨rfl, .refl v⟩
  | cons txin rest ih =>
    have hr := reads_haveCoin v txin.prevout
    obtain ⟨h1, h2⟩ := ih (v.haveCoin txin.prevout).2
    unfold haveAll
    by_cases hc : (v.haveCoin txin.prevout).1 = true
    · simp only [hc, if_true, List.all_cons, ← haveCoin_eq, Bool.true_and]
      exact ⟨by rw [h1, hr.coins]; simp, hr.trans h2⟩
    · simp only [hc, List.all_cons, ← haveCoin_eq]
      exact ⟨by simp, hr⟩

lemma valueInFrom_spec (v : CCoinsViewCache) (nResult : ℤ) (vin : List CTxIn) :
    int64 (v.valueInFrom nResult vin).1 = int64 (nResult + v.coins.valueOf vin) ∧
      Reads v (v.valueInFrom nResult vin).2 := by
  induction vin generalizing v nResult with
  | nil => exact ⟨by simp [valueInFrom, UtxoSet.valueOf], .refl v⟩
  | cons txin rest ih =>
    have hr := reads_accessCoin v txin.prevout
    obtain ⟨h1, h2⟩ := ih (v.accessCoin txin.prevout).2
      (int64 (nResult + (v.accessCoin txin.prevout).1.out.nValue))
    refine ⟨?_, hr.trans h2⟩
    rw [valueInFrom, h1, hr.coins, accessCoin_nValue]
    simp [UtxoSet.valueOf, add_assoc]

lemma reads_haveInputs (v : CCoinsViewCache) (tx : CTransaction) : Reads v (v.haveInputs tx).2 := by
  unfold haveInputs
  split
  · exact (haveAll_spec v tx.vin).2
  · exact .refl v

lemma reads_getValueIn (v : CCoinsViewCache) (tx : CTransaction) : Reads v (v.getValueIn tx).2 := by
  unfold getValueIn
  split_ifs
  · exact .refl v
  · exact .refl v
  · exact (valueInFrom_spec v 0 tx.vin).2

/-! ### Changing -/

lemma addCoin_eq_ok {o : COutPoint} {coin : Coin} {ow : Bool} (h : v.addCoin o coin ow = .ok v') :
    coin.isSpent = false ∧ v'.hashBlock = v.hashBlock ∧
      v'.coins = if Script.isUnspendable coin.out.scriptPubKey then v.coins
        else Function.update v.coins o (some coin) := by
  simp only [CCoinsViewCache.addCoin, bind_eq_ok, pure_eq_ok] at h
  obtain ⟨m, hm, rfl⟩ := h
  obtain ⟨hs, hcases⟩ := CCoinsMap.addCoin_eq_ok hm
  refine ⟨hs, rfl, ?_⟩
  rcases hcases with ⟨hu, rfl⟩ | ⟨hu, hd⟩
  · rw [if_pos hu]
  · rw [if_neg (by simp [hu])]
    have hover := hd.overlay (CCoinsMap.liveOf v.base.getCoin)
    rwa [read_some, put_val] at hover

/-! ### A property of every coin, in a view -/

section Every

variable {P : COutPoint → Coin → Prop}

lemma Every.coins (h : v.Every P) {o : COutPoint} {c : Coin} (hc : v.coins o = some c) :
    P o c ∧ c.isSpent = false := by
  unfold CCoinsViewCache.coins CCoinsMap.overlay CCoinsMap.entry CCoinsMap.liveOf at hc
  cases hl : v.cacheCoins.lookup o with
  | some it =>
    simp only [hl, Option.map_some, read_some, CCoinsCacheEntry.toEntry_val] at hc
    obtain ⟨rfl, hs⟩ := Coin.eq_of_live_eq_some hc
    exact ⟨h.1 o it hl, hs⟩
  | none =>
    simp only [hl, Option.map_none, read_none, Option.bind_eq_some_iff] at hc
    obtain ⟨d, hd, hlive⟩ := hc
    obtain ⟨rfl, hs⟩ := Coin.eq_of_live_eq_some hlive
    exact ⟨h.2 o d hd, hs⟩

lemma Every.toView (h : v.Every P) : ∀ o c, v.toView.getCoin o = some c → P o c := by
  intro o c hc
  obtain ⟨it, hit, rfl⟩ := Option.map_eq_some_iff.mp hc
  exact (h.1.fetchCoin (h.2 o)) o it hit

lemma Every.addCoin (h : v.Every P) {o : COutPoint} {coin : Coin} {ow : Bool}
    (hcoin : coin.isSpent = false → Script.isUnspendable coin.out.scriptPubKey = false → P o coin)
    (ha : v.addCoin o coin ow = .ok v') : v'.Every P := by
  simp only [CCoinsViewCache.addCoin, bind_eq_ok, pure_eq_ok] at ha
  obtain ⟨m, hm, rfl⟩ := ha
  exact ⟨h.1.addCoin hcoin hm, h.2⟩

lemma Every.spendCoin (h : v.Every P) (he : ∀ o, P o Coin.empty) (o : COutPoint) :
    P o ((v.spendCoin o).1.getD Coin.empty) ∧ (v.spendCoin o).2.Every P := by
  obtain ⟨h1, h2⟩ := h.1.spendCoin (h.2 o) (he o)
  refine ⟨?_, h2, h.2⟩
  cases hm : (v.spendCoin o).1 with
  | none => exact he o
  | some d => exact h1 d hm

lemma Every.spendInputs (h : v.Every P) (he : ∀ o, P o Coin.empty) (vin : List CTxIn) :
    (∀ p ∈ vin.zip (v.spendInputs vin).1, P p.1.prevout p.2) ∧ (v.spendInputs vin).2.Every P := by
  induction vin generalizing v with
  | nil => exact ⟨by simp, h⟩
  | cons txin rest ih =>
    obtain ⟨hm, hv⟩ := h.spendCoin he txin.prevout
    obtain ⟨h1, h2⟩ := ih hv
    refine ⟨?_, h2⟩
    intro p hp
    simp only [CCoinsViewCache.spendInputs, List.zip_cons_cons, List.mem_cons] at hp
    rcases hp with rfl | hp
    · exact hm
    · exact h1 p hp

lemma Every.addCoins (h : v.Every P) {tx : CTransaction} {nHeight : ℤ}
    (hnew : ∀ p ∈ tx.vout.zipIdx, p.1.isNull = false →
      Script.isUnspendable p.1.scriptPubKey = false →
      P ⟨tx.hash, p.2⟩ ⟨p.1, nHeight, tx.isCoinBase, tx.isCoinStake⟩)
    (ha : v.addCoins tx nHeight = .ok v') : v'.Every P := by
  refine loop_inv (P := fun t => t.Every P) ha h ?_
  intro p hp t t' ht hstep
  refine ht.addCoin ?_ hstep
  exact hnew p hp

lemma Every.updateCoins (h : v.Every P) (he : ∀ o, P o Coin.empty) {tx : CTransaction}
    {nHeight : ℤ} {txundo : CTxUndo}
    (hnew : ∀ p ∈ tx.vout.zipIdx, p.1.isNull = false →
      Script.isUnspendable p.1.scriptPubKey = false →
      P ⟨tx.hash, p.2⟩ ⟨p.1, nHeight, tx.isCoinBase, tx.isCoinStake⟩)
    (hu : v.updateCoins tx nHeight = .ok (txundo, v')) :
    (∀ p ∈ tx.vin.zip txundo.vprevout, P p.1.prevout p.2) ∧ v'.Every P := by
  simp only [CCoinsViewCache.updateCoins, bind_eq_ok, pure_eq_ok, Prod.mk.injEq] at hu
  obtain ⟨v₁, ha, rfl, rfl⟩ := hu
  split at ha
  · next hk =>
    obtain ⟨h1, h2⟩ := h.spendInputs he tx.vin
    simp only [hk, if_true]
    exact ⟨h1, h2.addCoins hnew ha⟩
  · next hk =>
    simp only [hk]
    exact ⟨by simp, h.addCoins hnew ha⟩

end Every

end CCoinsViewCache

end Agenor
