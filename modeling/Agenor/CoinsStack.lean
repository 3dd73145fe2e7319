import Agenor.Coins

/-!
A stack of coins caches over the coin database: every layer is the base of the layer above it,
and reads, flushes and evictions may happen at any depth while coins are added and spent at the
top.

The specification is one flat map from outpoints to unspent coins, which `AddCoin` and `SpendCoin`
update. A layer further down shows the map as it was when that layer was last brought up to date,
so the abstract state is the list of these maps, the current one first.
-/

namespace Agenor

open Lib Lib.WriteBack Lib.Fallible

/-- `CCoinsViewDB`: what is stored is never spent. -/
structure CCoinsViewDB where
  getCoin : COutPoint → Option Coin
  unspent : ∀ o c, getCoin o = some c → c.isSpent = false

namespace CCoinsViewDB

/-- One pass of the loop of `BatchWrite`: a dirty coin is written, or erased if it is spent. -/
def batchWriteEntry (db : CCoinsViewDB) (p : (_ : COutPoint) × CCoinsCacheEntry) :
    CCoinsViewDB where
  getCoin := if p.2.dirty then Function.update db.getCoin p.1 p.2.coin.live else db.getCoin
  unspent := by
    intro o c h
    split at h
    · by_cases ho : o = p.1
      · subst ho
        rw [Function.update_self] at h
        exact (Coin.eq_of_live_eq_some h).2
      · rw [Function.update_of_ne ho] at h
        exact db.unspent o c h
    · exact db.unspent o c h

def batchWrite (db : CCoinsViewDB) (child : CCoinsMap) : CCoinsViewDB :=
  child.entries.foldl batchWriteEntry db

lemma batchWrite_getCoin {db : CCoinsViewDB} {child : CCoinsMap}
    (h : child.Coherent db.getCoin) : (db.batchWrite child).getCoin = child.overlay db.getCoin := by
  have key : ∀ (l : List ((_ : COutPoint) × CCoinsCacheEntry)) (d : CCoinsViewDB), l.NodupKeys →
      ∀ o, (l.foldl batchWriteEntry d).getCoin o =
        (l.dlookup o).elim (d.getCoin o)
          fun it => if it.dirty then it.coin.live else d.getCoin o := by
    intro l
    induction l with
    | nil => intro d _ o; rfl
    | cons p l ih =>
      intro d hnd o
      obtain ⟨hp, hnd⟩ := List.nodupKeys_cons.mp hnd
      rw [List.foldl_cons, ih _ hnd]
      by_cases ho : o = p.1
      · subst ho
        rw [List.dlookup_eq_none.mpr hp, List.dlookup_cons_eq]
        cases hd : p.2.dirty <;> simp [batchWriteEntry, hd]
      · rw [List.dlookup_cons_ne l p ho]
        have : (batchWriteEntry d p).getCoin o = d.getCoin o := by
          cases hd : p.2.dirty <;> simp [batchWriteEntry, hd, ho]
        rw [this]
  funext o
  rw [batchWrite, key _ _ child.nodupKeys]
  have hco := h o
  have hlook : child.lookup o = child.entries.dlookup o := rfl
  simp only [CCoinsMap.overlay, CCoinsMap.entry, hlook] at hco ⊢
  cases hl : child.entries.dlookup o with
  | none => rfl
  | some it =>
    rw [hl] at hco
    cases hd : it.dirty with
    | true => simp [hd]
    | false => simpa [hd] using ((coherent_some.mp hco).1 hd).symm

end CCoinsViewDB

/-! ### Spent coins in a map -/

/-- A spent coin is an empty one. -/
def CCoinsMap.Cleared (m : CCoinsMap) : Prop :=
  m.Every fun _ c => c.isSpent = true → c = Coin.empty

/-! ### The stack -/

/-- The caches, the innermost child first, and the database under them. -/
structure CoinsStack where
  layers : List CCoinsMap
  db : CCoinsViewDB

namespace CoinsStack

variable (db : CCoinsViewDB)

/-- `GetCoin` through the layers: a miss asks the base, and keeps what it answers. -/
def getCoinFrom (o : COutPoint) : List CCoinsMap → Option Coin × List CCoinsMap
  | [] => (db.getCoin o, [])
  | m :: rest =>
    match m.lookup o with
    | some it => (some it.coin, m :: rest)
    | none =>
      let r := getCoinFrom o rest
      let m := m.fetchCoin o r.1
      ((m.lookup o).map (·.coin), m :: r.2)

/-- `SpendCoin` in the first layer. -/
def spendCoinFrom (o : COutPoint) : List CCoinsMap → Option Coin × List CCoinsMap
  | [] => (none, [])
  | m :: rest =>
    match m.lookup o with
    | some _ =>
      let s := m.spendCoin o none
      (s.1, s.2 :: rest)
    | none =>
      let r := getCoinFrom db o rest
      let s := m.spendCoin o r.1
      (s.1, s.2 :: r.2)

/-- `Uncache` in the first layer. -/
def uncacheFrom (o : COutPoint) : List CCoinsMap → List CCoinsMap
  | [] => []
  | m :: rest => m.uncache o :: rest

/-- `Flush` of the first layer into its base. -/
def flushFrom : List CCoinsMap → Check (List CCoinsMap × CCoinsViewDB)
  | [] => .ok ([], db)
  | [m] => .ok ([∅], db.batchWrite m)
  | m :: parent :: rest => do
    let parent ← parent.batchWrite m
    return (∅ :: parent :: rest, db)

/-- What can be done to a stack. Reads, evictions and flushes name the layer they are called
on. -/
inductive Op
  | addCoin (o : COutPoint) (coin : Coin) (possible_overwrite : Bool)
  | spendCoin (o : COutPoint)
  | getCoin (layer : ℕ) (o : COutPoint)
  | haveCoin (layer : ℕ) (o : COutPoint)
  | accessCoin (layer : ℕ) (o : COutPoint)
  | uncache (layer : ℕ) (o : COutPoint)
  | newChild
  | flush (layer : ℕ)
  deriving DecidableEq, Repr

inductive Answer
  | done
  | found (coin : Option Coin)
  | has (b : Bool)
  | coin (c : Coin)
  | moved (coin : Option Coin)
  deriving DecidableEq, Repr

def step (s : CoinsStack) : Op → Check (Answer × CoinsStack)
  | .addCoin o coin ow =>
    match s.layers with
    | [] => .ok (.done, s)
    | m :: rest => do
      let m ← m.addCoin o coin ow
      return (.done, { s with layers := m :: rest })
  | .spendCoin o =>
    let r := spendCoinFrom s.db o s.layers
    .ok (.moved r.1, { s with layers := r.2 })
  | .getCoin i o =>
    let r := getCoinFrom s.db o (s.layers.drop i)
    .ok (.found r.1, { s with layers := s.layers.take i ++ r.2 })
  | .haveCoin i o =>
    let r := getCoinFrom s.db o (s.layers.drop i)
    .ok (.has (r.1.any (!·.isSpent)), { s with layers := s.layers.take i ++ r.2 })
  | .accessCoin i o =>
    let r := getCoinFrom s.db o (s.layers.drop i)
    .ok (.coin (r.1.getD Coin.empty), { s with layers := s.layers.take i ++ r.2 })
  | .uncache i o =>
    .ok (.done, { s with layers := s.layers.take i ++ uncacheFrom o (s.layers.drop i) })
  | .newChild => .ok (.done, { s with layers := ∅ :: s.layers })
  | .flush i => do
    let r ← flushFrom s.db (s.layers.drop i)
    return (.done, ⟨s.layers.take i ++ r.1, r.2⟩)

/-- Run some operations and collect the answers. -/
def run (s : CoinsStack) : List Op → Check (List Answer × CoinsStack)
  | [] => .ok ([], s)
  | op :: ops => do
    let r ← s.step op
    let rs ← r.2.run ops
    return (r.1 :: rs.1, rs.2)

/-! ### The flat maps -/

/-- The unspent coins that the first layer shows. -/
def view : List CCoinsMap → UtxoSet
  | [] => db.getCoin
  | m :: rest => m.overlay (view rest)

/-- The unspent coins that each layer and the database show. -/
def views : List CCoinsMap → List UtxoSet
  | [] => [db.getCoin]
  | m :: rest => view db (m :: rest) :: views rest

/-- Every layer is coherent with what is below. -/
def Good : List CCoinsMap → Prop
  | [] => True
  | m :: rest => m.Coherent (view db rest) ∧ m.Cleared ∧ Good rest

/-- What `AddCoin` and `SpendCoin` do to a flat map. Nothing else changes it. -/
def flatApply (u : UtxoSet) : Op → UtxoSet
  | .addCoin o coin _ =>
    if Script.isUnspendable coin.out.scriptPubKey then u else Function.update u o (some coin)
  | .spendCoin o => Function.update u o none
  | _ => u

def flatAt (us : List UtxoSet) (i : ℕ) : UtxoSet := us.getD i fun _ => none

def flatAnswer (us : List UtxoSet) : Op → Answer
  | .getCoin i o => .found (flatAt us i o)
  | .haveCoin i o => .has (flatAt us i o).isSome
  | .accessCoin i o => .coin ((flatAt us i o).getD Coin.empty)
  | .spendCoin o => .moved (flatAt us 0 o)
  | _ => .done

/-- The flat maps afterwards: the current one is changed, copied for a child, or copied over the
one below. -/
def flatStep (us : List UtxoSet) : Op → List UtxoSet
  | .newChild => flatAt us 0 :: us
  | .flush i => us.set (i + 1) (flatAt us i)
  | op => us.modify 0 (flatApply · op)

/-- The caller's side: the layer exists, a coin that is added is unspent, and
`possible_overwrite = false` is passed only where the view has no unspent coin. -/
def Allowed (us : List UtxoSet) : Op → Prop
  | .addCoin o coin ow =>
    1 < us.length ∧ coin.isSpent = false ∧ (ow = false → flatAt us 0 o = none)
  | .spendCoin _ => 1 < us.length
  | .getCoin i _ | .haveCoin i _ | .accessCoin i _ | .uncache i _ | .flush i => i + 1 < us.length
  | .newChild => True

/-- Every operation is allowed when it comes. -/
def AllowedRun (us : List UtxoSet) : List Op → Prop
  | [] => True
  | op :: ops => Allowed us op ∧ AllowedRun (flatStep us op) ops

instance (us : List UtxoSet) (op : Op) : Decidable (Allowed us op) := by
  cases op <;> unfold Allowed <;> infer_instance

instance decidableAllowedRun : (us : List UtxoSet) → (ops : List Op) →
    Decidable (AllowedRun us ops)
  | _, [] => isTrue trivial
  | us, op :: ops =>
    have := decidableAllowedRun (flatStep us op) ops
    inferInstanceAs (Decidable (_ ∧ _))

/-- The answers of the flat maps along a run. -/
def flatAnswers (us : List UtxoSet) : List Op → List Answer
  | [] => []
  | op :: ops => flatAnswer us op :: flatAnswers (flatStep us op) ops

def flatRun (us : List UtxoSet) (ops : List Op) : List UtxoSet := ops.foldl flatStep us

/-- An answer with the spent coins read as no coin. -/
def Answer.live : Answer → Answer
  | .found c => .found (c.bind Coin.live)
  | .moved c => .moved (c.bind Coin.live)
  | a => a

/-! ### One operation -/

variable {db} {o : COutPoint}

lemma view_eq_flatAt (db : CCoinsViewDB) (l : List CCoinsMap) :
    view db l = flatAt (views db l) 0 := by
  cases l <;> rfl

lemma views_length (db : CCoinsViewDB) (l : List CCoinsMap) :
    (views db l).length = l.length + 1 := by
  induction l with
  | nil => rfl
  | cons m l ih => simp [views, ih]

lemma flatAt_views (db : CCoinsViewDB) (l : List CCoinsMap) {i : ℕ} (hi : i ≤ l.length) :
    flatAt (views db l) i = view db (l.drop i) := by
  induction i generalizing l with
  | zero => exact (view_eq_flatAt db l).symm
  | succ i ih =>
    cases l with
    | nil => simp at hi
    | cons m l =>
      rw [List.drop_succ_cons, ← ih l (by simpa using hi)]
      rfl

lemma Good.drop {l : List CCoinsMap} (h : Good db l) (i : ℕ) : Good db (l.drop i) := by
  induction i generalizing l with
  | zero => exact h
  | succ i ih =>
    cases l with
    | nil => exact h
    | cons m l => exact ih h.2.2

lemma good_take_append {db' : CCoinsViewDB} {l r : List CCoinsMap} {i : ℕ} (hi : i ≤ l.length)
    (hg : Good db l) (hr : Good db' r) (hv : view db' r = view db (l.drop i)) :
    Good db' (l.take i ++ r) ∧ view db' (l.take i ++ r) = view db l ∧
      views db' (l.take i ++ r) = (views db l).take i ++ views db' r := by
  induction i generalizing l with
  | zero => exact ⟨hr, hv, rfl⟩
  | succ i ih =>
    cases l with
    | nil => simp at hi
    | cons m l =>
      obtain ⟨hco, hcl, hg⟩ := hg
      obtain ⟨h1, h2, h3⟩ := ih (by simpa using hi) hg hv
      have h4 : view db' ((m :: l).take (i + 1) ++ r) = view db (m :: l) := by
        change m.overlay (view db' (l.take i ++ r)) = m.overlay (view db l)
        rw [h2]
      refine ⟨⟨h2 ▸ hco, hcl, h1⟩, h4, ?_⟩
      change view db' ((m :: l).take (i + 1) ++ r) :: views db' (l.take i ++ r) = _
      rw [h3, h4]
      rfl

/-- What a read may do to the layers: nothing that can be seen. -/
structure SameViews (db : CCoinsViewDB) (l l' : List CCoinsMap) : Prop where
  views : views db l' = views db l
  good : Good db l'

lemma SameViews.view {l l' : List CCoinsMap} (h : SameViews db l l') : view db l' = view db l := by
  rw [view_eq_flatAt, view_eq_flatAt, h.views]

lemma SameViews.cons {l l' : List CCoinsMap} (h : SameViews db l l') {m m' : CCoinsMap}
    (hover : m'.overlay (CoinsStack.view db l) = m.overlay (CoinsStack.view db l))
    (hco : m'.Coherent (CoinsStack.view db l)) (hcl : m'.Cleared) :
    SameViews db (m :: l) (m' :: l') := by
  refine ⟨?_, ⟨h.view ▸ hco, hcl, h.good⟩⟩
  change m'.overlay (CoinsStack.view db l') :: CoinsStack.views db l' = _
  rw [h.view, h.views, hover]
  rfl

lemma SameViews.take_append {l r : List CCoinsMap} {i : ℕ} (hi : i ≤ l.length) (hg : Good db l)
    (h : SameViews db (l.drop i) r) : SameViews db l (l.take i ++ r) := by
  obtain ⟨h1, -, h3⟩ := good_take_append hi hg h.good h.view
  obtain ⟨-, -, h4⟩ := good_take_append hi hg (hg.drop i) rfl
  refine ⟨?_, h1⟩
  rw [h3, h.views, ← h4, List.take_append_drop]

lemma getCoinFrom_spec (o : COutPoint) {l : List CCoinsMap} (hg : Good db l) :
    (getCoinFrom db o l).1.bind Coin.live = view db l o ∧
      (∀ d, (getCoinFrom db o l).1 = some d → d.isSpent = true → d = Coin.empty) ∧
      SameViews db l (getCoinFrom db o l).2 := by
  induction l with
  | nil =>
    refine ⟨?_, ?_, ⟨rfl, trivial⟩⟩
    · cases h : db.getCoin o with
      | none => simp [getCoinFrom, view, h]
      | some d => simp [getCoinFrom, view, h, Coin.live_of_unspent (db.unspent o d h)]
    · intro d hd hs
      rw [db.unspent o d hd] at hs
      cases hs
  | cons m rest ih =>
    obtain ⟨hco, hcl, hrest⟩ := hg
    unfold getCoinFrom
    cases hm : m.lookup o with
    | some it =>
      refine ⟨by simp [view, CCoinsMap.overlay, CCoinsMap.entry, hm], ?_, ⟨rfl, hco, hcl, hrest⟩⟩
      intro d hd
      cases hd
      exact hcl o it hm
    | none =>
      obtain ⟨hans, hempty, hsame⟩ := ih hrest
      have hl := CCoinsMap.lookup_fetchCoin m hans
      have hcl' := hcl.fetchCoin (o := o) hempty
      refine ⟨?_, ?_, hsame.cons (CCoinsMap.fetchCoin_over m hans)
        (CCoinsMap.fetchCoin_coherent hco hans) hcl'⟩
      · rw [show view db (m :: rest) o = m.overlay (view db rest) o from rfl, ← hl]
        simp [Option.bind_map]
      · intro d hd
        obtain ⟨it, hit, rfl⟩ := Option.map_eq_some_iff.mp hd
        exact hcl' o it hit

lemma spendCoinFrom_spec (o : COutPoint) {m : CCoinsMap} {rest : List CCoinsMap}
    (hg : Good db (m :: rest)) :
    (spendCoinFrom db o (m :: rest)).1.bind Coin.live = view db (m :: rest) o ∧
      views db (spendCoinFrom db o (m :: rest)).2
        = Function.update (view db (m :: rest)) o none :: views db rest ∧
      Good db (spendCoinFrom db o (m :: rest)).2 := by
  obtain ⟨hco, hcl, hrest⟩ := hg
  cases hm : m.lookup o with
  | some it =>
    -- the base is not asked, so any answer of it will do
    have hsp : m.spendCoin o none = m.spendCoin o (view db rest o) := by
      simp [CCoinsMap.spendCoin, CCoinsMap.fetchCoin, hm]
    have heq : spendCoinFrom db o (m :: rest) = ((m.spendCoin o (view db rest o)).1,
        (m.spendCoin o (view db rest o)).2 :: rest) := by
      simp [spendCoinFrom, hm, hsp]
    have hlive : (view db rest o).bind Coin.live = view db rest o := by
      obtain ⟨hv, -, -⟩ := getCoinFrom_spec o hrest
      rw [← hv]
      cases (getCoinFrom db o rest).1 with
      | none => rfl
      | some d => cases hs : d.isSpent <;> simp [Coin.live, hs]
    obtain ⟨h1, h2⟩ := CCoinsMap.spendCoin_over hco hlive
    have h3 := (hcl.spendCoin (o := o) (c := none) (by simp) fun _ => rfl).2
    rw [hsp] at h3
    rw [heq]
    refine ⟨CCoinsMap.spendCoin_moved m hlive, ?_, h2, h3, hrest⟩
    exact congrArg (· :: views db rest) h1
  | none =>
    obtain ⟨hans, hempty, hsame⟩ := getCoinFrom_spec o hrest
    obtain ⟨h1, h2⟩ := CCoinsMap.spendCoin_over hco hans
    have heq : spendCoinFrom db o (m :: rest) = ((m.spendCoin o (getCoinFrom db o rest).1).1,
        (m.spendCoin o (getCoinFrom db o rest).1).2 :: (getCoinFrom db o rest).2) := by
      simp [spendCoinFrom, hm]
    rw [heq]
    refine ⟨CCoinsMap.spendCoin_moved m hans, ?_, hsame.view ▸ h2,
        (hcl.spendCoin hempty fun _ => rfl).2,
      hsame.good⟩
    change CCoinsMap.overlay _ (view db (getCoinFrom db o rest).2) :: _ = _
    rw [hsame.view, hsame.views, h1]
    rfl

lemma uncacheFrom_spec (o : COutPoint) {l : List CCoinsMap} (hg : Good db l) :
    SameViews db l (uncacheFrom o l) := by
  cases l with
  | nil => exact ⟨rfl, trivial⟩
  | cons m rest =>
    obtain ⟨hco, hcl, hrest⟩ := hg
    obtain ⟨h1, h2⟩ := CCoinsMap.uncache_over hco o
    exact SameViews.cons ⟨rfl, hrest⟩ h1 h2 hcl.uncache

lemma flushFrom_spec {m : CCoinsMap} {rest : List CCoinsMap} (hg : Good db (m :: rest)) :
    ∃ l' db', flushFrom db (m :: rest) = .ok (l', db') ∧ Good db' l' ∧
      views db' l' = (views db (m :: rest)).set 1 (view db (m :: rest)) := by
  obtain ⟨hco, hcl, hrest⟩ := hg
  cases rest with
  | nil =>
    have hdb := CCoinsViewDB.batchWrite_getCoin hco
    refine ⟨[∅], db.batchWrite m, rfl, ⟨CCoinsMap.coherent_empty _, CCoinsMap.every_empty,
      trivial⟩, ?_⟩
    simp [views, view, hdb]
  | cons p rest =>
    obtain ⟨hpco, hpcl, hrest⟩ := hrest
    obtain ⟨p', hok, hover, hco'⟩ := CCoinsMap.batchWrite_spec hpco hco
    refine ⟨∅ :: p' :: rest, db, ?_, ⟨CCoinsMap.coherent_empty _, CCoinsMap.every_empty,
      hco', hpcl.batchWrite hcl hok, hrest⟩, ?_⟩
    · simp [flushFrom, hok]
    · simp [views, view, hover]

lemma answers_of_live {c u : Option Coin} (h : c.bind Coin.live = u)
    (hc : ∀ d, c = some d → d.isSpent = true → d = Coin.empty) :
    c.any (!·.isSpent) = u.isSome ∧ c.getD Coin.empty = u.getD Coin.empty := by
  subst h
  cases c with
  | none => exact ⟨rfl, rfl⟩
  | some d =>
    cases hs : d.isSpent with
    | true =>
      rw [hc d rfl hs]
      exact ⟨rfl, rfl⟩
    | false => simp [Coin.live, hs]

lemma addCoin_over {m : CCoinsMap} {low : UtxoSet} {coin : Coin} {ow : Bool}
    (hm : m.Coherent low) (hs : coin.isSpent = false) (hw : ow = false → m.overlay low o = none) :
    ∃ m', m.addCoin o coin ow = .ok m' ∧ m'.Coherent low ∧
      m'.overlay low = if Script.isUnspendable coin.out.scriptPubKey then m.overlay low
        else Function.update (m.overlay low) o (some coin) := by
  obtain ⟨m', hok⟩ := CCoinsMap.addCoin_isOk hs hw
  refine ⟨m', hok, ?_⟩
  obtain ⟨-, ⟨hu, rfl⟩ | ⟨hu, hd⟩⟩ := CCoinsMap.addCoin_eq_ok hok
  · exact ⟨hm, by rw [if_pos hu]⟩
  · refine ⟨hd.coherent hm (coherent_put (hm o) coin hw), ?_⟩
    rw [hd.overlay, hu]
    simp

/-- **One operation.** An allowed operation does not throw, its answer is that of the flat maps
once spent coins are read as no coin, and it changes the flat maps as it should. -/
theorem step_refines {s : CoinsStack} {op : Op} (hg : Good s.db s.layers)
    (ha : Allowed (views s.db s.layers) op) :
    ∃ a s', s.step op = .ok (a, s') ∧ a.live = flatAnswer (views s.db s.layers) op ∧
      views s'.db s'.layers = flatStep (views s.db s.layers) op ∧ Good s'.db s'.layers := by
  obtain ⟨layers, db⟩ := s
  change Good db layers at hg
  -- a read at layer `i` changes nothing that can be seen
  have hread : ∀ i o, i + 1 < (views db layers).length →
      (getCoinFrom db o (layers.drop i)).1.bind Coin.live = flatAt (views db layers) i o ∧
      (∀ d, (getCoinFrom db o (layers.drop i)).1 = some d → d.isSpent = true → d = Coin.empty) ∧
      SameViews db layers (layers.take i ++ (getCoinFrom db o (layers.drop i)).2) := by
    intro i o hi
    rw [views_length] at hi
    obtain ⟨h1, h2, h3⟩ := getCoinFrom_spec o (hg.drop i)
    rw [flatAt_views db layers (by omega)]
    exact ⟨h1, h2, h3.take_append (by omega) hg⟩
  have hkeep : ∀ op, (∀ u, flatApply u op = u) →
      (views db layers).modify 0 (flatApply · op) = views db layers := by
    intro op h
    cases layers <;> simp [views, h]
  cases op with
  | addCoin o coin ow =>
    obtain ⟨hlen, hs, hw⟩ := ha
    cases layers with
    | nil => simp [views] at hlen
    | cons m rest =>
      obtain ⟨hco, hcl, hrest⟩ := hg
      obtain ⟨m', hok, hco', hover⟩ := addCoin_over hco hs hw
      refine ⟨.done, ⟨m' :: rest, db⟩, by simp [step, hok], rfl, ?_, hco',
        hcl.addCoin (by simp [hs]) hok, hrest⟩
      simp [views, view, hover, flatStep, flatApply]
  | spendCoin o =>
    cases layers with
    | nil => simp [Allowed, views] at ha
    | cons m rest =>
      obtain ⟨h1, h2, h3⟩ := spendCoinFrom_spec o hg
      refine ⟨_, _, rfl, ?_, ?_, h3⟩
      · exact congrArg Answer.moved h1
      · simpa [flatStep, flatApply, views] using h2
  | getCoin i o =>
    obtain ⟨h1, -, h3⟩ := hread i o ha
    refine ⟨_, _, rfl, congrArg Answer.found h1, ?_, h3.good⟩
    exact h3.views.trans (hkeep _ fun _ => rfl).symm
  | haveCoin i o =>
    obtain ⟨h1, h2, h3⟩ := hread i o ha
    refine ⟨_, _, rfl, congrArg Answer.has (answers_of_live h1 h2).1, ?_, h3.good⟩
    exact h3.views.trans (hkeep _ fun _ => rfl).symm
  | accessCoin i o =>
    obtain ⟨h1, h2, h3⟩ := hread i o ha
    refine ⟨_, _, rfl, congrArg Answer.coin (answers_of_live h1 h2).2, ?_, h3.good⟩
    exact h3.views.trans (hkeep _ fun _ => rfl).symm
  | uncache i o =>
    have hi : i + 1 < (views db layers).length := ha
    rw [views_length] at hi
    have h3 := (uncacheFrom_spec o (hg.drop i)).take_append (by omega) hg
    exact ⟨_, _, rfl, rfl, h3.views.trans (hkeep _ fun _ => rfl).symm, h3.good⟩
  | newChild =>
    refine ⟨_, _, rfl, rfl, ?_, CCoinsMap.coherent_empty _, CCoinsMap.every_empty, hg⟩
    simp [views, view, flatStep, view_eq_flatAt]
  | flush i =>
    have hi : i + 1 < (views db layers).length := ha
    rw [views_length] at hi
    have hne : layers.drop i ≠ [] := by simpa using hi
    obtain ⟨m, rest, hd⟩ := List.exists_cons_of_ne_nil hne
    have hgd := hg.drop i
    rw [hd] at hgd
    obtain ⟨l', db', hok, hg', hv⟩ := flushFrom_spec hgd
    have htop : view db' l' = view db (layers.drop i) := by
      rw [view_eq_flatAt, hv, hd, view_eq_flatAt db (m :: rest)]
      rfl
    obtain ⟨h1, -, h3⟩ := good_take_append (by omega) hg hg' htop
    obtain ⟨-, -, h4⟩ := good_take_append (by omega) hg (hg.drop i) rfl
    refine ⟨.done, ⟨layers.take i ++ l', db'⟩, by simp [step, hd, hok], rfl, ?_, h1⟩
    rw [List.take_append_drop, hd] at h4
    have hlen : ((views db layers).take i).length = i := by
      simp [views_length]
      omega
    rw [flatStep, flatAt_views db layers (by omega), h3, hv, hd]
    conv_rhs => rw [h4, List.set_append_right _ _ (by rw [hlen]; omega), hlen]
    simp

/-! ### Whole runs -/

/-- **Runs.** Along any run of allowed operations nothing throws, the answers are those of the
flat maps, and the layers keep showing the flat maps. -/
theorem run_refines {s : CoinsStack} {ops : List Op} (hg : Good s.db s.layers)
    (ha : AllowedRun (views s.db s.layers) ops) :
    ∃ as s', s.run ops = .ok (as, s') ∧
      as.map Answer.live = flatAnswers (views s.db s.layers) ops ∧
      views s'.db s'.layers = flatRun (views s.db s.layers) ops ∧ Good s'.db s'.layers := by
  induction ops generalizing s with
  | nil => exact ⟨[], s, rfl, rfl, rfl, hg⟩
  | cons op ops ih =>
    obtain ⟨a, s₁, h1, hans, hv, hg₁⟩ := step_refines hg ha.1
    have ha₁ := ha.2
    rw [← hv] at ha₁
    obtain ⟨as, s', h2, hans', hv', hg'⟩ := ih hg₁ ha₁
    refine ⟨a :: as, s', by simp [run, h1, h2], ?_, ?_, hg'⟩
    · simp [flatAnswers, hans, hans', hv]
    · rw [hv', hv]
      rfl

lemma flatAt_flatRun (us : List UtxoSet) (ops : List Op) (hus : us ≠ []) :
    flatAt (flatRun us ops) 0 = ops.foldl flatApply (flatAt us 0) := by
  induction ops generalizing us with
  | nil => rfl
  | cons op ops ih =>
    obtain ⟨u, us, rfl⟩ := List.exists_cons_of_ne_nil hus
    have hstep : flatStep (u :: us) op ≠ [] ∧
        flatAt (flatStep (u :: us) op) 0 = flatApply (flatAt (u :: us) 0) op := by
      cases op <;> simp [flatStep, flatAt, flatApply]
    rw [flatRun, List.foldl_cons, List.foldl_cons, ← hstep.2]
    exact ih _ hstep.1

/-- Flush every layer, from the top down. -/
def flushAll (n : ℕ) : List Op := (List.range n).map Op.flush

lemma flatRun_flushAll (us : List UtxoSet) (n : ℕ) (hn : n < us.length) :
    (flatRun us (flushAll n)).length = us.length ∧
      ∀ j ≤ n, flatAt (flatRun us (flushAll n)) j = flatAt us 0 := by
  induction n with
  | zero =>
    refine ⟨rfl, ?_⟩
    intro j hj
    obtain rfl : j = 0 := by omega
    rfl
  | succ n ih =>
    obtain ⟨hlen, hall⟩ := ih (by omega)
    have hrun : flatRun us (flushAll (n + 1))
        = (flatRun us (flushAll n)).set (n + 1) (flatAt (flatRun us (flushAll n)) n) := by
      simp [flatRun, flushAll, List.range_succ, flatStep]
    rw [hrun]
    refine ⟨by simpa using hlen, ?_⟩
    intro j hj
    rw [hall n le_rfl]
    by_cases hjn : j = n + 1
    · subst hjn
      simp [flatAt, hlen, hn]
    · rw [← hall j (by omega)]
      simp [flatAt, List.getD, List.getElem?_set_ne (Ne.symm hjn)]

lemma allowedRun_flushAll (us : List UtxoSet) (n : ℕ) (hn : n < us.length) :
    AllowedRun us (flushAll n) := by
  have key : ∀ (l : List ℕ) (us : List UtxoSet), (∀ i ∈ l, i + 1 < us.length) →
      AllowedRun us (l.map Op.flush) := by
    intro l
    induction l with
    | nil => exact fun _ _ => trivial
    | cons i l ih =>
      intro us h
      refine ⟨h i (by simp), ih _ ?_⟩
      intro j hj
      simpa [flatStep] using h j (List.mem_cons_of_mem _ hj)
  apply key
  intro i hi
  have := List.mem_range.mp hi
  omega

/-- **A stack of caches is one flat map.** Start with the database alone and let child caches be
created, coins added and spent, and layers read, evicted and flushed in any allowed order. Nothing
throws; every answer is that of the flat maps, where a spent coin that `GetCoin` returns or
`SpendCoin` moves out counts as no coin; and flushing all layers leaves in the database the one
flat map that `AddCoin` and `SpendCoin` have made. -/
theorem cache_stack_refines_flat_map (db : CCoinsViewDB) (ops : List Op)
    (h : AllowedRun [db.getCoin] ops) :
    ∃ as s, run ⟨[], db⟩ ops = .ok (as, s) ∧
      as.map Answer.live = flatAnswers [db.getCoin] ops ∧
      ∃ as' s', s.run (flushAll s.layers.length) = .ok (as', s') ∧
        s'.db.getCoin = ops.foldl flatApply db.getCoin := by
  obtain ⟨as, s, hrun, hans, hv, hg⟩ := run_refines (s := ⟨[], db⟩) trivial h
  refine ⟨as, s, hrun, hans, ?_⟩
  have hlen := views_length s.db s.layers
  obtain ⟨as', s', hrun', -, hv', -⟩ :=
    run_refines hg (allowedRun_flushAll (views s.db s.layers) s.layers.length (by omega))
  refine ⟨as', s', hrun', ?_⟩
  obtain ⟨hl, hall⟩ := flatRun_flushAll (views s.db s.layers) s.layers.length (by omega)
  rw [← hv', views_length] at hl
  -- the database is the last of the flat maps
  have hdb : s'.db.getCoin = flatAt (views s'.db s'.layers) s'.layers.length := by
    rw [flatAt_views _ _ le_rfl, List.drop_length]
    rfl
  rw [hdb, hv', hall _ (by omega), hv, flatAt_flatRun _ _ (by simp [views])]
  rfl

/-- An outpoint, a coin and a database that holds just this coin. -/
def soleOutPoint : COutPoint := ⟨1, 0⟩

@[inherit_doc soleOutPoint]
def soleCoin : Coin := ⟨⟨5, [Script.OP_1]⟩, 1, false, false⟩

@[inherit_doc soleOutPoint]
def soleDb : CCoinsViewDB where
  getCoin := fun o => if o = soleOutPoint then some soleCoin else none
  unspent := by
    intro o c h
    split at h
    · cases h
      rfl
    · cases h

/-- Two layers, a coin spent in the one and replaced in the other, and a flush between. -/
def soleOps : List Op :=
  [.newChild, .haveCoin 0 soleOutPoint, .spendCoin soleOutPoint, .newChild,
    .addCoin soleOutPoint soleCoin false, .flush 0, .accessCoin 1 soleOutPoint,
    .uncache 1 soleOutPoint, .getCoin 0 soleOutPoint]

theorem cache_stack_refines_flat_map_soleDb :
    AllowedRun [soleDb.getCoin] soleOps ∧ ∃ as s, run ⟨[], soleDb⟩ soleOps = .ok (as, s) ∧
      as.map Answer.live = flatAnswers [soleDb.getCoin] soleOps ∧
      ∃ as' s', s.run (flushAll s.layers.length) = .ok (as', s') ∧
        s'.db.getCoin = soleOps.foldl flatApply soleDb.getCoin :=
  ⟨by decide, cache_stack_refines_flat_map soleDb soleOps (by decide)⟩

/-- After the coin has been spent, `GetCoin` returns `true` with an empty coin: the answer is not
literally that of a map of unspent coins. -/
theorem getCoin_after_spendCoin :
    AllowedRun [soleDb.getCoin] [.newChild, .spendCoin soleOutPoint, .getCoin 0 soleOutPoint] ∧
      (run ⟨[], soleDb⟩ [.newChild, .spendCoin soleOutPoint, .getCoin 0 soleOutPoint]).map (·.1)
        = .ok [.done, .moved (some soleCoin), .found (some Coin.empty)] ∧
      flatAnswers [soleDb.getCoin] [.newChild, .spendCoin soleOutPoint, .getCoin 0 soleOutPoint]
        = [.done, .moved (some soleCoin), .found none] := by
  refine ⟨by decide, ?_, by decide⟩
  rfl

end CoinsStack

end Agenor
