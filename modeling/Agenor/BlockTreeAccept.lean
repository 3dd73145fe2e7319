import Agenor.BlockTreeInv

/-!
Receiving blocks keeps the invariant of the block tree, in whatever order they come and whatever
the checks say of them.
-/

namespace Agenor.BlockTree

open Lib.Ancestry

variable {s : BlockTree} {a b c p r proof : ℕ} {queue : List ℕ}

lemma inv_genesis (w : ℕ) : Inv (genesis w) := by
  have hzero : ∀ {b}, b < (genesis w).size → b = 0 := fun hb => Nat.lt_one_iff.mp hb
  refine ⟨⟨?_, ?_, ?_, ?_⟩, ?_, ?_⟩
  · refine ⟨Nat.one_pos, rfl, rfl, fun b hb hb0 => absurd (hzero hb) hb0, fun b _ hh => ?_⟩
    exact absurd hh (by simp [genesis, nHeight])
  · refine ⟨fun b _ => by simp [genesis], fun b _ => ?_, fun b _ hl => ?_, fun p b => ?_,
      List.nodup_nil, by simp, List.nodup_nil⟩
    · simp [Linked, genesis, pprev]
    · exact absurd Nat.one_ne_zero hl
    · simp [Linked, genesis]
  · refine ⟨fun b _ => by simp [genesis, BLOCK_VALID_TREE, BLOCK_VALID_TRANSACTIONS],
      fun b _ => by simp [genesis], fun b _ hv => ?_⟩
    exact absurd hv (by simp [genesis, BLOCK_VALID_CHAIN, BLOCK_VALID_TRANSACTIONS])
  · intro b _ hf
    exact absurd hf (by simp [genesis, BlockStatus.failed])
  · exact ⟨Nat.one_pos, Nat.one_ne_zero, .inl rfl, fun a _ => rfl⟩
  · constructor
    · intro b hb
      obtain rfl : b = 0 := beq_iff_eq.mp hb
      exact ⟨Nat.one_pos, Nat.one_ne_zero, worse_self⟩
    · intro b hb _ _ _
      exact beq_iff_eq.mpr (hzero hb)

/-! ### A new block in the index -/

lemma invertLowestOne_le (n : ℕ) : invertLowestOne n ≤ n - 1 := Nat.and_le_right

lemma getSkipHeight_lt {height : ℕ} (h : 2 ≤ height) : getSkipHeight height < height := by
  unfold getSkipHeight
  split_ifs with h2 hodd
  · omega
  · have h1 := invertLowestOne_le (height - 1)
    have h3 := invertLowestOne_le (invertLowestOne (height - 1))
    omega
  · have := invertLowestOne_le height
    omega

section Add

variable (hb : b < s.size)
include hb

lemma addToBlockIndex_node : (s.addToBlockIndex p proof).node b = s.node b :=
  Function.update_of_ne hb.ne _ _

lemma addToBlockIndex_status : (s.addToBlockIndex p proof).status b = s.status b :=
  Function.update_of_ne hb.ne _ _

lemma addToBlockIndex_candidates :
    (s.addToBlockIndex p proof).setBlockIndexCandidates b = s.setBlockIndexCandidates b :=
  Function.update_of_ne hb.ne _ _

lemma addToBlockIndex_pprev : (s.addToBlockIndex p proof).pprev b = s.pprev b := by
  rw [pprev, addToBlockIndex_node hb, ← pprev]

lemma addToBlockIndex_nHeight : (s.addToBlockIndex p proof).nHeight b = s.nHeight b := by
  rw [nHeight, addToBlockIndex_node hb, ← nHeight]

lemma addToBlockIndex_nChainWork : (s.addToBlockIndex p proof).nChainWork b = s.nChainWork b := by
  rw [nChainWork, addToBlockIndex_node hb, ← nChainWork]

lemma addToBlockIndex_linked : (s.addToBlockIndex p proof).Linked b ↔ s.Linked b := by
  rw [Linked, addToBlockIndex_status hb, ← Linked]

lemma addToBlockIndex_connected : (s.addToBlockIndex p proof).Connected b ↔ s.Connected b := by
  rw [Connected, addToBlockIndex_status hb, ← Connected]

lemma addToBlockIndex_worse (ha : a < s.size) :
    (s.addToBlockIndex p proof).worse a b = s.worse a b := by
  rw [Bool.eq_iff_iff, worse_iff, worse_iff, addToBlockIndex_nChainWork ha,
    addToBlockIndex_nChainWork hb, addToBlockIndex_status ha, addToBlockIndex_status hb]

lemma addToBlockIndex_anc (h : Shape s) :
    Anc (s.addToBlockIndex p proof).pprev a b ↔ Anc s.pprev a b :=
  anc_congr (fun _ _ hc hp => h.graded.closed hc hp) (fun _ hc => addToBlockIndex_pprev hc) hb

end Add

@[simp] lemma addToBlockIndex_size : (s.addToBlockIndex p proof).size = s.size + 1 := rfl

lemma addToBlockIndex_node_size : (s.addToBlockIndex p proof).node s.size =
    ⟨some p, s.getAncestor p (getSkipHeight (s.nHeight p + 1)), s.nHeight p + 1,
      s.nChainWork p + proof⟩ :=
  Function.update_self _ _ _

lemma addToBlockIndex_status_size : (s.addToBlockIndex p proof).status s.size =
    ⟨BLOCK_VALID_TREE, false, false, false, 0, 0, 0⟩ :=
  Function.update_self _ _ _

lemma addToBlockIndex_not_linked : ¬ (s.addToBlockIndex p proof).Linked s.size := by
  rw [Linked, addToBlockIndex_status_size]
  simp

lemma Shape.addToBlockIndex (h : Shape s) (hp : p < s.size) (hproof : 0 < proof) :
    Shape (s.addToBlockIndex p proof) := by
  refine ⟨Nat.succ_pos _, ?_, ?_, ?_, ?_⟩
  · rw [addToBlockIndex_pprev h.pos, h.root]
  · rw [addToBlockIndex_nHeight h.pos, h.root_height]
  · intro b hb hb0
    rcases Nat.lt_succ_iff_lt_or_eq.mp hb with hb | rfl
    · obtain ⟨q, hq, hpp, hh, hw⟩ := h.parent b hb hb0
      have hqs := hq.trans hb
      refine ⟨q, hq, ?_, ?_, ?_⟩
      · rw [addToBlockIndex_pprev hb, hpp]
      · rw [addToBlockIndex_nHeight hb, addToBlockIndex_nHeight hqs, hh]
      · rw [addToBlockIndex_nChainWork hb, addToBlockIndex_nChainWork hqs]
        exact hw
    · refine ⟨p, hp, ?_, ?_, ?_⟩
      · rw [pprev, addToBlockIndex_node_size]
      · rw [nHeight, addToBlockIndex_node_size, addToBlockIndex_nHeight hp]
      · have hwork : (s.addToBlockIndex p proof).nChainWork s.size = s.nChainWork p + proof := by
          rw [nChainWork, addToBlockIndex_node_size]
        rw [addToBlockIndex_nChainWork hp, hwork]
        exact Nat.lt_add_of_pos_right hproof
  · intro b hb hh
    rcases Nat.lt_succ_iff_lt_or_eq.mp hb with hb | rfl
    · rw [addToBlockIndex_nHeight hb] at hh ⊢
      obtain ⟨k, hk, hskip, hlt⟩ := h.skip b hb hh
      refine ⟨k, hk, ?_, ?_⟩
      · rw [addToBlockIndex_node hb, hskip]
      · rw [addToBlockIndex_nHeight (hk.trans hb)]
        exact hlt
    · have hheight : (s.addToBlockIndex p proof).nHeight s.size = s.nHeight p + 1 := by
        rw [nHeight, addToBlockIndex_node_size]
      rw [hheight] at hh ⊢
      have hskip := getSkipHeight_lt hh
      -- the skip pointer goes to the ancestor of the parent at that height
      obtain ⟨k, hk, hkh⟩ := h.graded.exists_climb
        (fun c hc hc' => by rw [h.eq_zero hc hc', h.root_height]) hp
        (Nat.sub_le (s.nHeight p) (getSkipHeight (s.nHeight p + 1)))
      have hks := h.graded.mem hp (anc_of_climb hk)
      refine ⟨k, hks, ?_, ?_⟩
      · rw [addToBlockIndex_node_size, getAncestor, if_neg (by omega)]
        exact hk
      · rw [addToBlockIndex_nHeight hks]
        omega

lemma Linking.addToBlockIndex (h : Linking [] s) (hs : Shape s) :
    Linking [] (s.addToBlockIndex p proof) := by
  refine ⟨?_, ?_, ?_, ?_, h.nodup, by simp, List.nodup_nil⟩
  · intro b hb
    rcases Nat.lt_succ_iff_lt_or_eq.mp hb with hb | rfl
    · rw [addToBlockIndex_status hb]
      exact h.data b hb
    · simp [addToBlockIndex_status_size]
  · intro b hb
    rcases Nat.lt_succ_iff_lt_or_eq.mp hb with hb | rfl
    · rw [addToBlockIndex_linked hb, addToBlockIndex_status hb, h.linked b hb,
        addToBlockIndex_pprev hb]
      refine and_congr_right fun _ => and_congr_right fun _ => forall_congr' fun q => ?_
      exact imp_congr_right fun hq =>
        (addToBlockIndex_linked (hs.graded.closed hb hq)).symm
    · simp [addToBlockIndex_not_linked, addToBlockIndex_status_size]
  · intro b hb hl
    rcases Nat.lt_succ_iff_lt_or_eq.mp hb with hb | rfl
    · rw [addToBlockIndex_linked hb] at hl
      rw [addToBlockIndex_status hb]
      exact h.seq b hb hl
    · rw [addToBlockIndex_status_size]
  · intro q b
    refine (h.unlinked q b).trans ?_
    by_cases hb : b < s.size
    · rw [addToBlockIndex_pprev hb, addToBlockIndex_status hb, addToBlockIndex_linked hb]
      simp [hb, hb.trans (Nat.lt_succ_self _)]
    · refine ⟨fun hmem => absurd hmem.1 hb, fun hmem => ?_⟩
      obtain ⟨hlt, -, hdata, -⟩ := hmem
      obtain rfl : b = s.size := (Nat.lt_succ_iff_lt_or_eq.mp hlt).resolve_left hb
      simp [addToBlockIndex_status_size] at hdata

lemma Levels.addToBlockIndex (h : Levels s) (hs : Shape s) :
    Levels (s.addToBlockIndex p proof) := by
  refine ⟨?_, ?_, ?_⟩
  · intro b hb
    rcases Nat.lt_succ_iff_lt_or_eq.mp hb with hb | rfl
    · rw [addToBlockIndex_status hb]
      exact h.tree b hb
    · rw [addToBlockIndex_status_size]
  · intro b hb
    rcases Nat.lt_succ_iff_lt_or_eq.mp hb with hb | rfl
    · rw [addToBlockIndex_status hb]
      exact h.transactions b hb
    · simp [addToBlockIndex_status_size, BLOCK_VALID_TREE, BLOCK_VALID_TRANSACTIONS]
  · intro b hb hv
    rcases Nat.lt_succ_iff_lt_or_eq.mp hb with hb | rfl
    · rw [addToBlockIndex_status hb] at hv
      obtain ⟨hc, hparent⟩ := h.connected b hb hv
      refine ⟨(addToBlockIndex_connected hb).mpr hc, fun q hq => ?_⟩
      rw [addToBlockIndex_pprev hb] at hq
      exact (addToBlockIndex_connected (hs.graded.closed hb hq)).mpr (hparent q hq)
    · simp [addToBlockIndex_status_size, BLOCK_VALID_TREE, BLOCK_VALID_CHAIN] at hv

lemma Flagged.addToBlockIndex (h : Flagged s) (hs : Shape s) :
    Flagged (s.addToBlockIndex p proof) := by
  intro b hb hf
  rcases Nat.lt_succ_iff_lt_or_eq.mp hb with hb | rfl
  · rw [addToBlockIndex_status hb] at hf
    obtain ⟨a, ha, hv⟩ := h b hb hf
    refine ⟨a, (addToBlockIndex_anc hb hs).mpr ha, ?_⟩
    rw [addToBlockIndex_status (hs.graded.mem hb ha)]
    exact hv
  · simp [addToBlockIndex_status_size, BlockStatus.failed] at hf

lemma Good.addToBlockIndex (h : Good s b) (hs : Shape s) :
    Good (s.addToBlockIndex p proof) b where
  lt := h.lt.trans (Nat.lt_succ_self _)
  linked := (addToBlockIndex_linked h.lt).mpr h.linked
  connected := (addToBlockIndex_connected h.lt).mpr h.connected
  unfailed := by
    intro a ha
    rw [addToBlockIndex_anc h.lt hs] at ha
    rw [addToBlockIndex_status (hs.graded.mem h.lt ha)]
    exact h.unfailed a ha

lemma Candidates.addToBlockIndex (h : Candidates r s) (hr : r < s.size) :
    Candidates r (s.addToBlockIndex p proof) := by
  constructor
  · intro b hcand
    by_cases hb : b = s.size
    · subst hb
      simp [BlockTree.addToBlockIndex] at hcand
    · have hcand' : s.setBlockIndexCandidates b = true := by
        rw [← hcand]
        exact (Function.update_of_ne hb _ _).symm
      obtain ⟨hlt, hl, hw⟩ := h.sound b hcand'
      refine ⟨hlt.trans (Nat.lt_succ_self _), (addToBlockIndex_linked hlt).mpr hl, ?_⟩
      rw [addToBlockIndex_worse hr hlt]
      exact hw
  · intro b hb hl hf hw
    rcases Nat.lt_succ_iff_lt_or_eq.mp hb with hb | rfl
    · rw [addToBlockIndex_linked hb] at hl
      rw [addToBlockIndex_status hb] at hf
      rw [addToBlockIndex_worse hr hb] at hw
      rw [addToBlockIndex_candidates hb]
      exact h.complete b hb hl hf hw
    · exact absurd hl addToBlockIndex_not_linked

lemma Inv.addToBlockIndex (h : Inv s) (hp : p < s.size) (hproof : 0 < proof) :
    Inv (s.addToBlockIndex p proof) where
  core := by
    have hs := h.core.shape
    exact ⟨hs.addToBlockIndex hp hproof, h.core.linking.addToBlockIndex hs,
      h.core.levels.addToBlockIndex hs, h.core.flagged.addToBlockIndex hs⟩
  tip := h.tip.addToBlockIndex h.core.shape
  candidates := h.candidates.addToBlockIndex h.tip.lt

/-! ### Linking blocks -/

@[simp] lemma link_size : (s.link b).size = s.size := by
  unfold link
  split_ifs <;> rfl

@[simp] lemma link_node : (s.link b).node = s.node := by
  unfold link
  split_ifs <;> rfl

@[simp] lemma link_tip : (s.link b).tip = s.tip := by
  unfold link
  split_ifs <;> rfl

lemma link_pprev : (s.link b).pprev = s.pprev := pprev_congr link_node

lemma link_self : (s.link b).status b = { s.status b with
    nChainTx := ((s.pprev b).map fun p => (s.status p).nChainTx).getD 0 + (s.status b).nTx
    nSequenceId := s.nBlockSequenceId } := by
  unfold link
  split_ifs <;> exact Function.update_self _ _ _

lemma link_of_ne (h : c ≠ b) : (s.link b).status c = s.status c := by
  unfold link
  split_ifs <;> exact Function.update_of_ne h _ _

lemma link_rel {R : BlockStatus → BlockStatus → Prop}
    (hR : ∀ st n m, R { st with nChainTx := n, nSequenceId := m } st) (hrefl : ∀ st, R st st)
    (c : ℕ) : R ((s.link b).status c) (s.status c) := by
  by_cases hc : c = b
  · subst hc
    rw [link_self]
    exact hR _ _ _
  · rw [link_of_ne hc]
    exact hrefl _

lemma link_candidates_self :
    (s.link b).setBlockIndexCandidates b = true ↔
      s.setBlockIndexCandidates b = true ∨ (s.link b).worse b s.tip = false := by
  unfold link
  split_ifs with hw
  · rw [Bool.not_eq_true'] at hw
    have hins : ∀ t : BlockTree, (t.insertCandidate b).setBlockIndexCandidates b = true := fun t =>
      Function.update_self _ _ _
    have hworse : ∀ t : BlockTree, (t.insertCandidate b).worse = t.worse := fun _ => rfl
    simp only [hins, hworse, true_iff]
    exact .inr hw
  · rw [Bool.not_eq_true', Bool.not_eq_false] at hw
    simp only [hw, Bool.true_eq_false, or_false]
    exact Iff.rfl

lemma link_candidates_of_ne (h : c ≠ b) :
    (s.link b).setBlockIndexCandidates c = s.setBlockIndexCandidates c := by
  unfold link
  split_ifs
  · exact Function.update_of_ne h _ _
  · rfl

lemma link_linked (h : (s.status b).nTx ≠ 0) : (s.link b).Linked c ↔ c = b ∨ s.Linked c := by
  by_cases hc : c = b
  · subst hc
    simp only [Linked, link_self, true_or, iff_true]
    omega
  · rw [Linked, link_of_ne hc, ← Linked]
    simp [hc]

/-- One pass of the loop of `ReceivedBlockTransactions`. -/
def linkPass (s : BlockTree) (b : ℕ) : BlockTree :=
  { s.link b with mapBlocksUnlinked := s.mapBlocksUnlinked.filter (·.1 != b) }

/-- The blocks that wait for that one. -/
def waitingFor (s : BlockTree) (b : ℕ) : List ℕ :=
  (s.mapBlocksUnlinked.filter (·.1 == b)).map (·.2)

lemma mem_waitingFor : c ∈ s.waitingFor b ↔ (b, c) ∈ s.mapBlocksUnlinked := by
  simp [waitingFor]

lemma nodup_waitingFor (h : s.mapBlocksUnlinked.Nodup) : (s.waitingFor b).Nodup := by
  refine (List.nodup_map_iff_inj_on (h.filter _)).mpr ?_
  rintro ⟨p, c⟩ hp ⟨q, d⟩ hq hcd
  simp only [List.mem_filter, beq_iff_eq] at hp hq
  rw [hp.2, hq.2, show c = d from hcd]

lemma length_waitingFor :
    (s.waitingFor b).length + (s.linkPass b).mapBlocksUnlinked.length =
      s.mapBlocksUnlinked.length := by
  rw [waitingFor, linkPass, List.length_map]
  exact (List.length_eq_length_filter_add _).symm

lemma Linking.linkPass (h : Linking (b :: queue) s) (hs : Shape s) :
    Linking (queue ++ s.waitingFor b) (s.linkPass b) := by
  obtain ⟨hb, hdata, hparent⟩ := h.waiting b (List.mem_cons_self ..)
  obtain ⟨hbq, hnodup⟩ := List.nodup_cons.mp h.waiting_nodup
  have hTx := (h.data b hb).mp hdata
  have hlinked : ∀ c, (s.linkPass b).Linked c ↔ c = b ∨ s.Linked c := fun c => link_linked hTx
  have hpprev : (s.linkPass b).pprev = s.pprev := link_pprev
  have hhave : ∀ c, ((s.linkPass b).status c).haveData = (s.status c).haveData :=
    link_rel (R := fun st st' => st.haveData = st'.haveData) (fun _ _ _ => rfl) fun _ => rfl
  have hnTx : ∀ c, ((s.linkPass b).status c).nTx = (s.status c).nTx :=
    link_rel (R := fun st st' => st.nTx = st'.nTx) (fun _ _ _ => rfl) fun _ => rfl
  have hsize : (s.linkPass b).size = s.size := link_size
  have hnot : ¬ s.Linked b := fun hl =>
    ((h.linked b hb).mp hl).2.1 (List.mem_cons_self ..)
  have hself : b ∉ s.waitingFor b := by
    intro hmem
    have hp := ((h.unlinked b b).mp (mem_waitingFor.mp hmem)).2.1
    exact absurd (hs.of_pprev hb hp).1 (lt_irrefl b)
  refine ⟨?_, ?_, ?_, ?_, h.nodup.filter _, ?_, ?_⟩
  · intro c hc
    rw [hhave, hnTx]
    exact h.data c (hsize ▸ hc)
  · intro c hc
    rw [hlinked, hhave, hpprev]
    by_cases hcb : c = b
    · subst hcb
      simp only [true_or, hdata, List.mem_append, hbq, hself, or_self, not_false_eq_true,
        true_and, true_iff]
      exact fun p hp => (hlinked p).mpr (.inr (hparent p hp))
    · rw [hsize] at hc
      simp only [hcb, false_or, List.mem_append, not_or, hlinked]
      constructor
      · intro hl
        obtain ⟨hd, hq, hp⟩ := (h.linked c hc).mp hl
        refine ⟨hd, ⟨fun hmem => hq (List.mem_cons_of_mem _ hmem), fun hmem => ?_⟩,
          fun p hpp => .inr (hp p hpp)⟩
        exact ((h.unlinked b c).mp (mem_waitingFor.mp hmem)).2.2.2.2 hl
      · rintro ⟨hd, ⟨hq, hw⟩, hp⟩
        have hq' : c ∉ b :: queue := by simp [hcb, hq]
        by_contra hl
        refine hl ((h.linked c hc).mpr ⟨hd, hq', fun p hpp => ?_⟩)
        rcases hp p hpp with rfl | hlp
        · exact absurd (mem_waitingFor.mpr ((h.unlinked p c).mpr ⟨hc, hpp, hd, hq', hl⟩)) hw
        · exact hlp
  · intro c hc hl
    rw [hlinked, not_or] at hl
    have hst : (s.linkPass b).status c = s.status c := link_of_ne hl.1
    rw [hst]
    exact h.seq c (hsize ▸ hc) hl.2
  · intro p c
    rw [hlinked, hhave, hpprev, hsize]
    simp only [BlockTree.linkPass, List.mem_filter, h.unlinked p c, bne_iff_ne, ne_eq,
      List.mem_append, List.mem_cons, not_or, mem_waitingFor]
    constructor
    · rintro ⟨⟨hc, hp, hd, ⟨hcb, hq⟩, hl⟩, hpb⟩
      refine ⟨hc, hp, hd, ⟨hq, fun hmem => hpb ?_⟩, hcb, hl⟩
      have := ((h.unlinked b c).mp hmem).2.1
      exact Option.some.inj (hp.symm.trans this)
    · rintro ⟨hc, hp, hd, ⟨hq, hw⟩, hcb, hl⟩
      refine ⟨⟨hc, hp, hd, ⟨hcb, hq⟩, hl⟩, ?_⟩
      rintro rfl
      exact hw ((h.unlinked p c).mpr ⟨hc, hp, hd, by simp [hcb, hq], hl⟩)
  · intro c hc
    rw [hhave, hpprev, hsize]
    rcases List.mem_append.mp hc with hc | hc
    · obtain ⟨hlt, hd, hp⟩ := h.waiting c (List.mem_cons_of_mem _ hc)
      exact ⟨hlt, hd, fun p hpp => (hlinked p).mpr (.inr (hp p hpp))⟩
    · obtain ⟨hlt, hpc, hd, -⟩ := (h.unlinked b c).mp (mem_waitingFor.mp hc)
      refine ⟨hlt, hd, fun p hpp => (hlinked p).mpr (.inl ?_)⟩
      exact Option.some.inj (hpp.symm.trans hpc)
  · refine List.Nodup.append hnodup (nodup_waitingFor h.nodup) ?_
    intro c hq hw
    have := ((h.unlinked b c).mp (mem_waitingFor.mp hw)).2.2.2.1
    exact this (List.mem_cons_of_mem _ hq)

/-- The invariant while the blocks of `queue` are about to be linked. -/
structure Pending (queue : List ℕ) (s : BlockTree) : Prop where
  shape : Shape s
  linking : Linking queue s
  levels : Levels s
  flagged : Flagged s
  tip : Good s s.tip
  candidates : Candidates s.tip s

lemma Pending.inv (h : Pending [] s) : Inv s :=
  ⟨⟨h.shape, h.linking, h.levels, h.flagged⟩, h.tip, h.candidates⟩

lemma Pending.linkPass (h : Pending (b :: queue) s) :
    Pending (queue ++ s.waitingFor b) (s.linkPass b) := by
  obtain ⟨hb, hdata, -⟩ := h.linking.waiting b (List.mem_cons_self ..)
  have hTx := (h.linking.data b hb).mp hdata
  have hnot : ¬ s.Linked b := fun hl =>
    ((h.linking.linked b hb).mp hl).2.1 (List.mem_cons_self ..)
  have hlinked : ∀ c, (s.linkPass b).Linked c ↔ c = b ∨ s.Linked c := fun c => link_linked hTx
  have hsize : (s.linkPass b).size = s.size := link_size
  have hnode : (s.linkPass b).node = s.node := link_node
  have htip : (s.linkPass b).tip = s.tip := link_tip
  have hlevels : ∀ c, ((s.linkPass b).status c).validity = (s.status c).validity ∧
      ((s.linkPass b).status c).nTx = (s.status c).nTx :=
    link_rel (R := fun st st' => st.validity = st'.validity ∧ st.nTx = st'.nTx)
      (fun _ _ _ => ⟨rfl, rfl⟩) fun _ => ⟨rfl, rfl⟩
  have hflags : ∀ c, ((s.linkPass b).status c).failedValid = (s.status c).failedValid ∧
      ((s.linkPass b).status c).failedChild = (s.status c).failedChild :=
    link_rel (R := fun st st' => st.failedValid = st'.failedValid ∧
      st.failedChild = st'.failedChild) (fun _ _ _ => ⟨rfl, rfl⟩) fun _ => ⟨rfl, rfl⟩
  have hfailed : ∀ c, ((s.linkPass b).status c).failed = (s.status c).failed := fun c => by
    rw [BlockStatus.failed, BlockStatus.failed, (hflags c).1, (hflags c).2]
  -- the tip was linked before, so the comparison with it only changes for the new block
  have htb : s.tip ≠ b := by
    intro htb
    exact hnot (htb ▸ h.tip.linked)
  have hworse : ∀ c, c ≠ b → (s.linkPass b).worse c s.tip = s.worse c s.tip := fun c hc => by
    refine worse_congr hnode ?_ ?_
    · exact congrArg _ (link_of_ne hc)
    · exact congrArg _ (link_of_ne htb)
  refine ⟨h.shape.congr hsize hnode, h.linking.linkPass h.shape, h.levels.congr hsize hnode hlevels,
    h.flagged.congr hsize hnode hflags, ?_, ?_⟩
  · rw [htip]
    refine ⟨hsize ▸ h.tip.lt, (hlinked _).mpr (.inr h.tip.linked), ?_, fun a ha => ?_⟩
    · rw [Connected, (hlevels _).1]
      exact h.tip.connected
    · rw [pprev_congr hnode] at ha
      rw [hfailed]
      exact h.tip.unfailed a ha
  · rw [htip]
    constructor
    · intro c hcand
      by_cases hcb : c = b
      · subst hcb
        rcases link_candidates_self.mp hcand with hold | hw
        · exact absurd (h.candidates.sound c hold).2.1 hnot
        · exact ⟨hsize ▸ hb, (hlinked c).mpr (.inl rfl), hw⟩
      · have hold : s.setBlockIndexCandidates c = true := by
          rw [← link_candidates_of_ne hcb]
          exact hcand
        obtain ⟨hlt, hl, hw⟩ := h.candidates.sound c hold
        refine ⟨hsize ▸ hlt, (hlinked c).mpr (.inr hl), ?_⟩
        rw [hworse c hcb]
        exact hw
    · intro c hc hl hf hw
      by_cases hcb : c = b
      · subst hcb
        exact link_candidates_self.mpr (.inr hw)
      · rw [hsize] at hc
        rw [hfailed] at hf
        rw [hworse c hcb] at hw
        have hcand := h.candidates.complete c hc (((hlinked c).mp hl).resolve_left hcb) hf hw
        rw [← link_candidates_of_ne hcb] at hcand
        exact hcand

lemma Pending.linkQueue {n : ℕ} (h : Pending queue s)
    (hn : queue.length + s.mapBlocksUnlinked.length ≤ n) : Inv (linkQueue n queue s) := by
  induction n generalizing queue s with
  | zero =>
    obtain rfl : queue = [] := List.length_eq_zero_iff.mp (by omega)
    exact h.inv
  | succ n ih =>
    cases queue with
    | nil => exact h.inv
    | cons b queue =>
      refine ih h.linkPass ?_
      change (queue ++ s.waitingFor b).length + (s.linkPass b).mapBlocksUnlinked.length ≤ n
      have := s.length_waitingFor (b := b)
      rw [List.length_append]
      rw [List.length_cons] at hn
      omega

/-! ### The data of a block -/

section Store

variable {nTx : ℕ} (h : Inv s) (hb : b < s.size) (hdata : (s.status b).haveData = false)
  (hf : (s.status b).failed = false)

include hf in
lemma storeData_self : (s.storeData b nTx).status b = { s.status b with
    nTx, nChainTx := 0, haveData := true,
    validity := max (s.status b).validity BLOCK_VALID_TRANSACTIONS } := by
  have hf' : BlockStatus.failed { s.status b with nTx, nChainTx := 0, haveData := true } = false :=
    hf
  rw [storeData, setStatus_self, BlockStatus.raiseValidity, if_neg (by simp [hf'])]

lemma storeData_of_ne (hc : c ≠ b) : (s.storeData b nTx).status c = s.status c :=
  setStatus_of_ne _ hc

include h hb hdata

lemma Inv.not_linked : ¬ s.Linked b := by
  intro hl
  simp [h.core.haveData hb hl] at hdata

include hf

lemma storeData_linked (c : ℕ) : (s.storeData b nTx).Linked c ↔ s.Linked c := by
  by_cases hc : c = b
  · subst hc
    have := h.not_linked hb hdata
    simp only [this, iff_false]
    rw [Linked, storeData_self hf]
    simp
  · rw [Linked, storeData_of_ne hc, ← Linked]

lemma storeData_levels (hTx : nTx ≠ 0) : Levels (s.storeData b nTx) := by
  have hv : (s.status b).validity = BLOCK_VALID_TREE := by
    have h2 := h.core.levels.tree b hb
    have h3 := mt (h.core.levels.transactions b hb).mp
      (not_not.mpr (by simpa [hdata] using (h.core.linking.data b hb).symm))
    simp only [BLOCK_VALID_TREE, BLOCK_VALID_TRANSACTIONS] at *
    omega
  have hself : ((s.storeData b nTx).status b).validity = BLOCK_VALID_TRANSACTIONS := by
    rw [storeData_self hf, hv]
    rfl
  have hconn : ∀ c, s.Connected c → (s.storeData b nTx).Connected c := by
    rintro c (rfl | hc)
    · exact .inl rfl
    · have hcb : c ≠ b := by
        rintro rfl
        rw [hv] at hc
        exact absurd hc (by decide)
      refine .inr ?_
      rw [storeData_of_ne hcb]
      exact hc
  refine ⟨?_, ?_, ?_⟩
  · intro c hc
    by_cases hcb : c = b
    · rw [hcb, hself]
      decide
    · rw [storeData_of_ne hcb]
      exact h.core.levels.tree c hc
  · intro c hc
    by_cases hcb : c = b
    · rw [hcb, hself, storeData_self hf]
      simp [hTx]
    · rw [storeData_of_ne hcb]
      exact h.core.levels.transactions c hc
  · intro c hc hvc
    by_cases hcb : c = b
    · rw [hcb, hself] at hvc
      exact absurd hvc (by decide)
    · rw [storeData_of_ne hcb] at hvc
      obtain ⟨hcc, hp⟩ := h.core.levels.connected c hc hvc
      exact ⟨hconn c hcc, fun p hpp => hconn p (hp p hpp)⟩

lemma storeData_pending (hTx : nTx ≠ 0) {unlinked : List (ℕ × ℕ)}
    (hlinking : Linking queue { s.storeData b nTx with mapBlocksUnlinked := unlinked }) :
    Pending queue { s.storeData b nTx with mapBlocksUnlinked := unlinked } := by
  have hlevels := storeData_levels h hb hdata hf hTx
  have hflags : ∀ c, ((s.storeData b nTx).status c).failedValid = (s.status c).failedValid ∧
      ((s.storeData b nTx).status c).failedChild = (s.status c).failedChild := fun c => by
    by_cases hc : c = b
    · subst hc
      rw [storeData_self hf]
      exact ⟨rfl, rfl⟩
    · rw [storeData_of_ne hc]
      exact ⟨rfl, rfl⟩
  have hfailed : ∀ c, ((s.storeData b nTx).status c).failed = (s.status c).failed := fun c => by
    rw [BlockStatus.failed, BlockStatus.failed, (hflags c).1, (hflags c).2]
  have hworse : ∀ c d, BlockTree.worse { s.storeData b nTx with mapBlocksUnlinked := unlinked } c d
      = s.worse c d := by
    have hseq : ∀ c, ((s.storeData b nTx).status c).nSequenceId = (s.status c).nSequenceId :=
      fun c => by
        by_cases hc : c = b
        · subst hc
          rw [storeData_self hf]
        · rw [storeData_of_ne hc]
    exact fun c d => worse_congr rfl (hseq c) (hseq d)
  have hlinked : ∀ c, (s.storeData b nTx).Linked c ↔ s.Linked c := storeData_linked h hb hdata hf
  have htb : s.tip ≠ b := fun htb => h.not_linked hb hdata (htb ▸ h.tip.linked)
  refine ⟨h.core.shape.congr rfl rfl, hlinking, ⟨hlevels.tree, hlevels.transactions,
    hlevels.connected⟩, h.core.flagged.congr rfl rfl hflags, ?_, ?_⟩
  · refine ⟨h.tip.lt, (hlinked _).mpr h.tip.linked, ?_, fun a ha => ?_⟩
    · have hst : (s.storeData b nTx).status s.tip = s.status s.tip := storeData_of_ne htb
      unfold Connected
      refine h.tip.connected.imp id fun hv => ?_
      exact hv.trans_eq (congrArg BlockStatus.validity hst).symm
    · exact (hfailed a).trans (h.tip.unfailed a ha)
  · constructor
    · intro c hcand
      obtain ⟨hlt, hl, hw⟩ := h.candidates.sound c hcand
      exact ⟨hlt, (hlinked c).mpr hl, (hworse _ _).trans hw⟩
    · intro c hc hl hfc hw
      refine h.candidates.complete c hc ((hlinked c).mp hl) ((hfailed c).symm.trans hfc) ?_
      exact (hworse _ _).symm.trans hw

omit h hb hdata in
lemma storeData_haveData (nTx c : ℕ) :
    ((s.storeData b nTx).status c).haveData = true ↔ c = b ∨ (s.status c).haveData = true := by
  by_cases hc : c = b
  · subst hc
    simp [storeData_self hf]
  · simp [storeData_of_ne hc, hc]

lemma storeData_data (hTx : nTx ≠ 0) : ∀ c < s.size,
    ((s.storeData b nTx).status c).haveData = true ↔ ((s.storeData b nTx).status c).nTx ≠ 0 := by
  intro c hc
  by_cases hcb : c = b
  · subst hcb
    simp [storeData_self hf, hTx]
  · rw [storeData_of_ne hcb]
    exact h.core.linking.data c hc

lemma storeData_seq : ∀ c < s.size, ¬ (s.storeData b nTx).Linked c →
    ((s.storeData b nTx).status c).nSequenceId = 0 := by
  intro c hc hl
  rw [storeData_linked h hb hdata hf] at hl
  have := h.core.linking.seq c hc hl
  by_cases hcb : c = b
  · subst hcb
    rw [storeData_self hf]
    exact this
  · rw [storeData_of_ne hcb]
    exact this

omit hb hf in
lemma not_mem_unlinked : (p, b) ∉ s.mapBlocksUnlinked := by
  intro hmem
  have := ((h.core.linking.unlinked p b).mp hmem).2.2.1
  simp [hdata] at this

lemma storeData_linking_queue (hTx : nTx ≠ 0) (hp : ∀ p, s.pprev b = some p → s.Linked p) :
    Linking [b] (s.storeData b nTx) := by
  have hlinked : ∀ c, (s.storeData b nTx).Linked c ↔ s.Linked c := storeData_linked h hb hdata hf
  have hhave := storeData_haveData hf nTx
  have hnot := h.not_linked hb hdata
  refine ⟨storeData_data h hb hdata hf hTx, ?_, storeData_seq h hb hdata hf, ?_,
    h.core.linking.nodup, ?_, List.nodup_singleton b⟩
  · intro c hc
    simp only [hlinked, hhave, List.mem_singleton]
    by_cases hcb : c = b
    · subst hcb
      simp [hnot]
    · simp only [hcb, false_or, not_false_eq_true, true_and]
      rw [h.core.linking.linked c hc]
      simp only [List.not_mem_nil, not_false_eq_true, true_and]
      exact Iff.rfl
  · intro q c
    simp only [hlinked, hhave, List.mem_singleton]
    by_cases hcb : c = b
    · subst hcb
      simp only [not_true_eq_false, false_and, and_false, iff_false]
      exact fun hmem => not_mem_unlinked h hdata hmem
    · simp only [hcb, false_or, not_false_eq_true, true_and]
      refine (h.core.linking.unlinked q c).trans ?_
      simp only [List.not_mem_nil, not_false_eq_true, true_and]
      exact Iff.rfl
  · intro c hc
    obtain rfl := List.mem_singleton.mp hc
    exact ⟨hb, (hhave c).mpr (.inl rfl), fun p hpp => (hlinked p).mpr (hp p hpp)⟩

lemma storeData_linking_wait (hTx : nTx ≠ 0) (hp : s.pprev b = some p) (hl : ¬ s.Linked p) :
    Linking [] { s.storeData b nTx with
      mapBlocksUnlinked := (p, b) :: s.mapBlocksUnlinked } := by
  have hlinked : ∀ c, (s.storeData b nTx).Linked c ↔ s.Linked c := storeData_linked h hb hdata hf
  have hhave := storeData_haveData hf nTx
  have hnot := h.not_linked hb hdata
  refine ⟨storeData_data h hb hdata hf hTx, ?_, storeData_seq h hb hdata hf, ?_,
    List.nodup_cons.mpr ⟨not_mem_unlinked h hdata, h.core.linking.nodup⟩, by simp,
    List.nodup_nil⟩
  · intro c hc
    refine (hlinked c).trans ((h.core.linking.linked c hc).trans ?_)
    change _ ↔ ((s.storeData b nTx).status c).haveData = true ∧ _ ∧
      ∀ q, s.pprev c = some q → (s.storeData b nTx).Linked q
    simp only [hlinked, hhave]
    refine and_congr_left fun hrest => ?_
    by_cases hcb : c = b
    · subst hcb
      exact absurd (hrest.2 p hp) hl
    · simp [hcb]
  · intro q c
    rw [List.mem_cons, h.core.linking.unlinked q c, Prod.mk.injEq]
    have hiff : BlockTree.Linked { s.storeData b nTx with
      mapBlocksUnlinked := (p, b) :: s.mapBlocksUnlinked } c ↔ s.Linked c := hlinked c
    rw [hiff]
    change _ ↔ c < s.size ∧ s.pprev c = some q ∧
      ((s.storeData b nTx).status c).haveData = true ∧ _ ∧ _
    rw [hhave c]
    by_cases hcb : c = b
    · subst hcb
      simp only [and_true, hdata, Bool.false_eq_true, and_false, or_false, hb, hp,
        Option.some.injEq, List.not_mem_nil, not_false_eq_true, hnot, true_and]
      exact eq_comm
    · simp [hcb]

lemma Inv.receivedBlockTransactions (hTx : nTx ≠ 0)
    (hparent : ∀ p, s.pprev b = some p → (s.status p).failed = false) :
    Inv (s.receivedBlockTransactions b nTx) := by
  have hlinked : ∀ c, (s.storeData b nTx).Linked c ↔ s.Linked c := storeData_linked h hb hdata hf
  have hqueue : ∀ hp : ∀ p, s.pprev b = some p → s.Linked p,
      Inv (linkQueue (s.mapBlocksUnlinked.length + 1) [b] (s.storeData b nTx)) := fun hp =>
    (storeData_pending h hb hdata hf hTx
      (storeData_linking_queue h hb hdata hf hTx hp)).linkQueue (by simp [Nat.add_comm])
  have hpprev : (s.storeData b nTx).pprev b = s.pprev b := rfl
  simp only [BlockTree.receivedBlockTransactions, hpprev]
  cases hp : s.pprev b with
  | none => exact hqueue (by simp [hp])
  | some p =>
    have hpb : p ≠ b := by
      rintro rfl
      exact absurd (h.core.shape.of_pprev hb hp).1 (lt_irrefl p)
    have hps := h.core.shape.graded.closed hb hp
    dsimp only
    split_ifs with hl hv
    · refine hqueue fun q hq => ?_
      obtain rfl := Option.some.inj (hp.symm.trans hq)
      exact (hlinked p).mp hl
    · exact (storeData_pending h hb hdata hf hTx (storeData_linking_wait h hb hdata hf hTx hp
        (mt (hlinked p).mpr hl))).inv
    · refine absurd ?_ hv
      rw [storeData_of_ne hpb, BlockStatus.isValid, hparent p hp]
      simp [h.core.levels.tree p hps]

end Store

/-! ### Accepting a block -/

lemma Inv.mark_unlinked (h : Inv s) (hb : b < s.size) (hl : ¬ s.Linked b) :
    Inv (s.setStatus b fun st => { st with failedValid := true }) := by
  have hre := Reflags.setFlags s b (fun _ => true) (·.failedChild)
  have hne : ∀ c, s.Linked c → (s.setStatus b fun st => { st with failedValid := true }).status c =
      s.status c := fun c hc => setStatus_of_ne _ (fun hcb => hl (hcb ▸ hc))
  have hmono : ∀ a, (s.status a).failedValid = true →
      ((s.setStatus b fun st => { st with failedValid := true }).status a).failedValid = true :=
    fun a => setStatus_rel (R := fun st st' => st'.failedValid = true → st.failedValid = true)
      (fun _ => rfl) (fun _ => id) a
  refine ⟨hre.core h.core (h.core.flagged.mark rfl rfl hmono ?_), hre.good h.tip ?_, ?_⟩
  · intro c _ hf
    by_cases hcb : c = b
    · subst hcb
      exact .inr ⟨c, .refl c, by rw [setStatus_self]⟩
    · rw [setStatus_of_ne _ hcb] at hf
      exact .inl hf
  · intro a ha
    rw [hne a (h.core.linked_anc h.tip.lt h.tip.linked ha).2]
    exact h.tip.unfailed a ha
  · refine hre.candidates h.candidates (fun _ => id) fun c hf => ⟨?_, id⟩
    by_cases hcb : c = b
    · subst hcb
      rw [setStatus_self] at hf
      simp [BlockStatus.failed] at hf
    · rw [setStatus_of_ne _ hcb] at hf
      exact hf

lemma Inv.acceptData (h : Inv s) (hb : b < s.size) (hf : (s.status b).failed = false)
    (hparent : ∀ p, s.pprev b = some p → (s.status p).failed = false) (result : AcceptResult) :
    Inv (s.acceptData b result) := by
  unfold BlockTree.acceptData
  split_ifs with hdata
  · exact h
  · rw [Bool.not_eq_true] at hdata
    cases result with
    | badHeader => exact h
    | failed => exact h
    | invalid => exact h.mark_unlinked hb (h.not_linked hb hdata)
    | accepted nTx => exact h.receivedBlockTransactions hb hdata hf nTx.ne_zero hparent

/-- **Accepting.** `AcceptBlock` keeps the invariant, whatever comes in and whatever the checks say
of it. -/
lemma Inv.acceptBlock (h : Inv s) (block : IncomingBlock) (result : AcceptResult) :
    Inv (s.acceptBlock block result) := by
  cases block with
  | unknown p proof =>
    rw [BlockTree.acceptBlock]
    split_ifs with hp hf hbad
    · exact h
    · exact h
    · exact h
    · rw [not_le] at hp
      have hadd := h.addToBlockIndex hp proof.pos
      refine hadd.acceptData (Nat.lt_succ_self _) ?_ ?_ result
      · rw [addToBlockIndex_status_size]
        rfl
      · intro q hq
        rw [pprev, addToBlockIndex_node_size] at hq
        obtain rfl := Option.some.inj hq
        rw [addToBlockIndex_status hp]
        exact Bool.not_eq_true _ ▸ hf
  | known b =>
    rw [BlockTree.acceptBlock]
    split_ifs with hb hparent hbad hf
    · exact h
    · exact h
    · exact h
    · exact h
    · refine h.acceptData (not_le.mp hb) (by simpa using hf) ?_ result
      intro p hp
      simpa [hp] using hparent

end Agenor.BlockTree
