import Xv6Bfs.Proofs.GroupCommit
import Mathlib.Algebra.Order.BigOperators.Group.Finset

/-!
# Log space

`begin_op` reserves `MAXOPBLOCKS` blocks for each operation out of `LOGSIZE`, while `log_write`
refuses a call once `nlog - 1` blocks are logged. `mkfs` makes `nlog` equal to `LOGSIZE`, so the
reservations of three operations are one block more than `log_write` admits. Operations that leave
one block of their reservations unused have room.
-/

namespace Xv6Bfs

open Function Transition

namespace LogSystem

variable {Proc : Type} [DecidableEq Proc] {sb : Superblock} {s s' : LogSystem Proc} {p : Proc} {b : Blockno} {f : Block → Block}

/-- Each operation gives at most `n` distinct blocks to `log_write`. -/
def AtMost (n : ℕ) (s : LogSystem Proc) : LogEvent Proc → Prop
  | .logWrite p b => (insert b (s.opBlocks p).toFinset).card ≤ n
  | _ => True

instance (n : ℕ) (s : LogSystem Proc) (e : LogEvent Proc) : Decidable (AtMost n s e) :=
  match e with
  | .logWrite p b => inferInstanceAs (Decidable ((insert b (s.opBlocks p).toFinset).card ≤ n))
  | .beginOp _ | .kill _ | .logWriteLocked _ _ | .endOp _ | .commit _ | .bread _ | .evict _ | .crash | .recover => .isTrue trivial

/-- How many blocks an operation that has given `blocks` to `log_write` may still add to the log. -/
def unused (blocks lh : List Blockno) : ℕ :=
  MAXOPBLOCKS - 1 - (blocks.toFinset ∩ lh.toFinset).card

lemma unused_mono {o o' lh lh' : List Blockno} (ho : o ⊆ o') (hlh : lh ⊆ lh') : unused o' lh' ≤ unused o lh := by
  refine Nat.sub_le_sub_left (Finset.card_le_card (Finset.inter_subset_inter ?_ ?_)) _
  · exact fun b hb => List.mem_toFinset.mpr (ho (List.mem_toFinset.mp hb))
  · exact fun b hb => List.mem_toFinset.mpr (hlh (List.mem_toFinset.mp hb))

/-- A block that is new in the log is one of those that its operation may still add. -/
lemma unused_append {o lh : List Blockno} (hfew : o.toFinset.card ≤ MAXOPBLOCKS - 1) (hmem : b ∈ o) (hnew : b ∉ lh) :
    unused o (lh ++ [b]) + 1 ≤ unused o lh := by
  have hinsert : o.toFinset ∩ (lh ++ [b]).toFinset = insert b (o.toFinset ∩ lh.toFinset) := by
    rw [List.toFinset_append, Finset.union_comm, List.toFinset_cons, List.toFinset_nil, insert_empty_eq, Finset.singleton_union]
    exact Finset.inter_insert_of_mem (List.mem_toFinset.mpr hmem)
  have hcard : (insert b (o.toFinset ∩ lh.toFinset)).card ≤ MAXOPBLOCKS - 1 := by
    refine le_trans (Finset.card_le_card ?_) hfew
    exact Finset.insert_subset (List.mem_toFinset.mpr hmem) Finset.inter_subset_left
  rw [unused, unused, hinsert]
  rw [Finset.card_insert_of_notMem (by simp [hnew])] at hcard ⊢
  omega

/-- The blocks that are logged and those that operations may still add are fewer than `log_write` admits. -/
structure Room (s : LogSystem Proc) : Prop where
  calm : ∀ p, s.pc p ≠ .panicked .tooBigATransaction
  few : ∀ p, (s.pc p).InOp → (s.opBlocks p).toFinset.card ≤ MAXOPBLOCKS - 1
  given : ∀ p b, s.pc p = .logging b → b ∈ s.opBlocks p
  space : s.boot = .up → s.committing = false → ∀ ops : Finset Proc, (∀ p ∈ ops, (s.pc p).InOp) →
    s.lh.length + ∑ p ∈ ops, unused (s.opBlocks p) s.lh ≤ LOGSIZE - 2

omit [DecidableEq Proc] in
lemma Counts.card_le {pc : Proc → LogPc} {n : ℤ} (h : Counts pc n) {ops : Finset Proc} (hops : ∀ p ∈ ops, (pc p).InOp) :
    (ops.card : ℤ) ≤ n := by
  obtain ⟨all, hall, rfl⟩ := h
  have hle := Finset.card_le_card (fun p hp => (hall p).mpr (hops p hp) : ops ⊆ all)
  omega

lemma inOp_update {pc : LogPc} {q : Proc} (hp : (s.pc p).InOp) (hpc : pc.InOp) :
    (update s.pc p pc q).InOp ↔ (s.pc q).InOp := by
  by_cases hqp : q = p
  · subst hqp
    simpa [hp] using hpc
  · rw [update_of_ne hqp]

lemma eq_of_inOp_update {pc : LogPc} {q : Proc} (hpc : ¬ pc.InOp) (hq : (update s.pc p pc q).InOp) :
    update s.pc p pc q = s.pc q := by
  by_cases hqp : q = p
  · subst hqp
    rw [update_self] at hq
    exact absurd hq hpc
  · exact update_of_ne hqp _ _

omit [DecidableEq Proc] in
lemma eq_of_inOp_wakeup {q : Proc} (hq : (s.wakeup.pc q).InOp) : s.wakeup.pc q = s.pc q := by
  by_cases hs : s.pc q = .sleeping
  · simp [wakeup, hs, LogPc.InOp] at hq
  · exact if_neg hs

namespace Room

omit [DecidableEq Proc] in
lemma of_idle (hidle : ∀ p, s.pc p = .idle) (hempty : s.boot = .up → s.lh = []) : s.Room := by
  refine ⟨fun p => by simp [hidle], ?_, fun p b hp => by simp [hidle] at hp, ?_⟩
  · intro p hp
    rw [hidle p] at hp
    exact hp.elim
  · intro hup _ ops hops
    have hnone : ops = ∅ := by
      refine Finset.eq_empty_of_forall_notMem (fun p hp => ?_)
      simpa [hidle, LogPc.InOp] using hops p hp
    rw [hempty hup, hnone, List.length_nil, Finset.sum_empty]
    decide

omit [DecidableEq Proc] in
/-- No operation begins, and none goes on. -/
lemma relabel (h : s.Room) (hpc : ∀ p, (s'.pc p).InOp → s'.pc p = s.pc p) (hops : s'.opBlocks = s.opBlocks)
    (hlh : s'.boot = .up → s'.committing = false → (s'.lh = [] ∧ ∀ p, ¬ (s'.pc p).InOp) ∨
      s.boot = .up ∧ s.committing = false ∧ s'.lh = s.lh) : s'.Room where
  calm p hp := h.calm p ((hpc p (by rw [hp]; exact nofun)).symm.trans hp)
  few p hp := by
    rw [hops]
    exact h.few p (hpc p hp ▸ hp)
  given p b hp := by
    rw [hops]
    exact h.given p b ((hpc p (by rw [hp]; trivial)).symm.trans hp)
  space hup hc ops hin := by
    have hold : ∀ p ∈ ops, (s.pc p).InOp := fun p hp => hpc p (hin p hp) ▸ hin p hp
    obtain ⟨hnil, hnone⟩ | ⟨hup', hc', heq⟩ := hlh hup hc
    · rw [hnil, Finset.eq_empty_of_forall_notMem (fun p hp => hnone p (hin p hp)), List.length_nil, Finset.sum_empty]
      decide
    · rw [heq, hops]
      exact h.space hup' hc' ops hold

/-- The operation of `p` begins or goes on. -/
lemma of_update {pc : LogPc} {o : List Blockno} (h : s.Room) (hpc : s'.pc = update s.pc p pc)
    (hops : s'.opBlocks = update s.opBlocks p o) (hcalm : pc ≠ .panicked .tooBigATransaction)
    (hfew : o.toFinset.card ≤ MAXOPBLOCKS - 1) (hgiven : ∀ b, pc = .logging b → b ∈ o)
    (hspace : ∀ ops : Finset Proc, (∀ p ∈ ops, (s'.pc p).InOp) → s'.lh.length + ∑ p ∈ ops, unused (s'.opBlocks p) s'.lh ≤ LOGSIZE - 2) :
    s'.Room := by
  refine ⟨fun q => ?_, fun q hq => ?_, fun q b hq => ?_, fun _ _ => hspace⟩
  all_goals
    by_cases hqp : q = p
  · simpa [hpc, hqp] using hcalm
  · simpa [hpc, hqp] using h.calm q
  · simpa [hops, hqp] using hfew
  · simp only [hpc, hops, update_of_ne hqp] at hq ⊢
    exact h.few q hq
  · subst hqp
    simp only [hpc, hops, update_self] at hq ⊢
    exact hgiven b hq
  · simp only [hpc, hops, update_of_ne hqp] at hq ⊢
    exact h.given q b hq

lemma beginOp (h : s.Room) (hg : s.Group) (hw : s.Waits) (hstep : s.beginOp p = some s') : s'.Room := by
  obtain ⟨hup, hpc, ⟨-, rfl⟩ | ⟨hc, hspace, rfl⟩⟩ := beginOp_eq_some hstep
  · exact h.relabel (fun q hq => eq_of_inOp_update id hq) rfl (fun _ hc => .inr ⟨hup, hc, rfl⟩)
  · have hp : ¬ (s.pc p).InOp := by
      obtain hpc | hpc := hpc <;> simp [hpc, LogPc.InOp]
    have hnonneg := hg.counts.nonneg
    refine h.of_update rfl rfl (by simp) (Nat.zero_le _) (by simp) (fun ops hops => ?_)
    -- the first operation of a group finds the log empty, and beside another one two are reserved for
    have hcard := (hg.counts.enter hp (q := .op) trivial).card_le hops
    have hzero : s.outstanding = 0 → s.lh.length = 0 := fun hout => by rw [hw.empty hup hout hc, List.length_nil]
    have hsum : ∑ q ∈ ops, unused (update s.opBlocks p [] q) s.lh ≤ ∑ q ∈ ops, (MAXOPBLOCKS - 1) :=
      Finset.sum_le_sum (fun q _ => Nat.sub_le _ _)
    simp only [LOGSIZE, MAXOPBLOCKS, Finset.sum_const, Nat.nsmul_eq_mul] at hspace hsum ⊢
    omega

lemma logWrite (h : s.Room) (hg : s.Group) (hfew : AtMost (MAXOPBLOCKS - 1) s (.logWrite p b))
    (hstep : s.logWrite mkfsSuperblock p b = some s') : s'.Room := by
  obtain ⟨hpc, pc, rfl, hcases⟩ := logWrite_eq_some hstep
  have hin : (s.pc p).InOp := by simp [hpc, LogPc.InOp]
  have hup := hg.up (p := p) (by simp [hpc])
  have hc := hg.not_committing hin
  have hout := hg.counts.pos hin
  have hlt : s.lh.length ≤ LOGSIZE - 2 := h.space hup hc ∅ (by simp)
  have hsize : mkfsSuperblock.nlog - 1 = LOGSIZE - 1 ∧ 2 ≤ LOGSIZE := by decide
  obtain rfl : pc = .logging b := by
    obtain ⟨-, hfull⟩ | ⟨-, hnone⟩ | ⟨rfl, -⟩ := hcases
    · omega
    · omega
    · rfl
  refine h.of_update rfl rfl (by simp) (by simpa [AtMost] using hfew) (fun c hcb => by simp_all) (fun ops hops => ?_)
  have hold := h.space hup hc ops (fun q hq => (inOp_update hin (by trivial)).mp (hops q hq))
  refine le_trans (Nat.add_le_add_left (Finset.sum_le_sum fun q _ => unused_mono ?_ (List.Subset.refl _)) _) hold
  by_cases hqp : q = p
  · simp [hqp]
  · simp [hqp]

lemma logWriteLocked (h : s.Room) (hg : s.Group) (hstep : s.logWriteLocked p f = some s') : s'.Room := by
  obtain ⟨b, st, hpc, hst, rfl⟩ := logWriteLocked_eq_some hstep
  have hin : (s.pc p).InOp := by simp [hpc, LogPc.InOp]
  have hup := hg.up (p := p) (by simp [hpc])
  have hc := hg.not_committing hin
  refine h.of_update rfl (update_eq_self p s.opBlocks).symm (by simp) (h.few p hin) (by simp)
    (fun ops hops => ?_)
  have hold : ∀ q ∈ insert p ops, (s.pc q).InOp := by
    intro q hq
    rcases Finset.mem_insert.mp hq with rfl | hq
    · exact hin
    · exact (inOp_update hin (by trivial)).mp (hops q hq)
  obtain ⟨io', -, ⟨-, rfl⟩ | ⟨hnew, -, rfl⟩⟩ := LogStore.logWrite_eq_some hg.coherent hst
  · exact h.space hup hc ops (fun q hq => hold q (Finset.mem_insert_of_mem hq))
  · have hall := h.space hup hc _ hold
    have hp := unused_append (h.few p hin) (h.given p b hpc) hnew
    have hsum : ∑ q ∈ (insert p ops).erase p, unused (s.opBlocks q) (s.lh ++ [b]) ≤
        ∑ q ∈ (insert p ops).erase p, unused (s.opBlocks q) s.lh :=
      Finset.sum_le_sum (fun q _ => unused_mono (List.Subset.refl _) (List.subset_append_left _ _))
    have hsub : ∑ q ∈ ops, unused (s.opBlocks q) (s.lh ++ [b]) ≤ ∑ q ∈ insert p ops, unused (s.opBlocks q) (s.lh ++ [b]) :=
      Finset.sum_le_sum_of_subset (Finset.subset_insert p ops)
    rw [← Finset.add_sum_erase _ _ (Finset.mem_insert_self p ops)] at hall hsub
    dsimp only
    rw [List.length_append, List.length_singleton]
    omega

lemma endOp (h : s.Room) (hg : s.Group) (hstep : s.endOp p = some s') : s'.Room := by
  obtain ⟨hpc, hcases⟩ := endOp_eq_some hstep
  have hup := hg.up (p := p) (by simp [hpc])
  have hc := hg.not_committing (p := p) (by simp [hpc, LogPc.InOp])
  obtain ⟨hc', -⟩ | ⟨-, -, rfl⟩ | ⟨-, -, rfl⟩ := hcases
  · exact absurd (hc.symm.trans hc') (by decide)
  · exact h.relabel (fun q hq => eq_of_inOp_update id hq) rfl (by simp)
  · rw [wakeup_setPc_idle]
    refine h.relabel (fun q hq => ?_) rfl (fun _ _ => .inr ⟨hup, hc, rfl⟩)
    have heq := eq_of_inOp_wakeup hq
    rw [heq] at hq ⊢
    exact eq_of_inOp_update id hq

lemma commit (h : s.Room) (hg : s.Group) (hstep : s.commit sb p = some s') : s'.Room := by
  obtain ⟨hpc, rfl⟩ | ⟨c, st, c', hpc, hst, rfl⟩ := commit_eq_some hstep
  · rw [wakeup_setPc_idle]
    have hidle : ∀ q, (({ s with committing := false, pc := update s.pc p .idle } : LogSystem Proc).wakeup.pc q).InOp →
        ({ s with committing := false, pc := update s.pc p .idle } : LogSystem Proc).wakeup.pc q = s.pc q := by
      intro q hq
      have heq := eq_of_inOp_wakeup hq
      rw [heq] at hq ⊢
      exact eq_of_inOp_update id hq
    refine h.relabel hidle rfl (fun _ _ => .inl ⟨(hg.header p _ hpc).1, fun q hq => ?_⟩)
    have hpos := hg.counts.pos (hidle q hq ▸ hq)
    have hzero := hg.alone (hg.committing p _ hpc)
    omega
  · refine h.relabel (fun q hq => eq_of_inOp_update id hq) rfl (fun _ hc => ?_)
    exact absurd hpc (hg.no_committer hc p c)

lemma step {e : LogEvent Proc} (h : s.Room) (hg : s.Group) (hw : s.Waits) (hfew : AtMost (MAXOPBLOCKS - 1) s e)
    (hstep : e.step mkfsSuperblock s = some s') : s'.Room := by
  cases e with
  | beginOp p => exact h.beginOp hg hw hstep
  | kill p =>
    obtain ⟨hpc, rfl⟩ := kill_eq_some hstep
    exact h.relabel (fun q hq => eq_of_inOp_update id hq) rfl (fun hup hc => .inr ⟨hup, hc, rfl⟩)
  | logWrite p b => exact h.logWrite hg hfew hstep
  | logWriteLocked p f => exact h.logWriteLocked hg hstep
  | endOp p => exact h.endOp hg hstep
  | commit p => exact h.commit hg hstep
  | bread b | evict b =>
    obtain ⟨io', -, hs⟩ := Option.bind_eq_some_iff.mp hstep
    cases hs
    exact h.relabel (fun _ _ => rfl) rfl (fun hup hc => .inr ⟨hup, hc, rfl⟩)
  | crash =>
    cases hstep
    exact of_idle (fun _ => rfl) nofun
  | recover =>
    obtain ⟨st, c, hrec, hdown, rfl⟩ := recover_eq_some hg.coherent hstep
    refine of_idle (hg.idle hdown) (fun hup => ?_)
    obtain rfl : c = .up := hup
    generalize s.boot = boot at hrec
    cases hrec
    rfl

end Room

/-- In a run on a disk made by `mkfs` in which each operation gives at most `MAXOPBLOCKS - 1` distinct blocks to `log_write`, no call
panics. -/
theorem log_write_never_too_big (hs : Reach (logSystem mkfsSuperblock Proc) (AtMost (MAXOPBLOCKS - 1)) s) (p : Proc) :
    s.pc p ≠ .panicked .tooBigATransaction := by
  suffices hroom : s.Room from hroom.calm p
  induction hs with
  | init hinit =>
    obtain ⟨disk, -, rfl⟩ := hinit
    exact .of_idle (fun _ => rfl) nofun
  | step hs hfew hstep ih =>
    obtain ⟨hg, hw⟩ := group_waits_of_reach hs
    exact ih.step hg hw hfew hstep

/-- Three operations begin and log `n` blocks each, but for the last block. -/
def threeOps (n : ℕ) : List (LogEvent (Fin 3)) :=
  [.recover, .recover, .recover, .beginOp 0, .beginOp 1, .beginOp 2] ++
    (List.range (3 * n - 1)).flatMap (fun i => [.logWrite (Fin.ofNat 3 (i / n)) (BitVec.ofNat 32 (100 + i)),
      .logWriteLocked (Fin.ofNat 3 (i / n)) id])

/-- Three operations of nine blocks each. -/
theorem log_write_never_too_big_full :
    ∃ s, run ((logSystem mkfsSuperblock (Fin 3)).restrict (AtMost (MAXOPBLOCKS - 1)))
        (threeOps 9 ++ [.logWrite 2 126, .logWriteLocked 2 id]) (start (fun _ _ => 0)) = some s ∧
      s.lh.length = 27 ∧ ∀ p, s.pc p ≠ .panicked .tooBigATransaction := by
  have hrun : ∃ s ∈ run ((logSystem mkfsSuperblock (Fin 3)).restrict (AtMost (MAXOPBLOCKS - 1)))
      (threeOps 9 ++ [.logWrite 2 126, .logWriteLocked 2 id]) (start (fun _ _ => 0)), s.lh.length = 27 := by
    decide +kernel
  obtain ⟨s, hs, hlen⟩ := hrun
  exact ⟨s, hs, hlen, log_write_never_too_big (reach_of_run hs)⟩

/-- Three operations of ten blocks each: the last call panics. -/
theorem log_write_too_big :
    ∃ s, Reach (logSystem mkfsSuperblock (Fin 3)) (AtMost MAXOPBLOCKS) s ∧ s.pc 2 = .panicked .tooBigATransaction := by
  have hrun : ∃ s ∈ run ((logSystem mkfsSuperblock (Fin 3)).restrict (AtMost MAXOPBLOCKS)) (threeOps 10 ++ [.logWrite 2 129])
      (start (fun _ _ => 0)), s.pc 2 = .panicked .tooBigATransaction := by
    decide +kernel
  obtain ⟨s, hs, hpanic⟩ := hrun
  exact ⟨s, reach_of_run hs, hpanic⟩

end LogSystem

end Xv6Bfs
