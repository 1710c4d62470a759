import Xv6Bfs.Proofs.LogGroup

/-!
# The group-commit state machine

A process sleeps on `&log` only for a reason that still holds: each of the two wakeups of
`end_op` comes with the change that could end the reason.
-/

namespace Xv6Bfs

open Function Transition

namespace LogSystem

variable {Proc : Type} {sb : Superblock} {s s' : LogSystem Proc} {p : Proc}

/-- The test of `begin_op`: a commit is going on, or the log may run out of space. -/
def MustWait (s : LogSystem Proc) : Prop :=
  s.committing = true ∨ (s.lh.length : ℤ) + (s.outstanding + 1) * MAXOPBLOCKS > LOGSIZE

/-- Who sleeps must wait, a log at rest is empty, and `end_op` has not panicked. -/
structure Waits (s : LogSystem Proc) : Prop where
  sleeping : ∀ p, s.pc p = .sleeping → s.MustWait
  empty : s.boot = .up → s.outstanding = 0 → s.committing = false → s.lh = []
  running : ∀ p, s.pc p ≠ .panicked .logCommitting

lemma MustWait.mono (h : s.MustWait) (hc : s'.committing = s.committing)
    (hlen : s.lh.length ≤ s'.lh.length) (hout : s.outstanding ≤ s'.outstanding) : s'.MustWait := by
  unfold MustWait MAXOPBLOCKS LOGSIZE at *
  rw [hc]
  obtain h | h := h
  · exact .inl h
  · right
    omega

lemma waits_idle (hidle : ∀ p, s.pc p = .idle) (hempty : s.boot = .up → s.lh = []) : s.Waits where
  sleeping p hp := by
    rw [hidle p] at hp
    cases hp
  empty hup _ _ := hempty hup
  running p hp := by
    rw [hidle p] at hp
    cases hp

lemma wakeup_pc_ne_sleeping : s.wakeup.pc p ≠ .sleeping := by
  unfold wakeup
  by_cases hp : s.pc p = .sleeping
  · simp [hp]
  · simp [hp]

lemma running_wakeup (h : ∀ p, s.pc p ≠ .panicked .logCommitting) (p : Proc) :
    s.wakeup.pc p ≠ .panicked .logCommitting := by
  simp only [wakeup]
  split
  · simp
  · exact h p

lemma Group.waits_recover (hg : s.Group) (hstep : s.recover sb = some s') : s'.Waits := by
  obtain ⟨st, c, hrec, hdown, rfl⟩ := recover_eq_some hg.coherent hstep
  refine waits_idle (fun p => hg.idle hdown p) ?_
  rintro rfl
  generalize s.boot = boot at hrec
  cases hrec
  rfl

section Processes

variable [DecidableEq Proc] {b : Blockno} {f : Block → Block}

lemma Waits.move (h : s.Waits) (p : Proc) (pc : LogPc) (hsleep : pc = .sleeping → s.MustWait)
    (hpanic : pc ≠ .panicked .logCommitting) (o : Proc → List Blockno) :
    ({ s with pc := update s.pc p pc, opBlocks := o } : LogSystem Proc).Waits := by
  refine ⟨?_, h.empty, ?_⟩
  · intro q hq
    by_cases hqp : q = p
    · subst hqp
      simp only [update_self] at hq
      exact hsleep hq
    · simp only [update_of_ne hqp] at hq
      exact h.sleeping q hq
  · intro q
    by_cases hqp : q = p
    · subst hqp
      simpa only [update_self] using hpanic
    · simpa only [update_of_ne hqp] using h.running q

lemma Waits.beginOp (h : s.Waits) (hg : s.Group) (hstep : s.beginOp p = some s') : s'.Waits := by
  obtain ⟨hup, -, ⟨hwait, rfl⟩ | ⟨hc, -, rfl⟩⟩ := beginOp_eq_some hstep
  · exact h.move p .sleeping (fun _ => hwait) (by simp) _
  · have hmove := h.move p .op (by simp) (by simp) (update s.opBlocks p [])
    refine ⟨?_, ?_, hmove.running⟩
    · intro q hq
      exact (hmove.sleeping q hq).mono rfl le_rfl (Int.le_add_one le_rfl)
    · intro _ hout
      have := hg.counts.nonneg
      simp only at hout
      omega

lemma Waits.logWriteLocked (h : s.Waits) (hg : s.Group) (hstep : s.logWriteLocked p f = some s') :
    s'.Waits := by
  obtain ⟨b, st, hpc, hst, rfl⟩ := logWriteLocked_eq_some hstep
  have hout := hg.counts.pos (p := p) (by simp [hpc, LogPc.InOp])
  have hlen : s.lh.length ≤ st.lh.length := by
    obtain ⟨io', -, ⟨-, rfl⟩ | ⟨-, -, rfl⟩⟩ := LogStore.logWrite_eq_some hg.coherent hst <;> simp
  have hmove := h.move p .op (by simp) (by simp) s.opBlocks
  refine ⟨?_, ?_, hmove.running⟩
  · intro q hq
    exact (hmove.sleeping q hq).mono rfl hlen le_rfl
  · intro _ hzero
    simp only at hzero
    omega

lemma Waits.endOp (h : s.Waits) (hg : s.Group) (hstep : s.endOp p = some s') : s'.Waits := by
  obtain ⟨hpc, hcases⟩ := endOp_eq_some hstep
  have hin : (s.pc p).InOp := by simp [hpc, LogPc.InOp]
  have hc : s.committing = false := hg.not_committing hin
  obtain ⟨hc', -⟩ | ⟨-, -, rfl⟩ | ⟨-, hmany, rfl⟩ := hcases
  · exact absurd (hc.symm.trans hc') (by decide)
  · refine ⟨fun _ _ => .inl rfl, by rintro _ _ ⟨⟩, ?_⟩
    exact (h.move p (.commit _) (by simp) (by simp) s.opBlocks).running
  · rw [wakeup_setPc_idle]
    refine ⟨fun q hq => absurd hq wakeup_pc_ne_sleeping, ?_, ?_⟩
    · intro _ hzero
      simp only [wakeup] at hzero
      omega
    · exact running_wakeup (h.move p .idle (by simp) (by simp) s.opBlocks).running

lemma Waits.commit (h : s.Waits) (hg : s.Group) (hstep : s.commit sb p = some s') : s'.Waits := by
  obtain ⟨hpc, rfl⟩ | ⟨c, st, c', hpc, hst, rfl⟩ := commit_eq_some hstep
  · rw [wakeup_setPc_idle]
    refine ⟨fun q hq => absurd hq wakeup_pc_ne_sleeping, fun _ _ _ => (hg.header p _ hpc).1, ?_⟩
    exact running_wakeup (h.move p .idle (by simp) (by simp) s.opBlocks).running
  · have hc : s.committing = true := hg.committing p c hpc
    refine ⟨fun _ _ => .inl hc, ?_, ?_⟩
    · intro _ _ hc'
      exact absurd (hc.symm.trans hc') (by decide)
    · exact (h.move p (.commit c') (by simp) (by simp) s.opBlocks).running

lemma Waits.step {e : LogEvent Proc} (h : s.Waits) (hg : s.Group) (hstep : e.step sb s = some s') :
    s'.Waits := by
  cases e with
  | beginOp p => exact h.beginOp hg hstep
  | kill p =>
    obtain ⟨-, rfl⟩ := kill_eq_some hstep
    exact h.move p _ (by simp) (by simp) _
  | logWrite p b =>
    obtain ⟨-, pc, rfl, hpc⟩ := logWrite_eq_some hstep
    obtain ⟨rfl, -⟩ | ⟨rfl, -⟩ | ⟨rfl, -⟩ := hpc
    · exact h.move p _ (by simp) (by simp) _
    · exact h.move p _ (by simp) (by simp) _
    · exact h.move p _ (by simp) (by simp) _
  | logWriteLocked p f => exact h.logWriteLocked hg hstep
  | endOp p => exact h.endOp hg hstep
  | commit p => exact h.commit hg hstep
  | bread b | evict b =>
    obtain ⟨io', -, hs⟩ := Option.bind_eq_some_iff.mp hstep
    cases hs
    exact { h with }
  | crash =>
    cases hstep
    exact waits_idle (fun _ => rfl) nofun
  | recover => exact hg.waits_recover hstep

lemma group_waits_of_reach {ok : LogSystem Proc → LogEvent Proc → Prop} (hs : Reach (logSystem sb Proc) ok s) :
    s.Group ∧ s.Waits := by
  apply Reach.invariant (fun s => s.Group ∧ s.Waits) _ _ hs
  · rintro s ⟨disk, -, rfl⟩
    exact ⟨group_start, waits_idle (fun _ => rfl) nofun⟩
  · rintro s e s' ⟨hg, h⟩ - hstep
    exact ⟨hg.step hstep, h.step hg hstep⟩

/-- Whatever the processes do, once the log is up: a commit starts after the last operation and
keeps the others out, the header in memory holds what has been logged since the last commit,
which are the blocks given to `log_write`, and whoever sleeps has a reason to. -/
theorem group_commit (hs : Reachable (logSystem sb Proc) s) (hup : s.boot = .up) :
    (s.committing = true → s.outstanding = 0 ∧ ∀ p, ¬ (s.pc p).InOp) ∧
      (∀ p, s.pc p ≠ .panicked .logCommitting) ∧
      (s.outstanding = 0 → s.committing = false → s.lh.length = 0) ∧
      (s.committing = false → s.lh.Nodup ∧ ∀ b, b ∈ s.lh ↔ b ∈ s.logged) ∧
      (∀ e s', e.step sb s = some s' → s'.current = s.currentAfter e) ∧
      ∀ p, s.pc p = .sleeping → s.committing = true ∨
        (s.lh.length : ℤ) + (s.outstanding + 1) * MAXOPBLOCKS > LOGSIZE := by
  obtain ⟨hg, h⟩ := group_waits_of_reach hs
  refine ⟨?_, h.running, ?_, ?_, fun e s' hstep => (step_recorded hg hstep).2.2, h.sleeping⟩
  · intro hc
    refine ⟨hg.alone hc, ?_⟩
    intro p hp
    exact absurd (hc.symm.trans (hg.not_committing hp)) (by decide)
  · intro hout hc
    rw [h.empty hup hout hc, List.length_nil]
  · intro hc
    have hm := hg.opened hup hc
    exact ⟨hm.nodup, hm.mem_iff⟩

/-- Three operations run, so a fourth sleeps. -/
theorem group_commit_sleeper :
    ∃ s, run ((logSystem mkfsSuperblock (Fin 4)).restrict (fun _ _ => True))
        [.recover, .recover, .recover, .beginOp 0, .beginOp 1, .logWrite 0 100, .beginOp 2,
          .logWriteLocked 0 id, .beginOp 3] (start (fun _ _ => 0)) = some s ∧
      s.boot = .up ∧ s.pc 3 = .sleeping ∧ s.lh = [100] ∧
      (s.committing = true ∨ (s.lh.length : ℤ) + (s.outstanding + 1) * MAXOPBLOCKS > LOGSIZE) := by
  have hrun : ∃ s ∈ run ((logSystem mkfsSuperblock (Fin 4)).restrict (fun _ _ => True))
      [.recover, .recover, .recover, .beginOp 0, .beginOp 1, .logWrite 0 100, .beginOp 2,
        .logWriteLocked 0 id, .beginOp 3] (start (fun _ _ => 0)),
      s.boot = .up ∧ s.pc 3 = .sleeping ∧ s.lh = [100] := by
    decide +kernel
  obtain ⟨s, hs, hup, hsleep, hlh⟩ := hrun
  obtain ⟨-, -, -, -, -, hreason⟩ := group_commit (reach_of_run hs) hup
  exact ⟨s, hs, hup, hsleep, hlh, hreason 3 hsleep⟩

end Processes

end LogSystem

end Xv6Bfs
