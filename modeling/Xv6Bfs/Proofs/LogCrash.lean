import Xv6Bfs.Proofs.LogGroup

/-!
# Crash atomicity

At every point of a run, between any two block writes, what a crash leaves can be recovered
to exactly the transactions whose header has been written.
-/

namespace Xv6Bfs

open Function Transition RedoLog

namespace LogSystem

variable {Proc : Type} {sb : Superblock} {s s' : LogSystem Proc} {p : Proc}

/-- The transactions write blocks outside the log, and no more of them than it has slots. -/
def Fits (sb : Superblock) (s : LogSystem Proc) : LogEvent Proc → Prop
  | .logWriteLocked p _ =>
    match s.pc p with
    | .logging b => sb.Home b ∧ (insert b s.logged.toFinset).card ≤ sb.nlog - 1
    | _ => True
  | _ => True

instance (s : LogSystem Proc) (e : LogEvent Proc) : Decidable (Fits sb s e) := by
  unfold Fits
  split
  · split <;> infer_instance
  · infer_instance

/-- A crash at this point loses nothing that is committed. -/
structure Safe (sb : Superblock) (s : LogSystem Proc) : Prop where
  durable : s.Durable sb
  booting : s.boot ≠ .up → s.BootAt sb s.boot
  opened : s.boot = .up → s.committing = false → s.Open sb
  stage : ∀ p c, s.pc p = .commit c → s.At sb c

lemma Safe.crash (h : s.Safe sb) : s.crash.Safe sb where
  durable := h.durable.crash.toDurable
  booting _ := h.durable.crash
  opened hup := by cases hup
  stage p c hp := by cases hp

lemma safe_start {disk : Blockno → Block} (hclear : (disk sb.logstart).word 0 = 0) :
    (start disk : LogSystem Proc).Safe sb := by
  have hpending : sb.layout.pending disk = [] := by
    show headerBlocks (disk sb.logstart) = []
    unfold headerBlocks
    rw [hclear]
    rfl
  have hgroup : (start disk : LogSystem Proc).Group := group_start
  have hcrashed : (start disk : LogSystem Proc).Crashed sb := by
    refine ⟨⟨hgroup.coherent, ?_, ?_⟩, ?_, rfl⟩
    · exact Layout.recoverable_of_clear hpending (fun _ _ => rfl)
    · show ((disk sb.logstart).word 0).toInt ≤ LOGSIZE
      rw [hclear]
      decide
    · simp [Io.Dirty, start]
  exact ⟨hcrashed.toDurable, fun _ => hcrashed, by rintro ⟨⟩, by rintro _ _ ⟨⟩⟩

lemma Safe.relabel (h : s.Safe sb) {pc' : Proc → LogPc} (n : ℤ) (o : Proc → List Blockno)
    (hcommit : ∀ p c, pc' p = .commit c → s.pc p = .commit c) :
    ({ s with outstanding := n, pc := pc', opBlocks := o } : LogSystem Proc).Safe sb where
  durable := h.durable
  booting := h.booting
  opened := h.opened
  stage p c hp := h.stage p c (hcommit p c hp)

lemma Safe.withIo {io' : Io} (h : s.Safe sb) (hio : s.io.Same io') :
    ({ s with io := io' } : LogSystem Proc).Safe sb where
  durable := h.durable.same hio
  booting hboot := (h.booting hboot).same hio
  opened hup hc := (h.opened hup hc).same hio
  stage p c hp := (h.stage p c hp).same hio

lemma Safe.recover (h : s.Safe sb) (hg : s.Group) (hstep : s.recover sb = some s') : s'.Safe sb := by
  obtain ⟨st, c, hrec, hdown, rfl⟩ := recover_eq_some hg.coherent hstep
  have hat := (h.booting hdown).recover hrec
  refine ⟨hat.durable, fun _ => hat, ?_, ?_⟩
  · rintro rfl _
    exact hat
  · intro p c hp
    rw [show s.pc p = _ from hg.idle hdown p] at hp
    cases hp

section Processes

variable [DecidableEq Proc] {f : Block → Block}

lemma Safe.endOp (h : s.Safe sb) (hg : s.Group) (hstep : s.endOp p = some s') : s'.Safe sb := by
  obtain ⟨hpc, hcases⟩ := endOp_eq_some hstep
  have hup : s.boot = .up := hg.up (p := p) (by simp [hpc])
  obtain ⟨-, rfl⟩ | ⟨hc, -, rfl⟩ | ⟨-, -, rfl⟩ := hcases
  · exact h.relabel _ _ (fun q c hq => commit_of_update (by simp) hq)
  · have hopen := h.opened hup hc
    refine ⟨h.durable, fun hboot => absurd hup hboot, nofun, ?_⟩
    intro q c hq
    by_cases hqp : q = p
    · subst hqp
      simp only [update_self, LogPc.commit.injEq] at hq
      subst hq
      split
      · exact ⟨hopen, fun i b hi => by omega⟩
      · exact hopen
    · simp only [update_of_ne hqp] at hq
      exact absurd hq (hg.no_committer hc q c)
  · rw [wakeup_setPc_idle]
    refine h.relabel _ _ ?_
    intro q c hq
    simp only at hq
    split at hq
    · cases hq
    · exact commit_of_update (by simp) hq

lemma Safe.commit (h : s.Safe sb) (hg : s.Group) (hstep : s.commit sb p = some s') : s'.Safe sb := by
  obtain ⟨hpc, rfl⟩ | ⟨c, st, c', hpc, hst, rfl⟩ := commit_eq_some hstep
  · have hup : s.boot = .up := hg.up (p := p) (by simp [hpc])
    refine ⟨h.durable, fun hboot => absurd hup hboot, fun _ _ => h.stage p _ hpc, ?_⟩
    intro q c hq
    rw [wakeup_setPc_idle] at hq
    simp only [wakeup] at hq
    split at hq
    · cases hq
    · exact h.stage q c (commit_of_update (by simp) hq)
  · have hup : s.boot = .up := hg.up (p := p) (by simp [hpc])
    have hm : c = .writeHead → s.Matches := by
      rintro rfl
      exact hg.header p _ hpc
    have hat := (h.stage p c hpc).commit hm (LogStore.commit_eq_some hg.coherent hst)
    refine ⟨hat.durable, fun hboot => absurd hup hboot, ?_, ?_⟩
    · intro _ hc
      exact absurd hpc (hg.no_committer hc p c)
    · intro q c₁ hq
      by_cases hqp : q = p
      · subst hqp
        simp only [update_self, LogPc.commit.injEq] at hq
        rw [← hq]
        exact hat
      · simp only [update_of_ne hqp] at hq
        exact absurd (hg.unique q p _ _ hq hpc) hqp

lemma Safe.logWriteLocked (h : s.Safe sb) (hg : s.Group) (hfits : Fits sb s (.logWriteLocked p f))
    (hstep : s.logWriteLocked p f = some s') : s'.Safe sb := by
  obtain ⟨b, st, hpc, hst, rfl⟩ := logWriteLocked_eq_some hstep
  have hin : (s.pc p).InOp := by simp [hpc, LogPc.InOp]
  have hup : s.boot = .up := hg.up (p := p) (by simp [hpc])
  have hc : s.committing = false := hg.not_committing hin
  have hm := hg.opened hup hc
  simp only [Fits, hpc] at hfits
  -- the header has one entry for each block logged so far
  have hcard : b ∉ s.lh → s.lh.length < sb.layout.capacity := by
    intro hb
    have hnew : b ∉ s.logged.toFinset := by
      rw [hm.toFinset_logged, List.mem_toFinset]
      exact hb
    have hcard := hfits.2
    rw [Finset.card_insert_of_notMem hnew, hm.card_logged] at hcard
    exact hcard
  have hopen := (h.opened hup hc).logWrite (Superblock.home_iff.mpr hfits.1) hcard hst
  refine ⟨hopen.toDurable, fun hboot => absurd hup hboot, fun _ _ => hopen, ?_⟩
  intro q c hq
  exact absurd (commit_of_update (by simp) hq) (hg.no_committer hc q c)

/-- Every event keeps the disk recoverable. -/
lemma Safe.step {e : LogEvent Proc} (h : s.Safe sb) (hg : s.Group) (hfits : Fits sb s e)
    (hstep : e.step sb s = some s') : s'.Safe sb := by
  cases e with
  | beginOp p =>
    obtain ⟨-, -, ⟨-, rfl⟩ | ⟨-, -, rfl⟩⟩ := beginOp_eq_some hstep
    · exact h.relabel _ _ (fun q c hq => commit_of_update (by simp) hq)
    · exact h.relabel _ _ (fun q c hq => commit_of_update (by simp) hq)
  | kill p =>
    obtain ⟨-, rfl⟩ := kill_eq_some hstep
    exact h.relabel _ _ (fun q c hq => commit_of_update (by simp) hq)
  | logWrite p b =>
    obtain ⟨-, pc, rfl, hpc⟩ := logWrite_eq_some hstep
    have hmoved : ∀ c, pc ≠ .commit c := by
      obtain ⟨rfl, -⟩ | ⟨rfl, -⟩ | ⟨rfl, -⟩ := hpc <;> simp
    exact h.relabel _ _ (fun q c hq => commit_of_update hmoved hq)
  | logWriteLocked p f => exact h.logWriteLocked hg hfits hstep
  | endOp p => exact h.endOp hg hstep
  | commit p => exact h.commit hg hstep
  | bread b =>
    obtain ⟨io', hread, hio⟩ := Io.exists_bread hg.coherent b
    simp only [LogEvent.step, hread] at hstep
    cases hstep
    exact h.withIo hio.toSame
  | evict b =>
    obtain ⟨io', hevict, hs⟩ := Option.bind_eq_some_iff.mp hstep
    cases hs
    exact h.withIo (Io.Same.evict hg.coherent hevict)
  | crash =>
    cases hstep
    exact h.crash
  | recover => exact h.recover hg hstep

lemma safe_of_reach (hs : Reach (logSystem sb Proc) (Fits sb) s) : s.Safe sb := by
  have hboth : s.Group ∧ s.Safe sb := by
    apply Reach.invariant (fun s => s.Group ∧ s.Safe sb) _ _ hs
    · rintro s ⟨disk, hclear, rfl⟩
      exact ⟨group_start, safe_start hclear⟩
    · rintro s e s' ⟨hg, h⟩ hfits hstep
      exact ⟨hg.step hstep, h.step hg hfits hstep⟩
  exact hboth.2

/-- Whenever the machine crashes, during a commit or during any of the recoveries that follow, a
recovery that ends leaves the homes as the committed transactions have written them, and so does
the run itself between two commits. The committed transactions are those whose first
`write_head` has reached the disk, and consist of what `log_write` has been given since the one before. -/
theorem recovers_committed_transactions (hs : Reach (logSystem sb Proc) (Fits sb) s) :
    (∃ io, recoverFromLog sb s.io.crash = some io ∧
        ∀ b, sb.Home b → io.disk b = replay s.base s.committed b) ∧
      (s.boot = .up → s.committing = false → ∀ b, sb.Home b → s.io.disk b = replay s.base s.committed b) ∧
      ∀ e s', e.step sb s = some s' → s'.base = s.base ∧
        (s'.committed = if s.WritesHead e then s.committed ++ [s.current] else s.committed) ∧ s'.current = s.currentAfter e := by
  have h := safe_of_reach hs
  refine ⟨?_, ?_, ?_⟩
  · obtain ⟨io, hrec, hdisk⟩ := h.durable.crash.recoverFromLog
    exact ⟨io, hrec, fun b hb => hdisk b (Superblock.home_iff.mpr hb)⟩
  · intro hup hc b hb
    exact (h.opened hup hc).disk_eq (Superblock.home_iff.mpr hb)
  · intro e s' hstep
    exact step_recorded (group_of_reach hs) hstep

/-- A transaction that writes a block twice; the machine crashes after its header is written and
again in the recovery. -/
theorem recovers_committed_transactions_twice :
    ∃ s, run ((logSystem mkfsSuperblock Unit).restrict (Fits mkfsSuperblock))
        [.recover, .recover, .recover, .beginOp (), .logWrite () 100, .logWriteLocked () (fun _ _ => 1),
          .logWrite () 100, .logWriteLocked () (fun _ _ => 2), .endOp (), .commit (), .commit (),
          .commit (), .crash, .recover, .crash] (start (fun _ _ => 0)) = some s ∧
      s.committed.map (List.map Prod.fst) = [[100, 100]] ∧ (s.io.disk 100).byte 0 = 0 ∧
      ∃ io, recoverFromLog mkfsSuperblock s.io.crash = some io ∧
        ∀ b, mkfsSuperblock.Home b → io.disk b = replay s.base s.committed b := by
  have hrun : ∃ s ∈ run ((logSystem mkfsSuperblock Unit).restrict (Fits mkfsSuperblock))
      [.recover, .recover, .recover, .beginOp (), .logWrite () 100, .logWriteLocked () (fun _ _ => 1),
        .logWrite () 100, .logWriteLocked () (fun _ _ => 2), .endOp (), .commit (), .commit (),
        .commit (), .crash, .recover, .crash] (start (fun _ _ => 0)),
      s.committed.map (List.map Prod.fst) = [[100, 100]] ∧ (s.io.disk 100).byte 0 = 0 := by
    decide +kernel
  obtain ⟨s, hs, hcommitted, hhome⟩ := hrun
  exact ⟨s, hs, hcommitted, hhome, (recovers_committed_transactions (reach_of_run hs)).1⟩

end Processes

end LogSystem

end Xv6Bfs
