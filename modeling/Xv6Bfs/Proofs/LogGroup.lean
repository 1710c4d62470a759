import Xv6Bfs.Proofs.LogCommit

/-!
# Group commit

The operations between `begin_op` and `end_op` are counted by `outstanding`. A commit starts
when the last of them ends and keeps the others out, so `log_write` and `commit` never meet.
-/

namespace Xv6Bfs

open Function Option Transition

def LogPc.InOp : LogPc → Prop
  | .idle => False
  | .woken => False
  | .sleeping => False
  | .op => True
  | .logging _ => True
  | .commit _ => False
  | .panicked msg => msg ≠ .logCommitting

def LogStore.HeaderAt (st : LogStore) : CommitPc → Prop
  | .writeLog _ => st.Matches
  | .writeHead => st.Matches
  | .installTrans _ => st.current = []
  | .clear => st.current = []
  | .done => st.lh = [] ∧ st.current = []

variable {st st' : LogStore}

lemma LogStore.Matches.congr (h : st.Matches) (hlh : st'.lh = st.lh)
    (hcurrent : st'.current = st.current) : st'.Matches := by
  refine ⟨hlh ▸ h.nodup, ?_⟩
  intro b
  unfold LogStore.logged
  rw [hlh, hcurrent]
  exact h.mem_iff b

lemma LogStore.matches_nil {st : LogStore} (hlh : st.lh = []) (hcurrent : st.current = []) :
    st.Matches := by
  refine ⟨by simp [hlh], ?_⟩
  intro b
  simp [LogStore.logged, hlh, hcurrent]

lemma LogStore.HeaderAt.congr {c : CommitPc} (h : st.HeaderAt c)
    (hlh : st'.lh = st.lh) (hcurrent : st'.current = st.current) : st'.HeaderAt c := by
  cases c with
  | writeLog tail => exact LogStore.Matches.congr h hlh hcurrent
  | writeHead => exact LogStore.Matches.congr h hlh hcurrent
  | installTrans tail => exact hcurrent.trans h
  | clear => exact hcurrent.trans h
  | done => exact ⟨hlh.trans h.1, hcurrent.trans h.2⟩

lemma LogStore.HeaderAt.commit {sb : Superblock} {c c' : CommitPc}
    (h : st.HeaderAt c) (hstep : LogStore.CommitStep sb st c st' c') : st'.HeaderAt c' := by
  cases hstep with
  | log _ _ => exact LogStore.Matches.congr h rfl rfl
  | logged _ => exact h
  | head _ => exact rfl
  | install _ _ => exact h
  | installed _ => exact h
  | clear _ => exact ⟨rfl, h⟩

namespace LogSystem

variable {Proc : Type} {s s' : LogSystem Proc} {p : Proc}

def Counts (pc : Proc → LogPc) (n : ℤ) : Prop :=
  ∃ ops : Finset Proc, (∀ p, p ∈ ops ↔ (pc p).InOp) ∧ n = ops.card

/-- Who is in an operation, who commits, and what the header then says. -/
structure Group (s : LogSystem Proc) : Prop where
  coherent : s.io.Coherent
  idle : s.boot ≠ .up → ∀ p, s.pc p = .idle
  down : s.boot ≠ .up → s.committing = false ∧ s.current = []
  counts : Counts s.pc s.outstanding
  alone : s.committing = true → s.outstanding = 0
  committing : ∀ p c, s.pc p = .commit c → s.committing = true
  header : ∀ p c, s.pc p = .commit c → s.toLogStore.HeaderAt c
  unique : ∀ p q c c', s.pc p = .commit c → s.pc q = .commit c' → p = q
  opened : s.boot = .up → s.committing = false → s.toLogStore.Matches

/-! ### Counting -/

section Counting

variable {pc pc' : Proc → LogPc} {n : ℤ}

lemma Counts.congr (h : Counts pc n) (hpc : ∀ p, (pc' p).InOp ↔ (pc p).InOp) : Counts pc' n := by
  obtain ⟨ops, hops, hn⟩ := h
  refine ⟨ops, ?_, hn⟩
  intro p
  rw [hops, hpc]

lemma Counts.nonneg (h : Counts pc n) : 0 ≤ n := by
  obtain ⟨ops, -, rfl⟩ := h
  omega

lemma Counts.pos (h : Counts pc n) (hp : (pc p).InOp) : 0 < n := by
  obtain ⟨ops, hops, rfl⟩ := h
  have : 0 < ops.card := Finset.card_pos.mpr ⟨p, (hops p).mpr hp⟩
  omega

variable [DecidableEq Proc]

lemma Counts.enter (h : Counts pc n) (hp : ¬ (pc p).InOp) {q : LogPc} (hq : q.InOp) :
    Counts (update pc p q) (n + 1) := by
  obtain ⟨ops, hops, rfl⟩ := h
  refine ⟨insert p ops, ?_, ?_⟩
  · intro r
    rw [Finset.mem_insert, hops]
    by_cases hr : r = p
    · subst hr
      simpa using hq
    · rw [update_of_ne hr]
      simp [hr]
  · rw [Finset.card_insert_of_notMem (fun hmem => hp ((hops p).mp hmem))]
    omega

lemma Counts.leave (h : Counts pc n) (hp : (pc p).InOp) {q : LogPc} (hq : ¬ q.InOp) :
    Counts (update pc p q) (n - 1) := by
  obtain ⟨ops, hops, rfl⟩ := h
  have hmem : p ∈ ops := (hops p).mpr hp
  refine ⟨ops.erase p, ?_, ?_⟩
  · intro r
    rw [Finset.mem_erase, hops]
    by_cases hr : r = p
    · subst hr
      simpa using hq
    · rw [update_of_ne hr]
      simp [hr]
  · have := Finset.card_pos.mpr ⟨p, hmem⟩
    rw [Finset.card_erase_of_mem hmem]
    omega

lemma Counts.stay (h : Counts pc n) {q : LogPc} (hq : q.InOp ↔ (pc p).InOp) :
    Counts (update pc p q) n := by
  apply h.congr
  intro r
  by_cases hr : r = p
  · subst hr
    rwa [update_self]
  · rw [update_of_ne hr]

end Counting

/-! ### What the steps do -/

section Steps

variable {sb : Superblock} {b : Blockno} {f : Block → Block}

lemma recover_eq_some (hs : s.io.Coherent) (h : s.recover sb = some s') :
    ∃ st c, LogStore.RecoverStep sb s.toLogStore s.boot st c ∧ s.boot ≠ .up ∧
      s' = { s with toLogStore := st, boot := c } := by
  obtain ⟨⟨st, c⟩, hst, h⟩ := bind_eq_some_iff.mp h
  have hrec := LogStore.recover_eq_some hs hst
  refine ⟨st, c, hrec, ?_, (Option.some.inj h).symm⟩
  intro hup
  rw [hup] at hrec
  cases hrec

variable [DecidableEq Proc]

lemma beginOp_eq_some (h : s.beginOp p = some s') :
    s.boot = .up ∧ (s.pc p = .idle ∨ s.pc p = .woken) ∧
      (((s.committing = true ∨ (s.lh.length : ℤ) + (s.outstanding + 1) * MAXOPBLOCKS > LOGSIZE) ∧
          s' = s.setPc p .sleeping) ∨
        (s.committing = false ∧ (s.lh.length : ℤ) + (s.outstanding + 1) * MAXOPBLOCKS ≤ LOGSIZE ∧
          s' = { s with outstanding := s.outstanding + 1
                        pc := update s.pc p .op
                        opBlocks := update s.opBlocks p [] })) := by
  unfold beginOp at h
  obtain ⟨⟨hup, hpc⟩, h⟩ := ite_none_right_eq_some.mp h
  refine ⟨hup, hpc, ?_⟩
  split at h
  · rename_i hc
    exact .inl ⟨.inl hc, (Option.some.inj h).symm⟩
  · rename_i hc
    split at h
    · rename_i hspace
      exact .inl ⟨.inr hspace, (Option.some.inj h).symm⟩
    · rename_i hspace
      exact .inr ⟨by simpa using hc, by omega, (Option.some.inj h).symm⟩

lemma kill_eq_some (h : s.kill p = some s') : s.pc p = .sleeping ∧ s' = s.setPc p .woken := by
  unfold kill at h
  obtain ⟨hpc, h⟩ := ite_none_right_eq_some.mp h
  exact ⟨hpc, (Option.some.inj h).symm⟩

lemma logWrite_eq_some (h : s.logWrite sb p b = some s') :
    s.pc p = .op ∧ ∃ pc, s' = { s with opBlocks := update s.opBlocks p (b :: s.opBlocks p)
                                       pc := update s.pc p pc } ∧
      ((pc = .panicked .tooBigATransaction ∧ (LOGSIZE ≤ s.lh.length ∨ sb.nlog - 1 ≤ s.lh.length)) ∨
        (pc = .panicked .logWriteOutsideOfTrans ∧ s.outstanding < 1) ∨
        (pc = .logging b ∧ s.lh.length < LOGSIZE ∧ s.lh.length < sb.nlog - 1)) := by
  unfold logWrite at h
  obtain ⟨hpc, h⟩ := ite_none_right_eq_some.mp h
  have hpos := sb.nlog_pos
  refine ⟨hpc, ?_⟩
  simp only at h
  split at h
  · rename_i hfull
    exact ⟨_, (Option.some.inj h).symm, .inl ⟨rfl, by omega⟩⟩
  · rename_i hfull
    split at h
    · rename_i hout
      exact ⟨_, (Option.some.inj h).symm, .inr (.inl ⟨rfl, hout⟩)⟩
    · exact ⟨_, (Option.some.inj h).symm, .inr (.inr ⟨rfl, by omega, by omega⟩)⟩

lemma logWriteLocked_eq_some (h : s.logWriteLocked p f = some s') :
    ∃ b st, s.pc p = .logging b ∧ s.toLogStore.logWrite b f = some st ∧
      s' = { s with toLogStore := st, pc := update s.pc p .op } := by
  unfold logWriteLocked at h
  split at h
  · rename_i b hpc
    obtain ⟨st, hst, h⟩ := bind_eq_some_iff.mp h
    exact ⟨b, st, hpc, hst, (Option.some.inj h).symm⟩
  · cases h

lemma endOp_eq_some (h : s.endOp p = some s') :
    s.pc p = .op ∧
      ((s.committing = true ∧
          s' = { s with outstanding := s.outstanding - 1 }.setPc p (.panicked .logCommitting)) ∨
        (s.committing = false ∧ s.outstanding = 1 ∧
          s' = { s with outstanding := s.outstanding - 1
                        committing := true
                        pc := update s.pc p
                          (.commit (if s.lh.length > 0 then .writeLog 0 else .done)) }) ∨
        (s.committing = false ∧ s.outstanding ≠ 1 ∧
          s' = ({ s with outstanding := s.outstanding - 1 }.wakeup).setPc p .idle)) := by
  unfold endOp at h
  obtain ⟨hpc, h⟩ := ite_none_right_eq_some.mp h
  refine ⟨hpc, ?_⟩
  simp only at h
  split at h
  · rename_i hc
    exact .inl ⟨hc, (Option.some.inj h).symm⟩
  · rename_i hc
    have hc' : s.committing = false := by simpa using hc
    split at h
    · exact .inr (.inl ⟨hc', by omega, (Option.some.inj h).symm⟩)
    · exact .inr (.inr ⟨hc', by omega, (Option.some.inj h).symm⟩)

lemma commit_eq_some (h : s.commit sb p = some s') :
    (s.pc p = .commit .done ∧ s' = ({ s with committing := false }.wakeup).setPc p .idle) ∨
      ∃ c st c', s.pc p = .commit c ∧ s.toLogStore.commit sb c = some (st, c') ∧
        s' = { s with toLogStore := st, pc := update s.pc p (.commit c') } := by
  unfold commit at h
  split at h
  · rename_i hpc
    exact .inl ⟨hpc, (Option.some.inj h).symm⟩
  · rename_i c _ hpc
    obtain ⟨⟨st, c'⟩, hst, h⟩ := bind_eq_some_iff.mp h
    exact .inr ⟨c, st, c', hpc, hst, (Option.some.inj h).symm⟩
  · cases h

end Steps

/-! ### The invariant -/

lemma Group.up (h : s.Group) (hp : s.pc p ≠ .idle) : s.boot = .up := by
  by_contra hboot
  exact hp (h.idle hboot p)

lemma Group.not_committing (h : s.Group) (hp : (s.pc p).InOp) : s.committing = false := by
  rw [Bool.eq_false_iff]
  intro hc
  have := h.counts.pos hp
  have := h.alone hc
  omega

lemma Group.no_committer (h : s.Group) (hc : s.committing = false) (p : Proc) (c : CommitPc) :
    s.pc p ≠ .commit c := by
  intro hp
  rw [h.committing p c hp] at hc
  cases hc

lemma Group.withIo {io' : Io} (h : s.Group) (hio : s.io.Same io') :
    ({ s with io := io' } : LogSystem Proc).Group where
  coherent := hio.coherent
  idle := h.idle
  down := h.down
  counts := h.counts
  alone := h.alone
  committing := h.committing
  header p c hp := (h.header p c hp).congr rfl rfl
  unique := h.unique
  opened hup hc := (h.opened hup hc).congr rfl rfl

lemma Group.relabel (h : s.Group) (hup : s.boot = .up) {pc' : Proc → LogPc} (o : Proc → List Blockno)
    (hin : ∀ p, (pc' p).InOp ↔ (s.pc p).InOp) (hcommit : ∀ p c, pc' p = .commit c → s.pc p = .commit c) :
    ({ s with pc := pc', opBlocks := o } : LogSystem Proc).Group where
  coherent := h.coherent
  idle hboot := absurd hup hboot
  down hboot := absurd hup hboot
  counts := h.counts.congr hin
  alone := h.alone
  committing p c hp := h.committing p c (hcommit p c hp)
  header p c hp := h.header p c (hcommit p c hp)
  unique p q c c' hp hq := h.unique p q c c' (hcommit p c hp) (hcommit q c' hq)
  opened := h.opened

lemma group_crash : s.crash.Group where
  coherent := Io.coherent_crash
  idle _ _ := rfl
  down _ := ⟨rfl, rfl⟩
  counts := ⟨∅, by simp [LogSystem.crash, LogPc.InOp], by simp [LogSystem.crash]⟩
  alone _ := rfl
  committing p c hp := by cases hp
  header p c hp := by cases hp
  unique p q c c' hp := by cases hp
  opened hup := by cases hup

lemma group_start {disk : Blockno → Block} : (start disk : LogSystem Proc).Group where
  coherent := by simp [start, Io.Coherent]
  idle _ _ := rfl
  down _ := ⟨rfl, rfl⟩
  counts := ⟨∅, by simp [start, LogPc.InOp], by simp [start]⟩
  alone _ := rfl
  committing p c hp := by cases hp
  header p c hp := by cases hp
  unique p q c c' hp := by cases hp
  opened hup := by cases hup

lemma Group.recover {sb : Superblock} (h : s.Group) (hstep : s.recover sb = some s') : s'.Group := by
  obtain ⟨st, c, hrec, hdown, rfl⟩ := recover_eq_some h.coherent hstep
  have hidle := h.idle hdown
  have hnone := (h.down hdown).2
  generalize s.boot = boot at hrec
  have hcurrent : st.current = [] := by
    cases hrec <;> exact hnone
  have hlh : c = .up → st.lh = [] := by
    rintro rfl
    cases hrec
    rfl
  refine ⟨hrec.coherent h.coherent, fun _ => hidle, fun _ => ⟨(h.down hdown).1, hcurrent⟩, h.counts,
    h.alone, ?_, ?_, ?_, ?_⟩
  · intro p c hp
    rw [show s.pc p = _ from hidle p] at hp
    cases hp
  · intro p c hp
    rw [show s.pc p = _ from hidle p] at hp
    cases hp
  · intro p q c c' hp
    rw [show s.pc p = _ from hidle p] at hp
    cases hp
  · intro hup _
    exact LogStore.matches_nil (hlh hup) hcurrent

lemma Group.wakeup (h : s.Group) (hup : s.boot = .up) : s.wakeup.Group := by
  apply h.relabel hup s.opBlocks
  · intro p
    by_cases hp : s.pc p = .sleeping
    · simp [hp, LogPc.InOp]
    · simp [hp]
  · intro p c hp
    by_cases hs : s.pc p = .sleeping
    · simp [hs] at hp
    · simpa [hs] using hp

lemma Group.headerAt_start (h : s.Group) (hup : s.boot = .up) (hc : s.committing = false) :
    s.toLogStore.HeaderAt (if s.lh.length > 0 then .writeLog 0 else .done) := by
  have hm := h.opened hup hc
  split
  · exact hm
  · rename_i hlen
    have hlh : s.lh = [] := List.eq_nil_of_length_eq_zero (by omega)
    refine ⟨hlh, ?_⟩
    apply List.eq_nil_iff_forall_not_mem.mpr
    intro w hw
    have := (hm.mem_iff w.1).mpr (List.mem_map_of_mem hw)
    rw [hlh] at this
    cases this

section Processes

variable [DecidableEq Proc] {sb : Superblock} {b : Blockno} {f : Block → Block} {pc : LogPc}

lemma commit_of_update {q : Proc} {c : CommitPc} (hpc : ∀ c, pc ≠ .commit c)
    (h : update s.pc p pc q = .commit c) : s.pc q = .commit c := by
  by_cases hq : q = p
  · subst hq
    rw [update_self] at h
    exact absurd h (hpc c)
  · rwa [update_of_ne hq] at h

lemma wakeup_setPc_idle :
    s.wakeup.setPc p .idle = ({ s with pc := update s.pc p .idle } : LogSystem Proc).wakeup := by
  unfold LogSystem.setPc LogSystem.wakeup
  congr 1
  funext q
  by_cases hq : q = p
  · subst hq
    simp
  · simp [update_of_ne hq]

lemma Group.setPc (h : s.Group) (hup : s.boot = .up) (hin : pc.InOp ↔ (s.pc p).InOp)
    (hcommit : ∀ c, pc ≠ .commit c) (o : Proc → List Blockno) :
    ({ s with pc := update s.pc p pc, opBlocks := o } : LogSystem Proc).Group := by
  apply h.relabel hup o
  · intro q
    by_cases hq : q = p
    · subst hq
      rwa [update_self]
    · rw [update_of_ne hq]
  · intro q c hq
    exact commit_of_update hcommit hq

lemma Group.beginOp (h : s.Group) (hstep : s.beginOp p = some s') : s'.Group := by
  obtain ⟨hup, hpc, ⟨-, rfl⟩ | ⟨hc, -, rfl⟩⟩ := beginOp_eq_some hstep
  · apply h.setPc hup _ (by simp)
    obtain hpc | hpc := hpc <;> simp [hpc, LogPc.InOp]
  · have hp : ¬ (s.pc p).InOp := by
      obtain hpc | hpc := hpc <;> simp [hpc, LogPc.InOp]
    have hcommit : ∀ q c, update s.pc p .op q = .commit c → s.pc q = .commit c := by
      intro q c hq
      exact commit_of_update (by simp) hq
    refine ⟨h.coherent, fun hboot => absurd hup hboot, fun hboot => absurd hup hboot,
      h.counts.enter hp trivial, ?_, ?_, ?_, ?_, h.opened⟩
    · intro hc'
      exact absurd (hc.symm.trans hc') (by decide)
    · intro q c hq
      exact h.committing q c (hcommit q c hq)
    · intro q c hq
      exact h.header q c (hcommit q c hq)
    · intro q r c c' hq hr
      exact h.unique q r c c' (hcommit q c hq) (hcommit r c' hr)

lemma Group.logWrite (h : s.Group) (hstep : s.logWrite sb p b = some s') : s'.Group := by
  obtain ⟨hpc, pc, rfl, hpc'⟩ := logWrite_eq_some hstep
  have hup : s.boot = .up := h.up (p := p) (by simp [hpc])
  apply h.setPc hup
  · obtain ⟨rfl, -⟩ | ⟨rfl, -⟩ | ⟨rfl, -⟩ := hpc' <;> simp [hpc, LogPc.InOp]
  · obtain ⟨rfl, -⟩ | ⟨rfl, -⟩ | ⟨rfl, -⟩ := hpc' <;> simp

lemma Group.logWriteLocked (h : s.Group) (hstep : s.logWriteLocked p f = some s') : s'.Group := by
  obtain ⟨b, st, hpc, hst, rfl⟩ := logWriteLocked_eq_some hstep
  have hin : (s.pc p).InOp := by simp [hpc, LogPc.InOp]
  have hup : s.boot = .up := h.up (p := p) (by simp [hpc])
  have hc : s.committing = false := h.not_committing hin
  have hcommit : ∀ q c, update s.pc p .op q ≠ .commit c := by
    intro q c hq
    exact h.no_committer hc q c (commit_of_update (by simp) hq)
  have hm := h.opened hup hc
  refine ⟨?_, fun hboot => absurd hup hboot, fun hboot => absurd hup hboot,
    h.counts.stay (by simp [hpc, LogPc.InOp]), h.alone, fun q c hq => absurd hq (hcommit q c),
    fun q c hq => absurd hq (hcommit q c), fun q _ c _ hq => absurd hq (hcommit q c),
    fun _ _ => hm.logWrite h.coherent hst⟩
  obtain ⟨io'', hio', ⟨-, rfl⟩ | ⟨-, -, rfl⟩⟩ := LogStore.logWrite_eq_some h.coherent hst
  · exact hio'.coherent
  · exact hio'.coherent

lemma Group.endOp (h : s.Group) (hstep : s.endOp p = some s') : s'.Group := by
  obtain ⟨hpc, hcases⟩ := endOp_eq_some hstep
  have hin : (s.pc p).InOp := by simp [hpc, LogPc.InOp]
  have hup : s.boot = .up := h.up (p := p) (by simp [hpc])
  have hc : s.committing = false := h.not_committing hin
  obtain ⟨hc', -⟩ | ⟨-, hone, rfl⟩ | ⟨-, -, rfl⟩ := hcases
  · exact absurd (hc.symm.trans hc') (by decide)
  · have hself : ∀ q c, update s.pc p
        (.commit (if s.lh.length > 0 then .writeLog 0 else .done)) q = .commit c → q = p := by
      intro q c hq
      by_contra hqp
      rw [update_of_ne hqp] at hq
      exact h.no_committer hc q c hq
    refine ⟨h.coherent, fun hboot => absurd hup hboot, fun hboot => absurd hup hboot,
      h.counts.leave hin (by simp [LogPc.InOp]), fun _ => by simp [hone], fun _ _ _ => rfl, ?_, ?_, ?_⟩
    · intro q c hq
      obtain rfl := hself q c hq
      simp only [update_self, LogPc.commit.injEq] at hq
      rw [← hq]
      exact h.headerAt_start hup hc
    · intro q r c c' hq hr
      exact (hself q c hq).trans (hself r c' hr).symm
    · intro _ hfalse
      cases hfalse
  · have hdec : ({ s with outstanding := s.outstanding - 1
                          pc := update s.pc p .idle } : LogSystem Proc).Group := by
      have hidle : ∀ q c, update s.pc p .idle q ≠ .commit c := by
        intro q c hq
        exact h.no_committer hc q c (commit_of_update (by simp) hq)
      exact ⟨h.coherent, fun hboot => absurd hup hboot, fun hboot => absurd hup hboot,
        h.counts.leave hin (by simp [LogPc.InOp]), fun hc' => absurd (hc.symm.trans hc') (by decide),
        fun q c hq => absurd hq (hidle q c), fun q c hq => absurd hq (hidle q c),
        fun q _ c _ hq => absurd hq (hidle q c), h.opened⟩
    rw [wakeup_setPc_idle]
    exact hdec.wakeup hup

lemma Group.commit (h : s.Group) (hstep : s.commit sb p = some s') : s'.Group := by
  obtain ⟨hpc, rfl⟩ | ⟨c, st, c', hpc, hst, rfl⟩ := commit_eq_some hstep
  · have hup : s.boot = .up := h.up (p := p) (by simp [hpc])
    have hidle : ∀ q c, update s.pc p .idle q ≠ .commit c := by
      intro q c hq
      have hq' := commit_of_update (by simp) hq
      obtain rfl := h.unique p q _ _ hpc hq'
      simp at hq
    have hdone : ({ s with committing := false
                           pc := update s.pc p .idle } : LogSystem Proc).Group := by
      obtain ⟨hlh, hcurrent⟩ := h.header p _ hpc
      exact ⟨h.coherent, fun hboot => absurd hup hboot, fun hboot => absurd hup hboot,
        h.counts.stay (by simp [hpc, LogPc.InOp]), nofun,
        fun q c hq => absurd hq (hidle q c), fun q c hq => absurd hq (hidle q c),
        fun q _ c _ hq => absurd hq (hidle q c), fun _ _ => LogStore.matches_nil hlh hcurrent⟩
    rw [wakeup_setPc_idle]
    exact hdone.wakeup hup
  · have hup : s.boot = .up := h.up (p := p) (by simp [hpc])
    have hcommit := LogStore.commit_eq_some h.coherent hst
    have hself : ∀ q c₁, update s.pc p (.commit c') q = .commit c₁ → q = p := by
      intro q c₁ hq
      by_contra hqp
      rw [update_of_ne hqp] at hq
      exact hqp (h.unique q p _ _ hq hpc)
    refine ⟨hcommit.coherent h.coherent, fun hboot => absurd hup hboot, fun hboot => absurd hup hboot,
      h.counts.stay (by simp [hpc, LogPc.InOp]), h.alone, fun _ _ _ => h.committing p c hpc, ?_, ?_, ?_⟩
    · intro q c₁ hq
      obtain rfl := hself q c₁ hq
      simp only [update_self, LogPc.commit.injEq] at hq
      rw [← hq]
      exact (h.header q c hpc).commit hcommit
    · intro q r c₁ c₂ hq hr
      exact (hself q c₁ hq).trans (hself r c₂ hr).symm
    · intro _ hc
      exact absurd hpc (h.no_committer hc p c)

lemma Group.step {e : LogEvent Proc} (h : s.Group) (hstep : e.step sb s = some s') : s'.Group := by
  cases e with
  | beginOp p => exact h.beginOp hstep
  | kill p =>
    obtain ⟨hpc, rfl⟩ := kill_eq_some hstep
    exact h.setPc (h.up (p := p) (by simp [hpc])) (by simp [hpc, LogPc.InOp]) (by simp) _
  | logWrite p b => exact h.logWrite hstep
  | logWriteLocked p f => exact h.logWriteLocked hstep
  | endOp p => exact h.endOp hstep
  | commit p => exact h.commit hstep
  | bread b =>
    obtain ⟨io', hread, hio⟩ := Io.exists_bread h.coherent b
    simp only [LogEvent.step, hread] at hstep
    cases hstep
    exact h.withIo hio.toSame
  | evict b =>
    obtain ⟨io', hevict, hs⟩ := bind_eq_some_iff.mp hstep
    cases hs
    exact h.withIo (Io.Same.evict h.coherent hevict)
  | crash =>
    cases hstep
    exact group_crash
  | recover => exact h.recover hstep

variable {ok : LogSystem Proc → LogEvent Proc → Prop}

theorem group_of_reach
    (hs : Reach (logSystem sb Proc) ok s) : s.Group := by
  apply Reach.invariant Group _ _ hs
  · rintro s ⟨disk, -, rfl⟩
    exact group_start
  · intro s e s' h _ hstep
    exact h.step hstep

/-- The step first writes the header of a transaction. -/
def WritesHead (s : LogSystem Proc) : LogEvent Proc → Prop
  | .commit p => s.pc p = .commit .writeHead
  | _ => False

instance (s : LogSystem Proc) (e : LogEvent Proc) : Decidable (s.WritesHead e) :=
  match e with
  | .commit p => inferInstanceAs (Decidable (s.pc p = .commit .writeHead))
  | .beginOp _ | .kill _ | .logWrite _ _ | .logWriteLocked _ _ | .endOp _ | .bread _ | .evict _ | .crash | .recover => .isFalse id

/-- The writes since the last commit, after the event: `log_write` adds the block as its caller has changed it. -/
def currentAfter (s : LogSystem Proc) : LogEvent Proc → Transaction
  | .logWriteLocked p f =>
    match s.pc p with
    | .logging b => s.current ++ [(b, f (s.io.content b))]
    | _ => s.current
  | .crash => []
  | e => if s.WritesHead e then [] else s.current

/-- A transaction is committed in the step that first writes its header, and in no other. -/
lemma step_recorded {e : LogEvent Proc} (hg : s.Group) (hstep : e.step sb s = some s') :
    s'.base = s.base ∧ (s'.committed = if s.WritesHead e then s.committed ++ [s.current] else s.committed) ∧
      s'.current = s.currentAfter e := by
  cases e with
  | beginOp p =>
    obtain ⟨-, -, ⟨-, rfl⟩ | ⟨-, -, rfl⟩⟩ := beginOp_eq_some hstep <;> exact ⟨rfl, rfl, rfl⟩
  | kill p =>
    obtain ⟨-, rfl⟩ := kill_eq_some hstep
    exact ⟨rfl, rfl, rfl⟩
  | logWrite p b =>
    obtain ⟨-, pc, rfl, -⟩ := logWrite_eq_some hstep
    exact ⟨rfl, rfl, rfl⟩
  | logWriteLocked p f =>
    obtain ⟨b, st, hpc, hst, rfl⟩ := logWriteLocked_eq_some hstep
    obtain ⟨io', -, ⟨-, rfl⟩ | ⟨-, -, rfl⟩⟩ := LogStore.logWrite_eq_some hg.coherent hst <;>
      exact ⟨rfl, rfl, by simp [currentAfter, hpc]⟩
  | endOp p =>
    obtain ⟨-, ⟨-, rfl⟩ | ⟨-, -, rfl⟩ | ⟨-, -, rfl⟩⟩ := endOp_eq_some hstep <;> exact ⟨rfl, rfl, rfl⟩
  | commit p =>
    obtain ⟨hpc, rfl⟩ | ⟨c, st, c', hpc, hst, rfl⟩ := commit_eq_some hstep
    · simp [currentAfter, WritesHead, hpc, setPc, wakeup]
    · have hcommit := LogStore.commit_eq_some hg.coherent hst
      cases hcommit <;> simp [currentAfter, WritesHead, hpc]
  | bread b | evict b =>
    obtain ⟨io', -, hs⟩ := bind_eq_some_iff.mp hstep
    cases hs
    exact ⟨rfl, rfl, rfl⟩
  | crash =>
    cases hstep
    exact ⟨rfl, rfl, rfl⟩
  | recover =>
    obtain ⟨st, c, hrec, -, rfl⟩ := recover_eq_some hg.coherent hstep
    generalize s.boot = boot at hrec
    cases hrec <;> exact ⟨rfl, rfl, rfl⟩

lemma reach_of_run [∀ s e, Decidable (ok s e)]
    {es : List (LogEvent Proc)}
    (hrun : run ((logSystem sb Proc).restrict ok) es (start (fun _ _ => 0)) = some s) :
    Reach (logSystem sb Proc) ok s := by
  apply reach_of_restrict
  apply Reachable.run _ hrun
  exact Reach.init ⟨fun _ _ => 0, rfl, rfl⟩

end Processes

end LogSystem

end Xv6Bfs
