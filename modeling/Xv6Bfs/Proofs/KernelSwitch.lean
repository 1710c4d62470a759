import Xv6Bfs.Proofs.KernelTree

/-!
# Context switches keep the invariants

The scheduler acquires `ptable.lock`, and the process it switches to releases it, in `forkret`, `yield` or `sleep`.
-/

namespace Xv6Bfs

open Function

namespace Kernel

open Transition

variable {P : ℕ} {Cpu : Type} [DecidableEq Cpu] {s s' : Kernel P Cpu} {c : Cpu} {i j np : Slot}
  {rest l : List Slot} {pid : ℤ} {draw : Draw P} {draws : Slot → Draw P}

lemma Safe.switchTo (hs : s.Safe) (hlock : s.lock = none) (ht : s.thread c = .scheduler)
    (hrunnable : (s.proc i).state = .RUNNABLE)
    (hoff : ∀ c', s.cpuProc c' ≠ some i) (hframe : ∀ j, s.frame j ≠ some (.published, i))
    (hpid : 0 < pid ∧ pid < s.nextpid ∧ ∀ j ∈ rest, (s.proc j).pid ≠ pid)
    (h : Kernel.switchTo c i rest pid { s with lock := some c } = some s') : s'.Safe := by
  obtain ⟨sl, r, -, hpc, rfl⟩ := switchTo_eq_some h
  clear h
  obtain ⟨⟨hcpus, hpids, hframes, htree⟩, hw⟩ := hs
  refine ⟨⟨?_, ?_, ?_, ?_⟩, ?_⟩
  · dsimp only at hpc
    have hrunning : ∀ k, (update s.proc i { s.proc i with
          state := .RUNNING, ticksLeft := BFS_DEFAULT_QUANTUM, maxLevel := -1 } k).state = .RUNNING →
        ∃ c', update s.cpuProc c (some i) c' = some k := by
      intro k hk
      by_cases hki : k = i
      · exact ⟨c, by simp [hki]⟩
      · rw [update_of_ne hki] at hk
        obtain ⟨c', hc'⟩ := hcpus.running k hk
        have hidle := hcpus.idle c ht
        exact ⟨c', by grind⟩
    obtain ⟨_, _, _, _, _, _, _⟩ := hcpus
    refine ⟨?_, ?_, ?_, ?_, ?_, ?_, hrunning⟩ <;> grind
  · obtain ⟨_, _, _, _, _, _⟩ := hpids
    constructor <;> grind
  · obtain ⟨_, _, _, _⟩ := hframes
    constructor <;> grind
  · exact htree.congr (by grind) rfl (by grind)
  · intro k
    apply (hw k).congr <;> grind

lemma Safe.sched {r : Resume} (hs : s.Safe) (ht : s.thread c = .process i rest pid)
    (hpc : s.pc i = .sched r) (hlock : s.lock = some c) :
    Safe { s with thread := update s.thread c (.returned i rest pid) } := by
  have hproc := hs.cpus.process c i rest pid ht
  obtain ⟨⟨hcpus, hpids, hframes, htree⟩, hw⟩ := hs
  refine ⟨⟨?_, ?_, ?_, ?_⟩, ?_⟩
  · obtain ⟨_, _, _, _, _, _, _⟩ := hcpus
    constructor <;> grind
  · exact hpids.congr (by grind) (by grind) rfl rfl (by grind)
  · exact { hframes with }
  · exact { htree with }
  · exact hw

lemma Safe.release (hs : s.Safe) (ht : s.thread c = .returned i rest pid) :
    Safe { s with
      cpuProc := update s.cpuProc c none
      lock := none
      thread := update s.thread c .scheduler } := by
  have hret := hs.cpus.returned c i rest pid ht
  obtain ⟨⟨hcpus, hpids, hframes, htree⟩, hw⟩ := hs
  refine ⟨⟨?_, ?_, ?_, ?_⟩, ?_⟩
  · have hnot : (s.proc i).state ≠ .RUNNING := by
      intro hrun
      have := hcpus.state i
      obtain ⟨r, hr⟩ := hret.2.2
      rw [hrun, hr] at this
      exact this
    have hrunning : ∀ k, (s.proc k).state = .RUNNING → ∃ c', update s.cpuProc c none c' = some k := by
      intro k hk
      obtain ⟨c', hc'⟩ := hcpus.running k hk
      exact ⟨c', by grind⟩
    obtain ⟨_, _, _, _, _, _, _⟩ := hcpus
    refine ⟨?_, ?_, ?_, ?_, ?_, ?_, hrunning⟩ <;> grind
  · exact hpids.congr (by grind) (by grind) rfl rfl (by grind)
  · obtain ⟨_, _, _, _⟩ := hframes
    constructor <;> grind
  · exact { htree with }
  · exact hw

omit [DecidableEq Cpu] in
lemma Safe.clearChan (hs : s.Safe) (hrun : (s.proc i).state = .RUNNING) :
    (s.modify i (fun p => { p with chan := none })).Safe := by
  obtain ⟨⟨hcpus, hpids, hframes, htree⟩, hw⟩ := hs
  refine ⟨⟨?_, ?_, ?_, ?_⟩, ?_⟩
  · obtain ⟨_, _, _, _, _, _, _⟩ := hcpus
    constructor <;> dsimp only [modify] <;> grind
  · exact hpids.congr (by dsimp only [modify]; grind) (by dsimp only [modify]; grind) rfl rfl (fun _ _ _ _ => id)
  · obtain ⟨_, _, _, _⟩ := hframes
    constructor <;> dsimp only [modify] <;> grind
  · exact htree.congr (by dsimp only [modify]; grind) rfl (by dsimp only [modify]; grind)
  · intro k
    apply (hw k).congr <;> dsimp only [modify] <;> grind

omit [DecidableEq Cpu] in
lemma Safe.resume {r : Resume} (hs : s.Safe) (ht : s.thread c = .process i rest pid)
    (hpc : s.pc i = .resumed r) (h : s.resume i r = some s') : s'.Safe := by
  have hproc := hs.cpus.process c i rest pid ht
  have hlock : s.lock = some c := hproc.2.mpr (by simp [hpc, Pc.InSection])
  have hrun : (s.proc i).state = .RUNNING := by
    apply hs.cpus.state_of_active
    rw [hpc]
    rintro rfl
    simp [Kernel.resume] at h
  have hrun' : ((s.modify i (fun p => { p with chan := none })).proc i).state = .RUNNING := by
    simp [modify, hrun]
  have hout : (none : Option Cpu) = some c ∧ Pc.user.InSection ∨
      (none : Option Cpu) = none ∧ ¬ Pc.user.InSection := by simp [Pc.InSection]
  cases r with
  | forkret | yield =>
    obtain rfl := Option.some.inj h
    exact hs.setPc ht (.inr hlock) hout hrun trivial
  | sleep =>
    obtain rfl := Option.some.inj h
    exact (hs.clearChan hrun).setPc ht (.inr hlock) hout hrun' trivial
  | wait =>
    obtain rfl := Option.some.inj h
    have hin : s.lock = some c ∧ Pc.wait.InSection ∨ s.lock = none ∧ ¬ Pc.wait.InSection :=
      .inl ⟨hlock, trivial⟩
    exact (hs.clearChan hrun).setPc ht (.inr hlock) hin hrun' trivial
  | exit => simp [Kernel.resume] at h

/-! ### Traps -/

omit [DecidableEq Cpu] in
lemma Safe.setPc_outside {pc : Pc} (hs : s.Safe) (hpc : s.pc i = .user) (hpc' : ¬ pc.InSection)
    (hact : pc.Active) : Safe { s with pc := update s.pc i pc } := by
  have hrun := hs.cpus.state_of_active (i := i) (by simp [hpc, Pc.Active])
  obtain ⟨⟨hcpus, hpids, hframes, htree⟩, hw⟩ := hs
  refine ⟨⟨?_, ?_, ?_, ?_⟩, ?_⟩
  · obtain ⟨_, _, _, _, _, _, _⟩ := hcpus
    constructor <;> grind
  · exact { hpids with }
  · exact { hframes with }
  · exact { htree with }
  · exact hw

omit [DecidableEq Cpu] in
lemma Safe.charge (hs : s.Safe) (h : s.charge c = some s') : s'.Safe := by
  rcases charge_eq_some h with rfl | ⟨i, p, rest, pid, -, -, hpc, -, rfl⟩
  · exact hs
  · have hcalm : Calm s { s with
        proc := update s.proc p { s.proc p with ticksLeft := (s.proc p).ticksLeft - 1 }
        charged := update s.charged p (s.charged p + 1) } :=
      calm_update (.inl rfl) rfl rfl rfl
    refine (hs.of_calm hcalm).setPc_outside hpc ?_ ?_
    · split <;> simp [Pc.InSection]
    · split <;> trivial

omit [DecidableEq Cpu] in
lemma fault_calm (h : s.fault c = some s') : Calm s s' := by
  obtain ⟨p, rfl⟩ := fault_eq_some h
  exact calm_update (.inl rfl) rfl rfl rfl

end Kernel

end Xv6Bfs
