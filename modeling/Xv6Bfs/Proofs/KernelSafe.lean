import Xv6Bfs.Proofs.KernelInv

/-!
# Wakeups and sleeps keep the invariants

The steps that wake processes, and those by which a process gives up its CPU or goes on in
its own code.
-/

namespace Xv6Bfs

open Function

namespace Kernel

open Transition

variable {P : ℕ} {Cpu : Type} {s s' : Kernel P Cpu} {c : Cpu} {i j np : Slot}
  {rest : List Slot} {pid : ℤ} {draw : Draw P} {draws : Slot → Draw P} {chan : Option Chan}

/-! ### Insertions and wakeups -/

lemma insertProc_calm (h : insertProc draw i s = some s') : Calm s s' := by
  obtain ⟨sl, -, rfl⟩ := insertProc_eq_some h
  exact calm_update (.inl rfl) rfl rfl rfl

lemma setDeadline_calm : Calm s (s.setDeadline i) :=
  calm_update (.inl rfl) rfl rfl rfl

lemma setNice_calm (niceValue : ℤ) : Calm s (s.setNice niceValue i) := by
  have hnice : Calm s (s.modify i (fun p => { p with niceValue := niceValue })) :=
    calm_update (.inl rfl) rfl rfl rfl
  exact hnice.trans setDeadline_calm

lemma wake_calm (hsleep : (s.proc i).state = .SLEEPING) (h : wake draw i s = some s') :
    Calm s s' ∧ (s'.proc i).state = .RUNNABLE := by
  have hwoken : Calm s (s.modify i (fun p => { p with state := .RUNNABLE })) :=
    calm_update (.inr ⟨hsleep, rfl⟩) rfl rfl rfl
  refine ⟨hwoken.trans (insertProc_calm h), ?_⟩
  obtain ⟨sl, -, rfl⟩ := insertProc_eq_some h
  simp [modify]

lemma wakeup1Slot_calm (h : wakeup1Slot chan draws s i = some s') :
    Calm s s' ∧ ¬ ((s'.proc i).state = .SLEEPING ∧ (s'.proc i).chan = chan) := by
  unfold wakeup1Slot at h
  split at h
  · next hcond =>
    obtain ⟨hcalm, hstate⟩ := wake_calm hcond.1 h
    exact ⟨hcalm, by simp [hstate]⟩
  · next hcond =>
    obtain rfl : s = s' := by simpa using h
    exact ⟨Calm.refl s, hcond⟩

lemma Calm.not_sleeping (h : Calm s s') (hi : ¬ ((s.proc i).state = .SLEEPING ∧ (s.proc i).chan = chan)) :
    ¬ ((s'.proc i).state = .SLEEPING ∧ (s'.proc i).chan = chan) := by
  have := h.state i
  rw [h.chan]
  grind

lemma wakeup1_calm (h : wakeup1 chan draws s = some s') :
    Calm s s' ∧ ∀ i, ¬ ((s'.proc i).state = .SLEEPING ∧ (s'.proc i).chan = chan) := by
  have hloop : Calm s s' ∧ ∀ i ∈ List.finRange NPROC,
      ¬ ((s'.proc i).state = .SLEEPING ∧ (s'.proc i).chan = chan) := by
    refine foldlM_invariant (fun done t => Calm s t ∧ ∀ i ∈ done,
      ¬ ((t.proc i).state = .SLEEPING ∧ (t.proc i).chan = chan)) ?_ ⟨Calm.refl s, by simp⟩ h
    intro done i t t' ht hstep
    obtain ⟨hcalm, hdone⟩ := ht
    obtain ⟨hcalm', hi⟩ := wakeup1Slot_calm hstep
    refine ⟨hcalm.trans hcalm', ?_⟩
    intro j hj
    rcases List.mem_append.mp hj with hj | hj
    · exact hcalm'.not_sleeping (hdone j hj)
    · exact List.mem_singleton.mp hj ▸ hi
  exact ⟨hloop.1, fun i => hloop.2 i (List.mem_finRange i)⟩

lemma kill_calm (h : kill pid draw s = some s') : Calm s s' := by
  obtain ⟨-, rfl | ⟨i, -, hcases⟩⟩ := kill_eq_some h
  · exact Calm.refl s'
  · have hkilled : Calm s (s.modify i (fun p => { p with killed := true })) :=
      calm_update (.inl rfl) rfl rfl rfl
    rcases hcases with ⟨hsleep, hwake⟩ | ⟨-, rfl⟩
    · exact hkilled.trans (wake_calm (by simpa [modify] using hsleep) hwake).1
    · exact hkilled

/-! ### Leaving the CPU -/

lemma Safe.leave {p : Proc} {r : Resume} (hs : s.Safe) (ht : s.thread c = .process i rest pid)
    (hlock : s.lock = none ∨ s.lock = some c) (hrun : (s.proc i).state = .RUNNING)
    (hpid : p.pid = (s.proc i).pid) (hparent : p.parent = (s.proc i).parent)
    (hstate : p.state = .RUNNABLE ∨ p.state = .SLEEPING) (hfits : p.state.Fits (.sched r))
    (hwaits : ∀ w, p.state = .SLEEPING → p.chan = some (.proc w) → w = i ∧
      (∃ j, (s.proc j).parent = some i) ∧
      ∀ j, (s.proc j).parent = some i → (s.proc j).state ≠ .ZOMBIE) :
    Safe { s with
      proc := update s.proc i p
      lock := some c
      pc := update s.pc i (.sched r) } := by
  obtain ⟨⟨hcpus, hpids, hframes, htree⟩, hw⟩ := hs
  refine ⟨⟨?_, ?_, ?_, ?_⟩, ?_⟩
  · obtain ⟨_, _, _, _, _, _, _⟩ := hcpus
    constructor <;> grind
  · exact hpids.congr (by grind) (by grind) rfl rfl (fun _ _ _ _ => id)
  · obtain ⟨_, _, _, _⟩ := hframes
    constructor <;> grind
  · exact htree.congr (by grind) rfl (by grind)
  · have hparents : ∀ j, (update s.proc i p j).parent = (s.proc j).parent := by grind
    have hzombies : ∀ j, (update s.proc i p j).state = .ZOMBIE → (s.proc j).state = .ZOMBIE := by grind
    intro k
    by_cases hk : k = i
    · subst hk
      intro w hsleep hchan
      simp only [update_self] at hsleep hchan
      obtain ⟨hwi, hchild, hno⟩ := hwaits w hsleep hchan
      simp only [hparents]
      exact ⟨hwi, hchild, fun j hj hz => hno j hj (hzombies j hz)⟩
    · apply (hw k).congr hparents hzombies
      simp only [update_of_ne hk]
      exact fun hsleep => ⟨hsleep, trivial⟩

lemma Safe.yield (hs : s.Safe) (h : s.yield c = some s') : s'.Safe := by
  obtain ⟨i, p, rest, pid, ht, hp, hlock, -, rfl⟩ := yield_eq_some h
  have hproc := hs.cpus.process c i rest pid ht
  obtain rfl : i = p := by simpa [hproc.1] using hp
  have hrun := hs.cpus.running_of_free hlock hp
  exact hs.leave ht (.inl hlock) hrun rfl rfl (by simp) (by simp [ProcState.Fits]) (by simp)

lemma Safe.sleep {a : ℕ} (hs : s.Safe) (h : s.sleep c a = some s') : s'.Safe := by
  obtain ⟨i, p, rest, pid, ht, hp, hlock, -, -, rfl⟩ := sleep_eq_some h
  have hproc := hs.cpus.process c i rest pid ht
  obtain rfl : i = p := by simpa [hproc.1] using hp
  have hrun := hs.cpus.running_of_free hlock hp
  exact hs.leave ht (.inl hlock) hrun rfl rfl (by simp) (by simp [ProcState.Fits]) (by simp)

lemma Safe.setPc {lock : Option Cpu} {pc : Pc} (hs : s.Safe) (ht : s.thread c = .process i rest pid)
    (hlock : s.lock = none ∨ s.lock = some c) (hlock' : lock = some c ∧ pc.InSection ∨
      lock = none ∧ ¬ pc.InSection)
    (hrun : (s.proc i).state = .RUNNING) (hpc : pc.Active) :
    Safe { s with lock := lock, pc := update s.pc i pc } := by
  obtain ⟨⟨hcpus, hpids, hframes, htree⟩, hw⟩ := hs
  refine ⟨⟨?_, ?_, ?_, ?_⟩, ?_⟩
  · obtain ⟨_, _, _, _, _, _, _⟩ := hcpus
    constructor <;> grind
  · exact { hpids with }
  · exact { hframes with }
  · exact { htree with }
  · exact hw

lemma Safe.wait (hs : s.Safe) (h : s.wait c = some s') : s'.Safe := by
  obtain ⟨i, rest, pid, ht, hlock, -, -, rfl⟩ := wait_eq_some h
  have hproc := hs.cpus.process c i rest pid ht
  have hrun := hs.cpus.running_of_free hlock hproc.1
  exact hs.setPc ht (.inl hlock) (.inl ⟨rfl, trivial⟩) hrun trivial

lemma Safe.reap (hs : s.Safe)
    (hparent : (s.proc j).parent = some i) (hrun : (s.proc i).state = .RUNNING)
    (hzombie : (s.proc j).state = .ZOMBIE) (hoff : ∀ c', s.cpuProc c' ≠ some j) :
    (s.reap j).Safe := by
  obtain ⟨⟨hcpus, hpids, hframes, htree⟩, hw⟩ := hs
  refine ⟨⟨?_, ?_, ?_, ?_⟩, ?_⟩
  · obtain ⟨_, _, _, _, _, _, _⟩ := hcpus
    constructor <;> dsimp only [Kernel.reap, modify] <;> grind
  · obtain ⟨_, _, _, _, _, _⟩ := hpids
    constructor <;> dsimp only [Kernel.reap, modify] <;> grind
  · obtain ⟨_, _, _, _⟩ := hframes
    constructor <;> dsimp only [Kernel.reap, modify] <;> grind
  · obtain ⟨_, _, _, _, _, _⟩ := htree
    constructor <;> dsimp only [Kernel.reap, modify] <;> grind
  · intro k w hsleep hchan
    have hkj : k ≠ j := by
      rintro rfl
      simp [Kernel.reap, modify] at hsleep
    simp only [Kernel.reap, modify, update_of_ne hkj] at hsleep hchan ⊢
    obtain ⟨hwk, ⟨m, hm⟩, hno⟩ := hw k w hsleep hchan
    have hik : i ≠ k := by
      rintro rfl
      simp [hrun] at hsleep
    refine ⟨hwk, ⟨m, ?_⟩, ?_⟩ <;> grind

end Kernel

end Xv6Bfs
