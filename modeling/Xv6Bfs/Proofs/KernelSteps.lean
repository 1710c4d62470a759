import Xv6Bfs.Kernel
import Xv6Bfs.Proofs.SkiplistQueue

/-!
# What a step can do

Each piece of kernel code is inverted once, into the conditions under which it is taken and
the state that it leads to.
-/

namespace Xv6Bfs

open Function Option

namespace Kernel

open Transition

variable {P : ℕ} {Cpu : Type} {s s' : Kernel P Cpu} {c : Cpu} {i j np : Slot}
  {rest l : List Slot} {pid : ℤ} {draw : Draw P} {draws : Slot → Draw P}

lemma executing_eq_some : s.executing c = some i ↔ ∃ rest pid, s.thread c = .process i rest pid := by
  unfold executing
  split <;> simp_all

lemma insertProc_eq_some (h : insertProc draw i s = some s') :
    ∃ sl, insertNode s.skiplist (s.proc i).pid (s.proc i).virtualDeadline draw.maxLevel draw.pages
        = some sl ∧
      s' = { s with
        proc := update s.proc i { s.proc i with maxLevel := draw.maxLevel }
        skiplist := sl
        queuedAt := update s.queuedAt i s.enqueues
        enqueues := s.enqueues + 1 } := by
  simp only [insertProc, bind_eq_bind, bind_eq_some_iff, Option.some.injEq] at h
  obtain ⟨sl, hins, rfl⟩ := h
  exact ⟨sl, hins, rfl⟩

lemma kill_eq_some (h : kill pid draw s = some s') :
    s.lock = none ∧ (s' = s ∨ ∃ i, (s.proc i).pid = pid ∧ ((s.proc i).state = .SLEEPING ∧
          wake draw i (s.modify i (fun p => { p with killed := true })) = some s' ∨
        (s.proc i).state ≠ .SLEEPING ∧ s' = s.modify i (fun p => { p with killed := true }))) := by
  unfold kill at h
  split at h
  · next hlock =>
    refine ⟨hlock, ?_⟩
    split at h
    · exact .inl (Option.some.inj h).symm
    · next i hfind =>
      have hpid : (s.proc i).pid = pid := by simpa using List.find?_some hfind
      have hstate : ((s.modify i (fun p => { p with killed := true })).proc i).state =
          (s.proc i).state := by simp [modify]
      refine .inr ⟨i, hpid, ?_⟩
      dsimp only at h
      rw [hstate] at h
      split at h
      · next hsleep => exact .inl ⟨hsleep, h⟩
      · next hsleep => exact .inr ⟨hsleep, (Option.some.inj h).symm⟩
  · simp at h

/-! ### Leaving the CPU -/

lemma yield_eq_some (h : s.yield c = some s') :
    ∃ i p rest pid, s.thread c = .process i rest pid ∧ s.cpuProc c = some p ∧ s.lock = none ∧
      (s.pc i = .user ∧ s.frame i = none ∨ s.pc i = .preempt) ∧
      s' = { s with
        proc := update s.proc p { s.proc p with state := .RUNNABLE }
        lock := some c
        pc := update s.pc i (.sched .yield) } := by
  simp only [yield, bind_eq_bind, bind_eq_some_iff, executing_eq_some,
    ite_none_right_eq_some, Option.some.injEq] at h
  obtain ⟨i, ⟨rest, pid, ht⟩, p, hp, ⟨hlock, hpc⟩, rfl⟩ := h
  exact ⟨i, p, rest, pid, ht, hp, hlock, hpc, rfl⟩

lemma sleep_eq_some {a : ℕ} (h : s.sleep c a = some s') :
    ∃ i p rest pid, s.thread c = .process i rest pid ∧ s.cpuProc c = some p ∧ s.lock = none ∧
      s.pc i = .user ∧ s.frame i = none ∧
      s' = { s with
        proc := update s.proc p
          { s.proc p with state := .SLEEPING, chan := some (.addr a) }
        lock := some c
        pc := update s.pc i (.sched .sleep) } := by
  simp only [sleep, bind_eq_bind, bind_eq_some_iff, executing_eq_some,
    ite_none_right_eq_some, Option.some.injEq] at h
  obtain ⟨i, ⟨rest, pid, ht⟩, p, hp, ⟨hlock, hpc, hframe⟩, rfl⟩ := h
  exact ⟨i, p, rest, pid, ht, hp, hlock, hpc, hframe, rfl⟩

lemma wait_eq_some (h : s.wait c = some s') :
    ∃ i rest pid, s.thread c = .process i rest pid ∧ s.lock = none ∧ s.pc i = .user ∧ s.frame i = none ∧
      s' = { s with lock := some c, pc := update s.pc i .wait } := by
  simp only [wait, bind_eq_bind, bind_eq_some_iff, executing_eq_some,
    ite_none_right_eq_some, Option.some.injEq] at h
  obtain ⟨i, ⟨rest, pid, ht⟩, ⟨hlock, hpc, hframe⟩, rfl⟩ := h
  exact ⟨i, rest, pid, ht, hlock, hpc, hframe, rfl⟩

lemma waitLoop_eq_some (h : s.waitLoop c i = some s') :
    (∃ j, (s.proc j).parent = some i ∧ (s.proc j).state = .ZOMBIE ∧
      s' = { s.reap j with lock := none, pc := update s.pc i .user }) ∨
    s' = { s with lock := none, pc := update s.pc i .user } ∨
    ∃ p, s.cpuProc c = some p ∧ (∃ j, (s.proc j).parent = some i) ∧
      (∀ j, (s.proc j).parent = some i → (s.proc j).state ≠ .ZOMBIE) ∧
      s' = { s with
        proc := update s.proc p
          { s.proc p with state := .SLEEPING, chan := some (.proc i) }
        pc := update s.pc i (.sched .wait) } := by
  unfold waitLoop at h
  dsimp only at h
  split at h
  · next j hfind =>
    obtain ⟨hparent, hzombie⟩ : (s.proc j).parent = some i ∧ (s.proc j).state = .ZOMBIE := by
      simpa using List.find?_some hfind
    exact .inl ⟨j, hparent, hzombie, (Option.some.inj h).symm⟩
  · next hfind =>
    have hno : ∀ j, (s.proc j).parent = some i → (s.proc j).state ≠ .ZOMBIE := by
      simpa using hfind
    split at h
    · exact .inr (.inl (Option.some.inj h).symm)
    · next hkids =>
      obtain ⟨hchild, -⟩ : (∃ j, (s.proc j).parent = some i) ∧ (s.proc i).killed = false := by
        simpa using hkids
      simp only [bind_eq_bind, bind_eq_some_iff, Option.some.injEq] at h
      obtain ⟨p, hp, rfl⟩ := h
      exact .inr (.inr ⟨p, hp, hchild, hno, rfl⟩)

lemma exit_eq_some (h : s.exit c draws = some s') :
    ∃ i rest pid s₁ s₂, s.thread c = .process i rest pid ∧ s.lock = none ∧ s.pc i = .user ∧
      s.frame i = none ∧ s.initproc ≠ some i ∧
      wakeup1 ((s.proc i).parent.map .proc) draws s = some s₁ ∧
      (List.finRange NPROC).foldlM (reparent i draws) s₁ = some s₂ ∧
      s' = { s₂ with
        proc := update s₂.proc i { s₂.proc i with state := .ZOMBIE }
        lock := some c
        pc := update s₂.pc i (.sched .exit) } := by
  simp only [exit, bind_eq_bind, bind_eq_some_iff, executing_eq_some,
    ite_none_right_eq_some, Option.some.injEq] at h
  obtain ⟨i, ⟨rest, pid, ht⟩, ⟨hlock, hpc, hframe, hne⟩, s₁, hwake, s₂, hloop, rfl⟩ := h
  exact ⟨i, rest, pid, s₁, s₂, ht, hlock, hpc, hframe, hne, hwake, hloop, rfl⟩

/-! ### Creation -/

lemma allocproc_eq_some {p : Option Slot} (h : s.allocproc = some (p, s')) :
    s.lock = none ∧ (p = none ∧ s' = s ∨ ∃ np, p = some np ∧ (s.proc np).state = .UNUSED ∧ s' = { s with
        proc := update s.proc np { s.proc np with state := .EMBRYO, pid := s.nextpid }
        nextpid := s.nextpid + 1
        pc := update s.pc np (.sched .forkret) }) := by
  unfold allocproc at h
  split at h
  · next hlock =>
    refine ⟨hlock, ?_⟩
    split at h
    · simp only [Option.some.injEq, Prod.mk.injEq] at h
      exact .inl ⟨h.1.symm, h.2.symm⟩
    · next np hfind =>
      split at h
      · simp only [Option.some.injEq, Prod.mk.injEq] at h
        have hunused : (s.proc np).state = .UNUSED := by simpa using List.find?_some hfind
        exact .inr ⟨np, h.1.symm, hunused, h.2.symm⟩
      · simp at h
  · simp at h

lemma nicefork_eq_some (h : s.nicefork c = some s') :
    s' = s ∨ ∃ i rest pid np, s.thread c = .process i rest pid ∧ s.pc i = .user ∧
      s.frame i = none ∧ s.lock = none ∧ (s.proc np).state = .UNUSED ∧
      s' = { s with
        proc := update s.proc np { s.proc np with state := .EMBRYO, pid := s.nextpid }
        nextpid := s.nextpid + 1
        pc := update s.pc np (.sched .forkret)
        frame := update s.frame i (some (.allocated, np)) } := by
  simp only [nicefork, bind_eq_bind, bind_eq_some_iff, executing_eq_some,
    ite_none_right_eq_some] at h
  obtain ⟨i, ⟨rest, pid, ht⟩, ⟨hpc, hframe⟩, ⟨p, s₁⟩, halloc, h⟩ := h
  obtain ⟨hlock, ⟨rfl, rfl⟩ | ⟨np, rfl, hunused, rfl⟩⟩ := allocproc_eq_some halloc
  · exact .inl (Option.some.inj h).symm
  · exact .inr ⟨i, rest, pid, np, ht, hpc, hframe, hlock, hunused, (Option.some.inj h).symm⟩

lemma forking_eq_some {stage : ForkStage} :
    s.forking c stage = some (i, np) ↔ (∃ rest pid, s.thread c = .process i rest pid) ∧
      s.pc i = .user ∧ s.frame i = some (stage, np) := by
  simp only [forking, bind_eq_bind, bind_eq_some_iff, executing_eq_some]
  constructor
  · rintro ⟨i', ht, h⟩
    split at h
    · next stage' np' hframe =>
      simp only [ite_none_right_eq_some, Option.some.injEq, Prod.mk.injEq] at h
      obtain ⟨⟨hpc, rfl⟩, rfl, rfl⟩ := h
      exact ⟨ht, hpc, hframe⟩
    · simp at h
  · rintro ⟨ht, hpc, hframe⟩
    exact ⟨i, ht, by simp [hframe, hpc]⟩

lemma niceforkFail_eq_some (h : s.niceforkFail c = some s') :
    ∃ i np, s.pc i = .user ∧ s.frame i = some (.allocated, np) ∧ s' = { s with
        proc := update s.proc np { s.proc np with state := .UNUSED }
        frame := update s.frame i none } := by
  simp only [niceforkFail, bind_eq_bind, bind_eq_some_iff, Prod.exists,
    forking_eq_some, Option.some.injEq] at h
  obtain ⟨i, np, ⟨-, hpc, hframe⟩, rfl⟩ := h
  exact ⟨i, np, hpc, hframe, rfl⟩

lemma niceforkCopy_eq_some (h : s.niceforkCopy c = some s') :
    ∃ i np, s.pc i = .user ∧ s.frame i = some (.allocated, np) ∧ s' = { s with
        proc := update s.proc np { s.proc np with parent := some i }
        frame := update s.frame i (some (.copied, np)) } := by
  simp only [niceforkCopy, bind_eq_bind, bind_eq_some_iff, Prod.exists,
    forking_eq_some, Option.some.injEq] at h
  obtain ⟨i, np, ⟨-, hpc, hframe⟩, rfl⟩ := h
  exact ⟨i, np, hpc, hframe, rfl⟩

lemma niceforkPublish_eq_some (h : s.niceforkPublish c = some s') :
    ∃ i np, s.pc i = .user ∧ s.frame i = some (.copied, np) ∧ s' = { s with
        proc := update s.proc np { s.proc np with state := .RUNNABLE }
        frame := update s.frame i (some (.published, np)) } := by
  simp only [niceforkPublish, bind_eq_bind, bind_eq_some_iff, Prod.exists,
    forking_eq_some, ite_none_right_eq_some, Option.some.injEq] at h
  obtain ⟨i, np, ⟨-, hpc, hframe⟩, -, rfl⟩ := h
  exact ⟨i, np, hpc, hframe, rfl⟩

lemma niceforkInsert_eq_some {niceValue : ℤ} (h : s.niceforkInsert c niceValue draw = some s') :
    ∃ i np s₁, s.executing c = some i ∧ s.pc i = .user ∧ s.frame i = some (.published, np) ∧
      insertProc draw np (s.setNice niceValue np) = some s₁ ∧
      s' = { s₁ with frame := update s₁.frame i none } := by
  simp only [niceforkInsert, bind_eq_bind, bind_eq_some_iff, Prod.exists,
    forking_eq_some, Option.some.injEq] at h
  obtain ⟨i, np, ⟨ht, hpc, hframe⟩, s₁, hins, rfl⟩ := h
  exact ⟨i, np, s₁, executing_eq_some.mpr ht, hpc, hframe, hins, rfl⟩

def firstProc (s : Kernel P Cpu) (np : Slot) : Kernel P Cpu :=
  setNice 0 np { s with
    proc := update s.proc np { s.proc np with state := .RUNNABLE, pid := s.nextpid }
    nextpid := s.nextpid + 1
    initproc := some np
    pc := update s.pc np (.sched .forkret) }

lemma userinit_eq_some (h : s.userinit draw = some s') :
    s.initproc = none ∧ s.lock = none ∧ ∃ np, (s.proc np).state = .UNUSED ∧
      insertProc draw np (s.firstProc np) = some s' := by
  simp only [userinit, bind_eq_bind, ite_none_right_eq_some,
    bind_eq_some_iff, Prod.exists] at h
  obtain ⟨hinit, p, s₁, halloc, np, rfl, hins⟩ := h
  obtain ⟨hlock, ⟨hnone, -⟩ | ⟨np', hnp, hunused, rfl⟩⟩ := allocproc_eq_some halloc
  · simp at hnone
  · obtain rfl : np = np' := by simpa using hnp
    exact ⟨hinit, hlock, np, hunused, by simpa [firstProc, modify] using hins⟩

/-! ### Traps -/

lemma charge_eq_some (h : s.charge c = some s') :
    s' = s ∨ ∃ i p rest pid, s.thread c = .process i rest pid ∧ s.cpuProc c = some p ∧
      s.pc i = .user ∧ (s.proc p).state = .RUNNING ∧
      s' = { s with
        proc := update s.proc p { s.proc p with ticksLeft := (s.proc p).ticksLeft - 1 }
        charged := update s.charged p (s.charged p + 1)
        pc := update s.pc i (if (s.proc p).ticksLeft - 1 = 0 then .preempt else .user) } := by
  simp only [charge, bind_eq_bind, bind_eq_some_iff, executing_eq_some,
    ite_none_right_eq_some] at h
  obtain ⟨i, ⟨rest, pid, ht⟩, p, hp, hpc, h⟩ := h
  split at h
  · next hrun => exact .inr ⟨i, p, rest, pid, ht, hp, hpc, hrun, (Option.some.inj h).symm⟩
  · exact .inl (Option.some.inj h).symm

lemma fault_eq_some (h : s.fault c = some s') :
    ∃ p, s' = s.modify p (fun p => { p with killed := true }) := by
  simp only [fault, bind_eq_bind, bind_eq_some_iff,
    ite_none_right_eq_some, Option.some.injEq] at h
  obtain ⟨i, -, p, -, -, rfl⟩ := h
  exact ⟨p, rfl⟩

/-! ### Switches -/

def refreshed (s : Kernel P Cpu) (i : Slot) : Kernel P Cpu :=
  if (s.proc i).ticksLeft = 0 then s.setDeadline i else s

variable [DecidableEq Cpu]

lemma switchTo_eq_some (h : switchTo c i rest pid s = some s') :
    ∃ sl r, deleteNode s.skiplist (s.proc i).pid (s.proc i).virtualDeadline = some sl ∧ s.pc i = .sched r ∧
      s' = { s with
        proc := update s.proc i { s.proc i with
          state := .RUNNING, ticksLeft := BFS_DEFAULT_QUANTUM, maxLevel := -1 }
        skiplist := sl
        cpuProc := update s.cpuProc c (some i)
        thread := update s.thread c (.process i rest pid)
        pc := update s.pc i (.resumed r) } := by
  simp only [switchTo, bind_eq_bind, bind_eq_some_iff] at h
  obtain ⟨sl, hdel, h⟩ := h
  split at h
  · next r hpc => exact ⟨sl, r, hdel, hpc, (Option.some.inj h).symm⟩
  · simp at h

lemma schedulerLoop_eq_some (h : schedulerLoop c pid l s = some s') :
    ((∀ j ∈ l, (s.proc j).pid ≠ pid) ∧
      s' = { s with lock := none, thread := update s.thread c .scheduler }) ∨
    ∃ l₁ i l₂, l = l₁ ++ i :: l₂ ∧ (s.proc i).pid = pid ∧ switchTo c i l₂ pid s = some s' := by
  induction l with
  | nil =>
    obtain rfl := Option.some.inj h
    exact .inl ⟨by simp, rfl⟩
  | cons j l ih =>
    unfold schedulerLoop at h
    split at h
    · next hj =>
      rcases ih h with ⟨hl, hs'⟩ | ⟨l₁, i, l₂, rfl, hi, hswitch⟩
      · exact .inl ⟨by simpa using ⟨hj, hl⟩, hs'⟩
      · exact .inr ⟨j :: l₁, i, l₂, rfl, hi, hswitch⟩
    · next hj => exact .inr ⟨[], j, l, rfl, by simpa using hj, h⟩

lemma scheduler_eq_some (h : scheduler c s = some s') :
    s.thread c = .scheduler ∧ s.lock = none ∧ ∃ pid, getMinimum s.skiplist = some pid ∧
      schedulerLoop c pid (List.finRange NPROC) { s with lock := some c } = some s' := by
  unfold scheduler at h
  split at h
  · next ht =>
    simpa only [ite_none_right_eq_some, bind_eq_bind, bind_eq_some_iff, ht,
      true_and] using h
  · simp at h

lemma switchBack_eq_some (h : switchBack c draw i s = some s') :
    ∃ s₁, s' = { s₁ with cpuProc := update s₁.cpuProc c none } ∧
      ((s.proc i).state = .RUNNABLE ∧ insertProc draw i (s.refreshed i) = some s₁ ∨
        (s.proc i).state ≠ .RUNNABLE ∧ s₁ = s) := by
  unfold switchBack at h
  split at h
  · next hrunnable =>
    simp only [bind_eq_bind, bind_eq_some_iff, Option.some.injEq] at h
    obtain ⟨s₁, hins, rfl⟩ := h
    exact ⟨s₁, rfl, .inl ⟨hrunnable, hins⟩⟩
  · next hrunnable =>
    obtain rfl := Option.some.inj h
    exact ⟨s, rfl, .inr ⟨hrunnable, rfl⟩⟩

lemma sched_eq_some (h : s.sched c = some s') :
    ∃ i rest pid, s.thread c = .process i rest pid ∧ s.lock = some c ∧
      s' = { s with thread := update s.thread c (.returned i rest pid) } := by
  unfold sched at h
  split at h
  · next i rest pid ht =>
    simp only [bind_eq_bind, bind_eq_some_iff, ite_none_right_eq_some,
      Option.some.injEq] at h
    obtain ⟨p, -, ⟨hlock, -⟩, rfl⟩ := h
    exact ⟨i, rest, pid, ht, hlock, rfl⟩
  · simp at h

lemma proceed_eq_some (h : s.proceed c draw = some s') :
    (∃ i rest pid s₁, s.thread c = .returned i rest pid ∧ switchBack c draw i s = some s₁ ∧
      schedulerLoop c pid rest s₁ = some s') ∨
    ∃ i rest pid, s.thread c = .process i rest pid ∧ ((∃ r, s.pc i = .sched r ∧ s.sched c = some s') ∨
        (s.pc i = .wait ∧ s.waitLoop c i = some s') ∨
        ∃ r, s.pc i = .resumed r ∧ s.resume i r = some s') := by
  unfold proceed at h
  split at h
  · simp at h
  · next i rest pid ht =>
    simp only [bind_eq_bind, bind_eq_some_iff] at h
    obtain ⟨s₁, hback, hloop⟩ := h
    exact .inl ⟨i, rest, pid, s₁, ht, hback, hloop⟩
  · next i rest pid ht =>
    refine .inr ⟨i, rest, pid, ht, ?_⟩
    split at h
    · next r hpc => exact .inl ⟨r, hpc, h⟩
    · next hpc => exact .inr (.inl ⟨hpc, h⟩)
    · next r hpc => exact .inr (.inr ⟨r, hpc, h⟩)
    · simp at h

end Kernel

end Xv6Bfs
