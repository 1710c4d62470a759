import Xv6Bfs.Proofs.KernelLife

/-!
# Processes, CPUs and the process tree

What the invariants mean for every interleaving of the CPUs: for processes and the CPUs they run on, for pids, and for
parents that wait.
-/

namespace Xv6Bfs

open Transition

variable {P : ℕ} {Cpu : Type} [DecidableEq Cpu] {s s' : Kernel P Cpu}

namespace Kernel

/-! ### CPUs -/

omit [DecidableEq Cpu] in
lemma QueueOk.levelEntries_ne {q : List (Queued P)} {i : Slot} {k : ℕ} (hq : s.QueueOk q)
    (hs : s.Core) (hi : ¬ s.Ready i) (hpos : 0 < (s.proc i).pid) (hk : k < SKIPLIST_LEVELS) :
    ∃ es, levelEntries s.skiplist k = some es ∧ ∀ e ∈ es, e.1 ≠ (s.proc i).pid := by
  have hk' : k < s.skiplist.levels := by rw [hq.towers.levels]; exact hk
  refine ⟨_, hq.towers.rep.levelEntries_eq hk', ?_⟩
  intro e he heq
  obtain ⟨t, ht, rfl⟩ := List.mem_map.mp he
  obtain ⟨x, hx, rfl⟩ := List.mem_map.mp (List.mem_of_mem_filter ht)
  have hslot : x.slot = i := by
    rcases hs.pids.inj x.slot i heq with h | h
    · exact h
    · exact absurd (heq.symm.trans h) hpos.ne'
  exact hi ((hq.mem i).mp (hslot ▸ List.mem_map_of_mem hx))

/-- With the lock free, the RUNNING processes are those of the CPUs, one for each, and are not
in the list, and the pids in use are different. -/
theorem running_iff_on_cpu (hs : Reachable (kernel P Cpu) s) (hlock : s.lock = none) :
    (∀ i, (s.proc i).state = .RUNNING ↔ ∃! c, s.cpuProc c = some i) ∧
    (∀ c c' i, s.cpuProc c = some i → s.cpuProc c' = some i → c = c') ∧
    (∀ c i rest pid, s.thread c = .process i rest pid → ∀ k, k < SKIPLIST_LEVELS →
      ∃ es, levelEntries s.skiplist k = some es ∧ ∀ e ∈ es, e.1 ≠ (s.proc i).pid) ∧
    ∀ i j, (s.proc i).state ≠ .UNUSED → (s.proc j).state ≠ .UNUSED →
      (s.proc i).pid = (s.proc j).pid → i = j := by
  obtain ⟨q, hsafe, hqueue⟩ := inv_of_reachable hs
  have hcpus := hsafe.cpus
  refine ⟨fun i => ⟨?_, ?_⟩, hcpus.inj, ?_, ?_⟩
  · intro hrun
    obtain ⟨c, hc⟩ := hcpus.running i hrun
    exact ⟨c, hc, fun c' hc' => hcpus.inj c' c i hc' hc⟩
  · rintro ⟨c, hc, -⟩
    exact hcpus.running_of_free hlock hc
  · intro c i rest pid ht k hk
    have hc := (hcpus.process c i rest pid ht).1
    have hpos := hsafe.pids.pos i (hcpus.alive c i hc).1
    exact hqueue.levelEntries_ne hsafe.toCore (fun hr => hr.2.1 c hc) hpos hk
  · intro i j hi hj heq
    rcases hsafe.pids.inj i j heq with h | h
    · exact h
    · exact absurd h (hsafe.pids.pos i hi).ne'

/-- Two CPUs, the first with the initial process and the second with its child. -/
theorem running_iff_on_cpu_two :
    ∃ s, boots (atomicKernel 12 (Fin 2)) [.userinit ⟨0, pagesFrom 12 4⟩, .dispatch 0 [⟨0, pagesFrom 12 4⟩],
        .nicefork 0 5 ⟨1, pagesFrom 12 5⟩, .dispatch 1 [⟨0, pagesFrom 12 4⟩]] = some s ∧
      s.cpuProc 0 = some 0 ∧ s.cpuProc 1 = some 1 ∧ (s.proc 1).state = .RUNNING := by
  have hrun : ∃ s ∈ boots (atomicKernel 12 (Fin 2)) [.userinit ⟨0, pagesFrom 12 4⟩,
      .dispatch 0 [⟨0, pagesFrom 12 4⟩], .nicefork 0 5 ⟨1, pagesFrom 12 5⟩,
      .dispatch 1 [⟨0, pagesFrom 12 4⟩]],
      s.lock = none ∧ s.cpuProc 0 = some 0 ∧ s.cpuProc 1 = some 1 := by
    decide +kernel
  obtain ⟨s, hs, hlock, h0, h1⟩ := hrun
  have hcpu := running_iff_on_cpu (reachable_of_atomic (reachable_of_boots rfl hs)).1 hlock
  exact ⟨s, hs, h0, h1, (hcpu.1 1).mpr ⟨1, h1, fun c hc => hcpu.2.1 c 1 1 hc h1⟩⟩

/-! ### The process tree -/

lemma Inv.step_reaped {q : List (Queued P)} {e : Event P Cpu} (h : s.Inv q)
    (hstep : e.step s = some s') :
    s'.reaped = s.reaped ∨ ∃ c draw i j, e = .proceed c draw ∧ s.cpuProc c = some i ∧
      s.pc i = .wait ∧ (s.proc j).parent = some i ∧ (s.proc j).state = .ZOMBIE ∧
      s'.reaped = (s.proc j).pid :: s.reaped ∧ (s'.proc j).state = .UNUSED := by
  rcases h.safe.step_local hstep with ⟨c, rfl⟩ | ⟨c, draw, rfl⟩ | rfl | hlocal
  · exact .inl (scheduler_local hstep).2.1
  · rcases proceed_eq_some hstep with ⟨i, rest, pid, s₁, ht, hback, hloop⟩ |
      ⟨i, rest, pid, ht, ⟨r, hpc, hsched⟩ | ⟨hpc, hwait⟩ | ⟨r, hpc, hresume⟩⟩
    · obtain ⟨s₂, hcalm, -, rfl⟩ := h.safe.switchBack_eq ht hback hloop
      exact .inl hcalm.reaped
    · obtain ⟨i', rest', pid', -, -, rfl⟩ := sched_eq_some hsched
      exact .inl rfl
    · rcases waitLoop_eq_some hwait with ⟨j, hparent, hzombie, rfl⟩ | rfl | ⟨p, -, -, -, rfl⟩
      · exact .inr ⟨c, draw, i, j, rfl, (h.safe.cpus.process c i rest pid ht).1, hpc, hparent,
          hzombie, rfl, by simp [reap, modify]⟩
      · exact .inl rfl
      · exact .inl rfl
    · cases r with
      | exit => simp [resume] at hresume
      | forkret | yield | sleep | wait =>
        obtain rfl := Option.some.inj hresume
        exact .inl rfl
  · obtain rfl := Option.some.inj hstep
    exact .inl rfl
  · exact .inl hlocal.reaped

/-- Every process but the first has a parent that is alive, and its pid is returned by at most
one `wait`, to that parent. -/
theorem tree_and_wait (hs : Reachable (kernel P Cpu) s) :
    (∀ i, (s.proc i).state ≠ .UNUSED → (s.proc i).state ≠ .EMBRYO → s.initproc ≠ some i →
      ∃ w, (s.proc i).parent = some w ∧ (s.proc w).state ≠ .UNUSED ∧ (s.proc w).state ≠ .ZOMBIE) ∧
    (∀ i, (s.proc i).state = .UNUSED → (s.proc i).parent = none) ∧
    (∀ pid, s.reaped.count pid ≤ 1) ∧
    ∀ e s', Event.step e s = some s' → s'.reaped = s.reaped ∨
      ∃ c draw i j, e = .proceed c draw ∧ s.cpuProc c = some i ∧ s.pc i = .wait ∧
        (s.proc j).parent = some i ∧ (s.proc j).state = .ZOMBIE ∧
        s'.reaped = (s.proc j).pid :: s.reaped ∧ (s'.proc j).state = .UNUSED := by
  obtain ⟨q, h⟩ := inv_of_reachable hs
  have htree := h.safe.tree
  refine ⟨?_, htree.unused, ?_, fun e s' hstep => h.step_reaped hstep⟩
  · intro i hi hembryo hinit
    obtain ⟨w, hw⟩ := Option.ne_none_iff_exists'.mp (htree.orphan i hi hembryo hinit)
    have halive := htree.parent i w hw
    refine ⟨w, hw, ?_, ?_⟩ <;> grind
  · exact List.nodup_iff_count_le_one.mp h.safe.pids.nodup

/-- The child of the initial process exits and is returned by `wait`. -/
theorem tree_and_wait_child :
    ∃ s, boots (atomicKernel 12 Unit) [.userinit ⟨0, pagesFrom 12 4⟩, .dispatch () [⟨0, pagesFrom 12 4⟩],
        .nicefork () 5 ⟨1, pagesFrom 12 5⟩, .wait () (List.replicate 3 ⟨0, pagesFrom 12 4⟩),
        .dispatch () [⟨0, pagesFrom 12 4⟩],
        .exit () (fun _ => ⟨0, pagesFrom 12 4⟩) (List.replicate 2 ⟨0, pagesFrom 12 4⟩),
        .dispatch () (List.replicate 2 ⟨0, pagesFrom 12 4⟩)] = some s ∧
      s.reaped = [2] ∧ s.reaped.count 2 ≤ 1 := by
  have hrun : ∃ s ∈ boots (atomicKernel 12 Unit) [.userinit ⟨0, pagesFrom 12 4⟩,
      .dispatch () [⟨0, pagesFrom 12 4⟩], .nicefork () 5 ⟨1, pagesFrom 12 5⟩,
      .wait () (List.replicate 3 ⟨0, pagesFrom 12 4⟩), .dispatch () [⟨0, pagesFrom 12 4⟩],
      .exit () (fun _ => ⟨0, pagesFrom 12 4⟩) (List.replicate 2 ⟨0, pagesFrom 12 4⟩),
      .dispatch () (List.replicate 2 ⟨0, pagesFrom 12 4⟩)], s.reaped = [2] := by
    decide +kernel
  obtain ⟨s, hs, hreaped⟩ := hrun
  have htree := tree_and_wait (reachable_of_atomic (reachable_of_boots rfl hs)).1
  exact ⟨s, hs, hreaped, htree.2.2.1 2⟩

/-! ### wait -/

/-- A process that sleeps in `wait` has a child, and none that has exited, whoever holds the
lock. -/
theorem no_lost_wakeup_in_wait (hs : Reachable (kernel P Cpu) s) (i : Slot)
    (hsleep : (s.proc i).state = .SLEEPING) (hchan : (s.proc i).chan = some (.proc i)) :
    (∃ j, (s.proc j).parent = some i) ∧ ∀ j, (s.proc j).parent = some i → (s.proc j).state ≠ .ZOMBIE := by
  obtain ⟨q, h⟩ := inv_of_reachable hs
  exact (h.safe.waits i i hsleep hchan).2

/-- The initial process waits for its child. -/
theorem no_lost_wakeup_in_wait_init :
    ∃ s, boots (atomicKernel 12 Unit) [.userinit ⟨0, pagesFrom 12 4⟩, .dispatch () [⟨0, pagesFrom 12 4⟩],
        .nicefork () 5 ⟨1, pagesFrom 12 5⟩,
        .wait () (List.replicate 3 ⟨0, pagesFrom 12 4⟩)] = some s ∧
      s.initproc = some 0 ∧ (s.proc 0).state = .SLEEPING ∧
      ∃ j, (s.proc j).parent = some 0 := by
  have hrun : ∃ s ∈ boots (atomicKernel 12 Unit) [.userinit ⟨0, pagesFrom 12 4⟩,
      .dispatch () [⟨0, pagesFrom 12 4⟩], .nicefork () 5 ⟨1, pagesFrom 12 5⟩,
      .wait () (List.replicate 3 ⟨0, pagesFrom 12 4⟩)],
      s.initproc = some 0 ∧ (s.proc 0).state = .SLEEPING ∧
      (s.proc 0).chan = some (.proc 0) := by
    decide +kernel
  obtain ⟨s, hs, hinit, hsleep, hchan⟩ := hrun
  have hreach := (reachable_of_atomic (reachable_of_boots rfl hs)).1
  exact ⟨s, hs, hinit, hsleep, (no_lost_wakeup_in_wait hreach 0 hsleep hchan).1⟩

end Kernel

end Xv6Bfs
