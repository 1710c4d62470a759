import Xv6Bfs.Proofs.KernelLife

/-!
# Earliest virtual deadline first

For runs of atomic operations: the list holds the RUNNABLE processes with their deadlines, and
a dispatch takes the process with the earliest deadline, the one that was queued first among
equals.
-/

namespace Xv6Bfs

open List Transition

variable {P : ℕ} {Cpu : Type} [DecidableEq Cpu] {s s' : Kernel P Cpu} {c : Cpu} {i : Slot}
  {pid : ℤ} {q : List (Queued P)} {x : Queued P}

namespace Kernel

/-! ### The list -/

omit [DecidableEq Cpu] in
lemma Quiet.ready_iff (hquiet : s.Quiet) (hs : s.CpusOk) (i : Slot) :
    s.Ready i ↔ (s.proc i).state = .RUNNABLE := by
  refine ⟨fun h => h.1, fun h => ⟨h, ?_, ?_⟩⟩
  · intro c hc
    simpa [h] using hs.running_of_free hquiet.1 hc
  · intro j stage hj
    simp [hquiet.2 j] at hj

omit [DecidableEq Cpu] in
lemma QueueOk.holds (hq : s.QueueOk q) :
    Holds s.skiplist (q.map fun x => ((s.proc x.slot).pid, (s.proc x.slot).virtualDeadline)) := by
  refine ⟨_, hq.towers, ?_⟩
  rw [map_map]
  rfl

omit [DecidableEq Cpu] in
lemma QueueOk.slot_eq (hq : s.QueueOk q) (hs : s.Core) (hx : x ∈ q)
    (hi : (s.proc i).pid = (s.proc x.slot).pid) : i = x.slot := by
  have hpos := hq.pid_pos hs hx
  rcases hs.pids.inj i x.slot hi with h | h
  · exact h
  · omega

omit [DecidableEq Cpu] in
lemma QueueOk.exists_levelEntries (hq : s.QueueOk q) (hs : s.Core) (hquiet : s.Quiet) :
    ∃ es, levelEntries s.skiplist 0 = some es ∧ (es.map Prod.fst).Nodup ∧
      (∀ pid, pid ∈ es.map Prod.fst ↔ ∃ i, (s.proc i).state = .RUNNABLE ∧ (s.proc i).pid = pid) ∧
      ∀ e ∈ es, ∀ i, (s.proc i).pid = e.1 → (s.proc i).virtualDeadline = e.2 := by
  have hpids : (q.map fun x => ((s.proc x.slot).pid, (s.proc x.slot).virtualDeadline)).map Prod.fst =
      (q.map Queued.slot).map (fun i => (s.proc i).pid) := by
    rw [map_map, map_map]
    rfl
  refine ⟨_, hq.holds.levelEntries_eq, ?_, ?_, ?_⟩
  · rw [hpids]
    refine List.Nodup.map_on ?_ hq.nodup
    intro i _ j hj hij
    obtain ⟨x, hx, rfl⟩ := mem_map.mp hj
    exact hq.slot_eq hs hx hij
  · intro pid
    rw [hpids, mem_map]
    simp only [hq.mem, hquiet.ready_iff hs.cpus]
  · intro e he i hi
    obtain ⟨x, hx, rfl⟩ := mem_map.mp he
    rw [hq.slot_eq hs hx hi]

/-- Level 0 of the list holds the pids of the RUNNABLE processes, each once and with the
deadline of its process. -/
theorem level_zero_runnable (hs : Reachable (atomicKernel P Cpu) s) :
    ∃ es, levelEntries s.skiplist 0 = some es ∧ (es.map Prod.fst).Nodup ∧
      (∀ pid, pid ∈ es.map Prod.fst ↔ ∃ i, (s.proc i).state = .RUNNABLE ∧ (s.proc i).pid = pid) ∧
      ∀ e ∈ es, ∀ i, (s.proc i).pid = e.1 → (s.proc i).virtualDeadline = e.2 := by
  obtain ⟨hreach, hquiet⟩ := reachable_of_atomic hs
  obtain ⟨q, hsafe, hq⟩ := inv_of_reachable hreach
  exact hq.exists_levelEntries hsafe.toCore hquiet

/-- The first process runs and its child is queued. -/
theorem level_zero_runnable_child :
    ∃ s, boots (atomicKernel 12 Unit) [.userinit ⟨0, pagesFrom 12 4⟩,
        .dispatch () [⟨0, pagesFrom 12 4⟩], .nicefork () 5 ⟨1, pagesFrom 12 5⟩] = some s ∧
      (s.proc 1).state = .RUNNABLE ∧
      ∃ es, levelEntries s.skiplist 0 = some es ∧ (s.proc 1).pid ∈ es.map Prod.fst := by
  have hrun : ∃ s ∈ boots (atomicKernel 12 Unit) [.userinit ⟨0, pagesFrom 12 4⟩,
      .dispatch () [⟨0, pagesFrom 12 4⟩], .nicefork () 5 ⟨1, pagesFrom 12 5⟩],
      (s.proc 1).state = .RUNNABLE := by
    decide +kernel
  obtain ⟨s, hs, hstate⟩ := hrun
  obtain ⟨es, hes, -, hmem, -⟩ := level_zero_runnable (reachable_of_boots rfl hs)
  exact ⟨s, hs, hstate, es, hes, (hmem _).mpr ⟨1, hstate, rfl⟩⟩

/-! ### Deadlines -/

def Action.niceValue : Action P Cpu → ℤ
  | .nicefork _ niceValue _ => niceValue
  | _ => 0

/-- Nice values are in range and the clock is far from overflow. -/
def Nominal (s : Kernel P Cpu) (a : Action P Cpu) : Prop :=
  s.ticks + 2000 < 2 ^ 31 ∧ NiceOk (Action.niceValue a)

instance (s : Kernel P Cpu) (a : Action P Cpu) : Decidable (Nominal s a) := by
  unfold Nominal
  infer_instance

def DeadlinesOk (s : Kernel P Cpu) : Prop :=
  ∀ i, ∃ ph, s.In i ph ∧ DeadlineOk ph (s.account i)

lemma DeadlinesOk.step {e : Event P Cpu} (hd : s.DeadlinesOk) (h : s.Inv q)
    (hticks : s.ticks + 2000 < 2 ^ 31) (hn : NiceOk e.niceValue) (hstep : e.step s = some s') :
    s'.DeadlinesOk := by
  intro i
  obtain ⟨ph, hph, ha⟩ := hd i
  obtain ⟨ph', hph', hlife⟩ := h.step_lives hstep i ph hph
  exact ⟨ph', hph', hlife.deadlineOk hticks hn ha⟩

lemma DeadlinesOk.run {es : List (Event P Cpu)} (hd : s.DeadlinesOk) (h : ∃ q, s.Inv q)
    (hticks : s.ticks + 2000 < 2 ^ 31) (hes : ∀ e ∈ es, NiceOk e.niceValue ∧ e ≠ .tick)
    (hrun : run (kernel P Cpu) es s = some s') : s'.DeadlinesOk := by
  induction es generalizing s with
  | nil =>
    obtain rfl : s = s' := by simpa using hrun
    exact hd
  | cons e es ih =>
    rw [run_cons, Option.bind_eq_some_iff] at hrun
    obtain ⟨t, hstep, hrest⟩ := hrun
    obtain ⟨hn, he⟩ := hes e (by simp)
    obtain ⟨q, hq⟩ := h
    obtain ⟨q', hq', -⟩ := hq.step hstep
    have hticks' := hq.safe.step_ticks hstep he
    exact ih (hd.step hq hticks hn hstep) ⟨q', hq'⟩ (by omega)
      (fun e he => hes e (mem_cons_of_mem _ he)) hrest

omit [DecidableEq Cpu] in
lemma Action.events_nominal (a : Action P Cpu) (hn : NiceOk (Action.niceValue a)) :
    a = .tick ∨ ∀ e ∈ a.events, NiceOk e.niceValue ∧ e ≠ .tick := by
  have hzero : NiceOk 0 := by decide
  cases a with
  | tick => exact .inl rfl
  | nicefork c niceValue draw =>
    have hn : NiceOk niceValue := hn
    simp [Action.events, Event.niceValue, hzero, hn]
  | _ => simp [Action.events, Event.niceValue, hzero]

lemma deadlinesOk_of_reach (hs : Reach (atomicKernel P Cpu) Nominal s) : s.DeadlinesOk := by
  have hboth : Reachable (kernel P Cpu) s ∧ s.DeadlinesOk := by
    refine Reach.invariant (fun s => Reachable (kernel P Cpu) s ∧ s.DeadlinesOk) ?_ ?_ hs
    · intro s hinit
      refine ⟨Reach.init hinit, ?_⟩
      obtain ⟨pages, junk, sl, -, rfl⟩ := hinit
      exact fun i => ⟨.unborn, .inl rfl, by simp [DeadlineOk]⟩
    · rintro s a s' ⟨hs, hd⟩ ⟨hticks, hn⟩ hstep
      obtain ⟨hrun, -⟩ := Option.filter_eq_some_iff.mp hstep
      refine ⟨hs.run hrun, ?_⟩
      rcases Action.events_nominal a hn with rfl | hes
      · obtain ⟨q, hq⟩ := inv_of_reachable hs
        simp only [Action.events, run_cons, Option.bind_eq_some_iff, run_nil, Option.some.injEq] at hrun
        obtain ⟨t, hstep', rfl⟩ := hrun
        exact hd.step (e := .tick) hq hticks hn hstep'
      · exact hd.run (inv_of_reachable hs) hticks hes hrun
  exact hboth.2

/-! ### Dispatch -/

lemma schedulerLoop_eq_switchTo {l : List Slot} (hi : i ∈ l) (hpid : (s.proc i).pid = pid)
    (huniq : ∀ j, (s.proc j).pid = pid → j = i) :
    ∃ rest, schedulerLoop c pid l s = switchTo c i rest pid s := by
  induction l with
  | nil => simp at hi
  | cons j l ih =>
    unfold schedulerLoop
    by_cases hj : (s.proc j).pid = pid
    · obtain rfl := huniq j hj
      exact ⟨l, by simp [hj]⟩
    · have hil : i ∈ l := by
        rcases mem_cons.mp hi with rfl | hil
        · exact absurd hpid hj
        · exact hil
      obtain ⟨rest, hrest⟩ := ih hil
      exact ⟨rest, by simpa [hj] using hrest⟩

lemma exists_switchTo {rest : List Slot} {sl : Skiplist P} {r : Resume}
    (hdel : deleteNode s.skiplist (s.proc i).pid (s.proc i).virtualDeadline = some sl)
    (hpc : s.pc i = .sched r) :
    ∃ s', switchTo c i rest pid s = some s' ∧ s'.thread c = .process i rest pid := by
  unfold switchTo
  simp [hdel, hpc]

lemma QueueOk.exists_scheduler (hq : s.QueueOk (x :: q)) (hs : s.Safe)
    (ht : s.thread c = .scheduler) (hlock : s.lock = none)
    (hd : 0 ≤ (s.proc x.slot).virtualDeadline) :
    ∃ s' rest, s.scheduler c = some s' ∧ s'.thread c = .process x.slot rest (s.proc x.slot).pid := by
  have hpos := hq.pid_pos hs.toCore mem_cons_self
  have hmin : getMinimum s.skiplist = some (s.proc x.slot).pid := hq.holds.getMinimum_eq
  obtain ⟨sl, hdel, -⟩ := hq.towers.deleteNode_head hd (by
    change (s.proc x.slot).pid ≠ -1
    omega) (by
    intro u hu
    obtain ⟨y, hy, rfl⟩ := mem_map.mp hu
    exact hq.pid_ne_head hs.toCore y hy)
  have hready := (hq.mem x.slot).mp (by simp)
  obtain ⟨r, hpc, -⟩ : ∃ r, s.pc x.slot = .sched r ∧ r ≠ .exit := by
    have := hs.cpus.state x.slot
    rwa [hready.1] at this
  obtain ⟨rest, hloop⟩ := schedulerLoop_eq_switchTo (c := c) (s := { s with lock := some c })
    (mem_finRange x.slot) rfl (fun j hj => hq.slot_eq hs.toCore mem_cons_self hj)
  have hsched : s.scheduler c =
      Kernel.switchTo c x.slot rest (s.proc x.slot).pid { s with lock := some c } := by
    unfold Kernel.scheduler
    simpa [ht, hlock, hmin] using hloop
  obtain ⟨s', hs', ht'⟩ := exists_switchTo (c := c) (s := { s with lock := some c })
    hdel hpc
  exact ⟨s', rest, hsched.trans hs', ht'⟩

/-- The process `p` is next: earliest deadline, then first queued. -/
structure First (s : Kernel P Cpu) (p : Slot) : Prop where
  runnable : (s.proc p).state = .RUNNABLE
  earliest : ∀ j, (s.proc j).state = .RUNNABLE → (s.proc p).virtualDeadline ≤ (s.proc j).virtualDeadline
  queued : ∀ j, (s.proc j).state = .RUNNABLE →
    (s.proc j).virtualDeadline = (s.proc p).virtualDeadline → j ≠ p → s.queuedAt p < s.queuedAt j

omit [DecidableEq Cpu] in
lemma QueueOk.first (hq : s.QueueOk (x :: q)) (hs : s.CpusOk) (hquiet : s.Quiet) : s.First x.slot := by
  have hmem : ∀ j, (s.proc j).state = .RUNNABLE → j = x.slot ∨ ∃ y ∈ q, y.slot = j := by
    intro j hj
    have hj' := (hq.mem j).mpr ((hquiet.ready_iff hs j).mpr hj)
    simpa [eq_comm] using hj'
  have hbefore := (pairwise_cons.mp hq.order).1
  refine ⟨((hq.mem x.slot).mp (by simp)).1, ?_, ?_⟩
  · intro j hj
    rcases hmem j hj with rfl | ⟨y, hy, rfl⟩
    · exact le_rfl
    · rcases hbefore y hy with hlt | ⟨heq, -⟩
      · exact hlt.le
      · exact heq.le
  · intro j hj hd hne
    rcases hmem j hj with rfl | ⟨y, hy, rfl⟩
    · exact absurd rfl hne
    · rcases hbefore y hy with hlt | ⟨-, hlt⟩
      · exact absurd hd hlt.ne'
      · exact hlt

lemma QueueOk.scheduler_first (hq : s.QueueOk q) (hs : s.Safe) (hquiet : s.Quiet)
    {p : Slot} {rest : List Slot} (h : s.scheduler c = some s')
    (ht : s'.thread c = .process p rest pid) :
    s.First p ∧ getMinimum s.skiplist = some pid ∧ ∀ j, (s.proc j).pid = pid ↔ j = p := by
  rcases hq.scheduler hs h with ⟨-, rfl⟩ | ⟨x, q', rest', rfl, ht', -⟩
  · exact absurd ((scheduler_eq_some h).1.symm.trans ht) (by simp)
  · obtain ⟨rfl, -, rfl⟩ : x.slot = p ∧ rest' = rest ∧ (s.proc x.slot).pid = pid := by
      simpa using ht'.symm.trans ht
    refine ⟨hq.first hs.cpus hquiet, hq.holds.getMinimum_eq, fun j => ⟨?_, ?_⟩⟩
    · exact hq.slot_eq hs.toCore mem_cons_self
    · rintro rfl
      rfl

omit [DecidableEq Cpu] in
lemma Action.scheduler_notMem_tail (a : Action P Cpu) (c : Cpu) : Event.scheduler c ∉ a.events.tail := by
  cases a <;> simp [Action.events]

/-- Whenever a CPU starts a process, it is the first of the RUNNABLE ones and the only one
with the pid from the list, and an idle CPU does start one if there is any. -/
theorem dispatch_earliest_deadline (hs : Reach (atomicKernel P Cpu) Nominal s) :
    (∀ a es e es' t t' c p rest pid, Action.events a = es ++ e :: es' →
      run (kernel P Cpu) es s = some t → Event.step e t = some t' →
      t'.thread c = .process p rest pid → t.thread c ≠ .process p rest pid →
      t.First p ∧ getMinimum t.skiplist = some pid ∧ ∀ j, (t.proc j).pid = pid ↔ j = p) ∧
    ∀ c, s.thread c = .scheduler → (∃ j, (s.proc j).state = .RUNNABLE) →
      ∃ s' p rest pid, s.scheduler c = some s' ∧ s'.thread c = .process p rest pid := by
  obtain ⟨hreach, hquiet⟩ := reachable_of_atomic hs
  refine ⟨?_, ?_⟩
  · intro a es e es' t t' c p rest pid ha hrun hstep ht' ht
    obtain ⟨q, hsafe, hq⟩ := inv_of_reachable (hreach.run hrun)
    rcases hsafe.step_thread hstep ht' with h | rfl
    · exact absurd h ht
    -- a dispatch is the start of its operation, so no step comes before it
    · cases es with
      | nil =>
        obtain rfl : s = t := by simpa using hrun
        exact hq.scheduler_first hsafe hquiet hstep ht'
      | cons e₀ es =>
        exact absurd (by simp [ha]) (Action.scheduler_notMem_tail a c)
  · rintro c ht ⟨j, hj⟩
    obtain ⟨q, hsafe, hq⟩ := inv_of_reachable hreach
    have hjq := (hq.mem j).mpr ((hquiet.ready_iff hsafe.cpus j).mpr hj)
    cases q with
    | nil => simp at hjq
    | cons x q =>
      obtain ⟨ph, hph, hd⟩ := deadlinesOk_of_reach hs x.slot
      obtain rfl := hph.of_ready ((hq.mem x.slot).mp (by simp))
      obtain ⟨s', rest, hs', ht'⟩ := hq.exists_scheduler hsafe ht hquiet.1 (hd (by simp)).2
      exact ⟨s', x.slot, rest, _, hs', ht'⟩

/-- The first process has yielded to its child, with which it shares the CPU. -/
theorem dispatch_earliest_deadline_two :
    ∃ s, boots ((atomicKernel 12 Unit).restrict Nominal) [.userinit ⟨0, pagesFrom 12 4⟩,
        .dispatch () [⟨0, pagesFrom 12 4⟩], .nicefork () 5 ⟨1, pagesFrom 12 5⟩,
        .yield () (List.replicate 2 ⟨3, pagesFrom 12 7⟩)] = some s ∧
      (s.proc 0).state = .RUNNABLE ∧ (s.proc 1).state = .RUNNABLE ∧
      ∃ s' p rest pid, s.scheduler () = some s' ∧ s'.thread () = .process p rest pid := by
  have hrun : ∃ s ∈ boots ((atomicKernel 12 Unit).restrict Nominal)
      [.userinit ⟨0, pagesFrom 12 4⟩, .dispatch () [⟨0, pagesFrom 12 4⟩],
        .nicefork () 5 ⟨1, pagesFrom 12 5⟩, .yield () (List.replicate 2 ⟨3, pagesFrom 12 7⟩)],
      (s.proc 0).state = .RUNNABLE ∧ (s.proc 1).state = .RUNNABLE ∧ s.thread () = .scheduler := by
    decide +kernel
  obtain ⟨s, hs, h0, h1, ht⟩ := hrun
  have hreach := reach_of_restrict (reachable_of_boots rfl hs)
  exact ⟨s, hs, h0, h1, (dispatch_earliest_deadline hreach).2 () ht ⟨0, h0⟩⟩

end Kernel

end Xv6Bfs
