import Xv6Bfs.Proofs.KernelQueue

/-!
# Every run keeps the invariants

The invariants of the table and of the list are assembled for each step, and hold in every
reachable state.
-/

namespace Xv6Bfs

open Function Transition

variable {P : ℕ} {Cpu : Type} [DecidableEq Cpu] {s s' : Kernel P Cpu} {c : Cpu} {i j np : Slot}
  {rest : List Slot} {pid : ℤ} {draw : Draw P} {q : List (Queued P)}

namespace Kernel

def Evolves (s : Kernel P Cpu) (q : List (Queued P)) (s' : Kernel P Cpu) (q' : List (Queued P)) : Prop :=
  Grows s q s' q' ∨ ∃ x, q = x :: q' ∧ (s'.proc x.slot).maxLevel = -1 ∧ ∀ y, s'.tower y = s.tower y

structure Inv (s : Kernel P Cpu) (q : List (Queued P)) : Prop where
  safe : s.Safe
  queue : s.QueueOk q

omit [DecidableEq Cpu] in
lemma still_of_ne (hsl : s'.skiplist = s.skiplist) (hqueued : s'.queuedAt = s.queuedAt)
    (henqueues : s'.enqueues = s.enqueues) (hcpu : s'.cpuProc = s.cpuProc)
    (hproc : ∀ k, k ≠ i → s'.proc k = s.proc k)
    (hframe : ∀ k, k ≠ i → ∀ j stage, s'.frame j = some (stage, k) ↔ s.frame j = some (stage, k))
    (hnot : ¬ s.Ready i) (hnot' : ¬ s'.Ready i) : Still s s' := by
  have hne : ∀ k, s.Ready k → k ≠ i := by
    rintro k hk rfl
    exact hnot hk
  refine ⟨hsl, fun k hk => by rw [hproc k (hne k hk)], fun k hk => by rw [hproc k (hne k hk)],
    hqueued, henqueues, ?_⟩
  intro k
  by_cases hk : k = i
  · subst hk
    exact ⟨fun h => absurd h hnot', fun h => absurd h hnot⟩
  · unfold Ready
    rw [hproc k hk, hcpu]
    simp only [hframe k hk]

omit [DecidableEq Cpu] in
lemma still_of_pc {lock : Option Cpu} {pc : Slot → Pc} {charged : Slot → ℕ} {ticks : ℕ} :
    Still s { s with lock := lock, pc := pc, charged := charged, ticks := ticks } :=
  ⟨rfl, fun _ _ => rfl, fun _ _ => rfl, rfl, rfl, fun _ => Iff.rfl⟩

omit [DecidableEq Cpu] in
lemma Still.trans {s₁ s₂ s₃ : Kernel P Cpu} (h₁ : Still s₁ s₂) (h₂ : Still s₂ s₃) : Still s₁ s₃ := by
  refine ⟨h₂.skiplist.trans h₁.skiplist, ?_, ?_, h₂.queuedAt.trans h₁.queuedAt,
    h₂.enqueues.trans h₁.enqueues, fun i => (h₂.ready i).trans (h₁.ready i)⟩
  · intro i hi
    rw [h₂.pid i ((h₁.ready i).mpr hi), h₁.pid i hi]
  · intro i hi
    rw [h₂.deadline i ((h₁.ready i).mpr hi), h₁.deadline i hi]

omit [DecidableEq Cpu] in
lemma Inv.of_still (h : s.Inv q) (hsafe : s'.Safe) (hstill : Still s s') :
    ∃ q', s'.Inv q' ∧ Evolves s q s' q' := by
  obtain ⟨hq, hgrows⟩ := h.queue.of_still hstill
  exact ⟨q, ⟨hsafe, hq⟩, .inl hgrows⟩

/-! ### Sections of the lock -/

omit [DecidableEq Cpu] in
lemma Inv.yield (h : s.Inv q) (hstep : s.yield c = some s') : ∃ q', s'.Inv q' ∧ Evolves s q s' q' := by
  refine h.of_still (h.safe.yield hstep) ?_
  obtain ⟨i, p, rest, pid, -, hp, -, -, rfl⟩ := yield_eq_some hstep
  exact still_leave hp

omit [DecidableEq Cpu] in
lemma Inv.sleep {a : ℕ} (h : s.Inv q) (hstep : s.sleep c a = some s') :
    ∃ q', s'.Inv q' ∧ Evolves s q s' q' := by
  refine h.of_still (h.safe.sleep hstep) ?_
  obtain ⟨i, p, rest, pid, -, hp, -, -, -, rfl⟩ := sleep_eq_some hstep
  exact still_leave hp

omit [DecidableEq Cpu] in
lemma Inv.wait (h : s.Inv q) (hstep : s.wait c = some s') : ∃ q', s'.Inv q' ∧ Evolves s q s' q' := by
  refine h.of_still (h.safe.wait hstep) ?_
  obtain ⟨i, rest, pid, -, -, -, -, rfl⟩ := wait_eq_some hstep
  exact still_of_pc

omit [DecidableEq Cpu] in
lemma Inv.waitLoop (h : s.Inv q) (ht : s.thread c = .process i rest pid) (hpc : s.pc i = .wait)
    (hstep : s.waitLoop c i = some s') : ∃ q', s'.Inv q' ∧ Evolves s q s' q' := by
  refine h.of_still (h.safe.waitLoop ht hpc hstep) ?_
  rcases waitLoop_eq_some hstep with ⟨j, -, hzombie, rfl⟩ | rfl | ⟨p, hp, -, -, rfl⟩
  · refine still_of_ne (i := j) rfl rfl rfl rfl ?_ (fun _ _ _ _ => Iff.rfl) ?_ ?_
    · intro k hk
      simp [Kernel.reap, modify, hk]
    · exact not_ready_of_state (by simp [hzombie])
    · exact not_ready_of_state (by simp [Kernel.reap, modify])
  · exact still_of_pc
  · exact still_leave hp

omit [DecidableEq Cpu] in
lemma Inv.exit {draws : Slot → Draw P} (h : s.Inv q) (hstep : s.exit c draws = some s') :
    ∃ q', s'.Inv q' ∧ Evolves s q s' q' := by
  obtain ⟨q', hq', hgrows⟩ := h.queue.exit h.safe hstep
  exact ⟨q', ⟨h.safe.exit hstep, hq'⟩, .inl hgrows⟩

omit [DecidableEq Cpu] in
lemma Inv.wakeup {a : ℕ} {draws : Slot → Draw P} (h : s.Inv q) (hstep : s.wakeup a draws = some s') :
    ∃ q', s'.Inv q' ∧ Evolves s q s' q' := by
  simp only [Kernel.wakeup, Option.ite_none_right_eq_some] at hstep
  obtain ⟨hlock, hstep⟩ := hstep
  obtain ⟨q', hq', hgrows⟩ := h.queue.wakeup1 h.safe.toCore hlock hstep
  exact ⟨q', ⟨h.safe.of_calm (wakeup1_calm hstep).1, hq'⟩, .inl hgrows⟩

omit [DecidableEq Cpu] in
lemma Inv.kill (h : s.Inv q) (hstep : s.kill pid draw = some s') : ∃ q', s'.Inv q' ∧ Evolves s q s' q' := by
  obtain ⟨q', hq', hgrows⟩ := h.queue.kill h.safe.toCore hstep
  exact ⟨q', ⟨h.safe.of_calm (kill_calm hstep), hq'⟩, .inl hgrows⟩

/-! ### Switches -/

lemma Inv.scheduler (h : s.Inv q) (hstep : s.scheduler c = some s') :
    ∃ q', s'.Inv q' ∧ Evolves s q s' q' := by
  rcases h.queue.scheduler h.safe hstep with
    ⟨rfl, rfl⟩ | ⟨x, q', rest, rfl, -, hsafe, hq', hlevel, htower⟩
  · exact ⟨[], h, .inl (Grows.refl s' [])⟩
  · exact ⟨q', ⟨hsafe, hq'⟩, .inr ⟨x, rfl, hlevel, htower⟩⟩

omit [DecidableEq Cpu] in
lemma resume_still {r : Resume} (h : s.resume i r = some s') : Still s s' := by
  have hchan : Still s (s.modify i (fun p => { p with chan := none })) := still_modify rfl rfl rfl
  cases r with
  | forkret | yield =>
    obtain rfl := Option.some.inj h
    exact still_of_pc
  | sleep | wait =>
    obtain rfl := Option.some.inj h
    exact hchan.trans still_of_pc
  | exit => simp [Kernel.resume] at h

lemma Inv.proceed (h : s.Inv q) (hstep : s.proceed c draw = some s') :
    ∃ q', s'.Inv q' ∧ Evolves s q s' q' := by
  rcases proceed_eq_some hstep with ⟨i, rest, pid, s₁, ht, hback, hloop⟩ |
    ⟨i, rest, pid, ht, ⟨r, hpc, hsched⟩ | ⟨hpc, hwait⟩ | ⟨r, hpc, hresume⟩⟩
  · obtain ⟨-, hsafe, q', hq', hgrows⟩ := h.queue.switchBack h.safe ht hback hloop
    exact ⟨q', ⟨hsafe, hq'⟩, .inl hgrows⟩
  · obtain ⟨i', rest', pid', ht', hlock, rfl⟩ := sched_eq_some hsched
    obtain ⟨rfl, rfl, rfl⟩ : i = i' ∧ rest = rest' ∧ pid = pid' := by simpa [ht] using ht'
    exact h.of_still (h.safe.sched ht hpc hlock)
      ⟨rfl, fun _ _ => rfl, fun _ _ => rfl, rfl, rfl, fun _ => Iff.rfl⟩
  · exact h.waitLoop ht hpc hwait
  · exact h.of_still (h.safe.resume ht hpc hresume) (resume_still hresume)

/-! ### Creation -/

omit [DecidableEq Cpu] in
lemma update_frame_iff {v : Option (ForkStage × Slot)} {k : Slot}
    (hold : ∀ stage, s.frame i ≠ some (stage, k)) (hnew : ∀ stage, v ≠ some (stage, k)) (j : Slot)
    (stage : ForkStage) :
    update s.frame i v j = some (stage, k) ↔ s.frame j = some (stage, k) := by
  by_cases hj : j = i
  · subst hj
    simp [hold stage, hnew stage]
  · simp [hj]

omit [DecidableEq Cpu] in
lemma Inv.nicefork (h : s.Inv q) (hstep : s.nicefork c = some s') :
    ∃ q', s'.Inv q' ∧ Evolves s q s' q' := by
  refine h.of_still (h.safe.nicefork hstep) ?_
  rcases nicefork_eq_some hstep with rfl | ⟨i, rest, pid, np, -, -, hframe, -, hunused, rfl⟩
  · exact still_of_pc
  · refine still_of_ne (i := np) rfl rfl rfl rfl (fun k hk => by simp [hk]) ?_ ?_ ?_
    · intro k hk
      exact update_frame_iff (by simp [hframe]) (by simp [Ne.symm hk])
    · exact not_ready_of_state (by simp [hunused])
    · exact not_ready_of_state (by simp)

omit [DecidableEq Cpu] in
lemma still_forking {stage : ForkStage} {p : Proc} {v : Option (ForkStage × Slot)}
    (hframe : s.frame i = some (stage, np)) (hstage : stage ≠ .linking)
    (hnew : ∀ k, k ≠ np → ∀ stage, v ≠ some (stage, k))
    (hnot : p.state ≠ .RUNNABLE ∨ ∃ stage', stage' ≠ .linking ∧ v = some (stage', np)) :
    Still s { s with proc := update s.proc np p, frame := update s.frame i v } := by
  refine still_of_ne (i := np) rfl rfl rfl rfl (fun k hk => by simp [hk]) ?_ ?_ ?_
  · intro k hk
    exact update_frame_iff (by simp [hframe, Ne.symm hk]) (hnew k hk)
  · exact fun hr => hstage (hr.2.2 i stage hframe)
  · intro hr
    rcases hnot with hstate | ⟨stage', hstage', rfl⟩
    · exact hstate (by simpa using hr.1)
    · exact hstage' (hr.2.2 i stage' (by simp))

omit [DecidableEq Cpu] in
lemma Inv.niceforkFail (h : s.Inv q) (hstep : s.niceforkFail c = some s') :
    ∃ q', s'.Inv q' ∧ Evolves s q s' q' := by
  refine h.of_still (h.safe.niceforkFail hstep) ?_
  obtain ⟨i, np, -, hframe, rfl⟩ := niceforkFail_eq_some hstep
  exact still_forking hframe (by simp) (by simp) (.inl (by simp))

omit [DecidableEq Cpu] in
lemma Inv.niceforkCopy (h : s.Inv q) (hstep : s.niceforkCopy c = some s') :
    ∃ q', s'.Inv q' ∧ Evolves s q s' q' := by
  refine h.of_still (h.safe.niceforkCopy hstep) ?_
  obtain ⟨i, np, -, hframe, rfl⟩ := niceforkCopy_eq_some hstep
  exact still_forking hframe (by simp) (fun k hk => by simp [Ne.symm hk])
    (.inr ⟨_, by simp, rfl⟩)

omit [DecidableEq Cpu] in
lemma Inv.niceforkPublish (h : s.Inv q) (hstep : s.niceforkPublish c = some s') :
    ∃ q', s'.Inv q' ∧ Evolves s q s' q' := by
  refine h.of_still (h.safe.niceforkPublish hstep) ?_
  obtain ⟨i, np, -, hframe, rfl⟩ := niceforkPublish_eq_some hstep
  exact still_forking hframe (by simp) (fun k hk => by simp [Ne.symm hk])
    (.inr ⟨_, by simp, rfl⟩)

omit [DecidableEq Cpu] in
lemma Inv.niceforkInsert {niceValue : ℤ} (h : s.Inv q)
    (hstep : s.niceforkInsert c niceValue draw = some s') :
    ∃ q', s'.Inv q' ∧ Evolves s q s' q' := by
  have hsafe := h.safe.niceforkInsert hstep
  obtain ⟨i, np, s₁, -, -, hframe, hins, rfl⟩ := niceforkInsert_eq_some hstep
  obtain ⟨hrunnable, -, hoff⟩ := h.safe.frames.published i np hframe
  have hnp : np ∉ q.map Queued.slot := by
    rw [h.queue.mem]
    exact fun hr => by simpa using hr.2.2 i _ hframe
  obtain ⟨q', hlist, hgrows, hmem⟩ := h.queue.toListOk.insert_new hnp hins
    rfl rfl rfl (fun k hk => by simp [setNice, setDeadline, modify, hk])
  refine ⟨q', ⟨hsafe, hlist.of_agree rfl (fun _ _ => rfl) (fun _ _ => rfl) le_rfl, ?_⟩,
    .inl ⟨hgrows.entry, hgrows.fresh, hgrows.sublist, hgrows.mono⟩⟩
  obtain ⟨sl, -, rfl⟩ := insertProc_eq_some hins
  intro k
  rw [hmem, h.queue.mem]
  by_cases hk : k = np
  · subst hk
    refine ⟨fun _ => ⟨?_, hoff, ?_⟩, fun _ => .inl rfl⟩
    · simp [setNice, setDeadline, modify, hrunnable]
    · intro j stage hj
      change update s.frame i none j = some (stage, k) at hj
      have hji : j ≠ i := by
        rintro rfl
        simp at hj
      rw [update_of_ne hji] at hj
      by_contra hlink
      exact hji (h.safe.frames.inj j i stage _ k hj hframe hlink (by simp))
  · have hframes := update_frame_iff (s := s) (i := i) (v := none) (k := k)
      (by simp [hframe, Ne.symm hk]) (by simp)
    unfold Ready
    simp [setNice, setDeadline, modify, hk, hframes]

omit [DecidableEq Cpu] in
lemma Inv.userinit (h : s.Inv q) (hstep : s.userinit draw = some s') :
    ∃ q', s'.Inv q' ∧ Evolves s q s' q' := by
  have hsafe := h.safe.userinit hstep
  obtain ⟨-, -, np, hunused, hins⟩ := userinit_eq_some hstep
  have hnp : np ∉ q.map Queued.slot := by
    rw [h.queue.mem]
    exact not_ready_of_state (by simp [hunused])
  obtain ⟨q', hlist, hgrows, hmem⟩ := h.queue.toListOk.insert_new hnp hins rfl rfl rfl
    (fun k hk => by simp [firstProc, setNice, setDeadline, modify, hk])
  refine ⟨q', ⟨hsafe, hlist, ?_⟩, .inl hgrows⟩
  obtain ⟨sl, -, rfl⟩ := insertProc_eq_some hins
  intro k
  rw [hmem, h.queue.mem]
  by_cases hk : k = np
  · subst hk
    refine ⟨fun _ => ⟨?_, ?_, ?_⟩, fun _ => .inl rfl⟩
    · simp [firstProc, setNice, setDeadline, modify]
    · intro c hc
      exact (h.safe.cpus.alive c k hc).1 hunused
    · intro j stage hj
      exact h.safe.frames.stage_eq (by simp [hunused]) (by simp [hunused]) hj
  · unfold Ready
    simp [firstProc, setNice, setDeadline, modify, hk]

/-! ### Traps -/

omit [DecidableEq Cpu] in
lemma Inv.charge (h : s.Inv q) (hstep : s.charge c = some s') : ∃ q', s'.Inv q' ∧ Evolves s q s' q' := by
  refine h.of_still (h.safe.charge hstep) ?_
  rcases charge_eq_some hstep with rfl | ⟨i, p, rest, pid, -, -, -, -, rfl⟩
  · exact still_of_pc
  · have hticks : Still s (s.modify p (fun p => { p with ticksLeft := p.ticksLeft - 1 })) :=
      still_modify rfl rfl rfl
    exact hticks.trans still_of_pc

omit [DecidableEq Cpu] in
lemma Inv.fault (h : s.Inv q) (hstep : s.fault c = some s') : ∃ q', s'.Inv q' ∧ Evolves s q s' q' := by
  refine h.of_still (h.safe.of_calm (fault_calm hstep)) ?_
  obtain ⟨p, rfl⟩ := fault_eq_some hstep
  exact still_modify rfl rfl rfl

/-! ### Steps and runs -/

theorem Inv.step {e : Event P Cpu} (h : s.Inv q) (hstep : e.step s = some s') :
    ∃ q', s'.Inv q' ∧ Evolves s q s' q' := by
  cases e with
  | userinit draw => exact h.userinit hstep
  | scheduler c => exact h.scheduler hstep
  | proceed c draw => exact h.proceed hstep
  | yield c => exact h.yield hstep
  | sleep c a => exact h.sleep hstep
  | wait c => exact h.wait hstep
  | exit c draws => exact h.exit hstep
  | wakeup a draws => exact h.wakeup hstep
  | kill pid draw => exact h.kill hstep
  | nicefork c => exact h.nicefork hstep
  | niceforkFail c => exact h.niceforkFail hstep
  | niceforkCopy c => exact h.niceforkCopy hstep
  | niceforkPublish c => exact h.niceforkPublish hstep
  | niceforkInsert c niceValue draw => exact h.niceforkInsert hstep
  | tick =>
    obtain rfl := Option.some.inj hstep
    have hcalm : Calm s { s with ticks := s.ticks + 1 } := by constructor <;> simp
    exact h.of_still (h.safe.of_calm hcalm) still_of_pc
  | charge c => exact h.charge hstep
  | fault c => exact h.fault hstep

lemma inv_boot {sl : Skiplist P} (hts : Towers sl []) : (boot sl : Kernel P Cpu).Inv [] := by
  refine ⟨safe_boot sl, ⟨hts, List.Pairwise.nil, by simp⟩, ?_⟩
  intro i
  simp [Ready, boot]

theorem inv_of_reachable (hs : Reachable (kernel P Cpu) s) : ∃ q, s.Inv q := by
  refine Reach.invariant (fun s => ∃ q, s.Inv q) ?_ ?_ hs
  · rintro s ⟨pages, junk, sl, hinit, rfl⟩
    obtain ⟨hr, hlevels⟩ := initSkiplist_rep hinit
    exact ⟨[], inv_boot ⟨hlevels, hr, by simp⟩⟩
  · rintro s e s' ⟨q, hq⟩ - hstep
    obtain ⟨q', hq', -⟩ := hq.step hstep
    exact ⟨q', hq'⟩

/-- The atomic operations only lead to states that the kernel can reach, and end quietly. -/
lemma reachable_of_atomic {ok : Kernel P Cpu → Action P Cpu → Prop}
    (hs : Reach (atomicKernel P Cpu) ok s) : Reachable (kernel P Cpu) s ∧ s.Quiet := by
  refine Reach.invariant (fun s => Reachable (kernel P Cpu) s ∧ s.Quiet) ?_ ?_ hs
  · rintro s hinit
    refine ⟨Reach.init hinit, ?_⟩
    obtain ⟨pages, junk, sl, -, rfl⟩ := hinit
    exact ⟨rfl, fun _ => rfl⟩
  · rintro s a s' ⟨hs, -⟩ - hstep
    obtain ⟨hrun, hquiet⟩ := Option.filter_eq_some_iff.mp hstep
    exact ⟨hs.run hrun, by simpa using hquiet⟩

def boots {ε : Type} (m : System (Kernel P Cpu) ε) (es : List ε) : Option (Kernel P Cpu) := do
  let sl ← initSkiplist (pagesFrom P 0) none
  run m es (boot sl)

lemma reachable_of_boots {ε : Type} {m : System (Kernel P Cpu) ε} {es : List ε}
    (hm : m.init = (kernel P Cpu).init) (h : boots m es = some s) : Reachable m s := by
  simp only [boots, Option.bind_eq_bind, Option.bind_eq_some_iff] at h
  obtain ⟨sl, hinit, hrun⟩ := h
  exact Reachable.run (Reach.init (hm ▸ ⟨_, _, sl, hinit, rfl⟩)) hrun

def oneCpu : Kernel 12 Unit :=
  boot ((initSkiplist (pagesFrom 12 0) none).get (by decide +kernel))

lemma oneCpu_init : (kernel 12 Unit).init oneCpu :=
  ⟨pagesFrom 12 0, none, _, (Option.some_get _).symm, rfl⟩

end Kernel

end Xv6Bfs
