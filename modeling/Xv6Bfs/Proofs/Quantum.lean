import Xv6Bfs.Proofs.KernelLife

/-!
# One quantum for each deadline

`trap` charges a tick to `ticks_left`, `scheduler` resets it to a full quantum at each
dispatch, and refreshes the deadline only if it has come down to zero. The charges for one
deadline stay within a quantum as long as nobody leaves the CPU in the middle of one.
-/

namespace Xv6Bfs

namespace Kernel

open Transition

variable {P : ℕ} {Cpu : Type} [DecidableEq Cpu] {s s' : Kernel P Cpu}

/-- A process that gives up the CPU has used all of its quantum or nothing of it. -/
def WholeQuanta (s : Kernel P Cpu) (e : Event P Cpu) : Prop :=
  ∀ s' ∈ e.step s, ∀ i, (s.proc i).state = .RUNNING →
    (s'.proc i).state = .RUNNABLE ∨ (s'.proc i).state = .SLEEPING →
    (s.proc i).ticksLeft = 0 ∨ (s.proc i).ticksLeft = BFS_DEFAULT_QUANTUM

instance (s : Kernel P Cpu) (e : Event P Cpu) : Decidable (WholeQuanta s e) := by
  unfold WholeQuanta
  infer_instance

lemma quantumOk_of_reach (hs : Reach (kernel P Cpu) WholeQuanta s) :
    (∃ q, s.Inv q) ∧ ∀ i, ∃ ph, s.In i ph ∧ QuantumOk ph (s.account i) := by
  refine Reach.invariant
    (fun s => (∃ q, s.Inv q) ∧ ∀ i, ∃ ph, s.In i ph ∧ QuantumOk ph (s.account i)) ?_ ?_ hs
  · rintro s ⟨pages, junk, sl, hinit, rfl⟩
    refine ⟨inv_of_reachable (Reach.init ⟨pages, junk, sl, hinit, rfl⟩), ?_⟩
    intro i
    exact ⟨.unborn, .inl rfl, by simp [QuantumOk, account, boot, BFS_DEFAULT_QUANTUM]⟩
  · rintro s e s' ⟨⟨q, hq⟩, hquantum⟩ hwhole hstep
    obtain ⟨q', hq', -⟩ := hq.step hstep
    refine ⟨⟨q', hq'⟩, ?_⟩
    intro i
    obtain ⟨ph, hph, ha⟩ := hquantum i
    obtain ⟨ph', hph', hlife⟩ := hq.step_lives hstep i ph hph
    refine ⟨ph', hph', hlife.quantumOk ha ?_⟩
    rintro rfl hleave
    refine hwhole s' hstep i hph.1 ?_
    rcases hleave with rfl | rfl
    · exact .inl hph'.1
    · exact .inr hph'

/-- In a run in which processes give up the CPU only with a whole quantum or none, no process
is charged more than a quantum for one deadline. -/
theorem charged_le_quantum (hs : Reach (kernel P Cpu) WholeQuanta s) (i : Slot) :
    s.charged i ≤ BFS_DEFAULT_QUANTUM := by
  obtain ⟨ph, -, ha⟩ := (quantumOk_of_reach hs).2 i
  exact ha.charged_le

/-- The first process uses up its first quantum. -/
theorem charged_le_quantum_full :
    ∃ s, boots ((kernel 12 Unit).restrict WholeQuanta)
        (.userinit ⟨0, pagesFrom 12 4⟩ :: .scheduler () :: .proceed () ⟨0, pagesFrom 12 4⟩ ::
          List.replicate 50 (.charge ())) = some s ∧
      s.charged 0 = 50 ∧ s.charged 0 ≤ BFS_DEFAULT_QUANTUM := by
  have hrun : ∃ s ∈ boots ((kernel 12 Unit).restrict WholeQuanta)
      (.userinit ⟨0, pagesFrom 12 4⟩ :: .scheduler () :: .proceed () ⟨0, pagesFrom 12 4⟩ ::
        List.replicate 50 (.charge ())), s.charged 0 = 50 := by
    decide +kernel
  obtain ⟨s, hs, hcharged⟩ := hrun
  exact ⟨s, hs, hcharged, charged_le_quantum (reach_of_restrict (reachable_of_boots rfl hs)) 0⟩

def yieldedOnce : Kernel 12 Unit :=
  (boots (atomicKernel 12 Unit) (.userinit ⟨0, pagesFrom 12 4⟩ :: .dispatch () [⟨0, pagesFrom 12 4⟩] :: .charge () ::
    .yield () (List.replicate 2 ⟨0, pagesFrom 12 4⟩) :: .dispatch () [⟨0, pagesFrom 12 4⟩] ::
    List.replicate 50 (.charge ()))).get (by decide +kernel)

/-- A process that yields after one tick gets a full quantum for its old deadline. -/
theorem charged_beyond_quantum : ∃ s, Reachable (kernel 12 Unit) s ∧ BFS_DEFAULT_QUANTUM < s.charged 0 := by
  refine ⟨yieldedOnce, ?_, by decide +kernel⟩
  exact (reachable_of_atomic (reachable_of_boots rfl (Option.some_get _).symm)).1

/-! ### Ticks since the last dispatch -/

/-- The ticks charged to a process since its last dispatch, behind a step from `s` to `s'`. -/
def sinceDispatch (s s' : Kernel P Cpu) (count : Slot → ℕ) (i : Slot) : ℕ :=
  if (s.proc i).state ≠ .RUNNING ∧ (s'.proc i).state = .RUNNING then 0
  else if s'.charged i = s.charged i + 1 then count i + 1
  else count i

def metered (P : ℕ) (Cpu : Type) [DecidableEq Cpu] : System (Kernel P Cpu × (Slot → ℕ)) (Event P Cpu) where
  init x := (kernel P Cpu).init x.1 ∧ x.2 = fun _ => 0
  step e x := (e.step x.1).map (fun s' => (s', sinceDispatch x.1 s' x.2))

def MeterOk : Phase → Account → ℕ → Prop
  | .running, a, n => n + a.ticksLeft = BFS_DEFAULT_QUANTUM ∧ 0 < a.ticksLeft
  | .preempted, a, n => n + a.ticksLeft = BFS_DEFAULT_QUANTUM ∧ a.ticksLeft = 0
  | .leaving, a, n => n + a.ticksLeft = BFS_DEFAULT_QUANTUM ∧ 0 ≤ a.ticksLeft
  | .unborn, _, _ | .queued, _, _ | .asleep, _, _ | .dead, _, _ => True

variable {i : Slot} {count : Slot → ℕ}

omit [DecidableEq Cpu] in
lemma In.running_iff {ph : Phase} (h : s.In i ph) (hf : s.FramesOk) :
    (s.proc i).state = .RUNNING ↔ ph = .running ∨ ph = .preempted := by
  have hpublished := fun j => hf.published j i
  constructor
  · intro hrun
    rcases h.of_running hf hrun with ⟨hph, -⟩ | ⟨hph, -⟩
    · exact .inl hph
    · exact .inr hph
  · rintro (rfl | rfl)
    · exact h.1
    · exact h.1

omit [DecidableEq Cpu] in
lemma sinceDispatch_of_dispatch (hrun : (s.proc i).state ≠ .RUNNING)
    (hrun' : (s'.proc i).state = .RUNNING) : sinceDispatch s s' count i = 0 :=
  if_pos ⟨hrun, hrun'⟩

omit [DecidableEq Cpu] in
lemma sinceDispatch_of_charge (hrun : (s.proc i).state = .RUNNING)
    (hcharged : s'.charged i = s.charged i + 1) : sinceDispatch s s' count i = count i + 1 := by
  unfold sinceDispatch
  rw [if_neg (fun h => h.1 hrun), if_pos hcharged]

omit [DecidableEq Cpu] in
lemma sinceDispatch_of_same
    (hrun : (s'.proc i).state = .RUNNING → (s.proc i).state = .RUNNING)
    (hcharged : s'.charged i = s.charged i) : sinceDispatch s s' count i = count i := by
  unfold sinceDispatch
  rw [if_neg (fun h => h.1 (hrun h.2)), if_neg (by omega)]

omit [DecidableEq Cpu] in
lemma meterOk_step {ph ph' : Phase} {n : ℤ} (hf : s.FramesOk)
    (hf' : s'.FramesOk) (hph : s.In i ph) (hph' : s'.In i ph')
    (hlife : Life s.ticks n ph (s.account i) ph' (s'.account i))
    (hok : MeterOk ph (s.account i) (count i)) :
    MeterOk ph' (s'.account i) (sinceDispatch s s' count i) := by
  have hrun := hph.running_iff hf
  have hrun' := hph'.running_iff hf'
  have hcharged : (s'.account i).charged = s'.charged i := rfl
  have hcharged₀ : (s.account i).charged = s.charged i := rfl
  generalize s.account i = a at hlife hok hcharged₀
  generalize s'.account i = a' at hlife hcharged
  cases hlife with
  | stay =>
    rw [sinceDispatch_of_same (fun h => hrun.mpr (hrun'.mp h)) (hcharged.symm.trans hcharged₀)]
    exact hok
  | create | sleep | exit | requeue | wake | reap => trivial
  | dispatch =>
    rw [sinceDispatch_of_dispatch (by simp [hrun]) (by simp [hrun'])]
    exact ⟨by simp, (by decide : 0 < BFS_DEFAULT_QUANTUM)⟩
  | yield =>
    rw [sinceDispatch_of_same (fun _ => hrun.mpr (.inl rfl)) (hcharged.symm.trans hcharged₀)]
    exact ⟨hok.1, hok.2.le⟩
  | preempt =>
    rw [sinceDispatch_of_same (fun _ => hrun.mpr (.inr rfl)) (hcharged.symm.trans hcharged₀)]
    exact ⟨hok.1, hok.2.ge⟩
  | charge =>
    obtain ⟨hsum, hpos⟩ := hok
    rw [sinceDispatch_of_charge (hrun.mpr (.inl rfl)) (by rw [← hcharged, ← hcharged₀])]
    by_cases hzero : a.ticksLeft - 1 = 0
    · rw [if_pos hzero]
      exact ⟨by push_cast; omega, hzero⟩
    · rw [if_neg hzero]
      exact ⟨by push_cast; omega, (by omega : 0 < a.ticksLeft - 1)⟩

lemma meterOk_of_reachable (hs : Reachable (metered P Cpu) (s, count)) :
    (∃ q, s.Inv q) ∧ ∀ i, ∃ ph, s.In i ph ∧ MeterOk ph (s.account i) (count i) := by
  refine Reach.invariant (fun x => (∃ q, x.1.Inv q) ∧
    ∀ i, ∃ ph, x.1.In i ph ∧ MeterOk ph (x.1.account i) (x.2 i)) ?_ ?_ hs
  · rintro ⟨s, count⟩ ⟨⟨pages, junk, sl, hinit, rfl⟩, rfl⟩
    refine ⟨inv_of_reachable (Reach.init ⟨pages, junk, sl, hinit, rfl⟩), ?_⟩
    exact fun i => ⟨.unborn, .inl rfl, trivial⟩
  · rintro ⟨s, count⟩ e ⟨s', count'⟩ ⟨⟨q, hq⟩, hmeter⟩ - hstep
    obtain ⟨t, ht, hpair⟩ := Option.map_eq_some_iff.mp hstep
    obtain ⟨rfl, rfl⟩ := Prod.mk.inj hpair
    obtain ⟨q', hq', -⟩ := hq.step ht
    refine ⟨⟨q', hq'⟩, ?_⟩
    intro i
    obtain ⟨ph, hph, hok⟩ := hmeter i
    obtain ⟨ph', hph', hlife⟩ := hq.step_lives ht i ph hph
    exact ⟨ph', hph', meterOk_step hq.safe.frames hq'.safe.frames hph hph' hlife hok⟩

/-- A running process has between one tick and a quantum left unless `trap` is about to make it
yield. It comes back to the scheduler with none left exactly if it was charged a quantum since its
last dispatch, and exactly then its deadline is computed anew before it is queued. -/
theorem ticksLeft_meters_quantum {count : Slot → ℕ} (hs : Reachable (metered P Cpu) (s, count)) :
    (∀ i, (s.proc i).state = .RUNNING → s.pc i ≠ .preempt →
      1 ≤ (s.proc i).ticksLeft ∧ (s.proc i).ticksLeft ≤ BFS_DEFAULT_QUANTUM) ∧
    ∀ c i rest pid, s.thread c = .returned i rest pid → (s.proc i).state = .RUNNABLE →
      ((s.proc i).ticksLeft = 0 ↔ count i = BFS_DEFAULT_QUANTUM) ∧
      ∀ draw s', (Event.proceed c draw).step s = some s' → (s'.proc i).virtualDeadline =
        if count i = BFS_DEFAULT_QUANTUM then computeVirtualDeadline s.ticks (s.proc i).niceValue
        else (s.proc i).virtualDeadline := by
  obtain ⟨⟨q, hq⟩, hmeter⟩ := meterOk_of_reachable hs
  refine ⟨?_, ?_⟩
  · intro i hrun hpc
    obtain ⟨ph, hph, hok⟩ := hmeter i
    rcases hph.of_running hq.safe.frames hrun with ⟨rfl, -⟩ | ⟨-, h⟩
    · simp only [MeterOk, account] at hok
      omega
    · exact absurd h hpc
  · intro c i rest pid ht hrunnable
    obtain ⟨hc, -, -⟩ := hq.safe.cpus.returned c i rest pid ht
    have hzero : (s.proc i).ticksLeft = 0 ↔ count i = BFS_DEFAULT_QUANTUM := by
      obtain ⟨ph, hph, hok⟩ := hmeter i
      have hpublished : ∀ j, s.frame j ≠ some (.published, i) := by
        intro j hj
        exact (hq.safe.frames.published j i hj).2.2 c hc
      obtain rfl : ph = .leaving := by cases ph <;> simp_all [In]
      simp only [MeterOk, account] at hok
      omega
    refine ⟨hzero, ?_⟩
    intro draw s' hstep
    rcases proceed_eq_some hstep with ⟨i', rest', pid', s₁, ht', hback, hloop⟩ | ⟨_, _, _, ht', -⟩
    · rw [ht] at ht'
      obtain ⟨rfl, rfl, rfl⟩ := Thread.returned.inj ht'
      obtain ⟨s₂, -, ⟨-, hins⟩ | ⟨hne, -⟩, rfl⟩ := hq.safe.switchBack_eq ht hback hloop
      · have haccount := (insertProc_keeps hins).account i
        rw [refreshed_account_self] at haccount
        have hdeadline := congrArg Account.virtualDeadline haccount
        change (s₂.proc i).virtualDeadline = _ at hdeadline
        change (s₂.proc i).virtualDeadline = _
        rw [hdeadline]
        change Account.virtualDeadline (if (s.proc i).ticksLeft = 0 then _ else _) = _
        by_cases hx : (s.proc i).ticksLeft = 0
        · rw [if_pos hx, if_pos (hzero.mp hx)]
          rfl
        · rw [if_neg hx, if_neg (fun h => hx (hzero.mpr h))]
          rfl
      · exact absurd hrunnable hne
    · rw [ht] at ht'
      exact absurd ht' (by simp)

/-- The first process comes back to the scheduler behind its first quantum. -/
theorem ticksLeft_meters_quantum_full :
    ∃ x, Reachable (metered 12 Unit) x ∧ x.1.thread () = .returned 0 (List.finRange NPROC).tail 1 ∧
      (x.1.proc 0).ticksLeft = 0 ∧ x.2 0 = 50 ∧
      ((x.1.proc 0).ticksLeft = 0 ↔ x.2 0 = BFS_DEFAULT_QUANTUM) := by
  have hrun : ∃ x ∈ run (metered 12 Unit)
      (.userinit ⟨0, pagesFrom 12 4⟩ :: .scheduler () :: .proceed () ⟨0, pagesFrom 12 4⟩ ::
        (List.replicate 50 (.charge ()) ++ [.yield (), .proceed () ⟨0, pagesFrom 12 4⟩]))
      (oneCpu, fun _ => 0), x.1.thread () = .returned 0 (List.finRange NPROC).tail 1 ∧
        (x.1.proc 0).state = .RUNNABLE ∧ (x.1.proc 0).ticksLeft = 0 ∧ x.2 0 = 50 := by
    decide +kernel
  obtain ⟨x, hx, hthread, hrunnable, hticks, hcount⟩ := hrun
  have hreach : Reachable (metered 12 Unit) x := Reachable.run (.init ⟨oneCpu_init, rfl⟩) hx
  exact ⟨x, hreach, hthread, hticks, hcount,
    ((ticksLeft_meters_quantum hreach).2 () 0 _ 1 hthread hrunnable).1⟩

end Kernel

end Xv6Bfs
