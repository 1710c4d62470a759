import Xv6Bfs.Lifecycle
import Xv6Bfs.Proofs.KernelRun

/-!
# The kernel runs one life for each slot

Every step of the kernel is, for the process in each slot, a step of its life. What `Life`
keeps is therefore kept by the kernel.
-/

namespace Xv6Bfs

open Transition

variable {P : ℕ} {Cpu : Type} {s s' t : Kernel P Cpu} {c : Cpu} {i j k np : Slot}
  {rest : List Slot} {pid n : ℤ} {draw : Draw P} {draws : Slot → Draw P} {chan : Option Chan}
  {q : List (Queued P)} {ph : Phase}

def Event.niceValue : Event P Cpu → ℤ
  | .niceforkInsert _ niceValue _ => niceValue
  | _ => 0

namespace Kernel

def account (s : Kernel P Cpu) (i : Slot) : Account where
  niceValue := (s.proc i).niceValue
  virtualDeadline := (s.proc i).virtualDeadline
  ticksLeft := (s.proc i).ticksLeft
  charged := s.charged i

def In (s : Kernel P Cpu) (i : Slot) : Phase → Prop
  | .unborn => (s.proc i).state = .UNUSED ∨ (s.proc i).state = .EMBRYO ∨
      ∃ j, s.frame j = some (.published, i)
  | .queued => (s.proc i).state = .RUNNABLE ∧ (∀ c, s.cpuProc c ≠ some i) ∧
      ∀ j, s.frame j ≠ some (.published, i)
  | .running => (s.proc i).state = .RUNNING ∧ s.pc i ≠ .preempt
  | .preempted => (s.proc i).state = .RUNNING ∧ s.pc i = .preempt
  | .leaving => (s.proc i).state = .RUNNABLE ∧ ∃ c, s.cpuProc c = some i
  | .asleep => (s.proc i).state = .SLEEPING
  | .dead => (s.proc i).state = .ZOMBIE

/-- The step takes slot `k` along its life cycle and charges it as the cycle says. -/
def Lives (s : Kernel P Cpu) (n : ℤ) (s' : Kernel P Cpu) (k : Slot) : Prop :=
  ∀ ph, s.In k ph → ∃ ph', s'.In k ph' ∧ Life s.ticks n ph (s.account k) ph' (s'.account k)

/-! ### Steps that are nothing to a process -/

lemma In.congr (h : s.In k ph) (hstate : (s'.proc k).state = (s.proc k).state)
    (hpc : s'.pc k = .preempt ↔ s.pc k = .preempt)
    (hcpu : ∀ c, s'.cpuProc c = some k ↔ s.cpuProc c = some k)
    (hframe : ∀ j, s'.frame j = some (.published, k) ↔ s.frame j = some (.published, k)) :
    s'.In k ph := by
  cases ph <;> simp_all [In]

lemma lives_of_in (haccount : s'.account k = s.account k) (h : ∀ ph, s.In k ph → s'.In k ph) :
    Lives s n s' k := by
  intro ph hph
  rw [haccount]
  exact ⟨ph, h ph hph, Life.stay ph _⟩

lemma lives_of_same (haccount : s'.account k = s.account k)
    (hstate : (s'.proc k).state = (s.proc k).state)
    (hpc : s'.pc k = .preempt ↔ s.pc k = .preempt)
    (hcpu : ∀ c, s'.cpuProc c = some k ↔ s.cpuProc c = some k)
    (hframe : ∀ j, s'.frame j = some (.published, k) ↔ s.frame j = some (.published, k)) :
    Lives s n s' k :=
  lives_of_in haccount fun _ h => h.congr hstate hpc hcpu hframe

lemma In.of_running (h : s.In k ph) (hf : s.FramesOk) (hrun : (s.proc k).state = .RUNNING) :
    ph = .running ∧ s.pc k ≠ .preempt ∨ ph = .preempted ∧ s.pc k = .preempt := by
  have hpublished := fun j => hf.published j k
  cases ph <;> simp_all [In]

lemma In.of_user (h : s.In k ph) (hs : s.Core) (hpc : (s.pc k).Active) (hne : s.pc k ≠ .preempt) :
    ph = .running := by
  rcases h.of_running hs.frames (hs.cpus.state_of_active hpc) with ⟨hph, -⟩ | ⟨-, h⟩
  · exact hph
  · exact absurd h hne

lemma In.of_ready (h : s.In k ph) (hr : s.Ready k) : ph = .queued := by
  obtain ⟨hrunnable, hoff, hstage⟩ := hr
  have hpublished : ∀ j, s.frame j ≠ some (.published, k) := by
    intro j hj
    simpa using hstage j _ hj
  cases ph <;> simp_all [In]

/-! ### Wakeups -/

structure Keeps (s s' : Kernel P Cpu) : Prop where
  ticks : s'.ticks = s.ticks
  account : ∀ i, s'.account i = s.account i

lemma Keeps.refl (s : Kernel P Cpu) : Keeps s s :=
  ⟨rfl, fun _ => rfl⟩

lemma Keeps.trans (h₁ : Keeps s t) (h₂ : Keeps t s') : Keeps s s' :=
  ⟨h₂.ticks.trans h₁.ticks, fun i => (h₂.account i).trans (h₁.account i)⟩

lemma keeps_modify {f : Proc → Proc} (hnice : (f (s.proc i)).niceValue = (s.proc i).niceValue)
    (hdeadline : (f (s.proc i)).virtualDeadline = (s.proc i).virtualDeadline)
    (hticks : (f (s.proc i)).ticksLeft = (s.proc i).ticksLeft) : Keeps s (s.modify i f) := by
  refine ⟨rfl, ?_⟩
  intro k
  by_cases hk : k = i
  · subst hk
    simp [account, modify, hnice, hdeadline, hticks]
  · simp [account, modify, hk]

lemma insertProc_keeps (h : insertProc draw i s = some s') : Keeps s s' := by
  obtain ⟨sl, -, rfl⟩ := insertProc_eq_some h
  have hlevel : Keeps s (s.modify i (fun p => { p with maxLevel := draw.maxLevel })) :=
    keeps_modify rfl rfl rfl
  exact ⟨rfl, hlevel.account⟩

lemma wake_keeps (h : wake draw i s = some s') : Keeps s s' :=
  Keeps.trans (keeps_modify rfl rfl rfl) (insertProc_keeps h)

lemma wakeup1_keeps (h : wakeup1 chan draws s = some s') : Keeps s s' := by
  refine foldlM_invariant (fun _ t => Keeps s t) ?_ (Keeps.refl s) h
  intro _ i t t' hkeeps hstep
  unfold wakeup1Slot at hstep
  split at hstep
  · exact hkeeps.trans (wake_keeps hstep)
  · exact Option.some.inj hstep ▸ hkeeps

lemma kill_keeps (h : kill pid draw s = some s') : Keeps s s' := by
  obtain ⟨-, rfl | ⟨i, -, ⟨-, hwake⟩ | ⟨-, rfl⟩⟩⟩ := kill_eq_some h
  · exact Keeps.refl s'
  · exact Keeps.trans (keeps_modify rfl rfl rfl) (wake_keeps hwake)
  · exact keeps_modify rfl rfl rfl

lemma reparent_loop_keeps {cur : Slot}
    (h : (List.finRange NPROC).foldlM (reparent cur draws) s = some s') : Keeps s s' := by
  refine foldlM_invariant (fun _ t => Keeps s t) ?_ (Keeps.refl s) h
  intro _ j t t' hkeeps hstep
  unfold reparent at hstep
  dsimp only at hstep
  split at hstep
  · have hparent : Keeps t (t.modify j (fun p => { p with parent := t.initproc })) :=
      keeps_modify rfl rfl rfl
    split at hstep
    · exact (hkeeps.trans hparent).trans (wakeup1_keeps hstep)
    · exact Option.some.inj hstep ▸ hkeeps.trans hparent
  · exact Option.some.inj hstep ▸ hkeeps

lemma lives_of_woken (hs : s.Core) (hlock : s.lock = none) (haccount : s'.account k = s.account k)
    (hstate : (s'.proc k).state = (s.proc k).state ∨
      (s.proc k).state = .SLEEPING ∧ (s'.proc k).state = .RUNNABLE)
    (hpc : s'.pc k = s.pc k) (hcpu : s'.cpuProc = s.cpuProc) (hframe : s'.frame = s.frame) :
    Lives s n s' k := by
  rcases hstate with hsame | ⟨hsleep, hwoken⟩
  · exact lives_of_same haccount hsame (by rw [hpc]) (by simp [hcpu]) (by simp [hframe])
  · intro ph hph
    have hpublished : ∀ j, s.frame j ≠ some (.published, k) := by
      intro j hj
      simpa [hsleep] using (hs.frames.published j k hj).1
    have hoff : ∀ c, s.cpuProc c ≠ some k := by
      intro c hc
      simpa [hsleep] using hs.cpus.running_of_free hlock hc
    obtain rfl : ph = .asleep := by cases ph <;> simp_all [In]
    rw [haccount]
    exact ⟨.queued, ⟨hwoken, by simpa [hcpu] using hoff, by simpa [hframe] using hpublished⟩,
      Life.wake _⟩

lemma Calm.lives (h : Calm s s') (hkeeps : Keeps s s') (hs : s.Core) (hlock : s.lock = none) :
    Lives s n s' k :=
  lives_of_woken hs hlock (hkeeps.account k) (h.state k) (by rw [h.pc]) h.cpuProc h.frame

lemma preempt_iff_update {pc : Pc} (hpc : s.pc i ≠ .preempt) (hpc' : pc ≠ .preempt) :
    Function.update s.pc i pc k = .preempt ↔ s.pc k = .preempt := by
  by_cases hk : k = i
  · subst hk
    simp [hpc, hpc']
  · simp [hk]

/-! ### Leaving the CPU -/

lemma lives_of_ne (hproc : ∀ k, k ≠ i → s'.proc k = s.proc k)
    (hcharged : ∀ k, k ≠ i → s'.charged k = s.charged k) (hpc : ∀ k, k ≠ i → s'.pc k = s.pc k)
    (hcpu : ∀ k, k ≠ i → ∀ c, s'.cpuProc c = some k ↔ s.cpuProc c = some k)
    (hframe : ∀ k, k ≠ i → ∀ j, s'.frame j = some (.published, k) ↔ s.frame j = some (.published, k))
    (hi : Lives s n s' i) : Lives s n s' k := by
  by_cases hk : k = i
  · subst hk
    exact hi
  · refine lives_of_same ?_ (by rw [hproc k hk]) (by rw [hpc k hk]) (hcpu k hk) (hframe k hk)
    simp [account, hproc k hk, hcharged k hk]

lemma yield_lives (hs : s.Core) (h : s.yield c = some s') : Lives s n s' k := by
  obtain ⟨i, p, rest, pid, ht, hp, hlock, hpc, rfl⟩ := yield_eq_some h
  obtain ⟨hc, -⟩ := hs.cpus.process c i rest pid ht
  obtain rfl : i = p := by simpa [hc] using hp
  refine lives_of_ne (i := i) (by simp +contextual) (by simp) (by simp +contextual) (by simp) (by simp) ?_
  intro ph hph
  have hleaving : ∃ c', s.cpuProc c' = some i := ⟨c, hc⟩
  refine ⟨.leaving, by simpa [In] using hleaving, ?_⟩
  rcases hph.of_running hs.frames (hs.cpus.running_of_free hlock hc) with ⟨rfl, -⟩ | ⟨rfl, -⟩
  · simpa [account] using Life.yield _
  · simpa [account] using Life.preempt _

lemma sleep_lives {a : ℕ} (hs : s.Core) (h : s.sleep c a = some s') : Lives s n s' k := by
  obtain ⟨i, p, rest, pid, ht, hp, -, hpc, -, rfl⟩ := sleep_eq_some h
  obtain ⟨hc, -⟩ := hs.cpus.process c i rest pid ht
  obtain rfl : i = p := by simpa [hc] using hp
  refine lives_of_ne (i := i) (by simp +contextual) (by simp) (by simp +contextual) (by simp) (by simp) ?_
  intro ph hph
  obtain rfl := hph.of_user hs (by simp [hpc, Pc.Active]) (by simp [hpc])
  exact ⟨.asleep, by simp [In], by simpa [account] using Life.sleep _⟩

lemma waitLoop_lives (hs : s.Core) (ht : s.thread c = .process i rest pid) (hpc : s.pc i = .wait)
    (h : s.waitLoop c i = some s') : Lives s n s' k := by
  rcases waitLoop_eq_some h with ⟨j, -, hzombie, rfl⟩ | rfl | ⟨p, hp, -, -, rfl⟩
  · by_cases hk : k = j
    · subst hk
      intro ph hph
      have hpublished := fun l => hs.frames.published l k
      obtain rfl : ph = .dead := by cases ph <;> simp_all [In]
      exact ⟨.unborn, by simp [In, Kernel.reap, modify],
        by simpa [account, Kernel.reap, modify] using Life.reap _⟩
    · apply lives_of_same <;> try simp [account, Kernel.reap, modify, hk]
      exact preempt_iff_update (by simp [hpc]) (by simp)
  · apply lives_of_same <;> try simp [account]
    exact preempt_iff_update (by simp [hpc]) (by simp)
  · obtain ⟨hc, -⟩ := hs.cpus.process c i rest pid ht
    obtain rfl : i = p := by simpa [hc] using hp
    refine lives_of_ne (i := i) (by simp +contextual) (by simp) (by simp +contextual) (by simp) (by simp) ?_
    intro ph hph
    obtain rfl := hph.of_user hs (by simp [hpc, Pc.Active]) (by simp [hpc])
    exact ⟨.asleep, by simp [In], by simpa [account] using Life.sleep _⟩

lemma exit_lives (hs : s.Safe) (h : s.exit c draws = some s') : Lives s n s' k := by
  have hkeeps : ∀ i, s'.account i = s.account i := by
    obtain ⟨i, rest, pid, s₁, s₂, -, -, -, -, -, hwake, hloop, rfl⟩ := exit_eq_some h
    have hzombie : Keeps s₂ (s₂.modify i (fun p => { p with state := .ZOMBIE })) :=
      keeps_modify rfl rfl rfl
    exact (((wakeup1_keeps hwake).trans (reparent_loop_keeps hloop)).trans hzombie).account
  obtain ⟨i, rest, pid, r, s₂, ht, hlock, hpc, -, -, -, hrun, -, hhand, -, -, rfl⟩ :=
    hs.exit_handover h
  by_cases hk : k = i
  · subst hk
    intro ph hph
    obtain rfl := hph.of_user hs.toCore (by simp [hpc, Pc.Active]) (by simp [hpc])
    rw [hkeeps]
    exact ⟨.dead, by simp [In], Life.exit _⟩
  · apply lives_of_woken hs.toCore hlock (hkeeps k) _ _ hhand.cpuProc hhand.frame
    · simpa [hk] using hhand.state k
    · simp [hk, hhand.pc]

/-! ### Creation -/

lemma setNice_account_self : (s.setNice n i).account i = { s.account i with
    niceValue := n
    virtualDeadline := computeVirtualDeadline s.ticks n
    charged := 0 } := by
  simp [account, setNice, setDeadline, modify]

lemma setNice_account_of_ne (hk : k ≠ i) : (s.setNice n i).account k = s.account k := by
  simp [account, setNice, setDeadline, modify, hk]

lemma In.eq_unborn (h : s.In k ph)
    (hk : (s.proc k).state = .UNUSED ∨ (s.proc k).state = .EMBRYO) : ph = .unborn := by
  cases ph <;> rcases hk with hk | hk <;> simp_all [In]

lemma lives_unborn (hunborn : ∀ ph, s.In k ph → ph = .unborn) (hunborn' : s'.In k .unborn)
    (haccount : s'.account k = s.account k) : Lives s n s' k := by
  intro ph hph
  obtain rfl := hunborn ph hph
  rw [haccount]
  exact ⟨.unborn, hunborn', Life.stay _ _⟩

lemma nicefork_lives (h : s.nicefork c = some s') : Lives s n s' k := by
  rcases nicefork_eq_some h with rfl | ⟨i, rest, pid, np, -, -, hframe, -, hunused, rfl⟩
  · exact lives_of_in rfl fun _ h => h
  · refine lives_of_ne (i := np) (by simp +contextual) (by simp) (by simp +contextual) (by simp) ?_ ?_
    · intro k hk j
      by_cases hj : j = i <;> simp [hj, hframe]
    · exact lives_unborn (fun ph hph => hph.eq_unborn (.inl hunused)) (by simp [In])
        (by simp [account])

lemma niceforkFail_lives (hs : s.Core) (h : s.niceforkFail c = some s') : Lives s n s' k := by
  obtain ⟨i, np, -, hframe, rfl⟩ := niceforkFail_eq_some h
  have hembryo := (hs.frames.allocated i np hframe).1
  refine lives_of_ne (i := np) (by simp +contextual) (by simp) (by simp) (by simp) ?_ ?_
  · intro k hk j
    by_cases hj : j = i <;> simp [hj, hframe]
  · exact lives_unborn (fun ph hph => hph.eq_unborn (.inr hembryo)) (by simp [In])
      (by simp [account])

lemma niceforkCopy_lives (hs : s.Core) (h : s.niceforkCopy c = some s') : Lives s n s' k := by
  obtain ⟨i, np, -, hframe, rfl⟩ := niceforkCopy_eq_some h
  have hembryo := (hs.frames.allocated i np hframe).1
  refine lives_of_ne (i := np) (by simp +contextual) (by simp) (by simp) (by simp) ?_ ?_
  · intro k hk j
    by_cases hj : j = i <;> simp [hj, hframe]
  · exact lives_unborn (fun ph hph => hph.eq_unborn (.inr hembryo)) (by simp [In, hembryo])
      (by simp [account])

lemma niceforkPublish_lives (hs : s.Core) (h : s.niceforkPublish c = some s') : Lives s n s' k := by
  obtain ⟨i, np, -, hframe, rfl⟩ := niceforkPublish_eq_some h
  have hembryo := (hs.frames.copied i np hframe).1
  refine lives_of_ne (i := np) (by simp +contextual) (by simp) (by simp) (by simp) ?_ ?_
  · intro k hk j
    by_cases hj : j = i <;> simp [hj, hframe, Ne.symm hk]
  · exact lives_unborn (fun ph hph => hph.eq_unborn (.inr hembryo))
      (.inr (.inr ⟨i, by simp⟩)) (by simp [account])

lemma lives_create (hins : insertProc draw np (t.setNice n np) = some s')
    (hproc : ∀ k, k ≠ np → t.proc k = s.proc k) (hcharged : t.charged = s.charged)
    (hticks : t.ticks = s.ticks) (hsame : t.account np = s.account np)
    (hpc : ∀ k, k ≠ np → t.pc k = s.pc k) (hcpu : t.cpuProc = s.cpuProc)
    (hunborn : ∀ ph, s.In np ph → ph = .unborn) (hstate : (t.proc np).state = .RUNNABLE)
    {frame : Slot → Option (ForkStage × Slot)}
    (hframe : ∀ k, k ≠ np → ∀ j, frame j = some (.published, k) ↔ s.frame j = some (.published, k))
    (hoff : ∀ c, s.cpuProc c ≠ some np) (hdone : ∀ j, frame j ≠ some (.published, np)) :
    Lives s n { s' with frame := frame } k := by
  have hcalm := (setNice_calm (s := t) (i := np) n).trans (insertProc_calm hins)
  have hkeeps := insertProc_keeps hins
  have hstate' : ∀ k, (s'.proc k).state = (t.proc k).state := by
    intro k
    rw [insertProc_state hins]
    by_cases hk : k = np <;> simp [setNice, setDeadline, modify, hk]
  by_cases hk : k = np
  · subst hk
    intro ph hph
    obtain rfl := hunborn ph hph
    refine ⟨.queued, ⟨(hstate' k).trans hstate, ?_, hdone⟩, ?_⟩
    · simpa [hcalm.cpuProc, hcpu] using hoff
    · have haccount := hkeeps.account k
      rw [setNice_account_self, hsame, hticks] at haccount
      change Life _ _ _ _ _ (s'.account k)
      rw [haccount]
      exact Life.create _
  · refine lives_of_same ?_ ((hstate' k).trans (by rw [hproc k hk])) ?_ ?_ (hframe k hk)
    · change s'.account k = _
      rw [hkeeps.account, setNice_account_of_ne hk]
      simp [account, hproc k hk, hcharged]
    · simp [hcalm.pc, hpc k hk]
    · simp [hcalm.cpuProc, hcpu]

lemma niceforkInsert_lives (hs : s.Core) (h : s.niceforkInsert c n draw = some s') : Lives s n s' k := by
  obtain ⟨i, np, s₁, -, -, hframe, hins, rfl⟩ := niceforkInsert_eq_some h
  obtain ⟨hrunnable, -, hoff⟩ := hs.frames.published i np hframe
  have hframe₁ : s₁.frame = s.frame := ((setNice_calm n).trans (insertProc_calm hins)).frame
  refine lives_create hins (fun _ _ => rfl) rfl rfl rfl (fun _ _ => rfl) rfl ?_ hrunnable ?_ hoff ?_
  · intro ph hph
    cases ph <;> simp_all [In]
  · intro k hk j
    by_cases hj : j = i <;> simp [hj, hframe, hframe₁, Ne.symm hk]
  · intro j hj
    by_cases hji : j = i
    · simp [hji] at hj
    · rw [Function.update_of_ne hji, hframe₁] at hj
      exact hji (hs.frames.inj j i _ _ np hj hframe (by simp) (by simp))

lemma userinit_lives (hs : s.Core) (h : s.userinit draw = some s') : Lives s 0 s' k := by
  obtain ⟨-, -, np, hunused, hins⟩ := userinit_eq_some h
  have hframe : s'.frame = s.frame := by
    rw [(insertProc_calm hins).frame]
    rfl
  have hlives : Lives s 0 { s' with frame := s.frame } k := by
    refine lives_create (s := s) hins (by simp +contextual) rfl rfl (by simp [account])
      (by simp +contextual) rfl (fun ph hph => hph.eq_unborn (.inl hunused)) (by simp)
      (fun _ _ _ => Iff.rfl) ?_ ?_
    · intro c hc
      exact (hs.cpus.alive c np hc).1 hunused
    · intro j hj
      simpa [hunused] using (hs.frames.published j np hj).1
  rwa [← hframe] at hlives

/-! ### Switches -/

variable [DecidableEq Cpu]

lemma scheduler_lives (h : s.Inv q) (hstep : s.scheduler c = some s') : Lives s n s' k := by
  obtain ⟨ht, hlock, pid, hmin, hloop⟩ := scheduler_eq_some hstep
  have hc := (h.safe.cpus.idle c ht).1
  rcases schedulerLoop_eq_some hloop with ⟨-, rfl⟩ | ⟨l₁, i, rest, -, hi, hswitch⟩
  · exact lives_of_in rfl fun _ h => h
  · rcases h.queue.getMinimum_eq h.safe.toCore hmin with ⟨-, hno⟩ | ⟨x, q', rfl, hx⟩
    · exact absurd hi (hno i)
    · obtain rfl : i = x.slot := (hx i).mp hi
      have hready := (h.queue.mem x.slot).mp (by simp)
      obtain ⟨sl, r, -, -, rfl⟩ := switchTo_eq_some hswitch
      refine lives_of_ne (i := x.slot) (by simp +contextual) (by simp) (by simp +contextual) ?_
        (by simp) ?_
      · intro k hk c'
        by_cases hcc : c' = c
        · simp [hcc, hc, Ne.symm hk]
        · simp [hcc]
      · intro ph hph
        obtain rfl := hph.of_ready hready
        exact ⟨.running, by simp [In], by simpa [account] using Life.dispatch _⟩

omit [DecidableEq Cpu] in
lemma refreshed_account_of_ne (hk : k ≠ i) : (s.refreshed i).account k = s.account k := by
  unfold refreshed
  split
  · simp [account, setDeadline, modify, hk]
  · rfl

omit [DecidableEq Cpu] in
lemma refreshed_account_self : (s.refreshed i).account i =
    if (s.account i).ticksLeft = 0 then { s.account i with
      virtualDeadline := computeVirtualDeadline s.ticks (s.account i).niceValue
      charged := 0 } else s.account i := by
  unfold refreshed
  change _ = if (s.proc i).ticksLeft = 0 then _ else _
  split
  · simp [account, setDeadline, modify]
  · rfl

lemma switchBack_lives (hs : s.Safe) (ht : s.thread c = .returned i rest pid) {s₁ : Kernel P Cpu}
    (hback : switchBack c draw i s = some s₁) (hloop : schedulerLoop c pid rest s₁ = some s') :
    Lives s n s' k := by
  obtain ⟨hc, -, -⟩ := hs.cpus.returned c i rest pid ht
  obtain ⟨s₂, hcalm, hcases, rfl⟩ := hs.switchBack_eq ht hback hloop
  rcases hcases with ⟨hrunnable, hins⟩ | ⟨hrunnable, rfl⟩
  · have hstate : ∀ k, (s₂.proc k).state = (s.proc k).state :=
      fun k => (insertProc_state hins k).trans refreshed_state
    have haccount := (insertProc_keeps hins).account k
    by_cases hk : k = i
    · subst hk
      have hpublished : ∀ j, s.frame j ≠ some (.published, k) := by
        intro j hj
        exact (hs.frames.published j k hj).2.2 c hc
      intro ph hph
      obtain rfl : ph = .leaving := by
        cases ph <;> simp_all [In]
      refine ⟨.queued, ⟨(hstate k).trans hrunnable, ?_, ?_⟩, ?_⟩
      · simp [hcalm.cpuProc, hs.cpus.update_none hc]
      · simpa [hcalm.frame] using hpublished
      · change Life _ _ _ _ _ (s₂.account k)
        rw [haccount, refreshed_account_self]
        exact Life.requeue _
    · refine lives_of_same ?_ (hstate k) (by simp [hcalm.pc]) ?_ (by simp [hcalm.frame])
      · change s₂.account k = _
        rw [haccount, refreshed_account_of_ne hk]
      · simp [hcalm.cpuProc, hs.cpus.update_none hc, hk]
  · refine lives_of_in rfl ?_
    intro ph hph
    by_cases hk : k = i
    · subst hk
      cases ph <;> simp_all [In]
    · exact hph.congr rfl Iff.rfl (by simp [hs.cpus.update_none hc, hk]) (fun _ => Iff.rfl)

omit [DecidableEq Cpu] in
lemma resume_lives {r : Resume} (hpc : s.pc i = .resumed r) (h : s.resume i r = some s') :
    Lives s n s' k := by
  have hne : s.pc i ≠ .preempt := by simp [hpc]
  have hchan : Keeps s (s.modify i (fun p => { p with chan := none })) := keeps_modify rfl rfl rfl
  have hstate : ((s.modify i (fun p => { p with chan := none })).proc k).state = (s.proc k).state := by
    by_cases hk : k = i <;> simp [modify, hk]
  cases r with
  | exit => simp [resume] at h
  | forkret | yield =>
    obtain rfl := Option.some.inj h
    exact lives_of_same rfl rfl (preempt_iff_update hne (by simp)) (by simp) (by simp)
  | sleep | wait =>
    obtain rfl := Option.some.inj h
    exact lives_of_same (hchan.account k) hstate (preempt_iff_update hne (by simp)) (by simp [modify])
      (by simp [modify])

omit [DecidableEq Cpu] in
lemma charge_lives (hs : s.Core) (h : s.charge c = some s') : Lives s n s' k := by
  rcases charge_eq_some h with rfl | ⟨i, p, rest, pid, ht, hp, hpc, hrun, rfl⟩
  · exact lives_of_in rfl fun _ h => h
  · obtain ⟨hc, -⟩ := hs.cpus.process c i rest pid ht
    obtain rfl : i = p := by simpa [hc] using hp
    refine lives_of_ne (i := i) (by simp +contextual) (by simp +contextual) (by simp +contextual)
      (by simp) (by simp) ?_
    intro ph hph
    obtain rfl := hph.of_user hs (by simp [hpc, Pc.Active]) (by simp [hpc])
    refine ⟨if (s.account i).ticksLeft - 1 = 0 then .preempted else .running, ?_, ?_⟩
    · change In _ i (if (s.proc i).ticksLeft - 1 = 0 then .preempted else .running)
      split
      · simp [In, hrun]
      · simp [In, hrun]
    · simpa [account] using Life.charge (s.account i)

lemma proceed_lives (hs : s.Safe) (h : s.proceed c draw = some s') : Lives s n s' k := by
  rcases proceed_eq_some h with ⟨i, rest, pid, s₁, ht, hback, hloop⟩ |
    ⟨i, rest, pid, ht, ⟨r, hpc, hsched⟩ | ⟨hpc, hwait⟩ | ⟨r, hpc, hresume⟩⟩
  · exact switchBack_lives hs ht hback hloop
  · obtain ⟨i', rest', pid', -, -, rfl⟩ := sched_eq_some hsched
    exact lives_of_in rfl fun _ h => h
  · exact waitLoop_lives hs.toCore ht hpc hwait
  · exact resume_lives hpc hresume

variable {e : Event P Cpu}

/-- Every step of the kernel is a step in the life of each process. -/
theorem Inv.step_lives (h : s.Inv q) (hstep : e.step s = some s') (k : Slot) :
    Lives s e.niceValue s' k := by
  have hcore := h.safe.toCore
  cases e with
  | userinit draw => exact userinit_lives hcore hstep
  | scheduler c => exact scheduler_lives h hstep
  | proceed c draw => exact proceed_lives h.safe hstep
  | yield c => exact yield_lives hcore hstep
  | sleep c a => exact sleep_lives hcore hstep
  | wait c =>
    obtain ⟨i, rest, pid, -, -, hpc, -, rfl⟩ := wait_eq_some hstep
    exact lives_of_same rfl rfl (preempt_iff_update (by simp [hpc]) (by simp)) (by simp) (by simp)
  | exit c draws => exact exit_lives h.safe hstep
  | wakeup a draws =>
    simp only [Event.step, Kernel.wakeup, Option.ite_none_right_eq_some] at hstep
    exact (wakeup1_calm hstep.2).1.lives (wakeup1_keeps hstep.2) hcore hstep.1
  | kill pid draw =>
    exact (kill_calm hstep).lives (kill_keeps hstep) hcore (kill_eq_some hstep).1
  | nicefork c => exact nicefork_lives hstep
  | niceforkFail c => exact niceforkFail_lives hcore hstep
  | niceforkCopy c => exact niceforkCopy_lives hcore hstep
  | niceforkPublish c => exact niceforkPublish_lives hcore hstep
  | niceforkInsert c niceValue draw => exact niceforkInsert_lives hcore hstep
  | tick =>
    obtain rfl := Option.some.inj hstep
    exact lives_of_in rfl fun _ h => h
  | charge c => exact charge_lives hcore hstep
  | fault c =>
    obtain ⟨p, rfl⟩ := fault_eq_some hstep
    have hkilled : Keeps s (s.modify p (fun p => { p with killed := true })) :=
      keeps_modify rfl rfl rfl
    refine lives_of_same (hkilled.account k) ?_ Iff.rfl (fun _ => Iff.rfl) (fun _ => Iff.rfl)
    by_cases hk : k = p <;> simp [modify, hk]

/-! ### The rest of the state -/

structure Local (s s' : Kernel P Cpu) : Prop where
  ticks : s'.ticks = s.ticks
  thread : s'.thread = s.thread
  reaped : s'.reaped = s.reaped

omit [DecidableEq Cpu] in
lemma Calm.local (h : Calm s s') (hkeeps : Keeps s s') : Local s s' :=
  ⟨hkeeps.ticks, h.thread, h.reaped⟩

lemma Safe.step_local (hs : s.Safe) (hstep : e.step s = some s') :
    (∃ c, e = .scheduler c) ∨ (∃ c draw, e = .proceed c draw) ∨ e = .tick ∨ Local s s' := by
  have hinsert : ∀ {t t' : Kernel P Cpu} {i draw}, insertProc draw i t = some t' → Local t t' :=
    fun h => (insertProc_calm h).local (insertProc_keeps h)
  cases e with
  | scheduler c => exact .inl ⟨c, rfl⟩
  | proceed c draw => exact .inr (.inl ⟨c, draw, rfl⟩)
  | tick => exact .inr (.inr (.inl rfl))
  | userinit draw =>
    obtain ⟨-, -, np, -, hins⟩ := userinit_eq_some hstep
    obtain ⟨hticks, hthread, hreaped⟩ := hinsert hins
    exact .inr (.inr (.inr ⟨hticks, hthread, hreaped⟩))
  | yield c =>
    obtain ⟨i, p, rest, pid, -, -, -, -, rfl⟩ := yield_eq_some hstep
    exact .inr (.inr (.inr ⟨rfl, rfl, rfl⟩))
  | sleep c a =>
    obtain ⟨i, p, rest, pid, -, -, -, -, -, rfl⟩ := sleep_eq_some hstep
    exact .inr (.inr (.inr ⟨rfl, rfl, rfl⟩))
  | wait c =>
    obtain ⟨i, rest, pid, -, -, -, -, rfl⟩ := wait_eq_some hstep
    exact .inr (.inr (.inr ⟨rfl, rfl, rfl⟩))
  | exit c draws =>
    have hticks : s'.ticks = s.ticks := by
      obtain ⟨i, rest, pid, s₁, s₂, -, -, -, -, -, hwake, hloop, rfl⟩ := exit_eq_some hstep
      exact ((wakeup1_keeps hwake).trans (reparent_loop_keeps hloop)).ticks
    obtain ⟨i, rest, pid, r, s₂, -, -, -, -, -, -, -, -, hhand, -, -, rfl⟩ := hs.exit_handover hstep
    exact .inr (.inr (.inr ⟨hticks, hhand.thread, hhand.reaped⟩))
  | wakeup a draws =>
    simp only [Event.step, Kernel.wakeup, Option.ite_none_right_eq_some] at hstep
    exact .inr (.inr (.inr ((wakeup1_calm hstep.2).1.local (wakeup1_keeps hstep.2))))
  | kill pid draw =>
    exact .inr (.inr (.inr ((kill_calm hstep).local (kill_keeps hstep))))
  | nicefork c =>
    rcases nicefork_eq_some hstep with rfl | ⟨i, rest, pid, np, -, -, -, -, -, rfl⟩
    · exact .inr (.inr (.inr ⟨rfl, rfl, rfl⟩))
    · exact .inr (.inr (.inr ⟨rfl, rfl, rfl⟩))
  | niceforkFail c =>
    obtain ⟨i, np, -, -, rfl⟩ := niceforkFail_eq_some hstep
    exact .inr (.inr (.inr ⟨rfl, rfl, rfl⟩))
  | niceforkCopy c =>
    obtain ⟨i, np, -, -, rfl⟩ := niceforkCopy_eq_some hstep
    exact .inr (.inr (.inr ⟨rfl, rfl, rfl⟩))
  | niceforkPublish c =>
    obtain ⟨i, np, -, -, rfl⟩ := niceforkPublish_eq_some hstep
    exact .inr (.inr (.inr ⟨rfl, rfl, rfl⟩))
  | niceforkInsert c niceValue draw =>
    obtain ⟨i, np, s₁, -, -, -, hins, rfl⟩ := niceforkInsert_eq_some hstep
    obtain ⟨hticks, hthread, hreaped⟩ := hinsert hins
    exact .inr (.inr (.inr ⟨hticks, hthread, hreaped⟩))
  | charge c =>
    rcases charge_eq_some hstep with rfl | ⟨i, p, rest, pid, -, -, -, -, rfl⟩
    · exact .inr (.inr (.inr ⟨rfl, rfl, rfl⟩))
    · exact .inr (.inr (.inr ⟨rfl, rfl, rfl⟩))
  | fault c =>
    obtain ⟨p, rfl⟩ := fault_eq_some hstep
    exact .inr (.inr (.inr ⟨rfl, rfl, rfl⟩))

lemma scheduler_local (h : s.scheduler c = some s') :
    s'.ticks = s.ticks ∧ s'.reaped = s.reaped ∧ ∀ c', c' ≠ c → s'.thread c' = s.thread c' := by
  obtain ⟨-, -, pid, -, hloop⟩ := scheduler_eq_some h
  rcases schedulerLoop_eq_some hloop with ⟨-, rfl⟩ | ⟨l₁, i, l₂, -, -, hswitch⟩
  · exact ⟨rfl, rfl, fun c' hc' => by simp [hc']⟩
  · obtain ⟨sl, r, -, -, rfl⟩ := switchTo_eq_some hswitch
    exact ⟨rfl, rfl, fun c' hc' => by simp [hc']⟩

lemma Safe.proceed_thread (hs : s.Safe) (h : s.proceed c draw = some s') :
    s'.ticks = s.ticks ∧ ∀ c', s'.thread c' = s.thread c' ∨ s'.thread c' = .scheduler ∨
      ∃ i rest pid, s'.thread c' = .returned i rest pid := by
  rcases proceed_eq_some h with ⟨i, rest, pid, s₁, ht, hback, hloop⟩ |
    ⟨i, rest, pid, ht, ⟨r, hpc, hsched⟩ | ⟨hpc, hwait⟩ | ⟨r, hpc, hresume⟩⟩
  · obtain ⟨s₂, hcalm, hcases, rfl⟩ := hs.switchBack_eq ht hback hloop
    refine ⟨?_, ?_⟩
    · rcases hcases with ⟨-, hins⟩ | ⟨-, rfl⟩
      · refine (insertProc_keeps hins).ticks.trans ?_
        unfold refreshed
        split <;> rfl
      · rfl
    · intro c'
      by_cases hc' : c' = c
      · exact .inr (.inl (by simp [hc']))
      · exact .inl (by simp [hc', hcalm.thread])
  · obtain ⟨i', rest', pid', -, -, rfl⟩ := sched_eq_some hsched
    refine ⟨rfl, ?_⟩
    intro c'
    by_cases hc' : c' = c
    · exact .inr (.inr ⟨i', rest', pid', by simp [hc']⟩)
    · exact .inl (by simp [hc'])
  · rcases waitLoop_eq_some hwait with ⟨j, -, -, rfl⟩ | rfl | ⟨p, -, -, -, rfl⟩
    · exact ⟨rfl, fun _ => .inl rfl⟩
    · exact ⟨rfl, fun _ => .inl rfl⟩
    · exact ⟨rfl, fun _ => .inl rfl⟩
  · cases r with
    | exit => simp [Kernel.resume] at hresume
    | forkret | yield | sleep | wait =>
      obtain rfl := Option.some.inj hresume
      exact ⟨rfl, fun _ => .inl rfl⟩

lemma Safe.step_thread (hs : s.Safe) (hstep : e.step s = some s')
    (ht : s'.thread c = .process i rest pid) : s.thread c = .process i rest pid ∨ e = .scheduler c := by
  rcases hs.step_local hstep with ⟨c', rfl⟩ | ⟨c', draw, rfl⟩ | rfl | hlocal
  · by_cases hc : c = c'
    · exact .inr (by rw [hc])
    · exact .inl (((scheduler_local hstep).2.2 c hc).symm.trans ht)
  · rcases (hs.proceed_thread hstep).2 c with h | h | ⟨i', rest', pid', h⟩
    · exact .inl (h.symm.trans ht)
    · exact absurd (ht.symm.trans h) (by simp)
    · exact absurd (ht.symm.trans h) (by simp)
  · obtain rfl := Option.some.inj hstep
    exact .inl ht
  · exact .inl (by rw [← hlocal.thread]; exact ht)

lemma Safe.step_ticks (hs : s.Safe) (hstep : e.step s = some s')
    (he : e ≠ .tick) : s'.ticks = s.ticks := by
  rcases hs.step_local hstep with ⟨c', rfl⟩ | ⟨c', draw, rfl⟩ | rfl | hlocal
  · exact (scheduler_local hstep).1
  · exact (hs.proceed_thread hstep).1
  · exact absurd rfl he
  · exact hlocal.ticks

end Kernel

end Xv6Bfs
