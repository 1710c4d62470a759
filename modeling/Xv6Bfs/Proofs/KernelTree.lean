import Xv6Bfs.Proofs.KernelSafe

/-!
# Creation, exit and wait keep the invariants

The steps that change the process tree. `exit` first wakes its parent, then hands every child over to `initproc`, which it
wakes for each exited one, and only then becomes a ZOMBIE.
-/

namespace Xv6Bfs

open Function

namespace Kernel

open Transition

variable {P : ℕ} {Cpu : Type} {s s' : Kernel P Cpu} {c : Cpu} {i j np cur r : Slot}
  {rest : List Slot} {pid : ℤ} {draw : Draw P} {draws : Slot → Draw P}

/-! ### wait -/

lemma Safe.waitLoop (hs : s.Safe) (ht : s.thread c = .process i rest pid) (hpc : s.pc i = .wait)
    (h : s.waitLoop c i = some s') : s'.Safe := by
  have hproc := hs.cpus.process c i rest pid ht
  have hlock : s.lock = some c := hproc.2.mpr (by simp [hpc, Pc.InSection])
  have hrun : (s.proc i).state = .RUNNING := hs.cpus.state_of_active (by simp [hpc, Pc.Active])
  have hout : (none : Option Cpu) = some c ∧ Pc.user.InSection ∨
      (none : Option Cpu) = none ∧ ¬ Pc.user.InSection := by simp [Pc.InSection]
  rcases waitLoop_eq_some h with ⟨j, hparent, hzombie, rfl⟩ | rfl | ⟨p, hp, hchild, hno, rfl⟩
  · have hoff : ∀ c', s.cpuProc c' ≠ some j := by
      intro c' hc'
      by_cases hcc : c' = c
      · subst hcc
        obtain rfl : i = j := Option.some.inj (hproc.1.symm.trans hc')
        simp [hrun] at hzombie
      · have := hs.cpus.running_of_ne (fun h => hcc (Option.some.inj (h.symm.trans hlock))) hc'
        simp [this] at hzombie
    have hij : i ≠ j := by
      rintro rfl
      simp [hrun] at hzombie
    have hrun' : ((s.reap j).proc i).state = .RUNNING := by simp [Kernel.reap, modify, hij, hrun]
    exact (hs.reap hparent hrun hzombie hoff).setPc ht (.inr hlock) hout hrun' trivial
  · exact hs.setPc ht (.inr hlock) hout hrun trivial
  · obtain rfl : i = p := by simpa [hproc.1] using hp
    have hleave := hs.leave (r := .wait) ht (.inr hlock) hrun
      (p := { s.proc i with state := .SLEEPING, chan := some (.proc i) }) rfl rfl (by simp)
      (by simp [ProcState.Fits]) (fun w _ hw => ⟨by simpa using hw.symm, hchild, hno⟩)
    simpa [hlock] using hleave

/-! ### exit -/

/-- What the loop of `exit` does for the process `cur`. -/
structure Handover (cur : Slot) (s s' : Kernel P Cpu) : Prop where
  state : ∀ i, (s'.proc i).state = (s.proc i).state ∨
    (s.proc i).state = .SLEEPING ∧ (s'.proc i).state = .RUNNABLE
  chan : ∀ i, (s'.proc i).chan = (s.proc i).chan
  parent : ∀ i, (s'.proc i).parent = (s.proc i).parent ∨
    (s.proc i).parent = some cur ∧ (s'.proc i).parent = s.initproc
  initproc : s'.initproc = s.initproc
  lock : s'.lock = s.lock
  cpuProc : s'.cpuProc = s.cpuProc
  thread : s'.thread = s.thread
  pc : s'.pc = s.pc
  frame : s'.frame = s.frame
  reaped : s'.reaped = s.reaped

lemma Handover.refl (cur : Slot) (s : Kernel P Cpu) : Handover cur s s := by
  constructor <;> simp

lemma Calm.handover (h : Calm s s') (cur : Slot) : Handover cur s s' :=
  ⟨h.state, h.chan, fun i => .inl (h.parent i), h.initproc, h.lock, h.cpuProc, h.thread, h.pc,
    h.frame, h.reaped⟩

lemma Handover.trans {s₁ s₂ s₃ : Kernel P Cpu} (h₁ : Handover cur s₁ s₂)
    (h₂ : Handover cur s₂ s₃) : Handover cur s₁ s₃ := by
  obtain ⟨_, _, _, _, _, _, _, _, _, _⟩ := h₁
  obtain ⟨_, _, _, _, _, _, _, _, _, _⟩ := h₂
  constructor <;> grind

lemma Safe.setParent (hs : s.Safe) (hinit : s.initproc = some r) (hframe : s.frame cur = none)
    (hrun : (s.proc cur).state = .RUNNING) (hchild : (s.proc j).parent = some cur) :
    let s' := s.modify j (fun p => { p with parent := s.initproc })
    s'.Core ∧ Handover cur s s' ∧ ∀ k, ((s.proc j).state = .ZOMBIE → k ≠ r) → s'.WaitsFor k := by
  have hr := hs.tree.init r hinit
  have hjr : j ≠ r := by
    rintro rfl
    simp [hr.2] at hchild
  obtain ⟨⟨hcpus, hpids, hframes, htree⟩, hw⟩ := hs
  refine ⟨⟨?_, ?_, ?_, ?_⟩, ?_, ?_⟩
  · obtain ⟨_, _, _, _, _, _, _⟩ := hcpus
    constructor <;> dsimp only [modify] <;> grind
  · exact hpids.congr (by dsimp only [modify]; grind) (by dsimp only [modify]; grind) rfl rfl (fun _ _ _ _ => id)
  · obtain ⟨_, _, _, _⟩ := hframes
    constructor <;> dsimp only [modify] <;> grind
  · obtain ⟨_, _, _, _, _, _⟩ := htree
    constructor <;> dsimp only [modify] <;> grind
  · constructor <;> dsimp only [modify] <;> grind
  · intro k hk w hsleep hchan
    have hstate : ∀ m, ((s.modify j (fun p => { p with parent := s.initproc })).proc m).state =
        (s.proc m).state := by
      dsimp only [modify]
      grind
    have hchan' : ((s.modify j (fun p => { p with parent := s.initproc })).proc k).chan =
        (s.proc k).chan := by
      dsimp only [modify]
      grind
    rw [hstate] at hsleep
    rw [hchan'] at hchan
    obtain ⟨hwk, ⟨m, hm⟩, hno⟩ := hw k w hsleep hchan
    have hkc : k ≠ cur := by
      rintro rfl
      simp [hrun] at hsleep
    refine ⟨hwk, ⟨m, ?_⟩, ?_⟩
    · dsimp only [modify]
      grind
    · intro m hm
      rw [hstate]
      dsimp only [modify] at hm
      grind

lemma Safe.reparent (hs : s.Safe) (hinit : s.initproc = some r) (hrc : r ≠ cur)
    (hframe : s.frame cur = none) (hrun : (s.proc cur).state = .RUNNING)
    (h : s.reparent cur draws j = some s') :
    s'.Safe ∧ Handover cur s s' ∧ (s'.proc j).parent ≠ some cur := by
  unfold Kernel.reparent at h
  split at h
  · next hchild =>
    obtain ⟨hcore, hhand, hwaits⟩ := hs.setParent hinit hframe hrun hchild
    have hstate : ((s.modify j (fun p => { p with parent := s.initproc })).proc j).state =
        (s.proc j).state := by simp [modify]
    have hparent : ((s.modify j (fun p => { p with parent := s.initproc })).proc j).parent =
        some r := by simp [modify, hinit]
    dsimp only at h
    split at h
    · next hzombie =>
      rw [hstate] at hzombie
      obtain ⟨hcalm, hawake⟩ := wakeup1_calm h
      refine ⟨⟨hcalm.core hcore, ?_⟩, hhand.trans (hcalm.handover cur), ?_⟩
      · intro k
        by_cases hk : k = r
        · -- `initproc` may have slept in `wait`, and has just been woken
          subst hk
          intro w hsleep hchan
          have hsleep' : (s.proc k).state = .SLEEPING := by
            have h₁ := (hhand.trans (hcalm.handover cur)).state k
            grind
          have hchan' := (hhand.trans (hcalm.handover cur)).chan k
          have hwk := (hs.waits k w hsleep' (hchan'.symm.trans hchan)).1
          have hk := hawake k
          rw [hhand.initproc, hinit, Option.map_some] at hk
          exact absurd (And.intro hsleep (hwk ▸ hchan)) hk
        · exact hcalm.waitsFor (hwaits k (fun _ => hk))
      · rw [hcalm.parent, hparent]
        simpa using hrc
    · next hzombie =>
      rw [hstate] at hzombie
      obtain rfl := Option.some.inj h
      refine ⟨⟨hcore, fun k => hwaits k (fun hz => absurd hz hzombie)⟩, hhand, ?_⟩
      rw [hparent]
      simpa using hrc
  · next hchild =>
    obtain rfl := Option.some.inj h
    exact ⟨hs, Handover.refl cur s, hchild⟩

lemma Safe.reparent_loop (hs : s.Safe) (hinit : s.initproc = some r) (hrc : r ≠ cur)
    (hframe : s.frame cur = none) (hrun : (s.proc cur).state = .RUNNING)
    (h : (List.finRange NPROC).foldlM (Kernel.reparent cur draws) s = some s') :
    s'.Safe ∧ Handover cur s s' ∧ ∀ j, (s'.proc j).parent ≠ some cur := by
  have hloop : s'.Safe ∧ Handover cur s s' ∧ ∀ j ∈ List.finRange NPROC, (s'.proc j).parent ≠ some cur := by
    refine foldlM_invariant (fun done t => t.Safe ∧ Handover cur s t ∧
      ∀ j ∈ done, (t.proc j).parent ≠ some cur) ?_ ⟨hs, Handover.refl cur s, by simp⟩ h
    intro done j t t' ⟨ht, hhand, hdone⟩ hstep
    have hstate := hhand.state cur
    obtain ⟨ht', hhand', hj⟩ := ht.reparent (hhand.initproc.trans hinit) hrc
      (by rw [hhand.frame]; exact hframe) (by grind) hstep
    refine ⟨ht', hhand.trans hhand', ?_⟩
    intro k hk
    rcases List.mem_append.mp hk with hk | hk
    · have hkeep := hhand'.parent k
      have hne := hdone k hk
      rw [hhand.initproc, hinit] at hkeep
      grind
    · exact List.mem_singleton.mp hk ▸ hj
  exact ⟨hloop.1, hloop.2.1, fun j => hloop.2.2 j (List.mem_finRange j)⟩

lemma Safe.zombie (hs : s.Safe) (ht : s.thread c = .process i rest pid) (hlock : s.lock = none)
    (hrun : (s.proc i).state = .RUNNING) (hinit : s.initproc ≠ some i)
    (hkids : ∀ j, (s.proc j).parent ≠ some i)
    (hawake : ∀ w, (s.proc i).parent = some w →
      ¬ ((s.proc w).state = .SLEEPING ∧ (s.proc w).chan = some (.proc w))) :
    Safe { s with
      proc := update s.proc i { s.proc i with state := .ZOMBIE }
      lock := some c
      pc := update s.pc i (.sched .exit) } := by
  obtain ⟨⟨hcpus, hpids, hframes, htree⟩, hw⟩ := hs
  refine ⟨⟨?_, ?_, ?_, ?_⟩, ?_⟩
  · obtain ⟨_, _, _, _, _, _, _⟩ := hcpus
    constructor <;> grind
  · exact hpids.congr (by grind) (by grind) rfl rfl (fun _ _ _ _ => id)
  · obtain ⟨_, _, _, _⟩ := hframes
    constructor <;> grind
  · obtain ⟨_, _, _, _, _, _⟩ := htree
    constructor <;> grind
  · intro k w hsleep hchan
    have hki : k ≠ i := by
      rintro rfl
      simp at hsleep
    simp only [update_of_ne hki] at hsleep hchan
    obtain ⟨rfl, ⟨m, hm⟩, hno⟩ := hw k w hsleep hchan
    have hnot : (s.proc i).parent ≠ some w := fun hp => hawake w hp ⟨hsleep, hchan⟩
    refine ⟨rfl, ⟨m, ?_⟩, ?_⟩ <;> grind

lemma Safe.exit_handover (hs : s.Safe) (h : s.exit c draws = some s') :
    ∃ i rest pid r s₂, s.thread c = .process i rest pid ∧ s.lock = none ∧ s.pc i = .user ∧
      s.frame i = none ∧ s.initproc = some r ∧ r ≠ i ∧ (s.proc i).state = .RUNNING ∧ s₂.Safe ∧
      Handover i s s₂ ∧ (∀ j, (s₂.proc j).parent ≠ some i) ∧
      (∀ w, (s.proc i).parent = some w →
        ¬ ((s₂.proc w).state = .SLEEPING ∧ (s₂.proc w).chan = some (.proc w))) ∧
      s' = { s₂ with
        proc := update s₂.proc i { s₂.proc i with state := .ZOMBIE }
        lock := some c
        pc := update s₂.pc i (.sched .exit) } := by
  obtain ⟨i, rest, pid, s₁, s₂, ht, hlock, hpc, hframe, hne, hwake, hloop, rfl⟩ := exit_eq_some h
  have hrun := hs.cpus.running_of_free hlock (hs.cpus.process c i rest pid ht).1
  obtain ⟨r, hinit⟩ : ∃ r, s.initproc = some r := by
    rw [← Option.ne_none_iff_exists']
    intro hnone
    simp [hs.tree.boot hnone i] at hrun
  have hri : r ≠ i := by
    rintro rfl
    exact hne hinit
  obtain ⟨hcalm, hawake⟩ := wakeup1_calm hwake
  have hrun₁ : (s₁.proc i).state = .RUNNING := by
    have := hcalm.state i
    grind
  obtain ⟨hs₂, hhand, hkids⟩ := (hs.of_calm hcalm).reparent_loop (hcalm.initproc.trans hinit) hri
    (by rw [hcalm.frame]; exact hframe) hrun₁ hloop
  refine ⟨i, rest, pid, r, s₂, ht, hlock, hpc, hframe, hinit, hri, hrun, hs₂,
    (hcalm.handover i).trans hhand, hkids, ?_, rfl⟩
  -- the parent was woken before the loop and nobody has gone to sleep since
  intro w hw
  have hw₁ := hawake w
  rw [hw, Option.map_some] at hw₁
  have hstate := hhand.state w
  have hchan := hhand.chan w
  grind

lemma Safe.exit (hs : s.Safe) (h : s.exit c draws = some s') : s'.Safe := by
  obtain ⟨i, rest, pid, r, s₂, ht, hlock, -, -, hinit, hri, hrun, hs₂, hhand, hkids, hawake, rfl⟩ :=
    hs.exit_handover h
  have ht₂ : s₂.thread c = .process i rest pid := by rw [hhand.thread]; exact ht
  refine hs₂.zombie ht₂ (hhand.lock.trans hlock) ?_ ?_ hkids ?_
  · have := hhand.state i
    grind
  · rw [hhand.initproc, hinit]
    simpa using hri
  · intro w hw
    have hself := hs.tree.self i
    have hparent := hhand.parent i
    exact hawake w (by grind)

/-! ### Creation -/

lemma Safe.nicefork (hs : s.Safe) (h : s.nicefork c = some s') : s'.Safe := by
  rcases nicefork_eq_some h with rfl | ⟨i, rest, pid, np, ht, hpc, hframe, hlock, hunused, rfl⟩
  · exact hs
  · have hrun : (s.proc i).state = .RUNNING := hs.cpus.state_of_active (by simp [hpc, Pc.Active])
    clear h
    obtain ⟨⟨hcpus, hpids, hframes, htree⟩, hw⟩ := hs
    have hparent := htree.unused np hunused
    have hframes' : ∀ j stage, s.frame j = some (stage, np) → stage = .linking := by
      intro j stage hj
      cases stage with
      | allocated => have := hframes.allocated j np hj; grind
      | copied => have := hframes.copied j np hj; grind
      | published => have := hframes.published j np hj; grind
      | linking => rfl
    refine ⟨⟨?_, ?_, ?_, ?_⟩, ?_⟩
    · obtain ⟨_, _, _, _, _, _, _⟩ := hcpus
      constructor <;> grind
    · obtain ⟨_, _, _, _, _, _⟩ := hpids
      constructor <;> grind
    · obtain ⟨_, _, _, _⟩ := hframes
      constructor <;> grind
    · obtain ⟨_, _, _, _, _, _⟩ := htree
      constructor <;> grind
    · intro k
      apply (hw k).congr <;> grind

lemma Safe.niceforkFail (hs : s.Safe) (h : s.niceforkFail c = some s') : s'.Safe := by
  obtain ⟨i, np, hpc, hframe, rfl⟩ := niceforkFail_eq_some h
  clear h
  obtain ⟨⟨hcpus, hpids, hframes, htree⟩, hw⟩ := hs
  obtain ⟨hembryo, hparent⟩ := hframes.allocated i np hframe
  refine ⟨⟨?_, ?_, ?_, ?_⟩, ?_⟩
  · obtain ⟨_, _, _, _, _, _, _⟩ := hcpus
    constructor <;> grind [modify]
  · exact hpids.congr (by grind [modify]) (by grind [modify]) rfl rfl (fun _ _ _ _ => id)
  · obtain ⟨_, _, _, _⟩ := hframes
    constructor <;> grind [modify]
  · obtain ⟨_, _, _, _, _, _⟩ := htree
    constructor <;> grind [modify]
  · intro k
    apply (hw k).congr <;> grind [modify]

lemma Safe.niceforkCopy (hs : s.Safe) (h : s.niceforkCopy c = some s') : s'.Safe := by
  obtain ⟨i, np, hpc, hframe, rfl⟩ := niceforkCopy_eq_some h
  clear h
  have hrun : (s.proc i).state = .RUNNING := hs.cpus.state_of_active (by simp [hpc, Pc.Active])
  obtain ⟨⟨hcpus, hpids, hframes, htree⟩, hw⟩ := hs
  obtain ⟨hembryo, hparent⟩ := hframes.allocated i np hframe
  refine ⟨⟨?_, ?_, ?_, ?_⟩, ?_⟩
  · obtain ⟨_, _, _, _, _, _, _⟩ := hcpus
    constructor <;> grind [modify]
  · exact hpids.congr (by grind [modify]) (by grind [modify]) rfl rfl (fun _ _ _ _ => id)
  · obtain ⟨_, _, _, _⟩ := hframes
    constructor <;> grind [modify]
  · obtain ⟨_, _, _, _, _, _⟩ := htree
    constructor <;> grind [modify]
  · intro k w hsleep hchan
    have hk : k ≠ np := by
      rintro rfl
      simp [hembryo] at hsleep
    simp only [update_of_ne hk] at hsleep hchan
    obtain ⟨hwk, ⟨m, hm⟩, hno⟩ := hw k w hsleep hchan
    refine ⟨hwk, ⟨m, ?_⟩, ?_⟩ <;> grind [modify]

lemma Safe.niceforkPublish (hs : s.Safe) (h : s.niceforkPublish c = some s') : s'.Safe := by
  obtain ⟨i, np, hpc, hframe, rfl⟩ := niceforkPublish_eq_some h
  clear h
  obtain ⟨⟨hcpus, hpids, hframes, htree⟩, hw⟩ := hs
  obtain ⟨hembryo, hparent⟩ := hframes.copied i np hframe
  refine ⟨⟨?_, ?_, ?_, ?_⟩, ?_⟩
  · obtain ⟨_, _, _, _, _, _, _⟩ := hcpus
    constructor <;> grind [modify]
  · exact hpids.congr (by grind [modify]) (by grind [modify]) rfl rfl (fun _ _ _ _ => id)
  · have hoff : ∀ c, s.cpuProc c ≠ some np := by
      intro c hc
      exact (hcpus.alive c np hc).2 hembryo
    obtain ⟨_, _, _, _⟩ := hframes
    constructor <;> grind [modify]
  · obtain ⟨_, _, _, _, _, _⟩ := htree
    constructor <;> grind [modify]
  · intro k
    apply (hw k).congr <;> grind [modify]

lemma Safe.endFrame {f : Option (ForkStage × Slot)} (hs : s.Safe)
    (hf : ∀ stage np, f = some (stage, np) → stage = .linking) :
    Safe { s with frame := update s.frame i f } := by
  obtain ⟨⟨hcpus, hpids, hframes, htree⟩, hw⟩ := hs
  refine ⟨⟨?_, ?_, ?_, ?_⟩, ?_⟩
  · exact { hcpus with }
  · exact { hpids with }
  · obtain ⟨_, _, _, _⟩ := hframes
    constructor <;> grind
  · exact { htree with }
  · exact hw

lemma Safe.niceforkInsert {niceValue : ℤ} (hs : s.Safe)
    (h : s.niceforkInsert c niceValue draw = some s') : s'.Safe := by
  obtain ⟨i, np, s₁, -, -, -, hins, rfl⟩ := niceforkInsert_eq_some h
  exact (hs.of_calm ((setNice_calm niceValue).trans (insertProc_calm hins))).endFrame (by simp)

lemma Safe.userinit (hs : s.Safe) (h : s.userinit draw = some s') : s'.Safe := by
  obtain ⟨hinit, hlock, np, hunused, hins⟩ := userinit_eq_some h
  refine Safe.of_calm ?_ ((setNice_calm 0).trans (insertProc_calm hins))
  have hall := hs.tree.boot hinit
  obtain ⟨⟨hcpus, hpids, hframes, htree⟩, hw⟩ := hs
  clear h hins
  refine ⟨⟨?_, ?_, ?_, ?_⟩, ?_⟩
  · obtain ⟨_, _, _, _, _, _, _⟩ := hcpus
    constructor <;> grind
  · obtain ⟨_, _, _, _, _, _⟩ := hpids
    constructor <;> grind
  · obtain ⟨_, _, _, _⟩ := hframes
    constructor <;> grind
  · obtain ⟨_, _, _, _, _, _⟩ := htree
    constructor <;> grind
  · intro k
    apply (hw k).congr <;> grind

end Kernel

end Xv6Bfs
