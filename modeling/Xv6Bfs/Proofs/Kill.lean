import Xv6Bfs.Proofs.KernelRun

/-!
# What `kill` marks

`kill` looks for its pid in the whole table, and an unused slot keeps a pid: zero, or that of a
process whose creation failed. A mark left there by `kill` is found by the next process in the
slot, since `allocproc` does not clear it.
-/

namespace Xv6Bfs

open Function Option Transition

def ProcState.Born : ProcState → Prop
  | .UNUSED | .EMBRYO => False
  | .SLEEPING | .RUNNABLE | .RUNNING | .ZOMBIE => True

lemma ProcState.born_of_ne {st : ProcState} (hunused : st ≠ .UNUSED) (hembryo : st ≠ .EMBRYO) :
    st.Born := by
  cases st <;> simp_all [ProcState.Born]

namespace Kernel

variable {P : ℕ} {Cpu : Type} {s s' t : Kernel P Cpu} {c : Cpu} {i j np : Slot}
  {rest : List Slot} {pid n : ℤ} {draw : Draw P} {draws : Slot → Draw P} {chan : Option Chan}
  {q : List (Queued P)} {ks ks' : List ℤ}

def killResult (pid : ℤ) (s : Kernel P Cpu) : ℤ :=
  match (List.finRange NPROC).find? (fun i => (s.proc i).pid = pid) with
  | none => -1
  | some _ => 0

def Exists (s : Kernel P Cpu) (pid : ℤ) : Prop :=
  ∃ i, (s.proc i).state ≠ .UNUSED ∧ (s.proc i).pid = pid

def killedProc (s : Kernel P Cpu) (pid : ℤ) (draw : Draw P) (i : Slot) : Proc :=
  if (s.proc i).state ≠ .UNUSED ∧ (s.proc i).pid = pid then
    if (s.proc i).state = .SLEEPING then
      { s.proc i with killed := true, state := .RUNNABLE, maxLevel := draw.maxLevel }
    else { s.proc i with killed := true }
  else s.proc i

/-- `kill` tells whether there is such a process, and marks and wakes this process and no other. -/
structure KillOk (s : Kernel P Cpu) (pid : ℤ) : Prop where
  result : s.killResult pid = 0 ↔ s.Exists pid
  effect : ∀ draw, s.lock = none → draw.maxLevel < s.skiplist.levels →
    PagesFree s.skiplist.mem draw.pages (draw.maxLevel + 1) →
    ∃ s', kill pid draw s = some s' ∧ (∀ i, s'.proc i = s.killedProc pid draw i) ∧ (¬ s.Exists pid → s' = s)

def NotStale (s : Kernel P Cpu) (pid : ℤ) : Prop :=
  ∀ i, (s.proc i).state = .UNUSED → (s.proc i).pid ≠ pid

instance (s : Kernel P Cpu) (pid : ℤ) : Decidable (s.NotStale pid) := by
  unfold NotStale
  infer_instance

lemma killResult_eq_zero_iff : s.killResult pid = 0 ↔ ∃ i, (s.proc i).pid = pid := by
  unfold killResult
  cases hfind : (List.finRange NPROC).find? (fun i => (s.proc i).pid = pid) with
  | none =>
    rw [List.find?_eq_none] at hfind
    simpa using hfind
  | some i =>
    have hi : (s.proc i).pid = pid := by simpa using List.find?_some hfind
    exact ⟨fun _ => ⟨i, hi⟩, fun _ => rfl⟩

lemma PidsOk.notStale_iff (hs : s.PidsOk) :
    s.NotStale pid ↔ ((∃ i, (s.proc i).pid = pid) → s.Exists pid) := by
  constructor
  · rintro hstale ⟨i, hi⟩
    exact ⟨i, fun hunused => hstale i hunused hi, hi⟩
  · intro hexists i hunused hi
    obtain ⟨j, hj, hpid⟩ := hexists ⟨i, hi⟩
    have hpos := hs.pos j hj
    rcases hs.inj i j (hi.trans hpid.symm) with rfl | hzero
    · exact hj hunused
    · omega

lemma PidsOk.find_pid (hs : s.PidsOk) (hlive : (s.proc i).state ≠ .UNUSED)
    (hi : (s.proc i).pid = pid) :
    (List.finRange NPROC).find? (fun i => (s.proc i).pid = pid) = some i := by
  cases hfind : (List.finRange NPROC).find? (fun i => (s.proc i).pid = pid) with
  | none =>
    rw [List.find?_eq_none] at hfind
    exact absurd hi (by simpa using hfind i (List.mem_finRange i))
  | some j =>
    have hj : (s.proc j).pid = pid := by simpa using List.find?_some hfind
    have hpos := hs.pos i hlive
    rcases hs.inj i j (hi.trans hj.symm) with rfl | hzero
    · rfl
    · omega

lemma killedProc_of_ne (hs : s.PidsOk) (hlive : (s.proc i).state ≠ .UNUSED)
    (hi : (s.proc i).pid = pid) (hj : j ≠ i) : s.killedProc pid draw j = s.proc j := by
  unfold killedProc
  rw [if_neg]
  rintro ⟨-, hjpid⟩
  have hpos := hs.pos i hlive
  rcases hs.inj i j (hi.trans hjpid.symm) with rfl | hzero
  · exact hj rfl
  · omega

lemma killedProc_of_not_exists (h : ¬ s.Exists pid) : s.killedProc pid draw j = s.proc j :=
  if_neg (fun hj => h ⟨j, hj⟩)

lemma Inv.exists_insertProc (h : s.Inv q) (hsl : t.skiplist = s.skiplist)
    (hlevel : draw.maxLevel < s.skiplist.levels)
    (hfree : PagesFree s.skiplist.mem draw.pages (draw.maxLevel + 1)) :
    ∃ t', insertProc draw i t = some t' := by
  obtain ⟨sl, hins⟩ := h.queue.towers.rep.exists_insertNode_eq (t.proc i).pid (t.proc i).virtualDeadline
    hlevel hfree
  simp only [insertProc, hsl, hins]
  exact ⟨_, rfl⟩

/-- `kill` does what it should exactly if no unused slot has the pid. -/
lemma Inv.killOk_iff (h : s.Inv q) (pid : ℤ) : s.KillOk pid ↔ s.NotStale pid := by
  have hpids := h.safe.pids
  rw [hpids.notStale_iff]
  constructor
  · intro hok hpid
    exact hok.result.mp (killResult_eq_zero_iff.mpr hpid)
  · intro hexists
    refine ⟨?_, ?_⟩
    · rw [killResult_eq_zero_iff]
      exact ⟨hexists, fun ⟨i, _, hi⟩ => ⟨i, hi⟩⟩
    · intro draw hlock hlevel hfree
      by_cases hex : s.Exists pid
      · obtain ⟨i, hlive, hi⟩ := hex
        have hself : (s.modify i (fun p => { p with killed := true })).proc i =
            { s.proc i with killed := true } := by
          simp [modify]
        by_cases hsleep : (s.proc i).state = .SLEEPING
        · obtain ⟨s', hwake⟩ := h.exists_insertProc (i := i) (t := (s.modify i (fun p =>
            { p with killed := true })).modify i (fun p => { p with state := .RUNNABLE })) rfl hlevel hfree
          refine ⟨s', ?_, ?_, fun hno => absurd ⟨i, hlive, hi⟩ hno⟩
          · simp only [Kernel.kill, if_pos hlock, hpids.find_pid hlive hi]
            rw [if_pos (by rw [hself]; exact hsleep)]
            exact hwake
          · obtain ⟨sl, -, rfl⟩ := insertProc_eq_some hwake
            intro j
            by_cases hj : j = i
            · subst hj
              simp [killedProc, modify, hi, hsleep]
            · rw [killedProc_of_ne hpids hlive hi hj]
              simp [modify, hj]
        · refine ⟨s.modify i (fun p => { p with killed := true }), ?_, ?_,
            fun hno => absurd ⟨i, hlive, hi⟩ hno⟩
          · simp only [Kernel.kill, if_pos hlock, hpids.find_pid hlive hi]
            rw [if_neg (by rw [hself]; exact hsleep)]
          · intro j
            by_cases hj : j = i
            · subst hj
              simp [killedProc, modify, hi, hsleep, hlive]
            · rw [killedProc_of_ne hpids hlive hi hj]
              simp [modify, hj]
      · have hnone : (List.finRange NPROC).find? (fun i => (s.proc i).pid = pid) = none := by
          rw [List.find?_eq_none]
          intro i _
          have hne : (s.proc i).pid ≠ pid := fun hi => hex (hexists ⟨i, hi⟩)
          simpa using hne
        refine ⟨s, ?_, fun j => (killedProc_of_not_exists hex).symm, fun _ => rfl⟩
        simp only [Kernel.kill, if_pos hlock, hnone]

/-! ### Marks on slots -/

def Gentle (s s' : Kernel P Cpu) : Prop :=
  ∀ i, (s'.proc i).killed = (s.proc i).killed ∧ (s'.proc i).pid = (s.proc i).pid ∧
    ((s'.proc i).state = (s.proc i).state ∨ (s.proc i).state.Born ∧ (s'.proc i).state.Born)

lemma gentle_of_proc (h : s'.proc = s.proc) : Gentle s s' := by
  intro i
  rw [h]
  exact ⟨rfl, rfl, .inl rfl⟩

lemma Gentle.trans (h₁ : Gentle s t) (h₂ : Gentle t s') : Gentle s s' := by
  intro i
  obtain ⟨hk₁, hp₁, hst₁⟩ := h₁ i
  obtain ⟨hk₂, hp₂, hst₂⟩ := h₂ i
  refine ⟨hk₂.trans hk₁, hp₂.trans hp₁, ?_⟩
  rcases hst₁ with hst₁ | ⟨hborn, hborn₁⟩
  · rw [hst₁] at hst₂
    exact hst₂
  · rcases hst₂ with hst₂ | ⟨-, hborn₂⟩
    · exact .inr ⟨hborn, hst₂ ▸ hborn₁⟩
    · exact .inr ⟨hborn, hborn₂⟩

lemma gentle_update {p : Proc} (hproc : s'.proc = update s.proc i p)
    (hkilled : p.killed = (s.proc i).killed) (hpid : p.pid = (s.proc i).pid)
    (hstate : p.state = (s.proc i).state ∨ (s.proc i).state.Born ∧ p.state.Born) : Gentle s s' := by
  intro j
  by_cases hj : j = i
  · subst hj
    simpa [hproc] using ⟨hkilled, hpid, hstate⟩
  · simp [hproc, hj]

lemma Gentle.born (h : Gentle s s') (hi : (s.proc i).state.Born) : (s'.proc i).state.Born := by
  obtain ⟨-, -, hst | hst⟩ := h i
  · rwa [hst]
  · exact hst.2

lemma insertProc_gentle (h : insertProc draw i s = some s') : Gentle s s' := by
  obtain ⟨sl, -, rfl⟩ := insertProc_eq_some h
  exact gentle_update rfl rfl rfl (.inl rfl)

lemma setDeadline_gentle : Gentle s (s.setDeadline i) :=
  gentle_update rfl rfl rfl (.inl rfl)

lemma setNice_gentle : Gentle s (s.setNice n i) := by
  have hnice : Gentle s (s.modify i (fun p => { p with niceValue := n })) :=
    gentle_update rfl rfl rfl (.inl rfl)
  exact hnice.trans setDeadline_gentle

lemma refreshed_gentle : Gentle s (s.refreshed i) := by
  unfold refreshed
  split
  · exact setDeadline_gentle
  · exact gentle_of_proc rfl

lemma wake_gentle (hsleep : (s.proc i).state = .SLEEPING) (h : wake draw i s = some s') : Gentle s s' := by
  have hwoken : Gentle s (s.modify i (fun p => { p with state := .RUNNABLE })) :=
    gentle_update rfl rfl rfl (.inr ⟨by simp [hsleep, ProcState.Born], trivial⟩)
  exact hwoken.trans (insertProc_gentle h)

lemma wakeup1_gentle (h : wakeup1 chan draws s = some s') : Gentle s s' := by
  refine foldlM_invariant (fun _ t => Gentle s t) ?_ (gentle_of_proc rfl) h
  intro _ i t t' hgentle hstep
  unfold wakeup1Slot at hstep
  split at hstep
  · next hcond => exact hgentle.trans (wake_gentle hcond.1 hstep)
  · exact Option.some.inj hstep ▸ hgentle

lemma reparent_loop_gentle {cur : Slot}
    (h : (List.finRange NPROC).foldlM (reparent cur draws) s = some s') : Gentle s s' := by
  refine foldlM_invariant (fun _ t => Gentle s t) ?_ (gentle_of_proc rfl) h
  intro _ j t t' hgentle hstep
  unfold reparent at hstep
  dsimp only at hstep
  split at hstep
  · have hparent : Gentle t (t.modify j (fun p => { p with parent := t.initproc })) :=
      gentle_update rfl rfl rfl (.inl rfl)
    split at hstep
    · exact (hgentle.trans hparent).trans (wakeup1_gentle hstep)
    · exact Option.some.inj hstep ▸ hgentle.trans hparent
  · exact Option.some.inj hstep ▸ hgentle

lemma CpusOk.born (hs : s.CpusOk) (hc : s.cpuProc c = some i) : (s.proc i).state.Born :=
  ProcState.born_of_ne (hs.alive c i hc).1 (hs.alive c i hc).2

lemma exit_gentle (hs : s.CpusOk) (h : s.exit c draws = some s') : Gentle s s' := by
  obtain ⟨i, rest, pid, s₁, s₂, ht, -, -, -, -, hwake, hloop, rfl⟩ := exit_eq_some h
  have hgentle := (wakeup1_gentle hwake).trans (reparent_loop_gentle hloop)
  have hborn := hs.born (hs.process c i rest pid ht).1
  exact hgentle.trans (gentle_update rfl rfl rfl (.inr ⟨hgentle.born hborn, trivial⟩))

lemma charge_gentle (h : s.charge c = some s') : Gentle s s' := by
  rcases charge_eq_some h with rfl | ⟨i, p, rest, pid, -, -, -, -, rfl⟩
  · exact gentle_of_proc rfl
  · exact gentle_update rfl rfl rfl (.inl rfl)

lemma resume_gentle {r : Resume} (h : s.resume i r = some s') : Gentle s s' := by
  cases r with
  | exit => simp [resume] at h
  | forkret | yield =>
    obtain rfl := Option.some.inj h
    exact gentle_of_proc rfl
  | sleep | wait =>
    obtain rfl := Option.some.inj h
    exact gentle_update rfl rfl rfl (.inl rfl)

/-- An unused slot is not marked, and a process being created is only by a `kill` with its pid,
all of which are in `ks`. -/
structure Unmarked (s : Kernel P Cpu) (ks : List ℤ) : Prop where
  unused : ∀ i, (s.proc i).state = .UNUSED → (s.proc i).killed = false
  embryo : ∀ i, (s.proc i).state = .EMBRYO → (s.proc i).killed = true → (s.proc i).pid ∈ ks

lemma Unmarked.of_gentle (h : s.Unmarked ks) (hgentle : Gentle s s') : s'.Unmarked ks := by
  refine ⟨?_, ?_⟩
  · intro i hunused
    obtain ⟨hkilled, -, hst | ⟨-, hborn⟩⟩ := hgentle i
    · rw [hkilled]
      exact h.unused i (hst ▸ hunused)
    · rw [hunused] at hborn
      exact hborn.elim
  · intro i hembryo
    obtain ⟨hkilled, hpid, hst | ⟨-, hborn⟩⟩ := hgentle i
    · rw [hkilled, hpid]
      exact h.embryo i (hst ▸ hembryo)
    · rw [hembryo] at hborn
      exact hborn.elim

lemma Unmarked.update {p : Proc} (h : s.Unmarked ks) (hproc : s'.proc = update s.proc i p)
    (hks : ks ⊆ ks') (hunused : p.state = .UNUSED → p.killed = false)
    (hembryo : p.state = .EMBRYO → p.killed = true → p.pid ∈ ks') : s'.Unmarked ks' := by
  refine ⟨?_, ?_⟩
  · intro j hj
    by_cases hji : j = i
    · subst hji
      simp only [hproc, update_self] at hj ⊢
      exact hunused hj
    · simp only [hproc, update_of_ne hji] at hj ⊢
      exact h.unused j hj
  · intro j hj
    by_cases hji : j = i
    · subst hji
      simp only [hproc, update_self] at hj ⊢
      exact hembryo hj
    · simp only [hproc, update_of_ne hji] at hj ⊢
      exact fun hkilled => hks (h.embryo j hj hkilled)

/-! ### Runs -/

variable [DecidableEq Cpu]

def calledWith (e : Event P Cpu) (ks : List ℤ) : List ℤ :=
  match e with
  | .kill pid _ => pid :: ks
  | _ => ks

def killing (P : ℕ) (Cpu : Type) [DecidableEq Cpu] : System (Kernel P Cpu × List ℤ) (Event P Cpu) where
  init x := (kernel P Cpu).init x.1 ∧ x.2 = []
  step e x := (e.step x.1).map (fun s' => (s', calledWith e x.2))

/-- `kill` is not called with the pid of an unused slot, and `nicefork` does not fail for a child
that has been killed. -/
def MarksLive (x : Kernel P Cpu × List ℤ) : Event P Cpu → Prop
  | .kill pid _ => x.1.NotStale pid
  | .niceforkFail c => ∀ y ∈ x.1.forking c .allocated, (x.1.proc y.2).killed = false
  | _ => True

lemma Inv.scheduler_gentle (h : s.Inv q) (hstep : s.scheduler c = some s') : Gentle s s' := by
  obtain ⟨-, -, pid, hmin, hloop⟩ := scheduler_eq_some hstep
  rcases schedulerLoop_eq_some hloop with ⟨-, rfl⟩ | ⟨l₁, i, rest, -, hi, hswitch⟩
  · exact gentle_of_proc rfl
  · rcases h.queue.getMinimum_eq h.safe.toCore hmin with ⟨-, hno⟩ | ⟨x, q', rfl, hx⟩
    · exact absurd hi (hno i)
    · obtain rfl : i = x.slot := (hx i).mp hi
      obtain ⟨hrunnable, -⟩ := (h.queue.mem x.slot).mp (by simp)
      obtain ⟨sl, r, -, -, rfl⟩ := switchTo_eq_some hswitch
      exact gentle_update rfl rfl rfl (.inr ⟨by simp [hrunnable, ProcState.Born], trivial⟩)

lemma Unmarked.proceed (h : s.Unmarked ks) (hs : s.Safe) (hstep : s.proceed c draw = some s') :
    s'.Unmarked ks := by
  rcases proceed_eq_some hstep with ⟨i, rest, pid, s₁, ht, hback, hloop⟩ |
    ⟨i, rest, pid, ht, ⟨r, -, hsched⟩ | ⟨-, hwait⟩ | ⟨r, -, hresume⟩⟩
  · obtain ⟨s₂, -, ⟨-, hins⟩ | ⟨-, rfl⟩, rfl⟩ := hs.switchBack_eq ht hback hloop
    · exact h.of_gentle ((refreshed_gentle.trans (insertProc_gentle hins)).trans (gentle_of_proc rfl))
    · exact h.of_gentle (gentle_of_proc rfl)
  · obtain ⟨i', rest', pid', -, -, rfl⟩ := sched_eq_some hsched
    exact h.of_gentle (gentle_of_proc rfl)
  · rcases waitLoop_eq_some hwait with ⟨j, -, -, rfl⟩ | rfl | ⟨p, hp, -, -, rfl⟩
    · exact h.update rfl (List.Subset.refl ks) (fun _ => rfl) (by simp)
    · exact h.of_gentle (gentle_of_proc rfl)
    · exact h.of_gentle (gentle_update rfl rfl rfl (.inr ⟨hs.cpus.born hp, trivial⟩))
  · exact h.of_gentle (resume_gentle hresume)

lemma Unmarked.step {e : Event P Cpu} (h : s.Unmarked ks) (hq : s.Inv q)
    (hok : MarksLive (s, ks) e) (hstep : e.step s = some s') : s'.Unmarked (calledWith e ks) := by
  have hs := hq.safe
  cases e with
  | userinit draw =>
    obtain ⟨-, -, np, hunused, hins⟩ := userinit_eq_some hstep
    have hfirst : (s.firstProc np).Unmarked ks := by
      refine Unmarked.of_gentle ?_ setNice_gentle
      exact h.update rfl (List.Subset.refl ks) (by simp) (by simp)
    exact hfirst.of_gentle (insertProc_gentle hins)
  | scheduler c => exact h.of_gentle (hq.scheduler_gentle hstep)
  | proceed c draw => exact h.proceed hs hstep
  | yield c =>
    obtain ⟨i, p, rest, pid, -, hp, -, -, rfl⟩ := yield_eq_some hstep
    exact h.of_gentle (gentle_update rfl rfl rfl (.inr ⟨hs.cpus.born hp, trivial⟩))
  | sleep c a =>
    obtain ⟨i, p, rest, pid, -, hp, -, -, -, rfl⟩ := sleep_eq_some hstep
    exact h.of_gentle (gentle_update rfl rfl rfl (.inr ⟨hs.cpus.born hp, trivial⟩))
  | wait c =>
    obtain ⟨i, rest, pid, -, -, -, -, rfl⟩ := wait_eq_some hstep
    exact h.of_gentle (gentle_of_proc rfl)
  | exit c draws => exact h.of_gentle (exit_gentle hs.cpus hstep)
  | wakeup a draws =>
    simp only [Event.step, Kernel.wakeup, ite_none_right_eq_some] at hstep
    exact h.of_gentle (wakeup1_gentle hstep.2)
  | kill pid draw =>
    have hsub : ks ⊆ pid :: ks := List.subset_cons_self pid ks
    obtain ⟨-, rfl | ⟨i, hi, hcases⟩⟩ := kill_eq_some hstep
    · exact ⟨h.unused, fun j hj hkilled => hsub (h.embryo j hj hkilled)⟩
    · have hmarked : (s.modify i (fun p => { p with killed := true })).Unmarked (pid :: ks) :=
        h.update rfl hsub (fun hunused => absurd hi (hok i hunused)) (fun _ _ => by simp [hi])
      rcases hcases with ⟨hsleep, hwake⟩ | ⟨-, rfl⟩
      · exact hmarked.of_gentle (wake_gentle (by simpa [modify] using hsleep) hwake)
      · exact hmarked
  | nicefork c =>
    rcases nicefork_eq_some hstep with rfl | ⟨i, rest, pid, np, -, -, -, -, hunused, rfl⟩
    · exact h
    · exact h.update rfl (List.Subset.refl ks) (by simp) (by simp [h.unused np hunused])
  | niceforkFail c =>
    simp only [Event.step, niceforkFail, bind_eq_bind, bind_eq_some_iff,
      Option.some.injEq] at hstep
    obtain ⟨y, hy, rfl⟩ := hstep
    exact h.update rfl (List.Subset.refl ks) (fun _ => hok y hy) (by simp)
  | niceforkCopy c =>
    obtain ⟨i, np, -, -, rfl⟩ := niceforkCopy_eq_some hstep
    exact h.of_gentle (gentle_update rfl rfl rfl (.inl rfl))
  | niceforkPublish c =>
    obtain ⟨i, np, -, -, rfl⟩ := niceforkPublish_eq_some hstep
    exact h.update rfl (List.Subset.refl ks) (by simp) (by simp)
  | niceforkInsert c niceValue draw =>
    obtain ⟨i, np, s₁, -, -, -, hins, rfl⟩ := niceforkInsert_eq_some hstep
    exact h.of_gentle ((setNice_gentle.trans (insertProc_gentle hins)).trans (gentle_of_proc rfl))
  | tick =>
    obtain rfl := Option.some.inj hstep
    exact h.of_gentle (gentle_of_proc rfl)
  | charge c => exact h.of_gentle (charge_gentle hstep)
  | fault c =>
    simp only [Event.step, fault, bind_eq_bind, bind_eq_some_iff,
      ite_none_right_eq_some, Option.some.injEq] at hstep
    obtain ⟨i, -, p, hp, -, rfl⟩ := hstep
    obtain ⟨hunused, hembryo⟩ := hs.cpus.alive c p hp
    exact h.update rfl (List.Subset.refl ks) (fun hst => absurd hst hunused)
      (fun hst => absurd hst hembryo)

lemma unmarked_of_reach (hs : Reach (killing P Cpu) MarksLive (s, ks)) :
    (∃ q, s.Inv q) ∧ s.Unmarked ks := by
  refine Reach.invariant (fun x => (∃ q, x.1.Inv q) ∧ x.1.Unmarked x.2) ?_ ?_ hs
  · rintro ⟨s, ks⟩ ⟨⟨pages, junk, sl, hinit, rfl⟩, rfl⟩
    exact ⟨inv_of_reachable (Reach.init ⟨pages, junk, sl, hinit, rfl⟩), by constructor <;> simp [boot]⟩
  · rintro ⟨s, ks⟩ e ⟨s', ks'⟩ ⟨⟨q, hq⟩, hmarks⟩ hok hstep
    obtain ⟨t, ht, hpair⟩ := map_eq_some_iff.mp hstep
    obtain ⟨rfl, rfl⟩ := Prod.mk.inj hpair
    obtain ⟨q', hq', -⟩ := hq.step ht
    exact ⟨⟨q', hq'⟩, hmarks.step hq hok ht⟩

/-- In a run in which only processes are marked and no marked child is given up, `kill` does what
it should for every pid but those of unused slots, and a process that `nicefork` makes RUNNABLE is
marked only if `kill` was called with its pid. -/
theorem kill_exact (hs : Reach (killing P Cpu) MarksLive (s, ks)) :
    (∀ pid, s.KillOk pid ↔ s.NotStale pid) ∧
    ∀ c i np s', s.forking c .copied = some (i, np) →
      (Event.niceforkPublish c).step s = some s' → (s'.proc np).state = .RUNNABLE ∧
        ((s'.proc np).killed = true → (s'.proc np).pid ∈ ks) := by
  obtain ⟨⟨q, hq⟩, hmarks⟩ := unmarked_of_reach hs
  refine ⟨hq.killOk_iff, ?_⟩
  intro c i np s' hfork hstep
  have hembryo := (hq.safe.frames.copied i np (forking_eq_some.mp hfork).2.2).1
  simp only [Event.step, niceforkPublish, bind_eq_bind, hfork, bind_some,
    ite_none_right_eq_some, Option.some.injEq] at hstep
  obtain ⟨-, rfl⟩ := hstep
  refine ⟨by simp [modify], ?_⟩
  simp only [modify, update_self]
  exact hmarks.embryo np hembryo

instance (x : Kernel P Cpu × List ℤ) (e : Event P Cpu) : Decidable (MarksLive x e) := by
  cases e <;> unfold MarksLive <;> infer_instance

/-- The first process creates a child that is killed before it is RUNNABLE. -/
theorem kill_exact_child :
    ∃ x, Reach (killing 12 Unit) MarksLive x ∧ x.2 = [2] ∧ (x.1.proc 1).killed = true ∧
      ∀ s', (Event.niceforkPublish ()).step x.1 = some s' →
        ((s'.proc 1).killed = true → (s'.proc 1).pid ∈ x.2) := by
  have hrun : ∃ x ∈ run ((killing 12 Unit).restrict MarksLive)
      [.userinit ⟨0, pagesFrom 12 4⟩, .scheduler (), .proceed () ⟨0, pagesFrom 12 4⟩, .nicefork (),
        .kill 2 ⟨0, pagesFrom 12 4⟩, .niceforkCopy ()] (oneCpu, []),
      x.2 = [2] ∧ (x.1.proc 1).killed = true ∧ x.1.forking () .copied = some (0, 1) := by
    decide +kernel
  obtain ⟨x, hx, hks, hkilled, hfork⟩ := hrun
  have hreach : Reach (killing 12 Unit) MarksLive x :=
    reach_of_restrict (Reachable.run (.init ⟨oneCpu_init, rfl⟩) hx)
  exact ⟨x, hreach, hks, hkilled, fun s' hstep => ((kill_exact hreach).2 () 0 1 s' hfork hstep).2⟩

/-- `kill(0)` marks an unused slot, and the process created there next is born with the mark. -/
theorem kill_zero_marks_next_child :
    (∃ x, Reachable (killing 12 Unit) x ∧ x.1.killResult 0 = 0 ∧
      (∀ i, (x.1.proc i).state ≠ .UNUSED → (x.1.proc i).pid ≠ 0) ∧ ¬ x.1.KillOk 0) ∧
    ∃ x, Reachable (killing 12 Unit) x ∧ x.2 = [0] ∧ (x.1.proc 1).state = .RUNNABLE ∧
      x.1.frame 0 = some (.published, 1) ∧ (x.1.proc 1).pid = 2 ∧ (x.1.proc 1).killed = true := by
  refine ⟨?_, ?_⟩
  · have hrun : ∃ x ∈ run (killing 12 Unit)
        [.userinit ⟨0, pagesFrom 12 4⟩, .scheduler (), .proceed () ⟨0, pagesFrom 12 4⟩] (oneCpu, []),
        x.1.killResult 0 = 0 ∧ ∀ i, (x.1.proc i).state ≠ .UNUSED → (x.1.proc i).pid ≠ 0 := by
      decide +kernel
    obtain ⟨x, hx, hresult, hlive⟩ := hrun
    refine ⟨x, Reachable.run (.init ⟨oneCpu_init, rfl⟩) hx, hresult, hlive, ?_⟩
    intro hok
    obtain ⟨i, hi, hpid⟩ := hok.result.mp hresult
    exact hlive i hi hpid
  · have hrun : ∃ x ∈ run (killing 12 Unit)
        [.userinit ⟨0, pagesFrom 12 4⟩, .scheduler (), .proceed () ⟨0, pagesFrom 12 4⟩,
          .kill 0 ⟨0, pagesFrom 12 4⟩, .nicefork (), .niceforkCopy (), .niceforkPublish ()] (oneCpu, []),
        x.2 = [0] ∧ (x.1.proc 1).state = .RUNNABLE ∧ x.1.frame 0 = some (.published, 1) ∧
          (x.1.proc 1).pid = 2 ∧ (x.1.proc 1).killed = true := by
      decide +kernel
    obtain ⟨x, hx, hrest⟩ := hrun
    exact ⟨x, Reachable.run (.init ⟨oneCpu_init, rfl⟩) hx, hrest⟩

end Kernel

end Xv6Bfs
