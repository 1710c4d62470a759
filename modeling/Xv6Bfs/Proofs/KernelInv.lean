import Xv6Bfs.Proofs.KernelSteps

/-!
# The invariants of the process table

Five invariants of the kernel that do not mention the list of RUNNABLE processes. `CpusOk`
says who executes where and who holds `ptable.lock`, `PidsOk` that pids identify processes
and are not used again, `FramesOk` what the children of unfinished `nicefork` calls look
like, `TreeOk` that every process has a parent that can wait for it, and `WaitsOk` that
nobody sleeps in `wait` for nothing.
-/

namespace Xv6Bfs

open Transition

variable {P : ℕ} {Cpu : Type}

/-- A process here executes on a CPU. -/
def Pc.Active : Pc → Prop
  | .sched _ => False
  | .resumed r => r ≠ .exit
  | _ => True

/-- A process here is between `acquire` and `release` of `ptable.lock`. -/
def Pc.InSection : Pc → Prop
  | .user => False
  | .preempt => False
  | _ => True

/-- The states that a process can have at a point of its kernel code. -/
def ProcState.Fits : ProcState → Pc → Prop
  | .RUNNING, pc => pc.Active
  | .RUNNABLE, pc => ∃ r, pc = .sched r ∧ r ≠ .exit
  | .SLEEPING, pc => pc = .sched .sleep ∨ pc = .sched .wait
  | .EMBRYO, pc => pc = .sched .forkret
  | .ZOMBIE, pc => pc = .sched .exit
  | .UNUSED, pc => ∃ r, pc = .sched r

def ProcState.Alive (st : ProcState) : Prop :=
  st = .SLEEPING ∨ st = .RUNNABLE ∨ st = .RUNNING

attribute [grind =] Function.update_apply
attribute [grind] Pc.Active Pc.InSection ProcState.Fits ProcState.Alive

namespace Kernel

structure CpusOk (s : Kernel P Cpu) : Prop where
  idle : ∀ c, s.thread c = .scheduler → s.cpuProc c = none ∧ s.lock ≠ some c
  process : ∀ c i rest pid, s.thread c = .process i rest pid →
    s.cpuProc c = some i ∧ (s.lock = some c ↔ (s.pc i).InSection)
  returned : ∀ c i rest pid, s.thread c = .returned i rest pid →
    s.cpuProc c = some i ∧ s.lock = some c ∧ ∃ r, s.pc i = .sched r
  inj : ∀ c c' i, s.cpuProc c = some i → s.cpuProc c' = some i → c = c'
  alive : ∀ c i, s.cpuProc c = some i → (s.proc i).state ≠ .UNUSED ∧ (s.proc i).state ≠ .EMBRYO
  state : ∀ i, (s.proc i).state.Fits (s.pc i)
  running : ∀ i, (s.proc i).state = .RUNNING → ∃ c, s.cpuProc c = some i

structure PidsOk (s : Kernel P Cpu) : Prop where
  range : ∀ i, 0 ≤ (s.proc i).pid ∧ (s.proc i).pid < s.nextpid
  pos : ∀ i, (s.proc i).state ≠ .UNUSED → 0 < (s.proc i).pid
  inj : ∀ i j, (s.proc i).pid = (s.proc j).pid → i = j ∨ (s.proc i).pid = 0
  nodup : s.reaped.Nodup
  reaped : ∀ pid ∈ s.reaped, 0 < pid ∧ pid < s.nextpid ∧ ∀ i, (s.proc i).pid ≠ pid
  scan : ∀ c i rest pid, s.thread c = .process i rest pid ∨ s.thread c = .returned i rest pid →
    0 < pid ∧ pid < s.nextpid ∧ ∀ j ∈ rest, (s.proc j).pid ≠ pid

structure FramesOk (s : Kernel P Cpu) : Prop where
  allocated : ∀ j np, s.frame j = some (.allocated, np) →
    (s.proc np).state = .EMBRYO ∧ (s.proc np).parent = none
  copied : ∀ j np, s.frame j = some (.copied, np) →
    (s.proc np).state = .EMBRYO ∧ (s.proc np).parent = some j
  published : ∀ j np, s.frame j = some (.published, np) →
    (s.proc np).state = .RUNNABLE ∧ (s.proc np).parent = some j ∧ ∀ c, s.cpuProc c ≠ some np
  inj : ∀ i j stage stage' np, s.frame i = some (stage, np) → s.frame j = some (stage', np) →
    stage ≠ .linking → stage' ≠ .linking → i = j

structure TreeOk (s : Kernel P Cpu) : Prop where
  parent : ∀ j w, (s.proc j).parent = some w → (s.proc w).state.Alive
  self : ∀ j, (s.proc j).parent ≠ some j
  unused : ∀ j, (s.proc j).state = .UNUSED → (s.proc j).parent = none
  init : ∀ r, s.initproc = some r → (s.proc r).state.Alive ∧ (s.proc r).parent = none
  boot : s.initproc = none → ∀ i, (s.proc i).state = .UNUSED
  orphan : ∀ j, (s.proc j).state ≠ .UNUSED → (s.proc j).state ≠ .EMBRYO → s.initproc ≠ some j →
    (s.proc j).parent ≠ none

/-- If `i` sleeps in `wait`, it has children and none has exited. -/
def WaitsFor (s : Kernel P Cpu) (i : Slot) : Prop :=
  ∀ w, (s.proc i).state = .SLEEPING → (s.proc i).chan = some (.proc w) → w = i ∧
    (∃ j, (s.proc j).parent = some i) ∧ ∀ j, (s.proc j).parent = some i → (s.proc j).state ≠ .ZOMBIE

lemma WaitsFor.congr {s s' : Kernel P Cpu} {i : Slot} (hw : s.WaitsFor i)
    (hparent : ∀ j, (s'.proc j).parent = (s.proc j).parent)
    (hzombie : ∀ j, (s'.proc j).state = .ZOMBIE → (s.proc j).state = .ZOMBIE)
    (hsleep : (s'.proc i).state = .SLEEPING →
      (s.proc i).state = .SLEEPING ∧ (s.proc i).chan = (s'.proc i).chan) : s'.WaitsFor i := by
  intro w hstate hchan
  obtain ⟨hstate', hchan'⟩ := hsleep hstate
  obtain ⟨hwi, hchild, hno⟩ := hw w hstate' (hchan'.trans hchan)
  simp only [hparent]
  exact ⟨hwi, hchild, fun j hj hz => hno j hj (hzombie j hz)⟩

structure Core (s : Kernel P Cpu) : Prop where
  cpus : s.CpusOk
  pids : s.PidsOk
  frames : s.FramesOk
  tree : s.TreeOk

structure Safe (s : Kernel P Cpu) : Prop extends Core s where
  waits : ∀ i, s.WaitsFor i

lemma safe_boot [DecidableEq Cpu] (sl : Skiplist P) : (boot sl : Kernel P Cpu).Safe := by
  refine ⟨⟨?_, ?_, ?_, ?_⟩, ?_⟩
  · constructor <;> simp [boot, ProcState.Fits]
  · constructor <;> simp [boot]
  · constructor <;> simp [boot]
  · constructor <;> simp [boot]
  · simp [boot, WaitsFor]

/-! ### What the invariants say about a running process -/

variable {s s' : Kernel P Cpu} {c : Cpu} {i p : Slot}

lemma CpusOk.state_of_active (hs : s.CpusOk) (hpc : (s.pc i).Active) : (s.proc i).state = .RUNNING := by
  have := hs.state i
  cases h : (s.proc i).state <;> grind

lemma CpusOk.running_of_ne (hs : s.CpusOk) (hlock : s.lock ≠ some c) (hc : s.cpuProc c = some i) :
    (s.proc i).state = .RUNNING := by
  apply hs.state_of_active
  cases ht : s.thread c with
  | scheduler => have := hs.idle c ht; grind
  | returned j rest pid => have := hs.returned c j rest pid ht; grind
  | process j rest pid =>
    have := hs.process c j rest pid ht
    cases hpc : s.pc i <;> grind

lemma CpusOk.running_of_free (hs : s.CpusOk) (hlock : s.lock = none) (hc : s.cpuProc c = some i) :
    (s.proc i).state = .RUNNING :=
  hs.running_of_ne (by simp [hlock]) hc

/-! ### Steps that these invariants do not notice, or only as wakeups -/

/-- From `s` to `s'`, sleeping processes may have become RUNNABLE, and nothing else has
happened that the invariants speak of. -/
structure Calm (s s' : Kernel P Cpu) : Prop where
  state : ∀ i, (s'.proc i).state = (s.proc i).state ∨
    (s.proc i).state = .SLEEPING ∧ (s'.proc i).state = .RUNNABLE
  pid : ∀ i, (s'.proc i).pid = (s.proc i).pid
  parent : ∀ i, (s'.proc i).parent = (s.proc i).parent
  chan : ∀ i, (s'.proc i).chan = (s.proc i).chan
  nextpid : s'.nextpid = s.nextpid
  initproc : s'.initproc = s.initproc
  lock : s'.lock = s.lock
  cpuProc : s'.cpuProc = s.cpuProc
  thread : s'.thread = s.thread
  pc : s'.pc = s.pc
  frame : s'.frame = s.frame
  reaped : s'.reaped = s.reaped

lemma Calm.refl (s : Kernel P Cpu) : Calm s s := by
  constructor <;> simp

lemma Calm.trans {s₁ s₂ s₃ : Kernel P Cpu} (h₁ : Calm s₁ s₂) (h₂ : Calm s₂ s₃) : Calm s₁ s₃ := by
  obtain ⟨_, _, _, _, _, _, _, _, _, _, _, _⟩ := h₁
  obtain ⟨_, _, _, _, _, _, _, _, _, _, _, _⟩ := h₂
  constructor <;> grind

lemma calm_update {p : Proc} {sl : Skiplist P} {ticks enqueues : ℕ} {queuedAt charged : Slot → ℕ}
    (hstate : p.state = (s.proc i).state ∨ (s.proc i).state = .SLEEPING ∧ p.state = .RUNNABLE)
    (hpid : p.pid = (s.proc i).pid) (hparent : p.parent = (s.proc i).parent)
    (hchan : p.chan = (s.proc i).chan) :
    Calm s { s with
      proc := Function.update s.proc i p
      skiplist := sl
      ticks := ticks
      queuedAt := queuedAt
      enqueues := enqueues
      charged := charged } := by
  refine ⟨?_, ?_, ?_, ?_, rfl, rfl, rfl, rfl, rfl, rfl, rfl, rfl⟩
  all_goals
    intro j
    by_cases hj : j = i
    · subst hj
      simpa
    · simp [hj]

lemma PidsOk.congr (h : s.PidsOk) (hpid : ∀ i, (s'.proc i).pid = (s.proc i).pid)
    (hused : ∀ i, (s'.proc i).state ≠ .UNUSED → (s.proc i).state ≠ .UNUSED)
    (hnextpid : s'.nextpid = s.nextpid) (hreaped : s'.reaped = s.reaped)
    (hscan : ∀ c i rest pid, s'.thread c = .process i rest pid ∨ s'.thread c = .returned i rest pid →
      s.thread c = .process i rest pid ∨ s.thread c = .returned i rest pid) : s'.PidsOk := by
  refine ⟨?_, fun i hi => ?_, ?_, ?_, ?_, fun c i rest pid ht => ?_⟩ <;> simp only [hpid, hnextpid, hreaped]
  · exact h.range
  · exact h.pos i (hused i hi)
  · exact h.inj
  · exact h.nodup
  · exact h.reaped
  · exact h.scan c i rest pid (hscan c i rest pid ht)

lemma TreeOk.congr (h : s.TreeOk) (hparent : ∀ i, (s'.proc i).parent = (s.proc i).parent)
    (hinitproc : s'.initproc = s.initproc) (hstate : ∀ i, (s'.proc i).state = (s.proc i).state ∨
      (s.proc i).state.Alive ∧ (s'.proc i).state.Alive) : s'.TreeOk := by
  obtain ⟨_, _, _, _, _, _⟩ := h
  constructor <;> simp only [hparent, hinitproc] <;> grind

lemma Calm.core (h : Calm s s') (hs : s.Core) : s'.Core := by
  obtain ⟨hcpus, hpids, hframes, htree⟩ := hs
  have hstate := h.state
  refine ⟨?_, ?_, ?_, ?_⟩
  · obtain ⟨_, _, _, _, _, _, _⟩ := hcpus
    constructor <;> simp only [h.thread, h.cpuProc, h.lock, h.pc] <;> grind
  · exact hpids.congr h.pid (by grind) h.nextpid h.reaped (by simp only [h.thread]; exact fun _ _ _ _ => id)
  · obtain ⟨_, _, _, _⟩ := hframes
    constructor <;> simp only [h.parent, h.frame, h.cpuProc] <;> grind
  · exact htree.congr h.parent h.initproc (by grind)

lemma Calm.waitsFor (h : Calm s s') (hi : s.WaitsFor i) : s'.WaitsFor i := by
  apply hi.congr h.parent
  · intro j hj
    have := h.state j
    grind
  · intro hi
    have := h.state i
    have := h.chan i
    grind

theorem Safe.of_calm (hs : s.Safe) (h : Calm s s') : s'.Safe :=
  ⟨h.core hs.toCore, fun i => h.waitsFor (hs.waits i)⟩

end Kernel

end Xv6Bfs
