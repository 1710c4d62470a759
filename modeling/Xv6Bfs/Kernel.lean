import Xv6Bfs.Skiplist
import Xv6Bfs.Library.Transition
import Mathlib.Algebra.Ring.Nat

/-!
# The process table and the scheduler

The process state machine of `proc.c` and of the timer case of `trap.c`, on any number of
CPUs. A step is a section of `ptable.lock` up to the next `swtch`, the code behind a `swtch` up
to the release of the lock, or a piece of code that runs without the lock. Of the latter, the
tail of `nicefork`, which computes a deadline and inserts a node, is taken as one step although
another CPU can see the middle of it; `ForkTail` cuts it. As in `Skiplist`, a step returns `none`
where the code has no defined behaviour or panics, and also where it cannot be taken.
-/

namespace Xv6Bfs

open Function Transition

def NPROC : ℕ := 64

abbrev Slot := Fin NPROC

instance : NeZero NPROC := ⟨by decide⟩

inductive ProcState
  | UNUSED | EMBRYO | SLEEPING | RUNNABLE | RUNNING | ZOMBIE
  deriving DecidableEq

/-- A sleep channel is the address of a process, on which only `wait` sleeps, or another
address. -/
inductive Chan
  | proc (p : Slot)
  | addr (a : ℕ)
  deriving DecidableEq

/-- The fields of `struct proc` that take part in scheduling. -/
structure Proc where
  state : ProcState
  pid : ℤ
  parent : Option Slot
  chan : Option Chan
  killed : Bool
  ticksLeft : ℤ
  niceValue : ℤ
  virtualDeadline : ℤ
  maxLevel : ℤ
  deriving DecidableEq

def BFS_DEFAULT_QUANTUM : ℤ := 50
def BFS_NICE_FIRST_LEVEL : ℤ := -20
def BFS_NICE_LAST_LEVEL : ℤ := 19

/-- `compute_virtual_deadline`, an unsigned 32-bit sum that is returned as an `int`. -/
def computeVirtualDeadline (ticks : ℕ) (niceValue : ℤ) : ℤ :=
  let priorityRatio := niceValue - BFS_NICE_FIRST_LEVEL + 1
  (ticks + BFS_DEFAULT_QUANTUM * priorityRatio).bmod (2 ^ 32)

inductive Resume
  | forkret | yield | sleep | wait | exit
  deriving DecidableEq

/-- Where the kernel thread of a process is: outside of all sections of `ptable.lock`, in
`trap` when the quantum is over, in the loop of `wait`, in `sched` (the context to be saved
or saved), or just behind the `swtch` of the scheduler. -/
inductive Pc
  | user
  | preempt
  | wait
  | sched (r : Resume)
  | resumed (r : Resume)
  deriving DecidableEq

/-- What a CPU executes: the idle loop of `scheduler`, the process `p` that `scheduler` has
switched to, or `scheduler` again behind its `swtch`. While `p` runs, the frame of
`scheduler` keeps the entries of the table that it has still to compare with
`next_process_pid`. -/
inductive Thread
  | scheduler
  | process (p : Slot) (rest : List Slot) (nextProcessPid : ℤ)
  | returned (p : Slot) (rest : List Slot) (nextProcessPid : ℤ)
  deriving DecidableEq

/-- How far a `nicefork` has come with its child: `allocproc` has returned, the parent is
set, the child is RUNNABLE, or its tower is being linked. -/
inductive ForkStage
  | allocated | copied | published | linking
  deriving DecidableEq

/-- The state of the kernel. The last four fields are history: when a process was last
inserted in the list, how many insertions there were, how many ticks a process has been
charged since its deadline was computed, and which pids `wait` has returned. -/
structure Kernel (P : ℕ) (Cpu : Type) where
  proc : Slot → Proc
  skiplist : Skiplist P
  nextpid : ℤ
  ticks : ℕ
  initproc : Option Slot
  lock : Option Cpu
  cpuProc : Cpu → Option Slot
  thread : Cpu → Thread
  pc : Slot → Pc
  frame : Slot → Option (ForkStage × Slot)
  queuedAt : Slot → ℕ
  enqueues : ℕ
  charged : Slot → ℕ
  reaped : List ℤ

/-- What an insertion takes from outside: the height drawn by `randomize_max_level` and the
pages returned by `kalloc`. -/
structure Draw (P : ℕ) where
  maxLevel : ℕ
  pages : ℕ → Ptr P

def INT_MAX : ℤ := 2 ^ 31 - 1

namespace Kernel

variable {P : ℕ} {Cpu : Type} [DecidableEq Cpu]

/-- The kernel after `pinit`, with all CPUs in `scheduler`. -/
def boot (skiplist : Skiplist P) : Kernel P Cpu where
  proc _ := ⟨.UNUSED, 0, none, none, false, 0, 0, 0, 0⟩
  skiplist := skiplist
  nextpid := 1
  ticks := 0
  initproc := none
  lock := none
  cpuProc _ := none
  thread _ := .scheduler
  pc _ := .sched .exit
  frame _ := none
  queuedAt _ := 0
  enqueues := 0
  charged _ := 0
  reaped := []

def modify (s : Kernel P Cpu) (i : Slot) (f : Proc → Proc) : Kernel P Cpu :=
  { s with proc := update s.proc i (f (s.proc i)) }

def insertProc (draw : Draw P) (i : Slot) (s : Kernel P Cpu) : Option (Kernel P Cpu) := do
  let p := s.proc i
  let skiplist ← insertNode s.skiplist p.pid p.virtualDeadline draw.maxLevel draw.pages
  some { s.modify i (fun p => { p with maxLevel := draw.maxLevel }) with
    skiplist := skiplist
    queuedAt := update s.queuedAt i s.enqueues
    enqueues := s.enqueues + 1 }

def setDeadline (i : Slot) (s : Kernel P Cpu) : Kernel P Cpu :=
  { s.modify i (fun p =>
      { p with virtualDeadline := computeVirtualDeadline s.ticks p.niceValue }) with
    charged := update s.charged i 0 }

/-! ### Sleeping processes -/

/-- `p->state = RUNNABLE; insert_node(skiplist, p)`. -/
def wake (draw : Draw P) (i : Slot) (s : Kernel P Cpu) : Option (Kernel P Cpu) :=
  insertProc draw i (s.modify i (fun p => { p with state := .RUNNABLE }))

def wakeup1Slot (chan : Option Chan) (draws : Slot → Draw P) (s : Kernel P Cpu) (i : Slot) :
    Option (Kernel P Cpu) :=
  if (s.proc i).state = .SLEEPING ∧ (s.proc i).chan = chan then wake (draws i) i s else some s

def wakeup1 (chan : Option Chan) (draws : Slot → Draw P) (s : Kernel P Cpu) : Option (Kernel P Cpu) :=
  (List.finRange NPROC).foldlM (wakeup1Slot chan draws) s

def wakeup (a : ℕ) (draws : Slot → Draw P) (s : Kernel P Cpu) : Option (Kernel P Cpu) :=
  if s.lock = none then wakeup1 (some (.addr a)) draws s else none

def kill (pid : ℤ) (draw : Draw P) (s : Kernel P Cpu) : Option (Kernel P Cpu) :=
  if s.lock = none then
    match (List.finRange NPROC).find? (fun i => (s.proc i).pid = pid) with
    | none => some s
    | some i =>
      let s := s.modify i (fun p => { p with killed := true })
      if (s.proc i).state = .SLEEPING then wake draw i s else some s
  else none

/-! ### The scheduler -/

/-- The body of the loop of `scheduler` up to `swtch`, which starts in the saved context. -/
def switchTo (c : Cpu) (i : Slot) (rest : List Slot) (nextProcessPid : ℤ) (s : Kernel P Cpu) :
    Option (Kernel P Cpu) := do
  let p := s.proc i
  let skiplist ← deleteNode s.skiplist p.pid p.virtualDeadline
  match s.pc i with
  | .sched r => some { s.modify i (fun p =>
        { p with state := .RUNNING, ticksLeft := BFS_DEFAULT_QUANTUM, maxLevel := -1 }) with
      skiplist := skiplist
      cpuProc := update s.cpuProc c (some i)
      thread := update s.thread c (.process i rest nextProcessPid)
      pc := update s.pc i (.resumed r) }
  | _ => none

/-- The loop of `scheduler` over the rest of the table, and the release of the lock. -/
def schedulerLoop (c : Cpu) (nextProcessPid : ℤ) : List Slot → Kernel P Cpu → Option (Kernel P Cpu)
  | [], s => some { s with
      lock := none
      thread := update s.thread c .scheduler }
  | i :: rest, s =>
    if (s.proc i).pid ≠ nextProcessPid then schedulerLoop c nextProcessPid rest s
    else switchTo c i rest nextProcessPid s

def scheduler (c : Cpu) (s : Kernel P Cpu) : Option (Kernel P Cpu) :=
  match s.thread c with
  | .scheduler =>
    if s.lock = none then do
      let nextProcessPid ← getMinimum s.skiplist
      schedulerLoop c nextProcessPid (List.finRange NPROC) { s with lock := some c }
    else none
  | _ => none

/-- The rest of the body of the loop of `scheduler`, behind `swtch`. -/
def switchBack (c : Cpu) (draw : Draw P) (i : Slot) (s : Kernel P Cpu) : Option (Kernel P Cpu) := do
  let s ← if (s.proc i).state = .RUNNABLE then
      insertProc draw i (if (s.proc i).ticksLeft = 0 then s.setDeadline i else s)
    else some s
  some { s with cpuProc := update s.cpuProc c none }

def executing (s : Kernel P Cpu) (c : Cpu) : Option Slot :=
  match s.thread c with
  | .process i _ _ => some i
  | _ => none

def sched (c : Cpu) (s : Kernel P Cpu) : Option (Kernel P Cpu) :=
  match s.thread c with
  | .process i rest nextProcessPid => do
    let p ← s.cpuProc c
    if s.lock = some c ∧ (s.proc p).state ≠ .RUNNING then
      some { s with thread := update s.thread c (.returned i rest nextProcessPid) }
    else none
  | _ => none

/-! ### Leaving the CPU -/

/-- `yield` up to `sched`, called by the process or by `trap`. -/
def yield (c : Cpu) (s : Kernel P Cpu) : Option (Kernel P Cpu) := do
  let i ← s.executing c
  let p ← s.cpuProc c
  if s.lock = none ∧ (s.pc i = .user ∧ s.frame i = none ∨ s.pc i = .preempt) then
    some { s.modify p (fun p => { p with state := .RUNNABLE }) with
      lock := some c
      pc := update s.pc i (.sched .yield) }
  else none

/-- `p->chan = chan; p->state = SLEEPING` in `sleep`, which continues in `sched`. -/
def goToSleep (i p : Slot) (chan : Chan) (r : Resume) (s : Kernel P Cpu) : Kernel P Cpu :=
  { s.modify p (fun p => { p with state := .SLEEPING, chan := some chan }) with
    pc := update s.pc i (.sched r) }

/-- `sleep` with another lock than `ptable.lock`, up to `sched`. -/
def sleep (c : Cpu) (a : ℕ) (s : Kernel P Cpu) : Option (Kernel P Cpu) := do
  let i ← s.executing c
  let p ← s.cpuProc c
  if s.lock = none ∧ s.pc i = .user ∧ s.frame i = none then
    some { s.goToSleep i p (.addr a) .sleep with lock := some c }
  else none

def wait (c : Cpu) (s : Kernel P Cpu) : Option (Kernel P Cpu) := do
  let i ← s.executing c
  if s.lock = none ∧ s.pc i = .user ∧ s.frame i = none then
    some { s with lock := some c, pc := update s.pc i .wait }
  else none

/-- What `wait` does with the slot of an exited child. -/
def reap (j : Slot) (s : Kernel P Cpu) : Kernel P Cpu :=
  { s.modify j (fun p => { p with pid := 0, parent := none, killed := false, state := .UNUSED }) with
    reaped := (s.proc j).pid :: s.reaped }

/-- One round of the loop of `wait`, by the process `i` on `c`. -/
def waitLoop (c : Cpu) (i : Slot) (s : Kernel P Cpu) : Option (Kernel P Cpu) :=
  let child := fun j => (s.proc j).parent = some i
  match (List.finRange NPROC).find? (fun j => child j ∧ (s.proc j).state = .ZOMBIE) with
  | some j => some { s.reap j with lock := none, pc := update s.pc i .user }
  | none =>
    if ¬ (∃ j, child j) ∨ (s.proc i).killed then
      some { s with lock := none, pc := update s.pc i .user }
    else do
      let p ← s.cpuProc c
      some (s.goToSleep i p (.proc i) .wait)

/-- The body of the loop of `exit` that hands the children of `cur` over to `initproc`. -/
def reparent (cur : Slot) (draws : Slot → Draw P) (s : Kernel P Cpu) (j : Slot) : Option (Kernel P Cpu) :=
  if (s.proc j).parent = some cur then
    let s := s.modify j (fun p => { p with parent := s.initproc })
    if (s.proc j).state = .ZOMBIE then wakeup1 (s.initproc.map .proc) draws s else some s
  else some s

/-- `exit` from the acquisition of `ptable.lock` up to `sched`. -/
def exit (c : Cpu) (draws : Slot → Draw P) (s : Kernel P Cpu) : Option (Kernel P Cpu) := do
  let i ← s.executing c
  if s.lock = none ∧ s.pc i = .user ∧ s.frame i = none ∧ s.initproc ≠ some i then do
    let s ← wakeup1 ((s.proc i).parent.map .proc) draws s
    let s ← (List.finRange NPROC).foldlM (reparent i draws) s
    some { s.modify i (fun p => { p with state := .ZOMBIE }) with
      lock := some c
      pc := update s.pc i (.sched .exit) }
  else none

/-- The code of the process `i` behind the `swtch` that has resumed it. -/
def resume (i : Slot) (s : Kernel P Cpu) : Resume → Option (Kernel P Cpu)
  | .forkret | .yield => some { s with lock := none, pc := update s.pc i .user }
  | .sleep => some { s.modify i (fun p => { p with chan := none }) with
      lock := none
      pc := update s.pc i .user }
  | .wait => some { s.modify i (fun p => { p with chan := none }) with
      pc := update s.pc i .wait }
  | .exit => none

/-- The next step of a CPU that holds `ptable.lock`. -/
def proceed (c : Cpu) (draw : Draw P) (s : Kernel P Cpu) : Option (Kernel P Cpu) :=
  match s.thread c with
  | .scheduler => none
  | .returned i rest nextProcessPid => do
    let s ← switchBack c draw i s
    schedulerLoop c nextProcessPid rest s
  | .process i _ _ =>
    match s.pc i with
    | .sched _ => sched c s
    | .wait => waitLoop c i s
    | .resumed r => resume i s r
    | _ => none

/-! ### Process creation -/

/-- `allocproc`, up to the allocation of the stack. It returns the null pointer when the
table is full. -/
def allocproc (s : Kernel P Cpu) : Option (Option Slot × Kernel P Cpu) :=
  if s.lock = none then
    match (List.finRange NPROC).find? (fun j => (s.proc j).state = .UNUSED) with
    | none => some (none, s)
    | some p =>
      if s.nextpid < INT_MAX then
        some (some p, { s.modify p (fun p => { p with state := .EMBRYO, pid := s.nextpid }) with
          nextpid := s.nextpid + 1
          pc := update s.pc p (.sched .forkret) })
      else none
  else none

/-- `nicefork` up to the return of `allocproc`. -/
def nicefork (c : Cpu) (s : Kernel P Cpu) : Option (Kernel P Cpu) := do
  let i ← s.executing c
  if s.pc i = .user ∧ s.frame i = none then do
    let (np, s) ← s.allocproc
    match np with
    | none => some s
    | some np => some { s with frame := update s.frame i (some (.allocated, np)) }
  else none

/-- The child of the `nicefork` that `c` executes, when it has come to `stage`. -/
def forking (c : Cpu) (stage : ForkStage) (s : Kernel P Cpu) : Option (Slot × Slot) := do
  let i ← s.executing c
  match s.frame i with
  | some (stage', np) => if s.pc i = .user ∧ stage' = stage then some (i, np) else none
  | none => none

/-- `nicefork` without memory for the stack or the address space of the child. -/
def niceforkFail (c : Cpu) (s : Kernel P Cpu) : Option (Kernel P Cpu) := do
  let (i, np) ← s.forking c .allocated
  some { s.modify np (fun p => { p with state := .UNUSED }) with
    frame := update s.frame i none }

/-- `np->parent = curproc`. -/
def niceforkCopy (c : Cpu) (s : Kernel P Cpu) : Option (Kernel P Cpu) := do
  let (i, np) ← s.forking c .allocated
  some { s.modify np (fun p => { p with parent := some i }) with
    frame := update s.frame i (some (.copied, np)) }

/-- `np->state = RUNNABLE` between the acquisition and the release of `ptable.lock`. -/
def niceforkPublish (c : Cpu) (s : Kernel P Cpu) : Option (Kernel P Cpu) := do
  let (i, np) ← s.forking c .copied
  if s.lock = none then
    some { s.modify np (fun p => { p with state := .RUNNABLE }) with
      frame := update s.frame i (some (.published, np)) }
  else none

/-- The nice value and the deadline that `nicefork` and `userinit` give to a process. -/
def setNice (niceValue : ℤ) (i : Slot) (s : Kernel P Cpu) : Kernel P Cpu :=
  (s.modify i (fun p => { p with niceValue := niceValue })).setDeadline i

/-- The tail of `nicefork`, behind the release of `ptable.lock`. -/
def niceforkInsert (c : Cpu) (niceValue : ℤ) (draw : Draw P) (s : Kernel P Cpu) :
    Option (Kernel P Cpu) := do
  let (i, np) ← s.forking c .published
  let s ← insertProc draw np (s.setNice niceValue np)
  some { s with frame := update s.frame i none }

def userinit (draw : Draw P) (s : Kernel P Cpu) : Option (Kernel P Cpu) :=
  if s.initproc = none then do
    let (p, s) ← s.allocproc
    let p ← p
    insertProc draw p (setNice 0 p
      { s.modify p (fun p => { p with state := .RUNNABLE }) with initproc := some p })
  else none

/-! ### Traps -/

def tick (s : Kernel P Cpu) : Option (Kernel P Cpu) :=
  some { s with ticks := s.ticks + 1 }

/-- The timer interrupt of a CPU that executes a process with interrupts on. -/
def charge (c : Cpu) (s : Kernel P Cpu) : Option (Kernel P Cpu) := do
  let i ← s.executing c
  let p ← s.cpuProc c
  if s.pc i = .user then
    if (s.proc p).state = .RUNNING then
      some { s.modify p (fun p => { p with ticksLeft := p.ticksLeft - 1 }) with
        charged := update s.charged p (s.charged p + 1)
        pc := update s.pc i (if (s.proc p).ticksLeft - 1 = 0 then .preempt else .user) }
    else some s
  else none

def fault (c : Cpu) (s : Kernel P Cpu) : Option (Kernel P Cpu) := do
  let i ← s.executing c
  let p ← s.cpuProc c
  if s.pc i = .user ∧ s.frame i = none then some (s.modify p (fun p => { p with killed := true }))
  else none

end Kernel

/-! ### The machine -/

inductive Event (P : ℕ) (Cpu : Type)
  | userinit (draw : Draw P)
  | scheduler (c : Cpu)
  | proceed (c : Cpu) (draw : Draw P)
  | yield (c : Cpu)
  | sleep (c : Cpu) (a : ℕ)
  | wait (c : Cpu)
  | exit (c : Cpu) (draws : Slot → Draw P)
  | wakeup (a : ℕ) (draws : Slot → Draw P)
  | kill (pid : ℤ) (draw : Draw P)
  | nicefork (c : Cpu)
  | niceforkFail (c : Cpu)
  | niceforkCopy (c : Cpu)
  | niceforkPublish (c : Cpu)
  | niceforkInsert (c : Cpu) (niceValue : ℤ) (draw : Draw P)
  | tick
  | charge (c : Cpu)
  | fault (c : Cpu)

variable {P : ℕ} {Cpu : Type} [DecidableEq Cpu]

def Event.step : Event P Cpu → Kernel P Cpu → Option (Kernel P Cpu)
  | userinit draw => Kernel.userinit draw
  | scheduler c => Kernel.scheduler c
  | proceed c draw => Kernel.proceed c draw
  | yield c => Kernel.yield c
  | sleep c a => Kernel.sleep c a
  | wait c => Kernel.wait c
  | exit c draws => Kernel.exit c draws
  | wakeup a draws => Kernel.wakeup a draws
  | kill pid draw => Kernel.kill pid draw
  | nicefork c => Kernel.nicefork c
  | niceforkFail c => Kernel.niceforkFail c
  | niceforkCopy c => Kernel.niceforkCopy c
  | niceforkPublish c => Kernel.niceforkPublish c
  | niceforkInsert c niceValue draw => Kernel.niceforkInsert c niceValue draw
  | tick => Kernel.tick
  | charge c => Kernel.charge c
  | fault c => Kernel.fault c

/-- The kernel on the CPUs `Cpu`, from the time when the list has been initialised. -/
def kernel (P : ℕ) (Cpu : Type) [DecidableEq Cpu] : System (Kernel P Cpu) (Event P Cpu) where
  init s := ∃ pages junk sl, initSkiplist pages junk = some sl ∧ s = Kernel.boot sl
  step := Event.step

/-- An operation of the process state machine that runs without interruption. A section of
`ptable.lock` goes on across `swtch` until some thread releases the lock. -/
inductive Action (P : ℕ) (Cpu : Type)
  | userinit (draw : Draw P)
  | nicefork (c : Cpu) (niceValue : ℤ) (draw : Draw P)
  | niceforkFull (c : Cpu)
  | niceforkFail (c : Cpu)
  | dispatch (c : Cpu) (draws : List (Draw P))
  | yield (c : Cpu) (draws : List (Draw P))
  | sleep (c : Cpu) (a : ℕ) (draws : List (Draw P))
  | wait (c : Cpu) (draws : List (Draw P))
  | exit (c : Cpu) (woken : Slot → Draw P) (draws : List (Draw P))
  | wakeup (a : ℕ) (draws : Slot → Draw P)
  | kill (pid : ℤ) (draw : Draw P)
  | tick
  | charge (c : Cpu)
  | fault (c : Cpu)

def Action.events : Action P Cpu → List (Event P Cpu)
  | userinit draw => [.userinit draw]
  | nicefork c niceValue draw =>
    [.nicefork c, .niceforkCopy c, .niceforkPublish c, .niceforkInsert c niceValue draw]
  | niceforkFull c => [.nicefork c]
  | niceforkFail c => [.nicefork c, .niceforkFail c]
  | dispatch c draws => .scheduler c :: draws.map (.proceed c)
  | yield c draws => .yield c :: draws.map (.proceed c)
  | sleep c a draws => .sleep c a :: draws.map (.proceed c)
  | wait c draws => .wait c :: draws.map (.proceed c)
  | exit c woken draws => .exit c woken :: draws.map (.proceed c)
  | wakeup a draws => [.wakeup a draws]
  | kill pid draw => [.kill pid draw]
  | tick => [.tick]
  | charge c => [.charge c]
  | fault c => [.fault c]

/-- No section of `ptable.lock` and no `nicefork` is going on. -/
def Kernel.Quiet (s : Kernel P Cpu) : Prop :=
  s.lock = none ∧ ∀ i, s.frame i = none

instance (s : Kernel P Cpu) : Decidable s.Quiet := by
  unfold Kernel.Quiet
  infer_instance

def atomicKernel (P : ℕ) (Cpu : Type) [DecidableEq Cpu] : System (Kernel P Cpu) (Action P Cpu) where
  init := (kernel P Cpu).init
  step a s := (run (kernel P Cpu) a.events s).filter (fun s => s.Quiet)

end Xv6Bfs
