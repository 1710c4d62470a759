import Xv6Bfs.Library.Program
import Mathlib.Data.Int.Notation
import Mathlib.Logic.Function.Basic

/-!
# Spin-locks and interrupts

`spinlock.c` and `sched` of `proc.c` as one CPU executes them. The scheduler and processes take turns on it, and the locks are
shared with other CPUs. Every write is recorded, so that the states inside the calls can be spoken of too.
-/

namespace Xv6Bfs

/-- Why a call has not returned: a panic, a null pointer from `myproc`, or the loop of `acquire` that still waits. -/
inductive LockStop
  | mycpu
  | popcliInterruptible
  | popcli
  | acquire
  | release
  | schedPtableLock
  | schedLocks
  | schedRunning
  | schedInterruptible
  | fault
  | spinning
  deriving DecidableEq

/-- `locked` also says whose `xchg` has set it; the code only reads whether it is set. -/
structure Spinlock (C : Type) where
  locked : Option C
  cpu : Option C
  deriving DecidableEq

/-- The flag `FL_IF`, two fields of `struct cpu`, and the locks. `thread` is the process that the CPU runs, or the scheduler if there
is none; `saved` is the variable `intena` in a process's last call of `sched`. -/
structure LockCpu (L C T : Type) where
  interrupts : Bool
  ncli : ℤ
  intena : Bool
  locks : L → Spinlock C
  thread : Option T
  saved : T → Option Bool

/-- A CPU with the states that it has passed. -/
structure LockRun (L C T : Type) where
  cpu : LockCpu L C T
  past : List (LockCpu L C T)

abbrev LockM (L C T : Type) := EStateM LockStop (LockRun L C T)

namespace LockM

variable {L C T : Type} [DecidableEq L] [DecidableEq C] [DecidableEq T]

def read : LockM L C T (LockCpu L C T) := do
  return (← get).cpu

def write (f : LockCpu L C T → LockCpu L C T) : LockM L C T Unit :=
  modify fun r => ⟨f r.cpu, r.cpu :: r.past⟩

def setInterrupts (flag : Bool) : LockM L C T Unit :=
  write fun s => { s with interrupts := flag }

def setLock (l : L) (lk : Spinlock C) : LockM L C T Unit :=
  write fun s => { s with locks := Function.update s.locks l lk }

variable (me : C)

/-- The search for the entry of `cpus` finds `me`. -/
def mycpu : LockM L C T C := do
  if (← read).interrupts then throw .mycpu else return me

def pushcli : LockM L C T Unit := do
  let eflags := (← read).interrupts
  setInterrupts false
  let _ ← mycpu me
  write fun s => { s with intena := if s.ncli = 0 then eflags else s.intena }
  write fun s => { s with ncli := s.ncli + 1 }

def popcli : LockM L C T Unit := do
  if (← read).interrupts then throw .popcliInterruptible
  else do
    let _ ← mycpu me
    write fun s => { s with ncli := s.ncli - 1 }
    let s ← read
    if s.ncli < 0 then throw .popcli
    else if s.ncli = 0 ∧ s.intena = true then setInterrupts true
    else return ()

def holding (l : L) : LockM L C T Bool := do
  pushcli me
  let lk := (← read).locks l
  let cpu ← mycpu me
  popcli me
  return lk.locked.isSome && decide (lk.cpu = some cpu)

def xchg (l : L) : LockM L C T Bool := do
  let lk := (← read).locks l
  setLock l { lk with locked := lk.locked <|> some me }
  return lk.locked.isSome

/-- The loop of `acquire`. `others` is what other CPUs make of the lock from round to round. -/
def spin (l : L) : List (Spinlock C) → LockM L C T Unit
  | [] => do
    if ← xchg me l then throw .spinning else return ()
  | lk :: others => do
    if ← xchg me l then do
      setLock l lk
      spin l others
    else return ()

def acquire (l : L) (others : List (Spinlock C)) : LockM L C T Unit := do
  pushcli me
  if ← holding me l then throw .acquire
  else do
    spin me l others
    let cpu ← mycpu me
    setLock l { (← read).locks l with cpu := some cpu }

def release (l : L) : LockM L C T Unit := do
  if ← holding me l then do
    setLock l { (← read).locks l with cpu := none }
    setLock l { (← read).locks l with locked := none }
    popcli me
  else throw .release

def myproc : LockM L C T (Option T) := do
  pushcli me
  let _ ← mycpu me
  let p := (← read).thread
  popcli me
  return p

/-- `sched` up to `swtch`; `running` is whether the state of the process is `RUNNING`. -/
def sched (ptable : L) (running : Bool) : LockM L C T Unit := do
  let p ← myproc me
  if ← holding me ptable then do
    let _ ← mycpu me
    let s ← read
    if s.ncli ≠ 1 then throw .schedLocks
    else match p with
      | none => throw .fault
      | some p =>
        if running then throw .schedRunning
        else if s.interrupts then throw .schedInterruptible
        else write fun s => { s with saved := Function.update s.saved p (some s.intena), thread := none }
  else throw .schedPtableLock

/-- `swtch` in `scheduler`. A process that has called `sched` goes on there, a new one in `forkret`. -/
def swtch (p : T) : LockM L C T Unit := do
  write fun s => { s with thread := some p }
  match (← read).saved p with
  | none => return ()
  | some intena => do
    let _ ← mycpu me
    write fun s => { s with intena := intena }

end LockM

/-- What can happen: calls by the running thread, its flag set by `sti`, `cli` or the return from a trap, the two switches, and what
other CPUs do with a lock that this one has not, or with a process that runs there and calls `sched`. -/
inductive LockEvent (L C T : Type)
  | acquire (l : L) (others : List (Spinlock C))
  | release (l : L)
  | setFlag (t : Option T) (flag : Bool)
  | sched (running : Bool)
  | swtch (p : T)
  | other (l : L) (lk : Spinlock C)
  | elsewhere (p : T) (intena : Bool)

def LockEvent.exec {L C T : Type} [DecidableEq L] [DecidableEq C] [DecidableEq T] (me : C) (ptable : L) :
    LockEvent L C T → LockM L C T Unit
  | acquire l others => LockM.acquire me l others
  | release l => LockM.release me l
  | setFlag _ flag => LockM.setInterrupts flag
  | sched running => LockM.sched me ptable running
  | swtch p => LockM.swtch me p
  | other l lk => LockM.setLock l lk
  | elsewhere p intena => LockM.write fun s => { s with saved := Function.update s.saved p (some intena) }

end Xv6Bfs
