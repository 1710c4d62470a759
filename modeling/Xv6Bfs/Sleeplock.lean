import Xv6Bfs.Library.Monitor
import Xv6Bfs.Icache

/-!
# Sleep-locks

`sleeplock.c` for one lock, at the grain of its spin-lock `lk`: what a process does between two
actions on `lk`, a wakeup or a sleep is one step.
-/

namespace Xv6Bfs

open Monitor

structure Sleeplock where
  locked : Bool
  pid : Pid

/-- Where a process is in `sleeplock.c`; `mine` is whether it is between `acquiresleep` and
`releasesleep`. -/
inductive SleeplockPc
  | idle (mine : Bool)
  | acquiresleep
  | acquireTest
  | acquired
  | releasesleep
  | releaseClear
  | releaseWakeup
  | released
  | holdingsleep (mine : Bool)
  | holdingTest (mine : Bool)
  | holdingDone (mine r : Bool)
  deriving DecidableEq

namespace SleeplockPc

def mine : SleeplockPc → Bool
  | idle mine | holdingsleep mine | holdingTest mine | holdingDone mine _ => mine
  | acquired | releasesleep | releaseClear => true
  | acquiresleep | acquireTest | releaseWakeup | released => false

def holds : SleeplockPc → Bool
  | idle _ | acquiresleep | releasesleep | holdingsleep _ => false
  | acquireTest | acquired | releaseClear | releaseWakeup | released | holdingTest _ | holdingDone _ _ => true

end SleeplockPc

namespace Sleeplock

def init : Sleeplock := ⟨false, 0⟩

def code (p : Pid) (pc : SleeplockPc) (lk : Sleeplock) (_killed : Bool) : Monitor.Action Unit Sleeplock SleeplockPc :=
  match pc with
  | .idle _ => .halt
  | .acquiresleep => .acquire .acquireTest
  | .acquireTest => if lk.locked then .sleep () .acquireTest else .compute ⟨true, p⟩ .acquired
  | .acquired => .release (.idle true)
  | .releasesleep => .acquire .releaseClear
  | .releaseClear => .compute ⟨false, 0⟩ .releaseWakeup
  | .releaseWakeup => .wakeup () .released
  | .released => .release (.idle false)
  | .holdingsleep mine => .acquire (.holdingTest mine)
  | .holdingTest mine => .compute lk (.holdingDone mine (lk.locked && lk.pid == p))
  | .holdingDone mine _ => .release (.idle mine)

/-- The lock is released by its holder. -/
def begins (_p : Pid) (pc entry : SleeplockPc) (_lk : Sleeplock) : Bool :=
  match pc, entry with
  | .idle false, .acquiresleep => true
  | .idle true, .releasesleep => true
  | .idle mine, .holdingsleep mine' => mine == mine'
  | _, _ => false

def program : Program Pid Unit Sleeplock SleeplockPc where
  code := code
  begins := begins
  start := (· = init)
  idle := .idle false

end Sleeplock

end Xv6Bfs
