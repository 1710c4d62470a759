import Xv6Bfs.Library.Monitor
import Xv6Bfs.Library.LinkedList
import Xv6Bfs.Log

/-!
# The disk driver

`iderw` and `ideintr` of `ide.c` at the grain of `idelock`. Processes lock buffers, change them and
call `iderw`; the interrupt handler is a further context, which runs when the disk has done the
command that it was given last. What has been asked of the disk and done by it is recorded.
-/

namespace Xv6Bfs

open Function Monitor

/-- What `ide.c` uses of a `struct buf`. -/
structure IdeBuf where
  valid : Bool
  dirty : Bool
  dev : BitVec 32
  blockno : Blockno
  data : Block
  qnext : Option BufId

/-- What the disk is told by `idestart`: the drive, the block, and the data of a write. -/
structure DiskCommand where
  drive : Bool
  blockno : Blockno
  write : Option Block

/-- A command that has been done for a buffer, and what is in the buffer and in the block afterwards. -/
structure Transfer where
  buf : BufId
  command : DiskCommand
  data : Block
  disk : Block

structure Ide (Q : Type*) where
  idequeue : Option BufId
  buf : BufId → IdeBuf
  /-- The holders of the locks of the buffers. -/
  owner : BufId → Option Q
  platter : Bool → Blockno → Block
  /-- The command that the disk is doing. -/
  active : Option DiskCommand
  arrived : List (BufId × DiskCommand)
  completed : List Transfer

/-- Where a process or the interrupt handler is; `k` counts the requests before that of the process. -/
inductive IdePc
  | idle
  | lockBuf (b : BufId)
  | owns (b : BufId)
  | recycle (b : BufId) (dev : BitVec 32) (blockno : Blockno)
  | store (b : BufId) (data : Block)
  | unlockBuf (b : BufId)
  | iderw (b : BufId)
  | acquire (b : BufId)
  | append (b : BufId)
  | start (b : BufId) (k : ℕ)
  | wait (b : BufId) (k : ℕ)
  | done (b : BufId) (k : ℕ)
  | ideintr
  | intrTake
  | intrWakeup (b : BufId)
  | intrStart
  | intrDone
  | panicked

namespace IdeBuf

/-- `(b->flags & (B_VALID|B_DIRTY)) == B_VALID`. -/
def synced (x : IdeBuf) : Bool :=
  x.valid && !x.dirty

def command (x : IdeBuf) : DiskCommand where
  drive := x.dev.getLsbD 0
  blockno := x.blockno
  write := if x.dirty then some x.data else none

end IdeBuf

namespace Ide

variable {Q : Type*} (x : Ide Q)

def setBuf (b : BufId) (y : IdeBuf) : Ide Q :=
  { x with buf := update x.buf b y }

def setQnext (b : BufId) (n : Option BufId) : Ide Q :=
  x.setBuf b { x.buf b with qnext := n }

/-- `b->qnext = 0`, and the pointer at the end of the queue is set to `b`. -/
def append (b : BufId) : Ide Q :=
  let x := { x.setQnext b none with arrived := x.arrived ++ [(b, (x.buf b).command)] }
  match x.idequeue with
  | none => { x with idequeue := some b }
  | some head =>
    match LinkedList.chase (fun c => some (x.buf c).qnext) (NBUF + 1) head with
    | none => x
    | some last => x.setQnext last (some b)

def idestart (b : BufId) : Ide Q :=
  { x with active := some (x.buf b).command }

def written (platter : Bool → Blockno → Block) (c : DiskCommand) : Bool → Blockno → Block :=
  match c.write with
  | none => platter
  | some data => update platter c.drive (update (platter c.drive) c.blockno data)

/-- The interrupt handler takes the first buffer off the queue when the disk has done its command. -/
def transfer (b : BufId) : Ide Q :=
  match x.active with
  | none => { x.setBuf b { x.buf b with valid := true, dirty := false } with idequeue := (x.buf b).qnext }
  | some c =>
    let data := if (x.buf b).dirty then (x.buf b).data else x.platter c.drive c.blockno
    { x.setBuf b { x.buf b with valid := true, dirty := false, data := data } with
      idequeue := (x.buf b).qnext
      active := none
      platter := written x.platter c
      completed := x.completed ++ [⟨b, c, data, written x.platter c c.drive c.blockno⟩] }

variable [DecidableEq Q] (havedisk1 : Bool)

/-- The lock of a buffer is taken and given back as a whole; a process that waits for it does not
move. So does one that panics. -/
def code (p : Option Q) (pc : IdePc) (x : Ide Q) (_killed : Bool) : Monitor.Action BufId (Ide Q) IdePc :=
  match pc with
  | .idle | .owns _ | .panicked => .halt
  | .lockBuf b =>
    if x.owner b = none then .compute { x with owner := update x.owner b p } (.owns b) else .halt
  | .recycle b dev blockno =>
    .compute (x.setBuf b { x.buf b with valid := false, dirty := false, dev := dev, blockno := blockno }) (.owns b)
  | .store b data => .compute (x.setBuf b { x.buf b with data := data, dirty := true }) (.owns b)
  | .unlockBuf b => .compute { x with owner := update x.owner b none } .idle
  | .iderw b =>
    if x.owner b ≠ p ∨ (x.buf b).synced ∨ ((x.buf b).dev ≠ 0 ∧ !havedisk1) then .compute x .panicked
    else .compute x (.acquire b)
  | .acquire b => .acquire (.append b)
  | .append b => .compute (x.append b) (.start b x.arrived.length)
  | .start b k =>
    if x.idequeue = some b then
      if FSSIZE ≤ (x.buf b).blockno.toNat then .halt else .compute (x.idestart b) (.wait b k)
    else .compute x (.wait b k)
  | .wait b k => if (x.buf b).synced then .compute x (.done b k) else .sleep b (.wait b k)
  | .done b _ => .release (.owns b)
  | .ideintr => .acquire .intrTake
  | .intrTake =>
    match x.idequeue with
    | none => .compute x .intrDone
    | some b => .compute (x.transfer b) (.intrWakeup b)
  | .intrWakeup b => .wakeup b .intrStart
  | .intrStart =>
    match x.idequeue with
    | none => .compute x .intrDone
    | some b => if FSSIZE ≤ (x.buf b).blockno.toNat then .halt else .compute (x.idestart b) .intrDone
  | .intrDone => .release .idle

/-- The handler runs once for each command that the disk has been given. -/
def begins (p : Option Q) (pc entry : IdePc) (x : Ide Q) : Bool :=
  match p, pc, entry with
  | none, .idle, .ideintr => x.active.isSome
  | some _, .idle, .lockBuf _ => true
  | some _, .owns b, .recycle b' _ _ => b == b'
  | some _, .owns b, .store b' _ => b == b'
  | some _, .owns b, .iderw b' => b == b'
  | some _, .owns b, .unlockBuf b' => b == b'
  | _, _, _ => false

def Init (x : Ide Q) : Prop :=
  x.idequeue = none ∧ x.active = none ∧ (∀ b, x.owner b = none) ∧ x.arrived = [] ∧ x.completed = []

def program (Q : Type*) [DecidableEq Q] (havedisk1 : Bool) : Program (Option Q) BufId (Ide Q) IdePc where
  code := code havedisk1
  begins := begins
  start := Init
  idle := .idle

end Ide

end Xv6Bfs
