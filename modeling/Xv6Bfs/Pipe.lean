import Xv6Bfs.Library.Monitor
import Xv6Bfs.Library.Ring
import Xv6Bfs.Sysfile

/-!
# Pipes

`pipewrite`, `piperead` and `pipeclose` of `pipe.c` for one pipe, run by any number of processes at
the grain of the pipe's lock. The bytes that have been stored and delivered are kept next to the pipe.
-/

namespace Xv6Bfs

open Monitor

/-- `&p->nread`, on which readers sleep, and `&p->nwrite`, on which writers do. -/
inductive PipeChan
  | nread
  | nwrite
  deriving DecidableEq

/-- Where a process is in `pipe.c`, with its arguments and locals. -/
inductive PipePc
  | idle
  | pipewrite (addr : ℕ → BitVec 8) (n : ℤ)
  | writeLoop (addr : ℕ → BitVec 8) (n : ℤ) (i : ℕ)
  | writeFull (addr : ℕ → BitVec 8) (n : ℤ) (i : ℕ)
  | writeWakeup (addr : ℕ → BitVec 8) (n : ℤ) (i : ℕ)
  | writeSleep (addr : ℕ → BitVec 8) (n : ℤ) (i : ℕ)
  | writeFail
  | writeEnd (n : ℤ)
  | writeReturn (n : ℤ)
  | piperead (n : ℤ)
  | readEmpty (n : ℤ)
  | readFail
  | readCopy (n : ℤ) (i : ℕ)
  | readEnd (n : ℤ) (i : ℕ)
  | readReturn (n : ℤ) (i : ℕ)
  | pipeclose (writable : Bool)
  | closeEnd (writable : Bool)
  | closeWakeup (writable : Bool)
  | closeReturn

/-- A pipe, the bytes that `pipewrite` has stored in it and those that `piperead` has delivered. -/
structure PipeRun where
  pipe : Pipe
  stored : List (BitVec 8)
  delivered : List (BitVec 8)

namespace Pipe

def full (x : Pipe) : Bool :=
  x.nwrite = x.nread + BitVec.ofNat 32 PIPESIZE

def empty (x : Pipe) : Bool :=
  x.nread = x.nwrite

def contents (x : Pipe) : List (BitVec 8) :=
  Ring.contents x.data x.nread x.nwrite

end Pipe

namespace PipeRun

/-- `p->data[p->nwrite++ % PIPESIZE] = b`. -/
def store (x : PipeRun) (b : BitVec 8) : PipeRun where
  pipe := { x.pipe with
    data := Function.update x.pipe.data (Ring.slot PIPESIZE x.pipe.nwrite) b
    nwrite := x.pipe.nwrite + 1 }
  stored := x.stored ++ [b]
  delivered := x.delivered

/-- `addr[i] = p->data[p->nread++ % PIPESIZE]`. -/
def take (x : PipeRun) : PipeRun where
  pipe := { x.pipe with nread := x.pipe.nread + 1 }
  stored := x.stored
  delivered := x.delivered ++ [x.pipe.data (Ring.slot PIPESIZE x.pipe.nread)]

def close (x : PipeRun) (writable : Bool) : PipeRun :=
  { x with pipe := if writable then { x.pipe with writeopen := false } else { x.pipe with readopen := false } }

/-- The last of the two ends to close also frees the pipe, after which nobody has it. -/
def code (pc : PipePc) (x : PipeRun) (killed : Bool) : Monitor.Action PipeChan PipeRun PipePc :=
  match pc with
  | .idle => .halt
  | .pipewrite addr n => .acquire (.writeLoop addr n 0)
  | .writeLoop addr n i => .compute x (if (i : ℤ) < n then .writeFull addr n i else .writeEnd n)
  | .writeFull addr n i =>
    if x.pipe.full then
      .compute x (if !x.pipe.readopen || killed then .writeFail else .writeWakeup addr n i)
    else .compute (x.store (addr i)) (.writeLoop addr n (i + 1))
  | .writeWakeup addr n i => .wakeup .nread (.writeSleep addr n i)
  | .writeSleep addr n i => .sleep .nwrite (.writeFull addr n i)
  | .writeFail => .release .idle
  | .writeEnd n => .wakeup .nread (.writeReturn n)
  | .writeReturn _ => .release .idle
  | .piperead n => .acquire (.readEmpty n)
  | .readEmpty n =>
    if x.pipe.empty && x.pipe.writeopen then
      if killed then .compute x .readFail else .sleep .nread (.readEmpty n)
    else .compute x (.readCopy n 0)
  | .readFail => .release .idle
  | .readCopy n i =>
    if (i : ℤ) < n ∧ x.pipe.empty = false then .compute x.take (.readCopy n (i + 1))
    else .compute x (.readEnd n i)
  | .readEnd n i => .wakeup .nwrite (.readReturn n i)
  | .readReturn _ _ => .release .idle
  | .pipeclose writable => .acquire (.closeEnd writable)
  | .closeEnd writable => .compute (x.close writable) (.closeWakeup writable)
  | .closeWakeup writable => .wakeup (if writable then .nread else .nwrite) .closeReturn
  | .closeReturn => .release .idle

/-- A call is made through an open file of the end that it is for. -/
def begins (pc entry : PipePc) (x : PipeRun) : Bool :=
  match pc, entry with
  | .idle, .pipewrite _ _ => x.pipe.writeopen
  | .idle, .piperead _ => x.pipe.readopen
  | .idle, .pipeclose writable => if writable then x.pipe.writeopen else x.pipe.readopen
  | _, _ => false

def Init (x : PipeRun) : Prop :=
  x.pipe.nread = 0 ∧ x.pipe.nwrite = 0 ∧ x.pipe.readopen = true ∧ x.pipe.writeopen = true ∧ x.stored = [] ∧
    x.delivered = []

def program (P : Type*) : Program P PipeChan PipeRun PipePc where
  code _ := code
  begins _ := begins
  start := Init
  idle := .idle

end PipeRun

end Xv6Bfs
