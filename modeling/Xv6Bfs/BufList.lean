import Xv6Bfs.Bcache
import Xv6Bfs.Library.LinkedRing

/-!
# The list of buffers

The list of `bio.c` with its pointers: `bcache.head` and the `next` and `prev` of the buffers, which `binit` and `brelse`
splice in place and `bget` follows in both directions. Between the calls, a process that holds a buffer sets its flags.
-/

namespace Xv6Bfs

open Function Transition LinkedRing

/-- A `struct buf *` of the list, where `none` is `&bcache.head`. -/
abbrev BufPtr := Option BufId

structure BufList where
  buf : BufId → Bbuf
  next : BufPtr → BufPtr
  prev : BufPtr → BufPtr

namespace BufList

variable (c : BufList)

def setBuf (i : BufId) (x : Bbuf) : BufList :=
  { c with buf := update c.buf i x }

/-- The four assignments that put a buffer behind `bcache.head`, in `binit` and at the end of `brelse`. -/
def pushFront (b : BufPtr) : BufList :=
  let next := update c.next b (c.next none)
  let prev := update c.prev b none
  let prev := update prev (next none) b
  { c with next := update next none b, prev := prev }

/-- The two assignments of `brelse` that take a buffer out. -/
def unlink (b : BufPtr) : BufList :=
  let prev := update c.prev (c.next b) (c.prev b)
  { c with next := update c.next (prev b) (c.next b), prev := prev }

def binit : BufList :=
  let c := { c with prev := update c.prev none none, next := update c.next none none }
  (List.finRange NBUF).foldl (fun c i => c.pushFront (some i)) c

def isBlock (dev : BitVec 32) (blockno : Blockno) (b : BufPtr) : Bool :=
  b.any fun i => (c.buf i).dev = dev ∧ (c.buf i).blockno = blockno

def isUnused (b : BufPtr) : Bool :=
  b.any fun i => (c.buf i).refcnt = 0 ∧ (c.buf i).dirty = false

/-- The section of `bget` under `bcache.lock`; the outer `none` is a loop that does not end, and the inner one is the panic. -/
def bget (dev : BitVec 32) (blockno : Blockno) : Option (Option (BufId × BufList)) := do
  match ← scan c.next none (c.isBlock dev blockno) (NBUF + 1) (c.next none) with
  | some (some i) => some (some (i, c.setBuf i { c.buf i with refcnt := (c.buf i).refcnt + 1 }))
  | _ =>
    match ← scan c.prev none c.isUnused (NBUF + 1) (c.prev none) with
    | some (some i) => some (some (i, c.setBuf i { c.buf i with
        dev := dev, blockno := blockno, valid := false, dirty := false, refcnt := 1 }))
    | _ => some none

/-- The section of `brelse` under `bcache.lock`. -/
def brelse (i : BufId) : BufList :=
  let c := c.setBuf i { c.buf i with refcnt := (c.buf i).refcnt - 1 }
  if (c.buf i).refcnt = 0 then (c.unlink (some i)).pushFront (some i) else c

end BufList

/-- The list with what has happened to it: how many `bget`s of each buffer are outstanding, and when each buffer was last
released. -/
structure BufRun where
  list : BufList
  held : BufId → ℕ
  released : BufId → ℕ
  clock : ℕ

inductive BufEvent where
  | bget (dev : BitVec 32) (blockno : Blockno)
  | brelse (i : BufId)
  /-- A process that holds the buffer changes its flags. -/
  | flags (i : BufId) (valid dirty : Bool)

def BufEvent.step : BufEvent → BufRun → Option BufRun
  | .bget dev blockno, x => do
    let (i, c) ← (← x.list.bget dev blockno)
    return { x with list := c, held := update x.held i (x.held i + 1) }
  | .brelse i, x =>
    if 0 < x.held i then
      some { list := x.list.brelse i, held := update x.held i (x.held i - 1),
             released := update x.released i (x.clock + 1), clock := x.clock + 1 }
    else none
  | .flags i valid dirty, x =>
    if 0 < x.held i then
      some { x with list := x.list.setBuf i { x.list.buf i with valid := valid, dirty := dirty } }
    else none

/-- The buffers are in memory that is zero before `binit`. -/
def bufSystem : System BufRun BufEvent where
  init x := ∃ c : BufList, (∀ i, (c.buf i).refcnt = 0 ∧ (c.buf i).valid = false ∧ (c.buf i).dirty = false ∧
      (c.buf i).dev = 0 ∧ (c.buf i).blockno = 0) ∧
    x = ⟨c.binit, fun _ => 0, fun _ => 0, 0⟩
  step := BufEvent.step

end Xv6Bfs
