import Mathlib.Data.Fin.Basic
import Mathlib.Algebra.Ring.Nat

/-!
# Blocks and the buffer cache

The disk is a table of blocks of `BSIZE` bytes. The buffer cache holds copies of some of
them; `bget` recycles a buffer that is neither referenced nor dirty, and which one it takes
is left open here: any clean buffer may lose its block between two steps.
-/

namespace Xv6Bfs

open Function

def BSIZE : ℕ := 512

instance : NeZero BSIZE := ⟨by decide⟩

abbrev Blockno := BitVec 32

instance : LawfulBEq Blockno := instLawfulBEq

abbrev Block := Fin BSIZE → BitVec 8

namespace Block

def byte (d : Block) (k : ℕ) : BitVec 8 :=
  d (Fin.ofNat BSIZE k)

/-- The `i`-th of the block's little-endian `int`s, as `((int*)data)[i]` reads it. -/
def word (d : Block) (i : ℕ) : BitVec 32 :=
  BitVec.ofNat 32 ((d.byte (4 * i)).toNat + 256 * (d.byte (4 * i + 1)).toNat +
    65536 * (d.byte (4 * i + 2)).toNat + 16777216 * (d.byte (4 * i + 3)).toNat)

/-- `((int*)data)[i] = v`. -/
def setWord (d : Block) (i : ℕ) (v : BitVec 32) : Block :=
  fun k => if k.val / 4 = i then BitVec.ofNat 8 (v.toNat / 256 ^ (k.val % 4)) else d k

end Block

/-- `struct buf`, with `B_VALID` and `B_DIRTY` of its flags. -/
structure Buf where
  valid : Bool
  dirty : Bool
  data : Block

structure Io where
  disk : Blockno → Block
  cache : Blockno → Option Buf

namespace Io

/-- Writes a dirty buffer, reads an invalid one. -/
def iderw (io : Io) (b : Blockno) : Option Io := do
  let buf ← io.cache b
  -- panic("iderw: nothing to do")
  if buf.valid && !buf.dirty then none
  else if buf.dirty then
    some { disk := update io.disk b buf.data
           cache := update io.cache b (some ⟨true, false, buf.data⟩) }
  else
    some { io with cache := update io.cache b (some ⟨true, false, io.disk b⟩) }

/-- A recycled buffer has no flags; the bytes it held before are never read. -/
def bget (io : Io) (b : Blockno) : Io :=
  match io.cache b with
  | some _ => io
  | none => { io with cache := update io.cache b (some ⟨false, false, fun _ => 0⟩) }

def bread (io : Io) (b : Blockno) : Option (Block × Io) := do
  let io := io.bget b
  let buf ← io.cache b
  if buf.valid then
    some (buf.data, io)
  else
    let io ← io.iderw b
    let buf ← io.cache b
    some (buf.data, io)

/-- `memmove(b->data, data, BSIZE)`, or any other change of the buffer's bytes. -/
def store (io : Io) (b : Blockno) (data : Block) : Option Io := do
  let buf ← io.cache b
  some { io with cache := update io.cache b (some { buf with data := data }) }

/-- `b->flags |= B_DIRTY`. -/
def setDirty (io : Io) (b : Blockno) : Option Io := do
  let buf ← io.cache b
  some { io with cache := update io.cache b (some { buf with dirty := true }) }

def bwrite (io : Io) (b : Blockno) : Option Io := do
  let io ← io.setDirty b
  io.iderw b

/-- `bget` gives the buffer of `b` to another block. -/
def evict (io : Io) (b : Blockno) : Option Io := do
  let buf ← io.cache b
  if buf.dirty then none
  else some { io with cache := update io.cache b none }

def crash (io : Io) : Io :=
  { io with cache := fun _ => none }

end Io

end Xv6Bfs
