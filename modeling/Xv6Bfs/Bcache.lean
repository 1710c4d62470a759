import Xv6Bfs.Icache

/-!
# The buffers of the cache

`bio.c` with its `NBUF` buffers, their reference counts and locks and the list in the order of
their last use, over the disk of `memide.c`, and `log.c` on top of it. Many processes read, change
and release blocks; the process that ends the last transaction commits. What has been stored in
each block is recorded, and so are the references to buffers that the processes hold.
-/

namespace Xv6Bfs

open Function Transition

structure Bbuf extends Buf where
  dev : BitVec 32
  blockno : Blockno
  refcnt : ℕ
  lock : Option Pid

structure Bcache where
  memdisk : Blockno → Block
  buf : BufId → Bbuf
  /-- The buffers from `head.next` on. -/
  list : List BufId

namespace Bcache

variable (c : Bcache) (disksize : ℕ) (p : Pid)

def setBuf (i : BufId) (x : Bbuf) : Bcache :=
  { c with buf := update c.buf i x }

/-- The section of `bget` under `bcache.lock`. -/
def bget (dev : BitVec 32) (blockno : Blockno) : Option (BufId × Bcache) :=
  match c.list.find? (fun i => (c.buf i).dev = dev ∧ (c.buf i).blockno = blockno) with
  | some i => some (i, c.setBuf i { c.buf i with refcnt := (c.buf i).refcnt + 1 })
  | none =>
    match c.list.reverse.find? (fun i => (c.buf i).refcnt = 0 ∧ (c.buf i).dirty = false) with
    | some i => some (i, c.setBuf i { c.buf i with
        dev := dev, blockno := blockno, valid := false, dirty := false, refcnt := 1 })
    -- panic("bget: no buffers")
    | none => none

/-- A process that has to wait does not move. -/
def acquiresleep (i : BufId) : Option Bcache :=
  if (c.buf i).lock = none then some (c.setBuf i { c.buf i with lock := some p }) else none

def iderw (i : BufId) : Option Bcache :=
  let b := c.buf i
  if b.lock ≠ some p then none
  else if b.valid && !b.dirty then none
  else if b.dev ≠ 1 then none
  else if disksize ≤ b.blockno.toNat then none
  else if b.dirty then
    some { c.setBuf i { b with dirty := false, valid := true } with
      memdisk := update c.memdisk b.blockno b.data }
  else some (c.setBuf i { b with data := c.memdisk b.blockno, valid := true })

/-- `bread` after its section under `bcache.lock`. -/
def fill (i : BufId) : Option Bcache := do
  let c ← c.acquiresleep p i
  if (c.buf i).valid then some c else c.iderw disksize p i

def bread (dev : BitVec 32) (blockno : Blockno) : Option (BufId × Bcache) := do
  let (i, c) ← c.bget dev blockno
  let c ← c.fill disksize p i
  some (i, c)

def store (i : BufId) (data : Block) : Bcache :=
  c.setBuf i { c.buf i with data := data }

/-- `b->flags |= B_DIRTY`. -/
def setDirty (i : BufId) : Bcache :=
  c.setBuf i { c.buf i with dirty := true }

def bwrite (i : BufId) : Option Bcache :=
  if (c.buf i).lock ≠ some p then none else (c.setDirty i).iderw disksize p i

/-- `brelse` up to `releasesleep`. -/
def releasesleep (i : BufId) : Option Bcache :=
  if (c.buf i).lock ≠ some p then none else some (c.setBuf i { c.buf i with lock := none })

def unref (i : BufId) : Bcache :=
  let c := c.setBuf i { c.buf i with refcnt := (c.buf i).refcnt - 1 }
  if (c.buf i).refcnt = 0 then { c with list := i :: c.list.erase i } else c

def brelse (i : BufId) : Option Bcache := do
  let c ← c.releasesleep p i
  some (c.unref i)

/-! ### The loops of the log -/

variable (sb : Superblock)

/-- The part that the loops of `write_log` and `install_trans` share; it returns what has been stored. -/
def copyBlock (src dst : BufId) : Option (Block × Bcache) := do
  let data := (c.buf src).data
  let c ← (c.store dst data).bwrite disksize p dst
  let c ← c.brelse p src
  let c ← c.brelse p dst
  some (data, c)

def writeLogBlock (tail : ℕ) (b : Blockno) : Option (Block × Bcache) := do
  let (dst, c) ← c.bread disksize p 1 (sb.slot tail)
  let (src, c) ← c.bread disksize p 1 b
  c.copyBlock disksize p src dst

def installBlock (tail : ℕ) (b : Blockno) : Option (Block × Bcache) := do
  let (src, c) ← c.bread disksize p 1 (sb.slot tail)
  let (dst, c) ← c.bread disksize p 1 b
  c.copyBlock disksize p src dst

def writeHead (lh : List Blockno) : Option (Block × Bcache) := do
  let (i, c) ← c.bread disksize p 1 sb.logstart
  let hb := fillHead (c.buf i).data lh
  let c ← (c.store i hb).bwrite disksize p i
  let c ← c.brelse p i
  some (hb, c)

end Bcache

/-! ### The processes -/

inductive CachePc
  | idle
  /-- In `bread(dev, blockno)`, with a reference to the buffer. -/
  | bread (i : BufId) (dev : BitVec 32) (blockno : Blockno)
  /-- In `brelse`, after `releasesleep`. -/
  | brelse (i : BufId)
  | commit (l : CommitPc)
  deriving DecidableEq

structure CacheRun where
  cache : Bcache
  lh : List Blockno
  outstanding : ℤ
  committing : Bool
  pc : Pid → CachePc
  refs : Multiset (Pid × BufId)
  stored : Blockno → Block

/-- The buffers are named by the processes that hold their locks. -/
inductive CacheEvent
  | bget (p : Pid) (dev : BitVec 32) (blockno : Blockno)
  | fill (p : Pid)
  | logWrite (p : Pid) (i : BufId) (data : Block)
  | bwrite (p : Pid) (i : BufId) (data : Block)
  | releasesleep (p : Pid) (i : BufId)
  | unref (p : Pid)
  | beginOp
  | endOp (p : Pid)
  | commit (p : Pid)

namespace CacheRun

variable (sb : Superblock) (disksize : ℕ) (s : CacheRun)

def goto (p : Pid) (pc : CachePc) : CacheRun :=
  { s with pc := update s.pc p pc }

def bget (p : Pid) (dev : BitVec 32) (blockno : Blockno) : Option CacheRun := do
  let (i, c) ← s.cache.bget dev blockno
  some ({ s with cache := c, refs := (p, i) ::ₘ s.refs }.goto p (.bread i dev blockno))

/-- A change of the buffer with `log_write`; the process has the buffer from `bread`. -/
def logWrite (p : Pid) (i : BufId) (data : Block) : Option CacheRun :=
  let b := (s.cache.buf i).blockno
  if (s.cache.buf i).lock ≠ some p then none
  -- panic("too big a transaction")
  else if s.lh.length ≥ LOGSIZE ∨ (s.lh.length : ℤ) ≥ (sb.nlog : ℤ) - 1 then none
  -- panic("log_write outside of trans")
  else if s.outstanding < 1 then none
  else some { s with
    cache := (s.cache.store i data).setDirty i
    lh := if b ∈ s.lh then s.lh else s.lh ++ [b]
    stored := update s.stored b data }

/-- A change of the buffer with `bwrite`, by a process other than the one that commits. -/
def bwrite (p : Pid) (i : BufId) (data : Block) : Option CacheRun :=
  if s.committing then none
  else do
    let c ← (s.cache.store i data).bwrite disksize p i
    some { s with cache := c, stored := update s.stored (s.cache.buf i).blockno data }

def releasesleep (p : Pid) (i : BufId) : Option CacheRun := do
  let c ← s.cache.releasesleep p i
  some ({ s with cache := c }.goto p (.brelse i))

def beginOp : Option CacheRun :=
  if s.committing then none
  else if (s.lh.length : ℤ) + (s.outstanding + 1) * MAXOPBLOCKS > LOGSIZE then none
  else some { s with outstanding := s.outstanding + 1 }

def endOp (p : Pid) : Option CacheRun :=
  -- panic("log.committing")
  if s.committing then none
  else if s.outstanding - 1 = 0 then
    some ({ s with outstanding := 0, committing := true }.goto p
      (.commit (if s.lh.length > 0 then .writeLog 0 else .done)))
  else some { s with outstanding := s.outstanding - 1 }

def wrote (p : Pid) (b : Blockno) (data : Block) (c : Bcache) (l : CommitPc) : CacheRun :=
  { s with cache := c, stored := update s.stored b data }.goto p (.commit l)

/-- The next block that `commit` writes, or the end of one of its loops. -/
def commit (p : Pid) : CommitPc → Option CacheRun
  | .writeLog tail =>
    match s.lh[tail]? with
    | some b => do
      let (data, c) ← s.cache.writeLogBlock disksize p sb tail b
      some (s.wrote p (sb.slot tail) data c (.writeLog (tail + 1)))
    | none => some (s.goto p (.commit .writeHead))
  | .writeHead => do
    let (data, c) ← s.cache.writeHead disksize p sb s.lh
    some (s.wrote p sb.logstart data c (.installTrans 0))
  | .installTrans tail =>
    match s.lh[tail]? with
    | some b => do
      let (data, c) ← s.cache.installBlock disksize p sb tail b
      some (s.wrote p b data c (.installTrans (tail + 1)))
    | none => some (s.goto p (.commit .clear))
  | .clear => do
    let (data, c) ← s.cache.writeHead disksize p sb []
    some { s.wrote p sb.logstart data c .done with lh := [] }
  | .done => some ({ s with committing := false }.goto p .idle)

def step : CacheEvent → CacheRun → Option CacheRun
  | .bget p dev blockno, s => if s.pc p = .idle then s.bget p dev blockno else none
  | .fill p, s =>
    match s.pc p with
    | .bread i _ _ => do
      let c ← s.cache.fill disksize p i
      some ({ s with cache := c }.goto p .idle)
    | _ => none
  | .logWrite p i data, s => if s.pc p = .idle then s.logWrite sb p i data else none
  | .bwrite p i data, s => if s.pc p = .idle then s.bwrite disksize p i data else none
  | .releasesleep p i, s => if s.pc p = .idle then s.releasesleep p i else none
  | .unref p, s =>
    match s.pc p with
    | .brelse i => some ({ s with cache := s.cache.unref i, refs := s.refs.erase (p, i) }.goto p .idle)
    | _ => none
  | .beginOp, s => s.beginOp
  | .endOp p, s => if s.pc p = .idle then s.endOp p else none
  | .commit p, s =>
    match s.pc p with
    | .commit l => s.commit sb disksize p l
    | _ => none

end CacheRun

def cacheSystem (sb : Superblock) (disksize : ℕ) : System CacheRun CacheEvent where
  init s := (∀ i, s.cache.buf i = ⟨⟨false, false, fun _ => 0⟩, 0, 0, 0, none⟩) ∧
    s.cache.list = (List.finRange NBUF).reverse ∧ s.lh = [] ∧ s.outstanding = 0 ∧ s.committing = false ∧
    (∀ p, s.pc p = .idle) ∧ s.refs = 0 ∧ s.stored = s.cache.memdisk
  step := CacheRun.step sb disksize

end Xv6Bfs
