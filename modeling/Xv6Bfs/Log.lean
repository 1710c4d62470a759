import Xv6Bfs.Bio
import Xv6Bfs.Library.Transition
import Mathlib.Data.Finset.Card

/-!
# The file system log

The redo log of `log.c` with the processes that use it. A step is one section under
`log.lock`, one block write of `commit` or of `recover_from_log`, or a crash; the buffer
cache may read and recycle clean buffers between any two of them.

The blocks that the transactions write are kept beside the program's own state, so that
a run tells which transactions have been committed and what they wrote.
-/

namespace Xv6Bfs

open Function Transition

def MAXOPBLOCKS : ℕ := 10

def LOGSIZE : ℕ := MAXOPBLOCKS * 3

def NBUF : ℕ := MAXOPBLOCKS * 3

instance : NeZero NBUF := ⟨by decide⟩

abbrev BufId := Fin NBUF

def FSSIZE : ℕ := 2000

/-- The fields of `struct superblock` that `initlog` uses; it keeps them as `int`s. -/
structure Superblock where
  logstart : Blockno
  nlog : ℕ
  nlog_pos : 0 < nlog
  log_fits : logstart.toNat + nlog < 2 ^ 31

def mkfsSuperblock : Superblock := ⟨2, LOGSIZE, by decide, by decide⟩

namespace Superblock

variable (sb : Superblock)

/-- `log.start+tail+1`. -/
def slot (tail : ℕ) : Blockno :=
  sb.logstart + BitVec.ofNat 32 tail + 1

def Home (b : Blockno) : Prop :=
  ∀ i < sb.nlog, b ≠ sb.logstart + BitVec.ofNat 32 i

instance (b : Blockno) : Decidable (sb.Home b) := by
  unfold Home
  infer_instance

end Superblock

/-! ### Reading and writing the log -/

section Disk

variable (sb : Superblock)

/-- The entries of `struct logheader` that the block holds. -/
def headerBlocks (buf : Block) : List Blockno :=
  (List.range (buf.word 0).toInt.toNat).map (fun i => buf.word (i + 1))

def readHead (io : Io) : Option (List Blockno × Io) := do
  let (buf, io) ← io.bread sb.logstart
  -- log.lh.block has LOGSIZE entries
  if (buf.word 0).toInt > LOGSIZE then none
  else some (headerBlocks buf, io)

def fillHead (hb : Block) (lh : List Blockno) : Block :=
  (List.range lh.length).foldl (fun hb i => hb.setWord (i + 1) (lh.getD i 0))
    (hb.setWord 0 (BitVec.ofNat 32 lh.length))

def writeHead (lh : List Blockno) (io : Io) : Option Io := do
  let (hb, io) ← io.bread sb.logstart
  let io ← io.store sb.logstart (fillHead hb lh)
  io.bwrite sb.logstart

def writeLogBlock (tail : ℕ) (b : Blockno) (io : Io) : Option Io := do
  let (_, io) ← io.bread (sb.slot tail)
  let (data, io) ← io.bread b
  let io ← io.store (sb.slot tail) data
  io.bwrite (sb.slot tail)

def installBlock (tail : ℕ) (b : Blockno) (io : Io) : Option Io := do
  let (data, io) ← io.bread (sb.slot tail)
  let (_, io) ← io.bread b
  let io ← io.store b data
  io.bwrite b

def installTrans (lh : List Blockno) (io : Io) : Option Io :=
  lh.zipIdx.foldlM (fun io entry => installBlock sb entry.2 entry.1 io) io

def recoverFromLog (io : Io) : Option Io := do
  let (lh, io) ← readHead sb io
  let io ← installTrans sb lh io
  writeHead sb [] io

end Disk

/-! ### The log in memory -/

/-- Where a process is in `commit` and the end of `end_op`. -/
inductive CommitPc
  | writeLog (tail : ℕ)
  | writeHead
  | installTrans (tail : ℕ)
  | clear
  | done
  deriving DecidableEq

inductive Boot
  | readHead
  | installTrans (tail : ℕ)
  | clear
  | up
  deriving DecidableEq

inductive Panic
  | tooBigATransaction
  | logWriteOutsideOfTrans
  | logCommitting
  deriving DecidableEq

inductive LogPc
  | idle
  /-- In the loop of `begin_op`, after a sleep. -/
  | woken
  /-- Asleep on `&log`. -/
  | sleeping
  | op
  /-- In `log_write`, past its checks and before `acquire(&log.lock)`. -/
  | logging (b : Blockno)
  | commit (c : CommitPc)
  | panicked (msg : Panic)
  deriving DecidableEq

/-- The writes of a transaction, in order. -/
abbrev Transaction := List (Blockno × Block)

/-- The blocks and the header, with the transactions: the contents of the disk at the start, the
transactions committed since, and the writes logged since the last commit. -/
structure LogStore where
  io : Io
  lh : List Blockno
  base : Blockno → Block
  committed : List Transaction
  current : Transaction

namespace LogStore

def logged (st : LogStore) : List Blockno :=
  st.current.map Prod.fst

/-- The part of `log_write` under `log.lock`, for a buffer that the caller has read and
changed by `f`. -/
def logWrite (st : LogStore) (b : Blockno) (f : Block → Block) : Option LogStore := do
  let (data, io) ← st.io.bread b
  let io ← io.store b (f data)
  let io ← io.setDirty b
  if b ∈ st.lh then
    some { st with io := io, current := st.current ++ [(b, f data)] }
  else if st.lh.length < LOGSIZE then
    some { st with io := io, lh := st.lh ++ [b], current := st.current ++ [(b, f data)] }
  else none

/-- The next block write of `commit`, or the end of one of its loops. -/
def commit (sb : Superblock) (st : LogStore) : CommitPc → Option (LogStore × CommitPc)
  | .writeLog tail =>
    match st.lh[tail]? with
    | some b => do
      let io ← writeLogBlock sb tail b st.io
      some ({ st with io := io }, .writeLog (tail + 1))
    | none => some (st, .writeHead)
  | .writeHead => do
    let io ← Xv6Bfs.writeHead sb st.lh st.io
    some ({ st with io := io, committed := st.committed ++ [st.current], current := [] },
      .installTrans 0)
  | .installTrans tail =>
    match st.lh[tail]? with
    | some b => do
      let io ← installBlock sb tail b st.io
      some ({ st with io := io }, .installTrans (tail + 1))
    | none => some (st, .clear)
  | .clear => do
    let io ← Xv6Bfs.writeHead sb [] st.io
    some ({ st with io := io, lh := [] }, .done)
  | .done => none

/-- The next block write of `recover_from_log`, or the end of its loop. -/
def recover (sb : Superblock) (st : LogStore) : Boot → Option (LogStore × Boot)
  | .readHead => do
    let (lh, io) ← Xv6Bfs.readHead sb st.io
    some ({ st with io := io, lh := lh }, .installTrans 0)
  | .installTrans tail =>
    match st.lh[tail]? with
    | some b => do
      let io ← installBlock sb tail b st.io
      some ({ st with io := io }, .installTrans (tail + 1))
    | none => some (st, .clear)
  | .clear => do
    let io ← Xv6Bfs.writeHead sb [] st.io
    some ({ st with io := io, lh := [] }, .up)
  | .up => none

def crash (st : LogStore) : LogStore :=
  { st with io := st.io.crash, lh := [], current := [] }

end LogStore

/-! ### The processes -/

/-- `struct log` with its processes; `opBlocks` are the blocks a process has given to
`log_write` since its `begin_op`. -/
structure LogSystem (Proc : Type) extends LogStore where
  outstanding : ℤ
  committing : Bool
  boot : Boot
  pc : Proc → LogPc
  opBlocks : Proc → List Blockno

inductive LogEvent (Proc : Type)
  | beginOp (p : Proc)
  | kill (p : Proc)
  | logWrite (p : Proc) (b : Blockno)
  | logWriteLocked (p : Proc) (f : Block → Block)
  | endOp (p : Proc)
  | commit (p : Proc)
  | bread (b : Blockno)
  | evict (b : Blockno)
  | crash
  | recover

namespace LogSystem

variable {Proc : Type} [DecidableEq Proc]

def setPc (s : LogSystem Proc) (p : Proc) (pc : LogPc) : LogSystem Proc :=
  { s with pc := update s.pc p pc }

def wakeup (s : LogSystem Proc) : LogSystem Proc :=
  { s with pc := fun p => if s.pc p = .sleeping then .woken else s.pc p }

/-- One turn of the loop of `begin_op`. -/
def beginOp (s : LogSystem Proc) (p : Proc) : Option (LogSystem Proc) :=
  if s.boot = .up ∧ (s.pc p = .idle ∨ s.pc p = .woken) then
    if s.committing then some (s.setPc p .sleeping)
    else if (s.lh.length : ℤ) + (s.outstanding + 1) * MAXOPBLOCKS > LOGSIZE then
      some (s.setPc p .sleeping)
    else
      some { s with outstanding := s.outstanding + 1
                    pc := update s.pc p .op
                    opBlocks := update s.opBlocks p [] }
  else none

def kill (s : LogSystem Proc) (p : Proc) : Option (LogSystem Proc) :=
  if s.pc p = .sleeping then some (s.setPc p .woken) else none

/-- The checks of `log_write`, made without the lock. -/
def logWrite (sb : Superblock) (s : LogSystem Proc) (p : Proc) (b : Blockno) : Option (LogSystem Proc) :=
  if s.pc p = .op then
    let s := { s with opBlocks := update s.opBlocks p (b :: s.opBlocks p) }
    if s.lh.length ≥ LOGSIZE ∨ (s.lh.length : ℤ) ≥ (sb.nlog : ℤ) - 1 then
      some (s.setPc p (.panicked .tooBigATransaction))
    else if s.outstanding < 1 then
      some (s.setPc p (.panicked .logWriteOutsideOfTrans))
    else some (s.setPc p (.logging b))
  else none

/-- The rest of `log_write`. -/
def logWriteLocked (s : LogSystem Proc) (p : Proc) (f : Block → Block) : Option (LogSystem Proc) :=
  match s.pc p with
  | .logging b => do
    let st ← s.toLogStore.logWrite b f
    some { s with toLogStore := st, pc := update s.pc p .op }
  | _ => none

/-- `end_op` up to the release of the lock. -/
def endOp (s : LogSystem Proc) (p : Proc) : Option (LogSystem Proc) :=
  if s.pc p = .op then
    let s := { s with outstanding := s.outstanding - 1 }
    if s.committing then some (s.setPc p (.panicked .logCommitting))
    else if s.outstanding = 0 then
      -- commit has nothing to do when log.lh.n is 0
      some { s.setPc p (.commit (if s.lh.length > 0 then .writeLog 0 else .done)) with
             committing := true }
    else some (s.wakeup.setPc p .idle)
  else none

/-- A step of `commit`, or the end of `end_op` after it. -/
def commit (sb : Superblock) (s : LogSystem Proc) (p : Proc) : Option (LogSystem Proc) :=
  match s.pc p with
  | .commit .done => some ({ s with committing := false }.wakeup.setPc p .idle)
  | .commit c => do
    let (st, c) ← s.toLogStore.commit sb c
    some { s with toLogStore := st, pc := update s.pc p (.commit c) }
  | _ => none

def crash (s : LogSystem Proc) : LogSystem Proc where
  toLogStore := s.toLogStore.crash
  outstanding := 0
  committing := false
  boot := .readHead
  pc _ := .idle
  opBlocks _ := []

def recover (sb : Superblock) (s : LogSystem Proc) : Option (LogSystem Proc) := do
  let (st, boot) ← s.toLogStore.recover sb s.boot
  some { s with toLogStore := st, boot := boot }

def start (disk : Blockno → Block) : LogSystem Proc where
  io := ⟨disk, fun _ => none⟩
  lh := []
  base := disk
  committed := []
  current := []
  outstanding := 0
  committing := false
  boot := .readHead
  pc _ := .idle
  opBlocks _ := []

end LogSystem

open LogSystem in
def LogEvent.step {Proc : Type} [DecidableEq Proc] (sb : Superblock) (s : LogSystem Proc) :
    LogEvent Proc → Option (LogSystem Proc)
  | .beginOp p => s.beginOp p
  | .kill p => s.kill p
  | .logWrite p b => s.logWrite sb p b
  | .logWriteLocked p f => s.logWriteLocked p f
  | .endOp p => s.endOp p
  | .commit p => s.commit sb p
  | .bread b => do
    let (_, io) ← s.io.bread b
    some { s with io := io }
  | .evict b => do
    let io ← s.io.evict b
    some { s with io := io }
  | .crash => some s.crash
  | .recover => s.recover sb

def logSystem (sb : Superblock) (Proc : Type) [DecidableEq Proc] :
    System (LogSystem Proc) (LogEvent Proc) where
  init s := ∃ disk, (disk sb.logstart).word 0 = 0 ∧ s = LogSystem.start disk
  step e s := e.step sb s

end Xv6Bfs
