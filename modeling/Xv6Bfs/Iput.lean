import Xv6Bfs.Icache

/-!
# The inode cache step by step

`ialloc`, `iget`, `idup`, `ilock`, `iunlock` and `iput` of many processes, in any order of their
steps. A step is what a process does in one section under `icache.lock`, with one buffer of the
disk, or with the fields that a sleep-lock protects. Recorded beside them are the references that
the processes hold, and the inodes that a process has allocated and not yet locked.
-/

namespace Xv6Bfs

/-- A reference to an entry of the cache. It is `named` if the inode had links, or belonged to the
process, when the process got it. -/
structure Reference where
  pid : Pid
  ip : Fin NINODE
  named : Bool
  deriving DecidableEq

/-- The places in `ilock` and `iput`. -/
inductive InodeLabel
  | ilockSleep
  | ilockTest
  | ilockRead
  | ilockValid
  | ilockReturn
  | iputSleep
  | iputTest
  | iputRef
  | iputTrunc
  | iputType
  | iputUpdate
  | iputInvalid
  | iputUnlock
  | iputDrop
  deriving DecidableEq

inductive InodePc
  | idle
  /-- The loop of `ialloc`. -/
  | ialloc (type : BitVec 16) (inum : ℕ)
  /-- The call of `iget` at the end of `ialloc`. -/
  | iget (inum : ℕ)
  | inside (ip : Fin NINODE) (l : InodeLabel)
  deriving DecidableEq

structure InodeRun where
  fs : Fs
  pc : Pid → InodePc
  refs : Multiset Reference
  /-- The process that has allocated the inode and has not locked it yet, with the type. -/
  born : ℕ → Option (Pid × BitVec 16)

inductive InodeCall
  /-- By `dirlookup`, for the number in an entry. -/
  | iget (inum : ℕ)
  | ialloc (type : BitVec 16)
  | idup (ip : Fin NINODE) (named : Bool)
  | ilock (ip : Fin NINODE)
  | iunlock (ip : Fin NINODE)
  | iput (ip : Fin NINODE)
  | writei (ip : Fin NINODE) (src : List (BitVec 8)) (off n : BitVec 32)
  | update (ip : Fin NINODE) (major minor nlink : BitVec 16)

inductive InodeEvent
  | call (p : Pid) (c : InodeCall)
  | step (p : Pid)

namespace InodeRun

variable (sb : FsSuperblock) (devsw : Devsw) (s : InodeRun)

def goto (p : Pid) (pc : InodePc) : InodeRun :=
  { s with pc := Function.update s.pc p pc }

def setInode (ip : Fin NINODE) (x : Inode) : InodeRun :=
  { s with fs := s.fs.setInode ip x }

/-- The process has locked, or drops, the inode that it allocated. -/
def settle (p : Pid) (inum : ℕ) : InodeRun :=
  if (s.born inum).map Prod.fst = some p then { s with born := Function.update s.born inum none } else s

/-- An entry of a directory may name the inode. -/
def Linked (inum : ℕ) : Prop :=
  (s.fs.content.dinode sb inum).type ≠ 0 ∧ (s.fs.content.dinode sb inum).nlink ≠ 0

instance (inum : ℕ) : Decidable (s.Linked sb inum) :=
  inferInstanceAs (Decidable (_ ∧ _))

def get (p : Pid) (inum : ℕ) (named : Bool) : Option InodeRun :=
  match s.fs.iget inum with
  | .ok (ip, fs) => some { s with fs := fs, refs := ⟨p, ip, named⟩ ::ₘ s.refs }
  | .error _ => none

/-- The inode that `ialloc` leaves on the disk. -/
def fresh (type : BitVec 16) : Dinode :=
  { Dinode.zero with type := type }

def iallocRound (p : Pid) (type : BitVec 16) (inum : ℕ) : Option InodeRun :=
  if inum < sb.ninodes then
    if (s.fs.content.dinode sb inum).type = 0 then
      some { s with
        fs := { s.fs with content := iupdate sb inum (fresh type) s.fs.content }
        pc := Function.update s.pc p (.iget inum)
        born := Function.update s.born inum (some (p, type)) }
    else some (s.goto p (.ialloc type (inum + 1)))
  else none

/-- The process has a reference to the entry. -/
def Holds (p : Pid) (ip : Fin NINODE) : Prop :=
  ⟨p, ip, true⟩ ∈ s.refs ∨ ⟨p, ip, false⟩ ∈ s.refs

instance (p : Pid) (ip : Fin NINODE) : Decidable (s.Holds p ip) :=
  inferInstanceAs (Decidable (_ ∨ _))

/-- One step inside `ilock(ip)` or `iput(ip)`. -/
def inside (p : Pid) (ip : Fin NINODE) : InodeLabel → Option InodeRun
  | .ilockSleep => if (s.fs.icache ip).lock = none then
      some ((s.setInode ip { s.fs.icache ip with lock := some p }).goto p (.inside ip .ilockTest))
    else none
  | .ilockTest => some (s.goto p (.inside ip (if (s.fs.icache ip).valid then .ilockReturn else .ilockRead)))
  | .ilockRead => some ((s.setInode ip { s.fs.icache ip with
      toDinode := s.fs.content.dinode sb (s.fs.icache ip).inum }).goto p (.inside ip .ilockValid))
  | .ilockValid =>
    -- panic("ilock: no type")
    if (s.fs.icache ip).type = 0 then none
    else some ((s.setInode ip { s.fs.icache ip with valid := true }).goto p (.inside ip .ilockReturn))
  | .ilockReturn => some ((s.settle p (s.fs.icache ip).inum).goto p .idle)
  | .iputSleep => if (s.fs.icache ip).lock = none then
      some ((s.setInode ip { s.fs.icache ip with lock := some p }).goto p (.inside ip .iputTest))
    else none
  | .iputTest => some (s.goto p (.inside ip
      (if (s.fs.icache ip).valid ∧ (s.fs.icache ip).nlink = 0 then .iputRef else .iputUnlock)))
  | .iputRef => some (s.goto p (.inside ip (if (s.fs.icache ip).ref = 1 then .iputTrunc else .iputUnlock)))
  | .iputTrunc =>
    match itrunc sb (s.fs.icache ip).inum (s.fs.icache ip).toDinode s.fs.content with
    | .ok (d, c) => some ({ s with fs := s.fs.setDinode ip d c }.goto p (.inside ip .iputType))
    | .error _ => none
  | .iputType =>
    some ((s.setInode ip { s.fs.icache ip with type := 0 }).goto p (.inside ip .iputUpdate))
  | .iputUpdate =>
    some ({ s with fs := { s.fs with
      content := iupdate sb (s.fs.icache ip).inum (s.fs.icache ip).toDinode s.fs.content } }.goto p
        (.inside ip .iputInvalid))
  | .iputInvalid =>
    some ((s.setInode ip { s.fs.icache ip with valid := false }).goto p (.inside ip .iputUnlock))
  | .iputUnlock =>
    some ((s.setInode ip { s.fs.icache ip with lock := none }).goto p (.inside ip .iputDrop))
  | .iputDrop =>
    some ({ s.setInode ip { s.fs.icache ip with ref := (s.fs.icache ip).ref - 1 } with
      refs := s.refs.erase ⟨p, ip, (⟨p, ip, true⟩ : Reference) ∈ s.refs⟩ }.goto p .idle)

/-- A process begins a call; those that are one step are done at once. -/
def call (p : Pid) : InodeCall → Option InodeRun
  | .iget inum => if inum < sb.ninodes then s.get p inum (s.Linked sb inum) else none
  | .ialloc type => if type ≠ 0 then some (s.goto p (.ialloc type 1)) else none
  | .idup ip named => if ⟨p, ip, named⟩ ∈ s.refs then
      some { s with fs := s.fs.idup ip, refs := ⟨p, ip, named⟩ ::ₘ s.refs }
    else none
  | .ilock ip => if s.Holds p ip then
      some (s.goto p (.inside ip .ilockSleep))
    else none
  | .iunlock ip =>
    match s.fs.iunlock p ip with
    | .ok fs => some { s with fs := fs }
    | .error _ => none
  | .iput ip => if s.Holds p ip then
      some ((s.settle p (s.fs.icache ip).inum).goto p (.inside ip .iputSleep))
    else none
  | .writei ip src off n => if s.Holds p ip ∧ (s.fs.icache ip).lock = some p then
      match s.fs.writei sb devsw ip src off n with
      | .ok (_, fs) => some { s with fs := fs }
      | .error _ => none
    else none
  | .update ip major minor nlink => if s.Holds p ip ∧ (s.fs.icache ip).lock = some p then
      some { s with fs := s.fs.update sb ip major minor nlink }
    else none

def step : InodeEvent → InodeRun → Option InodeRun
  | .call p c, s => if s.pc p = .idle then s.call sb devsw p c else none
  | .step p, s =>
    match s.pc p with
    | .idle => none
    | .ialloc type inum => s.iallocRound sb p type inum
    | .iget inum => (s.get p inum true).map (·.goto p .idle)
    | .inside ip l => s.inside sb p ip l

end InodeRun

end Xv6Bfs
