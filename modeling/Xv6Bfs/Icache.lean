import Xv6Bfs.Fs

/-!
# The inode cache

`struct inode`, the functions that look up, lock, free and allocate inodes, and the steps
that the rest of the kernel takes with them. An inode is named by its slot in the cache.
-/

namespace Xv6Bfs

instance : NeZero NINODE := ⟨by decide⟩

abbrev Pid := ℕ

structure Inode extends Dinode where
  inum : ℕ
  ref : ℕ
  /-- The process that holds the sleep-lock. -/
  lock : Option Pid
  valid : Bool

/-- The blocks and the inode cache. -/
structure Fs where
  content : Content
  icache : Fin NINODE → Inode

namespace Fs

variable (sb : FsSuperblock) (fs : Fs)

def setInode (ip : Fin NINODE) (x : Inode) : Fs :=
  { fs with icache := Function.update fs.icache ip x }

/-- The blocks and the fields of an inode that are kept on disk. -/
def setDinode (ip : Fin NINODE) (d : Dinode) (c : Content) : Fs :=
  ⟨c, Function.update fs.icache ip { fs.icache ip with toDinode := d }⟩

def iget (inum : ℕ) : Except FsPanic (Fin NINODE × Fs) :=
  match (List.finRange NINODE).find? (fun ip => 0 < (fs.icache ip).ref && (fs.icache ip).inum = inum) with
  | some ip => .ok (ip, fs.setInode ip { fs.icache ip with ref := (fs.icache ip).ref + 1 })
  | none =>
    -- recycle an entry
    match (List.finRange NINODE).find? (fun ip => (fs.icache ip).ref = 0) with
    | some ip => .ok (ip, fs.setInode ip { fs.icache ip with inum := inum, ref := 1, valid := false })
    | none => .error .igetNoInodes

def ialloc (type : BitVec 16) : Except FsPanic (Fin NINODE × Fs) :=
  match (List.range' 1 (sb.ninodes - 1)).find? (fun inum => (fs.content.dinode sb inum).type = 0) with
  | some inum =>
    ({ fs with content := iupdate sb inum { Dinode.zero with type := type } fs.content } : Fs).iget inum
  | none => .error .iallocNoInodes

def idup (ip : Fin NINODE) : Fs :=
  fs.setInode ip { fs.icache ip with ref := (fs.icache ip).ref + 1 }

/-- The part of `ilock` after `acquiresleep`. -/
def ilock (p : Pid) (ip : Fin NINODE) : Except FsPanic Fs :=
  let x := { fs.icache ip with lock := some p }
  if x.ref < 1 then .error .ilock
  else if x.valid then .ok (fs.setInode ip x)
  else
    let d := fs.content.dinode sb x.inum
    if d.type = 0 then .error .ilockNoType
    else .ok (fs.setInode ip { x with toDinode := d, valid := true })

def iunlock (p : Pid) (ip : Fin NINODE) : Except FsPanic Fs :=
  let x := fs.icache ip
  if x.lock ≠ some p ∨ x.ref < 1 then .error .iunlock
  else .ok (fs.setInode ip { x with lock := none })

/-- `iput`, which holds the sleep-lock in between. -/
def iput (ip : Fin NINODE) : Except FsPanic Fs := do
  let x := fs.icache ip
  if x.valid ∧ x.nlink = 0 ∧ x.ref = 1 then
    -- no links and no other references: truncate and free
    let (d, c) ← itrunc sb x.inum x.toDinode fs.content
    let d := { d with type := 0 }
    .ok { content := iupdate sb x.inum d c
          icache := Function.update fs.icache ip
            { x with toDinode := d, valid := false, ref := x.ref - 1 } }
  else
    .ok (fs.setInode ip { x with ref := x.ref - 1 })

def readi (devsw : Devsw) (ip : Fin NINODE) (off n : BitVec 32) :
    Except FsPanic (Option (List (BitVec 8)) × Fs) := do
  let (bytes, d, c) ← Xv6Bfs.readi sb devsw (fs.icache ip).toDinode off n fs.content
  .ok (bytes, fs.setDinode ip d c)

def writei (devsw : Devsw) (ip : Fin NINODE) (src : List (BitVec 8)) (off n : BitVec 32) :
    Except FsPanic (ℤ × Fs) := do
  let x := fs.icache ip
  let (r, d, c) ← Xv6Bfs.writei sb devsw x.inum x.toDinode src off n fs.content
  .ok (r, fs.setDinode ip d c)

/-- `ip->major = major; ip->minor = minor; ip->nlink = nlink; iupdate(ip)`, as `create`, `sys_link`
and `sys_unlink` do it. -/
def update (ip : Fin NINODE) (major minor nlink : BitVec 16) : Fs :=
  let x := fs.icache ip
  let d := { x.toDinode with major := major, minor := minor, nlink := nlink }
  fs.setDinode ip d (iupdate sb x.inum d fs.content)

end Fs

inductive FsEvent
  | iget (inum : ℕ)
  | ialloc (type : BitVec 16)
  | idup (ip : Fin NINODE)
  | ilock (p : Pid) (ip : Fin NINODE)
  | iunlock (p : Pid) (ip : Fin NINODE)
  | iput (ip : Fin NINODE)
  | readi (p : Pid) (ip : Fin NINODE) (off n : BitVec 32)
  | writei (p : Pid) (ip : Fin NINODE) (src : List (BitVec 8)) (off n : BitVec 32)
  | update (p : Pid) (ip : Fin NINODE) (major minor nlink : BitVec 16)

namespace FsEvent

variable (sb : FsSuperblock)

/-- What the callers see to: inode numbers are those of directory entries, a reference is copied
or dropped by its owner, the sleep-lock is free when `acquiresleep` returns, and an inode is
read and changed by the process that holds its lock. -/
def Enabled (fs : Fs) : FsEvent → Prop
  | iget inum => inum < sb.ninodes
  | ialloc _ => True
  | idup ip => 0 < (fs.icache ip).ref
  | ilock _ ip => (fs.icache ip).lock = none
  | iunlock _ _ => True
  | iput ip => (fs.icache ip).lock = none ∧ 0 < (fs.icache ip).ref
  | readi p ip _ _ => (fs.icache ip).lock = some p
  | writei p ip _ _ _ => (fs.icache ip).lock = some p
  | update p ip _ _ _ => (fs.icache ip).lock = some p

instance (fs : Fs) : (e : FsEvent) → Decidable (e.Enabled sb fs)
  | iget _ => inferInstanceAs (Decidable (_ < _))
  | ialloc _ => inferInstanceAs (Decidable True)
  | idup _ => inferInstanceAs (Decidable (_ < _))
  | ilock _ _ => inferInstanceAs (Decidable (_ = _))
  | iunlock _ _ => inferInstanceAs (Decidable True)
  | iput _ => inferInstanceAs (Decidable (_ ∧ _))
  | readi _ _ _ _ => inferInstanceAs (Decidable (_ = _))
  | writei _ _ _ _ _ => inferInstanceAs (Decidable (_ = _))
  | update _ _ _ _ _ => inferInstanceAs (Decidable (_ = _))

def exec (devsw : Devsw) (fs : Fs) : FsEvent → Except FsPanic Fs
  | iget inum => (fs.iget inum).map Prod.snd
  | ialloc type => (fs.ialloc sb type).map Prod.snd
  | idup ip => .ok (fs.idup ip)
  | ilock p ip => fs.ilock sb p ip
  | iunlock p ip => fs.iunlock p ip
  | iput ip => fs.iput sb ip
  | readi _ ip off n => (fs.readi sb devsw ip off n).map Prod.snd
  | writei _ ip src off n => (fs.writei sb devsw ip src off n).map Prod.snd
  | update _ ip major minor nlink => .ok (fs.update sb ip major minor nlink)

end FsEvent

end Xv6Bfs
