import Xv6Bfs.Dir
import Xv6Bfs.Library.Program

/-!
# Path names and the calls that change directories

The functions of `fs.c` that work on paths, with `create`, `sys_link` and `sys_unlink` of
`sysfile.c`. A program runs in one process while no other process runs in the file system; it
returns, panics, or sleeps for a lock. It also keeps a record of the calls of `acquiresleep`.
-/

namespace Xv6Bfs

open Program

def ROOTINO : ℕ := 1

inductive SysPanic
  | fs (e : FsPanic)
  | unlinkNlink
  | createDots
  | createDirlink
  | filedup
  | fileclose
  | fileread
  | filewrite
  | shortFilewrite
  | initExiting
  deriving DecidableEq

/-- Why a call does not return. -/
inductive Stop
  | panic (e : SysPanic)
  /-- It waits for the lock of an inode. -/
  | acquiresleep
  /-- It waits for the other end of a pipe. -/
  | pipe
  deriving DecidableEq

structure Vfs where
  fs : Fs
  /-- `log.outstanding`. -/
  outstanding : ℕ
  /-- The states in which `acquiresleep` was called, the last one first. -/
  trace : List Fs

abbrev FsM := EStateM Stop Vfs

namespace FsM

section Inodes

variable (sb : FsSuperblock) (devsw : Devsw) (p : Pid)

def lift {α : Type} (f : Fs → Except FsPanic (α × Fs)) : FsM α := fun v =>
  match f v.fs with
  | .ok (a, fs) => .ok a { v with fs := fs }
  | .error e => .error (.panic (.fs e)) v

def beginOp : FsM Unit :=
  modify (fun v => { v with outstanding := v.outstanding + 1 })

def endOp : FsM Unit :=
  modify (fun v => { v with outstanding := v.outstanding - 1 })

def inode (ip : Fin NINODE) : FsM Inode := do
  return (← get).fs.icache ip

/-- The call and, if the lock is held, the wait; the lock is marked by the callers. -/
def acquiresleep (ip : Fin NINODE) : FsM Unit := do
  modify (fun v => { v with trace := v.fs :: v.trace })
  if (← inode ip).lock ≠ none then throw .acquiresleep

def iget (inum : ℕ) : FsM (Fin NINODE) :=
  lift (·.iget inum)

def idup (ip : Fin NINODE) : FsM (Fin NINODE) :=
  lift (fun fs => .ok (ip, fs.idup ip))

def ialloc (type : BitVec 16) : FsM (Fin NINODE) :=
  lift (·.ialloc sb type)

def ilock (ip : Fin NINODE) : FsM Unit := do
  if (← inode ip).ref < 1 then throw (.panic (.fs .ilock))
  acquiresleep ip
  lift (fun fs => (fs.ilock sb p ip).map ((), ·))

def iunlock (ip : Fin NINODE) : FsM Unit :=
  lift (fun fs => (fs.iunlock p ip).map ((), ·))

def iput (ip : Fin NINODE) : FsM Unit := do
  acquiresleep ip
  lift (fun fs => (fs.iput sb ip).map ((), ·))

def iunlockput (ip : Fin NINODE) : FsM Unit := do
  iunlock p ip
  iput sb ip

def update (ip : Fin NINODE) (major minor nlink : BitVec 16) : FsM Unit :=
  lift (fun fs => .ok ((), fs.update sb ip major minor nlink))

def updateNlink (ip : Fin NINODE) (f : BitVec 16 → BitVec 16) : FsM Unit := do
  let x ← inode ip
  update sb ip x.major x.minor (f x.nlink)

/-- A read or write of `ip` calls a function of `devsw`. -/
def calls {β : Type} (table : ℕ → Option β) (x : Inode) : Bool :=
  x.type = T_DEV ∧ 0 ≤ x.major.toInt ∧ x.major.toInt < NDEV ∧ (table x.major.toNat).isSome

/-- The functions of the only device, those of `console.c`, release the lock of the inode and take
it again. -/
def console {β : Type} (table : ℕ → Option β) (ip : Fin NINODE) : FsM Unit := do
  if calls table (← inode ip) then do
    iunlock p ip
    ilock sb p ip

def readi (ip : Fin NINODE) (off n : BitVec 32) : FsM (Option (List (BitVec 8))) := do
  let bytes ← lift (·.readi sb devsw ip off n)
  console sb p devsw.read ip
  return bytes

def writei (ip : Fin NINODE) (src : List (BitVec 8)) (off n : BitVec 32) : FsM ℤ := do
  let r ← lift (·.writei sb devsw ip src off n)
  console sb p devsw.write ip
  return r

end Inodes

section Directories

variable (sb : FsSuperblock) (devsw : Devsw) (p : Pid)

def dirlookup (dp : Fin NINODE) (name : List (BitVec 8)) : FsM (Option (Fin NINODE × ℕ)) :=
  lift (·.dirlookup sb devsw dp name)

def dirlink (dp : Fin NINODE) (name : List (BitVec 8)) (inum : ℕ) : FsM ℤ := do
  match ← dirlookup sb devsw dp name with
  | some (ip, _) =>
    iput sb ip
    return -1
  | none =>
    lift (fun fs => (fs.linkEntry sb devsw dp name (BitVec.ofNat 16 inum)).map ((), ·))
    return 0

/-- The entries from the third on are unused. -/
def isdirempty (dp : Fin NINODE) : FsM Bool :=
  lift (fun fs => do
    let x := (fs.icache dp).toDinode
    let ((_, found), d, c) ←
      dirScan sb devsw .isdiremptyReadi (fun de => de.inum ≠ 0) x x.size.toNat (2 * 16) fs.content
    .ok (found.isNone, fs.setDinode dp d c))

end Directories

end FsM

/-! ### Paths -/

/-- The next element of a path, cut to `DIRSIZ` bytes, and the rest of the path. -/
def skipelem (path : List (BitVec 8)) : Option (List (BitVec 8) × List (BitVec 8)) :=
  let path := path.dropWhile (· = 47)
  if path.headD 0 = 0 then none
  else
    let rest := path.dropWhile (fun c => c ≠ 47 ∧ c ≠ 0)
    some ((path.takeWhile (fun c => c ≠ 47 ∧ c ≠ 0)).take DIRSIZ, rest.dropWhile (· = 47))

namespace FsM

section Paths

variable (sb : FsSuperblock) (devsw : Devsw) (p : Pid)

def namexEnd (nameiparent : Bool) (ip : Fin NINODE) : FsM (Option (Fin NINODE × List (BitVec 8))) :=
  if nameiparent then do
    iput sb ip
    return none
  else
    return some (ip, [])

/-- The loop of `namex`; a path of `fuel` bytes has at most as many elements. -/
def namexLoop (nameiparent : Bool) : (fuel : ℕ) → Fin NINODE → List (BitVec 8) →
    FsM (Option (Fin NINODE × List (BitVec 8)))
  | 0, ip, _ => namexEnd sb nameiparent ip
  | fuel + 1, ip, path =>
    match skipelem path with
    | none => namexEnd sb nameiparent ip
    | some (name, path) => do
      ilock sb p ip
      let x ← inode ip
      if x.type ≠ T_DIR then do
        iunlockput sb p ip
        return none
      else if nameiparent ∧ path.headD 0 = 0 then do
        -- stop one level early
        iunlock p ip
        return some (ip, name)
      else do
        let next ← dirlookup sb devsw ip name
        iunlockput sb p ip
        match next with
        | none => return none
        | some (next, _) => namexLoop nameiparent fuel next path

def namex (cwd : Fin NINODE) (path : List (BitVec 8)) (nameiparent : Bool) :
    FsM (Option (Fin NINODE × List (BitVec 8))) := do
  let ip ← (if path.headD 0 = 47 then iget ROOTINO else idup cwd)
  namexLoop sb devsw p nameiparent path.length ip path

def namei (cwd : Fin NINODE) (path : List (BitVec 8)) : FsM (Option (Fin NINODE)) := do
  return (← namex sb devsw p cwd path false).map Prod.fst

def nameiparent (cwd : Fin NINODE) (path : List (BitVec 8)) : FsM (Option (Fin NINODE × List (BitVec 8))) :=
  namex sb devsw p cwd path true

end Paths

end FsM

def dot : List (BitVec 8) := [46]

def dotdot : List (BitVec 8) := [46, 46]

namespace FsM

section Calls

variable (sb : FsSuperblock) (devsw : Devsw) (p : Pid)

/-- The link of `dp` for the `".."` of a new directory, and the entries of that directory. -/
def createDots (dp ip : Fin NINODE) : FsM Unit := do
  updateNlink sb dp (· + 1)
  let x ← inode ip
  let y ← inode dp
  if (← dirlink sb devsw ip dot x.inum) < 0 then throw (.panic .createDots)
  else if (← dirlink sb devsw ip dotdot y.inum) < 0 then throw (.panic .createDots)
  else return ()

def createNew (dp : Fin NINODE) (name : List (BitVec 8)) (type major minor : BitVec 16) :
    FsM (Fin NINODE) := do
  let ip ← ialloc sb type
  ilock sb p ip
  update sb ip major minor 1
  (if type = T_DIR then createDots sb devsw dp ip else pure ())
  let x ← inode ip
  if (← dirlink sb devsw dp name x.inum) < 0 then throw (.panic .createDirlink)
  else do
    iunlockput sb p dp
    return ip

def create (cwd : Fin NINODE) (path : List (BitVec 8)) (type major minor : BitVec 16) :
    FsM (Option (Fin NINODE)) := do
  match ← nameiparent sb devsw p cwd path with
  | none => return none
  | some (dp, name) =>
    ilock sb p dp
    match ← dirlookup sb devsw dp name with
    | some (ip, _) =>
      iunlockput sb p dp
      ilock sb p ip
      if type = T_FILE ∧ (← inode ip).type = T_FILE then return some ip
      else do
        iunlockput sb p ip
        return none
    | none => return some (← createNew sb devsw p dp name type major minor)

def linkBad (ip : Fin NINODE) : FsM ℤ := do
  ilock sb p ip
  updateNlink sb ip (· - 1)
  iunlockput sb p ip
  endOp
  return -1

def sysLink (cwd : Fin NINODE) (old new : List (BitVec 8)) : FsM ℤ := do
  beginOp
  match ← namei sb devsw p cwd old with
  | none => do
    endOp
    return -1
  | some ip => do
    ilock sb p ip
    if (← inode ip).type = T_DIR then do
      iunlockput sb p ip
      endOp
      return -1
    else do
      updateNlink sb ip (· + 1)
      iunlock p ip
      match ← nameiparent sb devsw p cwd new with
      | none => linkBad sb p ip
      | some (dp, name) => do
        ilock sb p dp
        if (← dirlink sb devsw dp name (← inode ip).inum) < 0 then do
          iunlockput sb p dp
          linkBad sb p ip
        else do
          iunlockput sb p dp
          iput sb ip
          endOp
          return 0

def unlinkBad (dp : Fin NINODE) : FsM ℤ := do
  iunlockput sb p dp
  endOp
  return -1

/-- `sys_unlink` with `dp` and `ip` locked, where the entry at `off` may be removed. -/
def unlinkEntry (dp ip : Fin NINODE) (off : ℕ) : FsM ℤ := do
  lift (fun fs => (fs.clearEntry sb devsw dp off).map ((), ·))
  let x ← inode ip
  (if x.type = T_DIR then updateNlink sb dp (· - 1) else pure ())
  iunlockput sb p dp
  updateNlink sb ip (· - 1)
  iunlockput sb p ip
  endOp
  return 0

def sysUnlink (cwd : Fin NINODE) (path : List (BitVec 8)) : FsM ℤ := do
  beginOp
  match ← nameiparent sb devsw p cwd path with
  | none => do
    endOp
    return -1
  | some (dp, name) => do
    ilock sb p dp
    if namecmp name dot = 0 ∨ namecmp name dotdot = 0 then unlinkBad sb p dp
    else do
      match ← dirlookup sb devsw dp name with
      | none => unlinkBad sb p dp
      | some (ip, off) => do
        ilock sb p ip
        let x ← inode ip
        if x.nlink.toInt < 1 then throw (.panic .unlinkNlink)
        else do
          let empty ← (if x.type = T_DIR then isdirempty sb devsw ip else pure true)
          if !empty then do
            iunlockput sb p ip
            unlinkBad sb p dp
          else unlinkEntry sb devsw p dp ip off

end Calls

end FsM

end Xv6Bfs
