import Xv6Bfs.Args
import Xv6Bfs.Kernel
import Xv6Bfs.Namei

/-!
# File descriptors and system calls

`file.c`, `pipe.c`, the rest of `sysfile.c`, and what `nicefork`, `exit` and `exec` do with
files. A system call is a program that runs from its start to its end; what it gets from user
memory and from the allocator of pages is an argument of it.
-/

namespace Xv6Bfs

open Function Program Transition

def NFILE : ℕ := 100

def NOFILE : ℕ := 16

def PIPESIZE : ℕ := 512

instance : NeZero NFILE := ⟨by decide⟩

instance : NeZero NOFILE := ⟨by decide⟩

instance : NeZero PIPESIZE := ⟨by decide⟩

/-- `FD_NONE`, `FD_PIPE` and `FD_INODE`. -/
inductive FileType
  | none | pipe | inode
  deriving DecidableEq

abbrev PipeId := ℕ

structure File where
  type : FileType
  ref : ℕ
  readable : Bool
  writable : Bool
  pipe : PipeId
  ip : Fin NINODE
  off : BitVec 32

structure Pipe where
  data : Fin PIPESIZE → BitVec 8
  nread : BitVec 32
  nwrite : BitVec 32
  readopen : Bool
  writeopen : Bool

structure Sys where
  vfs : Vfs
  ftable : Fin NFILE → File
  pipes : PipeId → Option Pipe
  ofile : Slot → Fin NOFILE → Option (Fin NFILE)
  /-- No directory is that of an unused process slot. -/
  cwd : Slot → Option (Fin NINODE)

abbrev SysM := EStateM Stop Sys

/-- `initproc`, for which `userinit` takes the first slot. -/
def initproc : Slot := 0

def O_WRONLY : BitVec 32 := 0x001

def O_RDWR : BitVec 32 := 0x002

def O_CREATE : BitVec 32 := 0x200

namespace SysM

def vfs {α : Type} (x : FsM α) : SysM α :=
  zoom Sys.vfs (fun v s => { s with vfs := v }) x

/-! ### Pipes -/

section Pipes

def setPipe (q : PipeId) (x : Option Pipe) : SysM Unit :=
  modify (fun s => { s with pipes := update s.pipes q x })

def pipeclose (q : PipeId) (writable : Bool) : SysM Unit := do
  match (← get).pipes q with
  | none => pure ()
  | some x =>
    let x := if writable then { x with writeopen := false } else { x with readopen := false }
    setPipe q (if !x.readopen ∧ !x.writeopen then none else some x)

def pipeTake : (n : ℕ) → Pipe → List (BitVec 8) × Pipe
  | 0, x => ([], x)
  | n + 1, x =>
    if x.nread = x.nwrite then ([], x)
    else
      let (bytes, x') := pipeTake n { x with nread := x.nread + 1 }
      (x.data (Fin.ofNat PIPESIZE x.nread.toNat) :: bytes, x')

/-- The bytes, or `none` for `-1`. -/
def piperead (q : PipeId) (n : ℕ) (killed : Bool) : SysM (Option (List (BitVec 8))) := do
  match (← get).pipes q with
  | none => return none
  | some x =>
    if x.nread = x.nwrite ∧ x.writeopen then
      if killed then return none else throw .pipe
    else do
      let (bytes, x) := pipeTake n x
      setPipe q (some x)
      return some bytes

/-- The loop of `pipewrite`; it returns whether all bytes are written. -/
def pipewrite (q : PipeId) (killed : Bool) : List (BitVec 8) → SysM Bool
  | [] => return true
  | b :: addr => do
    match (← get).pipes q with
    | none => return false
    | some x =>
      if x.nwrite = x.nread + BitVec.ofNat 32 PIPESIZE then
        if !x.readopen ∨ killed then return false else throw .pipe
      else do
        setPipe q (some { x with
          data := update x.data (Fin.ofNat PIPESIZE x.nwrite.toNat) b
          nwrite := x.nwrite + 1 })
        pipewrite q killed addr

end Pipes

/-! ### Files -/

section Files

variable (sb : FsSuperblock) (devsw : Devsw) (p : Slot)

def file (f : Fin NFILE) : SysM File := do
  return (← get).ftable f

def setFile (f : Fin NFILE) (x : File) : SysM Unit :=
  modify (fun s => { s with ftable := update s.ftable f x })

def setOfile (fd : Fin NOFILE) (f : Option (Fin NFILE)) : SysM Unit :=
  modify (fun s => { s with ofile := update s.ofile p (update (s.ofile p) fd f) })

def filealloc : SysM (Option (Fin NFILE)) := do
  let s ← get
  match (List.finRange NFILE).find? (fun f => (s.ftable f).ref = 0) with
  | none => return none
  | some f =>
    setFile f { s.ftable f with ref := 1 }
    return some f

def filedup (f : Fin NFILE) : SysM (Fin NFILE) := do
  let x ← file f
  if x.ref < 1 then throw (.panic .filedup)
  setFile f { x with ref := x.ref + 1 }
  return f

def fileclose (f : Fin NFILE) : SysM Unit := do
  let x ← file f
  if x.ref < 1 then throw (.panic .fileclose)
  if 1 < x.ref then setFile f { x with ref := x.ref - 1 }
  else do
    setFile f { x with ref := 0, type := .none }
    match x.type with
    | .pipe => pipeclose x.pipe x.writable
    | .inode => vfs (do FsM.beginOp; FsM.iput sb x.ip; FsM.endOp)
    | .none => pure ()

/-- The bytes, or `none` for `-1`. -/
def fileread (f : Fin NFILE) (n : BitVec 32) (killed : Bool) : SysM (Option (List (BitVec 8))) := do
  let x ← file f
  if !x.readable then return none
  else match x.type with
    | .pipe => piperead x.pipe n.toNat killed
    | .inode => do
      vfs (FsM.ilock sb p x.ip)
      let x ← file f
      let bytes ← vfs (FsM.readi sb devsw p x.ip x.off n)
      let r := (bytes.getD []).length
      (if 0 < r then setFile f { x with off := x.off + BitVec.ofNat 32 r } else pure ())
      vfs (FsM.iunlock p x.ip)
      return bytes
    | .none => throw (.panic .fileread)

/-- The largest piece that `filewrite` writes at once. -/
def writeMax : ℕ :=
  ((MAXOPBLOCKS - 1 - 1 - 2) / 2) * 512

/-- One transaction of `filewrite`: `n1` bytes from `addr` at the offset of the file. -/
def writeChunk (f : Fin NFILE) (addr : List (BitVec 8)) (n1 : ℕ) : SysM ℤ := do
  vfs FsM.beginOp
  vfs (FsM.ilock sb p (← file f).ip)
  let x ← file f
  let r ← vfs (FsM.writei sb devsw p x.ip addr x.off (BitVec.ofNat 32 n1))
  (if 0 < r then setFile f { x with off := x.off + BitVec.ofInt 32 r } else pure ())
  vfs (FsM.iunlock p x.ip)
  vfs FsM.endOp
  return r

/-- One round of the loop of `filewrite` from byte `i` on: where to go on, or what to return. -/
def writeRound (f : Fin NFILE) (addr : List (BitVec 8)) (i : ℕ) : SysM (ℕ ⊕ ℤ) := do
  if i < addr.length then do
    let n1 := min (addr.length - i) writeMax
    let r ← writeChunk sb devsw p f (addr.drop i) n1
    if r < 0 then return .inr (if i = addr.length then i else -1)
    else if r ≠ n1 then throw (.panic .shortFilewrite)
    else return .inl (i + n1)
  else return .inr (if i = addr.length then i else -1)

/-- The loop of `filewrite`; each round but the last writes a byte. -/
def writeLoop (f : Fin NFILE) (addr : List (BitVec 8)) : (fuel i : ℕ) → SysM ℤ
  | 0, i => return if i = addr.length then i else -1
  | fuel + 1, i => do
    match ← writeRound sb devsw p f addr i with
    | .inl i => writeLoop f addr fuel i
    | .inr r => return r

def filewrite (f : Fin NFILE) (addr : List (BitVec 8)) (killed : Bool) : SysM ℤ := do
  let x ← file f
  if !x.writable then return -1
  else match x.type with
    | .pipe => do
      if ← pipewrite x.pipe killed addr then return addr.length else return -1
    | .inode => writeLoop sb devsw p f addr addr.length 0
    | .none => throw (.panic .filewrite)

def pipealloc (page : Option PipeId) : SysM (Option (Fin NFILE × Fin NFILE)) := do
  match ← filealloc with
  | none => return none
  | some f0 =>
    match ← filealloc with
    | none => do
      fileclose sb f0
      return none
    | some f1 =>
      match page with
      | none => do
        fileclose sb f0
        fileclose sb f1
        return none
      | some q => do
        setPipe q (some ⟨fun _ => 0, 0, 0, true, true⟩)
        setFile f0 { ← file f0 with type := .pipe, readable := true, writable := false, pipe := q }
        setFile f1 { ← file f1 with type := .pipe, readable := false, writable := true, pipe := q }
        return some (f0, f1)

end Files

/-! ### `exec` -/

section Exec

variable (sb : FsSuperblock) (devsw : Devsw) (p : Slot)

def ELF_MAGIC : BitVec 32 := 0x464C457F

def ELF_PROG_LOAD : BitVec 32 := 1

/-- A `ushort` and a `uint` of a structure that has been read. -/
def ushortAt (bytes : List (BitVec 8)) (k : ℕ) : BitVec 16 :=
  bytes.getD (k + 1) 0 ++ bytes.getD k 0

def uintAt (bytes : List (BitVec 8)) (k : ℕ) : BitVec 32 :=
  ushortAt bytes (k + 2) ++ ushortAt bytes k

/-- `readi(ip, dst, off, n) != n` is answered by `none`. -/
def readExact (ip : Fin NINODE) (off : BitVec 32) (n : ℕ) : FsM (Option (List (BitVec 8))) := do
  let bytes ← FsM.readi sb devsw p ip off (BitVec.ofNat 32 n)
  return bytes.filter (·.length = n)

/-- The loop of `loaduvm` from byte `i` on, in a page that is there. -/
def loaduvm (ip : Fin NINODE) (offset : BitVec 32) (sz : ℕ) : (fuel i : ℕ) → FsM Bool
  | 0, _ => return true
  | fuel + 1, i => do
    if i < sz then
      match ← readExact sb devsw p ip (offset + BitVec.ofNat 32 i) (min (sz - i) PGSIZE) with
      | none => return false
      | some _ => loaduvm ip offset sz fuel (i + PGSIZE)
    else return true

/-- The loop over the program headers, with what `allocuvm` answers in each round. -/
def loadSegments (ip : Fin NINODE) (alloc : ℕ → Bool) : (n i : ℕ) → (off : BitVec 32) → FsM Bool
  | 0, _, _ => return true
  | n + 1, i, off => do
    match ← readExact sb devsw p ip off 32 with
    | none => return false
    | some ph =>
      if uintAt ph 0 ≠ ELF_PROG_LOAD then loadSegments ip alloc n (i + 1) (off + 32)
      else if uintAt ph 20 < uintAt ph 16 ∨ uintAt ph 8 + uintAt ph 20 < uintAt ph 8 then return false
      else if !alloc i then return false
      else if (uintAt ph 8).toNat % PGSIZE ≠ 0 then return false
      else if ← loaduvm sb devsw p ip (uintAt ph 4) (uintAt ph 16).toNat (uintAt ph 16).toNat 0 then
        loadSegments ip alloc n (i + 1) (off + 32)
      else return false

/-- `exec` from the check of the header to the end of the loop. -/
def loadProgram (ip : Fin NINODE) (setupkvm : Bool) (alloc : ℕ → Bool) : FsM Bool := do
  match ← readExact sb devsw p ip 0 52 with
  | none => return false
  | some elf =>
    if uintAt elf 0 ≠ ELF_MAGIC then return false
    else if !setupkvm then return false
    else loadSegments sb devsw p ip alloc (ushortAt elf 44).toNat 0 (uintAt elf 28)

/-- `exec`, with what `setupkvm`, `allocuvm` and the part after the loop (the stack and the
arguments) answer. -/
def exec (cwd : Fin NINODE) (path : List (BitVec 8)) (setupkvm : Bool) (alloc : ℕ → Bool) (stack : Bool) :
    FsM ℤ := do
  FsM.beginOp
  match ← FsM.namei sb devsw p cwd path with
  | none => do
    FsM.endOp
    return -1
  | some ip => do
    FsM.ilock sb p ip
    let loaded ← loadProgram sb devsw p ip setupkvm alloc
    FsM.iunlockput sb p ip
    FsM.endOp
    return if loaded ∧ stack then 0 else -1

end Exec

/-! ### System calls -/

section Calls

variable (sb : FsSuperblock) (devsw : Devsw) (p : Slot)

def argfd (fd : ℤ) : SysM (Option (Fin NOFILE × Fin NFILE)) := do
  let s ← get
  if h : 0 ≤ fd ∧ fd.toNat < NOFILE then
    return (s.ofile p ⟨fd.toNat, h.2⟩).map (⟨fd.toNat, h.2⟩, ·)
  else return none

def fdalloc (f : Fin NFILE) : SysM (Option (Fin NOFILE)) := do
  let s ← get
  match (List.finRange NOFILE).find? (fun fd => (s.ofile p fd).isNone) with
  | none => return none
  | some fd =>
    setOfile p fd (some f)
    return some fd

def sysDup (fd : ℤ) : SysM ℤ := do
  match ← argfd p fd with
  | none => return -1
  | some (_, f) =>
    match ← fdalloc p f with
    | none => return -1
    | some fd => do
      let _ ← filedup f
      return fd.val

/-- `n` is missing if an argument is bad; the value is what is read. -/
def sysRead (fd : ℤ) (n : Option (BitVec 32)) (killed : Bool) : SysM ℤ := do
  match ← argfd p fd, n with
  | some (_, f), some n =>
    match ← fileread sb devsw p f n killed with
    | none => return -1
    | some bytes => return bytes.length
  | _, _ => return -1

def sysWrite (fd : ℤ) (addr : Option (List (BitVec 8))) (killed : Bool) : SysM ℤ := do
  match ← argfd p fd, addr with
  | some (_, f), some addr => filewrite sb devsw p f addr killed
  | _, _ => return -1

def sysClose (fd : ℤ) : SysM ℤ := do
  match ← argfd p fd with
  | none => return -1
  | some (fd, f) => do
    setOfile p fd none
    fileclose sb f
    return 0

def openInode (ip : Fin NINODE) (omode : BitVec 32) : SysM ℤ := do
  match ← filealloc with
  | none => do
    vfs (do FsM.iunlockput sb p ip; FsM.endOp)
    return -1
  | some f =>
    match ← fdalloc p f with
    | none => do
      fileclose sb f
      vfs (do FsM.iunlockput sb p ip; FsM.endOp)
      return -1
    | some fd => do
      vfs (do FsM.iunlock p ip; FsM.endOp)
      setFile f { ← file f with
        type := .inode
        ip := ip
        off := 0
        readable := omode &&& O_WRONLY = 0
        writable := omode &&& O_WRONLY ≠ 0 ∨ omode &&& O_RDWR ≠ 0 }
      return fd.val

def sysOpen (cwd : Fin NINODE) (path : List (BitVec 8)) (omode : BitVec 32) : SysM ℤ := do
  vfs FsM.beginOp
  if omode &&& O_CREATE ≠ 0 then
    match ← vfs (FsM.create sb devsw p cwd path T_FILE 0 0) with
    | none => do
      vfs FsM.endOp
      return -1
    | some ip => openInode sb p ip omode
  else
    match ← vfs (FsM.namei sb devsw p cwd path) with
    | none => do
      vfs FsM.endOp
      return -1
    | some ip => do
      vfs (FsM.ilock sb p ip)
      let x ← vfs (FsM.inode ip)
      if x.type = T_DIR ∧ omode ≠ 0 then do
        vfs (do FsM.iunlockput sb p ip; FsM.endOp)
        return -1
      else openInode sb p ip omode

/-- `sys_mkdir` and `sys_mknod`, with `none` for an argument that is bad. -/
def sysCreate (cwd : Fin NINODE) (path : Option (List (BitVec 8))) (type major minor : BitVec 16) :
    FsM ℤ := do
  FsM.beginOp
  match path with
  | none => do
    FsM.endOp
    return -1
  | some path =>
    match ← FsM.create sb devsw p cwd path type major minor with
    | none => do
      FsM.endOp
      return -1
    | some ip => do
      FsM.iunlockput sb p ip
      FsM.endOp
      return 0

def sysMkdir (cwd : Fin NINODE) (path : Option (List (BitVec 8))) : FsM ℤ :=
  sysCreate sb devsw p cwd path T_DIR 0 0

def sysMknod (cwd : Fin NINODE) (path : Option (List (BitVec 8))) (major minor : BitVec 16) : FsM ℤ :=
  sysCreate sb devsw p cwd path T_DEV major minor

def sysChdir (cwd : Fin NINODE) (path : Option (List (BitVec 8))) : SysM ℤ := do
  vfs FsM.beginOp
  match path with
  | none => do
    vfs FsM.endOp
    return -1
  | some path =>
    match ← vfs (FsM.namei sb devsw p cwd path) with
    | none => do
      vfs FsM.endOp
      return -1
    | some ip => do
      vfs (FsM.ilock sb p ip)
      let x ← vfs (FsM.inode ip)
      if x.type ≠ T_DIR then do
        vfs (do FsM.iunlockput sb p ip; FsM.endOp)
        return -1
      else do
        vfs (do FsM.iunlock p ip; FsM.iput sb cwd; FsM.endOp)
        modify (fun s => { s with cwd := update s.cwd p (some ip) })
        return 0

def sysPipe (page : Option PipeId) : SysM ℤ := do
  match ← pipealloc sb page with
  | none => return -1
  | some (rf, wf) =>
    match ← fdalloc p rf with
    | none => do
      fileclose sb rf
      fileclose sb wf
      return -1
    | some fd0 =>
      match ← fdalloc p wf with
      | none => do
        setOfile p fd0 none
        fileclose sb rf
        fileclose sb wf
        return -1
      | some _ => return 0

def dupFiles (child : Slot) : List (Fin NOFILE) → SysM Unit
  | [] => return
  | fd :: fds => do
    match (← get).ofile p fd with
    | none => dupFiles child fds
    | some f => do
      let f ← filedup f
      setOfile child fd (some f)
      dupFiles child fds

/-- `nicefork`, with the slot that `allocproc` returns and whether `copyuvm` succeeds. -/
def nicefork (cwd : Fin NINODE) (child : Option Slot) (copyuvm : Bool) : SysM ℤ := do
  match child with
  | none => return -1
  | some child =>
    if !copyuvm then return -1
    else do
      dupFiles p child (List.finRange NOFILE)
      let ip ← vfs (FsM.idup cwd)
      modify (fun s => { s with cwd := update s.cwd child (some ip) })
      return child.val

def closeFiles : List (Fin NOFILE) → SysM Unit
  | [] => return
  | fd :: fds => do
    match (← get).ofile p fd with
    | none => closeFiles fds
    | some f => do
      fileclose sb f
      setOfile p fd none
      closeFiles fds

def exit (cwd : Fin NINODE) : SysM ℤ := do
  if p = initproc then throw (.panic .initExiting)
  closeFiles sb p (List.finRange NOFILE)
  vfs (do FsM.beginOp; FsM.iput sb cwd; FsM.endOp)
  modify (fun s => { s with cwd := update s.cwd p none })
  return 0

end Calls

end SysM

/-! ### Runs of system calls -/

/-- A system call with its arguments; a path that `argstr` does not accept is `none`. -/
inductive Syscall
  | dup (fd : ℤ)
  | read (fd : ℤ) (n : Option (BitVec 32)) (killed : Bool)
  | write (fd : ℤ) (addr : Option (List (BitVec 8))) (killed : Bool)
  | close (fd : ℤ)
  | link (old new : List (BitVec 8))
  | unlink (path : List (BitVec 8))
  | openPath (path : List (BitVec 8)) (omode : BitVec 32)
  | mkdir (path : Option (List (BitVec 8)))
  | mknod (path : Option (List (BitVec 8))) (major minor : BitVec 16)
  | chdir (path : Option (List (BitVec 8)))
  | exec (path : List (BitVec 8)) (setupkvm : Bool) (alloc : ℕ → Bool) (stack : Bool)
  | pipe (page : Option PipeId)
  | nicefork (child : Option Slot) (copyuvm : Bool)
  | exit
  /-- A call whose arguments are bad before anything is done. -/
  | reject

namespace Syscall

variable (sb : FsSuperblock) (devsw : Devsw) (p : Slot) (cwd : Fin NINODE)

/-- What other parts of the kernel see to: `argptr` keeps a length below the size of the memory,
`kalloc` returns a page that is free and `allocproc` a slot that is unused. -/
def Valid (s : Sys) : Syscall → Prop
  | write _ (some addr) _ => addr.length < 2 ^ 31
  | pipe (some q) => s.pipes q = none
  | nicefork (some child) _ => s.cwd child = none
  | _ => True

instance (s : Sys) : (c : Syscall) → Decidable (c.Valid s)
  | dup _ | read _ _ _ | write _ none _ | close _ | link _ _ | unlink _ | openPath _ _ | mkdir _
  | mknod _ _ _ | chdir _ | exec _ _ _ _ | pipe none | nicefork none _ | exit | reject =>
    inferInstanceAs (Decidable True)
  | write _ (some _) _ => inferInstanceAs (Decidable (_ < _))
  | pipe (some _) => inferInstanceAs (Decidable (_ = none))
  | nicefork (some _) _ => inferInstanceAs (Decidable (_ = none))

def program : Syscall → SysM ℤ
  | dup fd => SysM.sysDup p fd
  | read fd n killed => SysM.sysRead sb devsw p fd n killed
  | write fd addr killed => SysM.sysWrite sb devsw p fd addr killed
  | close fd => SysM.sysClose sb p fd
  | link old new => SysM.vfs (FsM.sysLink sb devsw p cwd old new)
  | unlink path => SysM.vfs (FsM.sysUnlink sb devsw p cwd path)
  | openPath path omode => SysM.sysOpen sb devsw p cwd path omode
  | mkdir path => SysM.vfs (SysM.sysMkdir sb devsw p cwd path)
  | mknod path major minor => SysM.vfs (SysM.sysMknod sb devsw p cwd path major minor)
  | chdir path => SysM.sysChdir sb devsw p cwd path
  | exec path setupkvm alloc stack => SysM.vfs (SysM.exec sb devsw p cwd path setupkvm alloc stack)
  | pipe page => SysM.sysPipe sb p page
  | nicefork child copyuvm => SysM.nicefork p cwd child copyuvm
  | exit => SysM.exit sb p cwd
  | reject => return -1

end Syscall

def Sys.enter (s : Sys) : Sys :=
  { s with vfs := { s.vfs with trace := [] } }

/-- How a call by a process ends. -/
def Sys.call (sb : FsSuperblock) (devsw : Devsw) (s : Sys) (p : Slot) (c : Syscall) :
    Option (EStateM.Result Stop Sys ℤ) :=
  match s.cwd p with
  | none => none
  | some cwd => if c.Valid s then some (c.program sb devsw p cwd s.enter) else none

/-- After `userinit`: the first process is in the root directory, and nothing else is in use. -/
structure Sys.Booted (s : Sys) : Prop where
  cached : ∃ ip fs, (∀ jp, (fs.icache jp).ref = 0 ∧ (fs.icache jp).lock = none) ∧
    Fs.iget fs ROOTINO = .ok (ip, s.vfs.fs) ∧
    s.cwd = update (fun _ => none) initproc (some ip)
  files : ∀ f, (s.ftable f).ref = 0 ∧ (s.ftable f).type = .none
  ofile : ∀ p fd, s.ofile p fd = none
  pipes : ∀ q, s.pipes q = none

/-- Calls taken one after another from any image of a file system that is accepted. -/
def sysSystem (sb : FsSuperblock) (devsw : Devsw) (image : Fs → Prop) : System Sys (Slot × Syscall) where
  init := fun s => s.Booted ∧ image s.vfs.fs
  step := fun e s =>
    match s.call sb devsw e.1 e.2 with
    | some (.ok _ s') => some s'
    | _ => none

end Xv6Bfs
