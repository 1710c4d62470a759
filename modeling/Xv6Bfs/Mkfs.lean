import Xv6Bfs.Namei

/-!
# Building an image

`mkfs` runs on the host and writes the first image of the file system. The image file is the
table of its sectors, with its length; a sector past the end reads short. The counters stop the
program long before they wrap.
-/

namespace Xv6Bfs

def NINODES : ℕ := 200

namespace Mkfs

def nbitmap : ℕ := FSSIZE / (BSIZE * 8) + 1

def ninodeblocks : ℕ := NINODES / IPB + 1

def nlog : ℕ := LOGSIZE

/-- The boot block, the superblock, the log, the inodes and the bitmap. -/
def nmeta : ℕ := 2 + nlog + ninodeblocks + nbitmap

def nblocks : ℕ := FSSIZE - nmeta

def sb : FsSuperblock where
  toSuperblock := mkfsSuperblock
  size := FSSIZE
  ninodes := NINODES
  inodestart := 2 + nlog
  bmapstart := 2 + nlog + ninodeblocks
  boot_lt_log := by decide
  log_le_inodes := by decide
  inodes_lt_bitmap := by decide
  bitmap_lt_data := by decide
  size_fits := by decide

end Mkfs

structure Mkfs where
  img : Content
  /-- The length of the image file in sectors. -/
  length : ℕ
  freeinode : ℕ
  freeblock : ℕ

/-- Why the program does not reach `exit(0)`. -/
inductive MkfsStop
  | exit
  | assert
  deriving DecidableEq

abbrev MkfsM := EStateM MkfsStop Mkfs

namespace Mkfs

def start : Mkfs := ⟨fun _ _ => 0, 0, 1, nmeta⟩

def wsect (sec : Blockno) (buf : Block) : MkfsM Unit :=
  if FSSIZE < sec.toNat then throw .exit
  else modify fun s =>
    { s with img := Function.update s.img sec buf, length := max s.length (sec.toNat + 1) }

def rsect (sec : Blockno) : MkfsM Block :=
  if FSSIZE < sec.toNat then throw .exit
  else do
    let s ← get
    -- `read` returns less than `BSIZE`
    if s.length ≤ sec.toNat then throw .exit
    else pure (s.img sec)

def winode (inum : ℕ) (ip : Dinode) : MkfsM Unit := do
  let bn := sb.iblock inum
  let buf ← rsect bn
  wsect bn (buf.setDinode (inum % IPB) ip)

def rinode (inum : ℕ) : MkfsM Dinode := do
  let buf ← rsect (sb.iblock inum)
  pure (buf.dinode (inum % IPB))

def ialloc (type : BitVec 16) : MkfsM ℕ := do
  let inum := (← get).freeinode
  modify fun s => { s with freeinode := s.freeinode + 1 }
  winode inum { Dinode.zero with type := type, nlink := 1 }
  pure inum

/-- The block with the bits of the first `used` blocks set. -/
def bits (used : ℕ) : Block :=
  (List.range used).foldl (fun buf i => buf.setBit i) (fun _ => 0)

def balloc (used : ℕ) : MkfsM Unit :=
  if BSIZE * 8 ≤ used then throw .assert
  else wsect (BitVec.ofNat 32 sb.bmapstart) (bits used)

/-- `if(addr == 0) addr = freeblock++`. -/
def takeIfZero (addr : Blockno) : MkfsM Blockno :=
  if addr = 0 then do
    let b := (← get).freeblock
    modify fun s => { s with freeblock := s.freeblock + 1 }
    pure (BitVec.ofNat 32 b)
  else pure addr

/-- The part of a round of `iappend` that finds the block of the file with the number `fbn`. -/
def blockOf (din : Dinode) (fbn : ℕ) : MkfsM (Blockno × Dinode) :=
  if fbn < NDIRECT then do
    let slot := Fin.ofNat _ fbn
    let x ← takeIfZero (din.addrs slot)
    pure (x, { din with addrs := Function.update din.addrs slot x })
  else do
    let ind ← takeIfZero (din.addrs (Fin.last _))
    let din := { din with addrs := Function.update din.addrs (Fin.last _) ind }
    let indirect ← rsect ind
    if indirect.word (fbn - NDIRECT) = 0 then do
      let x ← takeIfZero 0
      wsect ind (indirect.setWord (fbn - NDIRECT) x)
      pure (x, din)
    else pure (indirect.word (fbn - NDIRECT), din)

/-- The loop of `iappend`: each round writes at least one byte of `p`. -/
def iappendLoop : (fuel off : ℕ) → List (BitVec 8) → Dinode → MkfsM (ℕ × Dinode)
  | 0, off, _, din => pure (off, din)
  | fuel + 1, off, p, din =>
    if p = [] then pure (off, din)
    else
      let fbn := off / BSIZE
      if MAXFILE ≤ fbn then throw .assert
      else do
        let (x, din) ← blockOf din fbn
        let n1 := min p.length ((fbn + 1) * BSIZE - off)
        let buf ← rsect x
        wsect x (buf.store (off - fbn * BSIZE) (p.take n1))
        iappendLoop fuel (off + n1) (p.drop n1) din

def iappend (inum : ℕ) (p : List (BitVec 8)) : MkfsM Unit := do
  let din ← rinode inum
  let (off, din) ← iappendLoop p.length din.size.toNat p din
  winode inum { din with size := BitVec.ofNat 32 off }

/-- An argument, with what the calls of `read` return one after the other; `none` if it cannot be
opened. -/
structure InputFile where
  name : List (BitVec 8)
  reads : Option (List (List (BitVec 8)))

/-- The name without a leading `_`. -/
def InputFile.base (f : InputFile) : List (BitVec 8) :=
  if f.name.headD 0 = 0x5F then f.name.tail else f.name

def appendDirent (name : List (BitVec 8)) (inum : ℕ) : MkfsM Unit :=
  iappend ROOTINO (Dirent.mk (BitVec.ofNat 16 inum) (strncpy name DIRSIZ)).bytes

def addFile (f : InputFile) : MkfsM Unit :=
  if 0x2F ∈ f.name then throw .assert
  else
    match f.reads with
    | none => throw .exit
    | some reads => do
      let inum ← ialloc T_FILE
      appendDirent f.base inum
      reads.forM (iappend inum)

def superblock : Block :=
  [FSSIZE, nblocks, NINODES, nlog, 2, sb.inodestart, sb.bmapstart].zipIdx.foldl
    (fun buf x => buf.setWord x.2 (BitVec.ofNat 32 x.1)) (fun _ => 0)

def format : MkfsM Unit := do
  (List.range FSSIZE).forM fun i => wsect (BitVec.ofNat 32 i) (fun _ => 0)
  wsect 1 superblock

def makeRoot : MkfsM Unit := do
  let rootino ← ialloc T_DIR
  if rootino ≠ ROOTINO then throw .assert
  else do
    appendDirent [0x2E] rootino
    appendDirent [0x2E, 0x2E] rootino

def fixRoot : MkfsM Unit := do
  let din ← rinode ROOTINO
  let off := (din.size.toNat / BSIZE + 1) * BSIZE
  winode ROOTINO { din with size := BitVec.ofNat 32 off }

def build (files : List InputFile) : MkfsM Unit := do
  makeRoot
  files.forM addFile
  fixRoot
  balloc (← get).freeblock

/-- The program; it returns if and only if it ends with `exit(0)`. -/
def main (files : List InputFile) : MkfsM Unit := do
  format
  build files

end Mkfs

end Xv6Bfs
