import Xv6Bfs.Log
import Mathlib.Data.Fintype.Basic

/-!
# Blocks, inodes and files

The allocator, inode and file layers of `fs.c`, over the blocks as the buffer cache shows
them: `bread` gives a block's contents and `log_write` keeps a change of them. A panic is
an exception that carries its message.
-/

namespace Xv6Bfs

open Function

def NDIRECT : ℕ := 12

instance (priority := 2000) : NeZero (NDIRECT + 1) := ⟨Nat.succ_ne_zero _⟩

def NINDIRECT : ℕ := BSIZE / 4

def MAXFILE : ℕ := NDIRECT + NINDIRECT

def IPB : ℕ := BSIZE / 64

def BPB : ℕ := BSIZE * 8

def NINODE : ℕ := 50

def NDEV : ℕ := 10

def T_DIR : BitVec 16 := 1

def T_FILE : BitVec 16 := 2

def T_DEV : BitVec 16 := 3

/-- `struct superblock`, with the order of the regions that `fs.h` describes. -/
structure FsSuperblock extends Superblock where
  size : ℕ
  ninodes : ℕ
  inodestart : ℕ
  bmapstart : ℕ
  boot_lt_log : 2 ≤ logstart.toNat
  log_le_inodes : logstart.toNat + nlog ≤ inodestart
  inodes_lt_bitmap : inodestart + ninodes / IPB < bmapstart
  bitmap_lt_data : bmapstart + size / BPB < size
  size_fits : size < 2 ^ 31

namespace FsSuperblock

variable (sb : FsSuperblock)

def datastart : ℕ :=
  sb.bmapstart + sb.size / BPB + 1

def IsData (b : Blockno) : Prop :=
  sb.datastart ≤ b.toNat ∧ b.toNat < sb.size

instance (b : Blockno) : Decidable (sb.IsData b) :=
  inferInstanceAs (Decidable (_ ∧ _))

def iblock (i : ℕ) : Blockno :=
  BitVec.ofNat 32 (i / IPB + sb.inodestart)

def bblock (b : ℕ) : Blockno :=
  BitVec.ofNat 32 (b / BPB + sb.bmapstart)

end FsSuperblock

inductive FsPanic
  | ballocOutOfBlocks
  | freeingFreeBlock
  | bmapOutOfRange
  | iallocNoInodes
  | igetNoInodes
  | ilock
  | ilockNoType
  | iunlock
  | dirlookupNotDir
  | dirlookupRead
  | dirlinkRead
  | dirlink
  | unlinkWritei
  | isdiremptyReadi
  deriving DecidableEq, Repr

abbrev Content := Blockno → Block

/-- A change of a buffer's bytes followed by `log_write`. -/
def Content.logWrite (c : Content) (b : Blockno) (f : Block → Block) : Content :=
  update c b (f (c b))

/-! ### The bitmap -/

namespace Block

/-- `data[bi/8] & (1 << (bi % 8))`. -/
def testBit (d : Block) (bi : ℕ) : Bool :=
  d.byte (bi / 8) &&& 1#8 <<< (bi % 8) ≠ 0

/-- `data[bi/8] |= 1 << (bi % 8)`. -/
def setBit (d : Block) (bi : ℕ) : Block :=
  fun k => if k.val = bi / 8 then d k ||| 1#8 <<< (bi % 8) else d k

/-- `data[bi/8] &= ~(1 << (bi % 8))`. -/
def clearBit (d : Block) (bi : ℕ) : Block :=
  fun k => if k.val = bi / 8 then d k &&& ~~~(1#8 <<< (bi % 8)) else d k

end Block

section Bitmap

variable (sb : FsSuperblock)

def bzero (b : Blockno) (c : Content) : Content :=
  c.logWrite b (fun _ _ => 0)

/-- The two loops of `balloc`: the first block whose bit is clear. -/
def findFree (c : Content) : Option ℕ :=
  (List.range ((sb.size + BPB - 1) / BPB)).findSome? fun j =>
    let b := j * BPB
    let data := c (sb.bblock b)
    ((List.range BPB).find? fun bi => b + bi < sb.size && !data.testBit bi).map (b + ·)

def balloc (c : Content) : Except FsPanic (Blockno × Content) :=
  match findFree sb c with
  | some b =>
    let c := c.logWrite (sb.bblock b) (·.setBit (b % BPB))
    .ok (BitVec.ofNat 32 b, bzero (BitVec.ofNat 32 b) c)
  | none => .error .ballocOutOfBlocks

def bfree (b : Blockno) (c : Content) : Except FsPanic Content :=
  let bp := sb.bblock b.toNat
  if (c bp).testBit (b.toNat % BPB) then
    .ok (c.logWrite bp (·.clearBit (b.toNat % BPB)))
  else
    .error .freeingFreeBlock

end Bitmap

/-! ### Inodes on disk -/

/-- `struct dinode`, which is also the copy of it in `struct inode`. -/
@[ext]
structure Dinode where
  type : BitVec 16
  major : BitVec 16
  minor : BitVec 16
  nlink : BitVec 16
  size : BitVec 32
  addrs : Fin (NDIRECT + 1) → Blockno
  deriving DecidableEq

namespace Dinode

def zero : Dinode := ⟨0, 0, 0, 0, 0, fun _ => 0⟩

instance : Inhabited Dinode := ⟨zero⟩

/-- The bytes of the structure: four `short`s, the size and the addresses, without padding. -/
def byte (d : Dinode) (k : ℕ) : BitVec 8 :=
  if k < 2 then d.type.extractLsb' (8 * k) 8
  else if k < 4 then d.major.extractLsb' (8 * (k - 2)) 8
  else if k < 6 then d.minor.extractLsb' (8 * (k - 4)) 8
  else if k < 8 then d.nlink.extractLsb' (8 * (k - 6)) 8
  else if k < 12 then d.size.extractLsb' (8 * (k - 8)) 8
  else (d.addrs (Fin.ofNat _ ((k - 12) / 4))).extractLsb' (8 * ((k - 12) % 4)) 8

end Dinode

namespace Block

def short (d : Block) (k : ℕ) : BitVec 16 :=
  d.byte (k + 1) ++ d.byte k

def uint (d : Block) (k : ℕ) : BitVec 32 :=
  d.short (k + 2) ++ d.short k

/-- `(struct dinode*)data + i`. -/
def dinode (d : Block) (i : ℕ) : Dinode where
  type := d.short (64 * i)
  major := d.short (64 * i + 2)
  minor := d.short (64 * i + 4)
  nlink := d.short (64 * i + 6)
  size := d.uint (64 * i + 8)
  addrs k := d.uint (64 * i + 12 + 4 * k)

/-- `*((struct dinode*)data + i) = ip`. -/
def setDinode (d : Block) (i : ℕ) (ip : Dinode) : Block :=
  fun k => if k.val / 64 = i then ip.byte (k.val % 64) else d k

end Block

section Files

variable (sb : FsSuperblock)

/-- The inode in the inode blocks, as a `bread` of its block shows it. -/
def Content.dinode (c : Content) (inum : ℕ) : Dinode :=
  (c (sb.iblock inum)).dinode (inum % IPB)

def iupdate (inum : ℕ) (ip : Dinode) (c : Content) : Content :=
  c.logWrite (sb.iblock inum) (·.setDinode (inum % IPB) ip)

/-- `if((addr = *slot) == 0) *slot = addr = balloc()`. -/
def allocIfZero (addr : Blockno) (c : Content) : Except FsPanic (Blockno × Content) :=
  if addr = 0 then balloc sb c else .ok (addr, c)

def bmap (ip : Dinode) (bn : ℕ) (c : Content) : Except FsPanic (Blockno × Dinode × Content) :=
  if bn < NDIRECT then do
    let slot := Fin.ofNat _ bn
    let (addr, c) ← allocIfZero sb (ip.addrs slot) c
    .ok (addr, { ip with addrs := update ip.addrs slot addr }, c)
  else
    let bn := bn - NDIRECT
    if bn < NINDIRECT then do
      let (ind, c) ← allocIfZero sb (ip.addrs (Fin.last _)) c
      let ip := { ip with addrs := update ip.addrs (Fin.last _) ind }
      let addr := (c ind).word bn
      if addr = 0 then do
        let (addr, c) ← balloc sb c
        .ok (addr, ip, c.logWrite ind (·.setWord bn addr))
      else
        .ok (addr, ip, c)
    else
      .error .bmapOutOfRange

def truncDirect (s : Dinode × Content) (i : Fin NDIRECT) : Except FsPanic (Dinode × Content) :=
  if s.1.addrs i.castSucc = 0 then
    .ok s
  else do
    let c ← bfree sb (s.1.addrs i.castSucc) s.2
    .ok ({ s.1 with addrs := update s.1.addrs i.castSucc 0 }, c)

/-- The second loop of `itrunc`, over the indirect block `a`. -/
def truncIndirect (a : Block) (c : Content) : Except FsPanic Content :=
  (List.finRange NINDIRECT).foldlM
    (fun c (j : Fin NINDIRECT) => if a.word j = 0 then .ok c else bfree sb (a.word j) c) c

def itrunc (inum : ℕ) (ip : Dinode) (c : Content) : Except FsPanic (Dinode × Content) := do
  let (ip, c) ← (List.finRange NDIRECT).foldlM (truncDirect sb) (ip, c)
  let ind := ip.addrs (Fin.last _)
  let c ← if ind = 0 then .ok c else do
    let c ← truncIndirect sb (c ind) c
    bfree sb ind c
  let ip := { ip with addrs := update ip.addrs (Fin.last _) 0, size := 0 }
  .ok (ip, iupdate sb inum ip c)

/-! ### Reading and writing -/

/-- `devsw[]`: what a device returns for a read and a write; `none` is no such function. -/
structure Devsw where
  read : ℕ → Option (ℕ → Option (List (BitVec 8)))
  write : ℕ → Option (List (BitVec 8) → ℤ)

/-- The bytes from `k` on that `memmove` takes out of a buffer. -/
def Block.slice (d : Block) (k m : ℕ) : List (BitVec 8) :=
  (List.range m).map (fun j => d.byte (k + j))

/-- `memmove(bp->data + k, src, m)`. -/
def Block.store (d : Block) (k : ℕ) (src : List (BitVec 8)) : Block :=
  fun j => if k ≤ j.val ∧ j.val < k + src.length then src.getD (j.val - k) 0 else d j

/-- `min(n - tot, BSIZE - off%BSIZE)`. -/
def chunk (off rest : ℕ) : ℕ :=
  min rest (BSIZE - off % BSIZE)

/-- The loop of `readi`: each round reads at least one byte of the `rest` to go. -/
def readLoop (ip : Dinode) : (fuel off rest : ℕ) → Content →
    Except FsPanic (List (BitVec 8) × Dinode × Content)
  | 0, _, _, c => .ok ([], ip, c)
  | fuel + 1, off, rest, c =>
    if rest = 0 then .ok ([], ip, c) else do
      let (addr, ip, c) ← bmap sb ip (off / BSIZE) c
      let m := chunk off rest
      let bytes := (c addr).slice (off % BSIZE) m
      let (more, ip, c) ← readLoop ip fuel (off + m) (rest - m) c
      .ok (bytes ++ more, ip, c)

/-- What the call returns, `none` for -1, with the bytes it puts at `dst`. -/
def readi (devsw : Devsw) (ip : Dinode) (off n : BitVec 32) (c : Content) :
    Except FsPanic (Option (List (BitVec 8)) × Dinode × Content) :=
  if ip.type = T_DEV then
    if ip.major.toInt < 0 ∨ NDEV ≤ ip.major.toInt then .ok (none, ip, c)
    else match devsw.read ip.major.toNat with
      | none => .ok (none, ip, c)
      | some read => .ok (read n.toNat, ip, c)
  else if ip.size < off ∨ off + n < off then
    .ok (none, ip, c)
  else do
    let n := if ip.size < off + n then ip.size - off else n
    let (bytes, ip, c) ← readLoop sb ip n.toNat off.toNat n.toNat c
    .ok (some bytes, ip, c)

/-- The loop of `writei`, with the offset at which it ends. -/
def writeLoop (ip : Dinode) : (fuel off : ℕ) → List (BitVec 8) → Content →
    Except FsPanic (ℕ × Dinode × Content)
  | 0, off, _, c => .ok (off, ip, c)
  | fuel + 1, off, src, c =>
    if src = [] then .ok (off, ip, c) else do
      let (addr, ip, c) ← bmap sb ip (off / BSIZE) c
      let m := chunk off src.length
      let c := c.logWrite addr (·.store (off % BSIZE) (src.take m))
      writeLoop ip fuel (off + m) (src.drop m) c

def writei (devsw : Devsw) (inum : ℕ) (ip : Dinode) (src : List (BitVec 8)) (off n : BitVec 32)
    (c : Content) : Except FsPanic (ℤ × Dinode × Content) :=
  if ip.type = T_DEV then
    if ip.major.toInt < 0 ∨ NDEV ≤ ip.major.toInt then .ok (-1, ip, c)
    else match devsw.write ip.major.toNat with
      | none => .ok (-1, ip, c)
      | some write => .ok (write (src.take n.toNat), ip, c)
  else if ip.size < off ∨ off + n < off then
    .ok (-1, ip, c)
  else if MAXFILE * BSIZE < (off + n).toNat then
    .ok (-1, ip, c)
  else do
    let (off, ip, c) ← writeLoop sb ip n.toNat off.toNat (src.take n.toNat) c
    if 0 < n ∧ ip.size.toNat < off then
      let ip := { ip with size := BitVec.ofNat 32 off }
      .ok (n.toNat, ip, iupdate sb inum ip c)
    else
      .ok (n.toNat, ip, c)

end Files

end Xv6Bfs
