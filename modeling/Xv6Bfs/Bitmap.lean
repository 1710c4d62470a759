import Xv6Bfs.Fs

/-!
# The bitmap under any superblock

`balloc` and `bfree` of `fs.c` for any `sb.size` and `sb.bmapstart`, with the counters in the types of the source: `balloc`
counts in an `int` that is compared with a `uint`, and `bfree` gets a `uint`.
-/

namespace Xv6Bfs

namespace Bitmap

structure Super where
  size : BitVec 32
  bmapstart : BitVec 32

namespace Super

variable (sb : Super)

/-- `BBLOCK(b, sb)` for an `int`, whose quotient may be negative. -/
def bblockInt (b : BitVec 32) : Blockno :=
  b.sdiv (BitVec.ofNat 32 BPB) + sb.bmapstart

/-- `BBLOCK(b, sb)` for a `uint`. -/
def bblock (b : BitVec 32) : Blockno :=
  b / BitVec.ofNat 32 BPB + sb.bmapstart

end Super

variable (sb : Super)

/-- The inner loop of `balloc`, with the rounds that are left before `bi` is `BPB`. -/
def scan (data : Block) (b : BitVec 32) : (left bi : ℕ) → Option ℕ
  | 0, _ => none
  | left + 1, bi =>
    if b + BitVec.ofNat 32 bi < sb.size then
      if data.testBit bi then scan data b left (bi + 1) else some bi
    else none

/-- The outer loop of `balloc`; `none` is a search that does not end. -/
def ballocLoop (c : Content) : (fuel : ℕ) → (b : BitVec 32) → Option (Except FsPanic (Blockno × Content))
  | 0, _ => none
  | fuel + 1, b =>
    if b < sb.size then
      let bp := sb.bblockInt b
      match scan sb (c bp) b BPB 0 with
      | some bi =>
        let c := c.logWrite bp (·.setBit bi)
        some (.ok (b + BitVec.ofNat 32 bi, bzero (b + BitVec.ofNat 32 bi) c))
      | none => ballocLoop c fuel (b + BitVec.ofNat 32 BPB)
    else some (.error .ballocOutOfBlocks)

/-- `balloc(dev)`: after `2 ^ 32 / BPB` rounds `b` is 0 again. -/
def balloc (c : Content) : Option (Except FsPanic (Blockno × Content)) :=
  ballocLoop sb c (2 ^ 32 / BPB + 1) 0

def bfree (b : BitVec 32) (c : Content) : Except FsPanic Content :=
  let bp := sb.bblock b
  let bi := b.toNat % BPB
  if (c bp).testBit bi then .ok (c.logWrite bp (·.clearBit bi)) else .error .freeingFreeBlock

def bit (c : Content) (b : Blockno) : Bool :=
  (c (sb.bblock b)).testBit (b.toNat % BPB)

end Bitmap

end Xv6Bfs
