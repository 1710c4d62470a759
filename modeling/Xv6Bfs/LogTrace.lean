import Xv6Bfs.Fs

/-!
# The blocks that a write logs

`writei` and the functions it calls once more, with the calls of `log_write` in their order. A
transaction may log `MAXOPBLOCKS` different blocks.
-/

namespace Xv6Bfs

/-- The blocks as `bread` shows them, and those that `log_write` was called for. -/
structure Logged where
  content : Content
  log : List Blockno

abbrev LogM := EStateM FsPanic Logged

namespace LogM

def logWrite (b : Blockno) (f : Block → Block) : LogM Unit :=
  modify fun s => ⟨s.content.logWrite b f, s.log ++ [b]⟩

def bread (b : Blockno) : LogM Block := do
  return (← get).content b

def bzero (b : Blockno) : LogM Unit :=
  logWrite b (fun _ _ => 0)

variable (sb : FsSuperblock)

def balloc : LogM Blockno := do
  match findFree sb (← get).content with
  | some b => do
    logWrite (sb.bblock b) (·.setBit (b % BPB))
    bzero (BitVec.ofNat 32 b)
    return BitVec.ofNat 32 b
  | none => throw .ballocOutOfBlocks

def iupdate (inum : ℕ) (ip : Dinode) : LogM Unit :=
  logWrite (sb.iblock inum) (·.setDinode (inum % IPB) ip)

def allocIfZero (addr : Blockno) : LogM Blockno :=
  if addr = 0 then balloc sb else pure addr

def bmap (ip : Dinode) (bn : ℕ) : LogM (Blockno × Dinode) :=
  if bn < NDIRECT then do
    let slot := Fin.ofNat _ bn
    let addr ← allocIfZero sb (ip.addrs slot)
    return (addr, { ip with addrs := Function.update ip.addrs slot addr })
  else
    let bn := bn - NDIRECT
    if bn < NINDIRECT then do
      let ind ← allocIfZero sb (ip.addrs (Fin.last _))
      let ip := { ip with addrs := Function.update ip.addrs (Fin.last _) ind }
      let addr := (← bread ind).word bn
      if addr = 0 then do
        let addr ← balloc sb
        logWrite ind (·.setWord bn addr)
        return (addr, ip)
      else
        return (addr, ip)
    else
      throw .bmapOutOfRange

def writeLoop (ip : Dinode) : (fuel off : ℕ) → List (BitVec 8) → LogM (ℕ × Dinode)
  | 0, off, _ => return (off, ip)
  | fuel + 1, off, src =>
    if src = [] then return (off, ip) else do
      let (addr, ip) ← bmap sb ip (off / BSIZE)
      let m := chunk off src.length
      logWrite addr (·.store (off % BSIZE) (src.take m))
      writeLoop ip fuel (off + m) (src.drop m)

def writei (devsw : Devsw) (inum : ℕ) (ip : Dinode) (src : List (BitVec 8)) (off n : BitVec 32) :
    LogM (ℤ × Dinode) :=
  if ip.type = T_DEV then
    if ip.major.toInt < 0 ∨ NDEV ≤ ip.major.toInt then return (-1, ip)
    else match devsw.write ip.major.toNat with
      | none => return (-1, ip)
      | some write => return (write (src.take n.toNat), ip)
  else if ip.size < off ∨ off + n < off then
    return (-1, ip)
  else if MAXFILE * BSIZE < (off + n).toNat then
    return (-1, ip)
  else do
    let (off, ip) ← writeLoop sb ip n.toNat off.toNat (src.take n.toNat)
    if 0 < n ∧ ip.size.toNat < off then do
      let ip := { ip with size := BitVec.ofNat 32 off }
      iupdate sb inum ip
      return (n.toNat, ip)
    else
      return (n.toNat, ip)

end LogM

end Xv6Bfs
