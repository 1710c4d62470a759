import Mathlib.Data.Int.Basic

/-!
# System call arguments

How `syscall.c` fetches the arguments of a call from the memory of the process that makes it, with
the 32-bit sums and comparisons of the source.
-/

namespace Xv6Bfs

def KERNBASE : BitVec 32 := 0x80000000

def PGSIZE : ℕ := 4096

/-- The current process: its size, the user stack pointer of the call, and memory. -/
structure UserProc where
  sz : BitVec 32
  esp : BitVec 32
  mem : BitVec 32 → BitVec 8

namespace UserProc

variable (u : UserProc)

/-- `*(int*)(addr)`. -/
def word (addr : BitVec 32) : BitVec 32 :=
  u.mem (addr + 3) ++ u.mem (addr + 2) ++ u.mem (addr + 1) ++ u.mem addr

def fetchint (addr : BitVec 32) : Option (BitVec 32) :=
  if addr ≥ u.sz ∨ addr + 4 > u.sz then none else some (u.word addr)

/-- The loop of `fetchstr`, which returns `s - *pp`; it has `fuel` steps before `s` is `ep`. -/
def fetchstrLoop (pp : BitVec 32) : (fuel : ℕ) → (s : BitVec 32) → Option ℤ
  | 0, _ => none
  | fuel + 1, s =>
    if s < u.sz then
      if u.mem s = 0 then some (s - pp).toInt else fetchstrLoop pp fuel (s + 1)
    else none

def fetchstr (addr : BitVec 32) : Option (BitVec 32 × ℤ) :=
  if addr ≥ u.sz then none
  else (u.fetchstrLoop addr ((u.sz - addr).toNat + 1) addr).map (addr, ·)

def argint (n : BitVec 32) : Option (BitVec 32) :=
  u.fetchint (u.esp + 4 + 4 * n)

def argptr (n size : BitVec 32) : Option (BitVec 32) := do
  let i ← u.argint n
  if size.toInt < 0 ∨ i ≥ u.sz ∨ i + size > u.sz then none else some i

def argstr (n : BitVec 32) : Option (BitVec 32 × ℤ) := do
  let addr ← u.argint n
  u.fetchstr addr

end UserProc

end Xv6Bfs
