import Mathlib.Logic.Function.Basic
import Mathlib.Algebra.Ring.Nat

/-!
# `memmove`

`memmove` of `string.c`, on bytes with 32-bit addresses.
-/

namespace Xv6Bfs

abbrev Memory := BitVec 32 → BitVec 8

/-- `while(n-- > 0) *--d = *--s`. -/
def copyDown (mem : Memory) (d s : BitVec 32) : ℕ → Memory
  | 0 => mem
  | n + 1 => copyDown (Function.update mem (d - 1) (mem (s - 1))) (d - 1) (s - 1) n

/-- `while(n-- > 0) *d++ = *s++`. -/
def copyUp (mem : Memory) (d s : BitVec 32) : ℕ → Memory
  | 0 => mem
  | n + 1 => copyUp (Function.update mem d (mem s)) (d + 1) (s + 1) n

def memmove (mem : Memory) (dst src n : BitVec 32) : BitVec 32 × Memory :=
  if src < dst ∧ src + n > dst then (dst, copyDown mem (dst + n) (src + n) n.toNat)
  else (dst, copyUp mem dst src n.toNat)

end Xv6Bfs
