import Xv6Bfs.Vm
import Xv6Bfs.Library.Transition

/-!
# The memory of a process

`growproc` and the system call `sbrk`. A process knows its page directory and the size of its
memory. A function returns whether the C function returns 0 and not -1.
-/

namespace Xv6Bfs

open Transition

structure UserMemory (P : ℕ) where
  pgdir : Addr P
  sz : BitVec 32

namespace UserMemory

variable {P : ℕ} (k : KernelLayout)

def growproc (curproc : UserMemory P) (n : BitVec 32) : VmM P (Bool × UserMemory P) :=
  if 0 < n.toInt then do
    let sz ← Vm.allocuvm k curproc.pgdir curproc.sz (curproc.sz + n)
    if sz = 0 then return (false, curproc) else return (true, { curproc with sz := sz })
  else if n.toInt < 0 then do
    let sz ← Vm.deallocuvm k curproc.pgdir curproc.sz (curproc.sz + n)
    if sz = 0 then return (false, curproc) else return (true, { curproc with sz := sz })
  else return (true, curproc)

def sysSbrk (curproc : UserMemory P) (n : BitVec 32) : VmM P (Option (BitVec 32) × UserMemory P) := do
  let addr := curproc.sz
  let (ok, curproc) ← growproc k curproc n
  return (if ok then some addr else none, curproc)

def sbrkSystem (curproc : UserMemory P) (vm : Vm P) : System (UserMemory P × Vm P) (BitVec 32) where
  init s := s = (curproc, vm)
  step n s :=
    match sysSbrk k s.1 n s.2 with
    | .ok r vm => some (r.2, vm)
    | .error _ _ => none

end UserMemory

end Xv6Bfs
