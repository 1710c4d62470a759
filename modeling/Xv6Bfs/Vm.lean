import Xv6Bfs.Args
import Xv6Bfs.Skiplist
import Xv6Bfs.Library.Ledger
import Xv6Bfs.Library.Program

/-!
# Physical pages and page tables

`kalloc.c` and the page tables of `vm.c`. Physical memory is a table of pages of bytes; page
directories and page tables are pages whose words are read and written there. The list of free
pages is kept beside the memory. A loop whose end depends on what it reads in memory has as many
rounds as there are pages in the address space.
-/

namespace Xv6Bfs

open Ledger

instance : NeZero PGSIZE := ⟨by decide⟩

abbrev Page := Fin PGSIZE → BitVec 8

namespace Page

def byte (x : Page) (k : ℕ) : BitVec 8 :=
  x (Fin.ofNat PGSIZE k)

def word (x : Page) (i : ℕ) : BitVec 32 :=
  x.byte (4 * i + 3) ++ x.byte (4 * i + 2) ++ x.byte (4 * i + 1) ++ x.byte (4 * i)

def setWord (x : Page) (i : ℕ) (w : BitVec 32) : Page :=
  fun k => if k.val / 4 = i then w.extractLsb' (8 * (k.val % 4)) 8 else x k

def fill (c : BitVec 8) : Page :=
  fun _ => c

/-- `memmove(v + off, bytes, n)`. -/
def store (x : Page) (off : ℕ) (bytes : List (BitVec 8)) : Page :=
  fun k => if off ≤ k.val ∧ k.val < off + bytes.length then bytes.getD (k.val - off) 0 else x k

end Page

/-- What `kalloc.c` and `vm.c` work on: the free list and the pages. -/
abbrev Vm (P : ℕ) := State (Addr P) Page

inductive VmPanic
  | kfree
  | remap
  | copyuvmPteShouldExist
  | copyuvmPageNotPresent
  | loaduvmAligned
  | loaduvmAddressShouldExist
  | clearpteu
  /-- A null pointer or an address outside the memory is used. -/
  | fault
  /-- A loop goes on for ever. -/
  | diverges
  deriving DecidableEq

abbrev VmM (P : ℕ) := EStateM VmPanic (Vm P)

/-! ### Words of a page table -/

def NPDENTRIES : ℕ := 1024

def PTE_P : BitVec 32 := 1
def PTE_W : BitVec 32 := 2
def PTE_U : BitVec 32 := 4

/-- Whether the entry has `PTE_P`. -/
def present (pte : BitVec 32) : Bool :=
  pte &&& PTE_P ≠ 0

def pteAddr (pte : BitVec 32) : BitVec 32 :=
  pte &&& ~~~0xFFF

def pteFlags (pte : BitVec 32) : BitVec 32 :=
  pte &&& 0xFFF

def pdx (va : BitVec 32) : ℕ :=
  ((va >>> 22) &&& 0x3FF).toNat

def ptx (va : BitVec 32) : ℕ :=
  ((va >>> 12) &&& 0x3FF).toNat

def pgAddr (d : ℕ) : BitVec 32 :=
  BitVec.ofNat 32 d <<< 22

def pgRoundUp (sz : BitVec 32) : BitVec 32 :=
  (sz + 0xFFF) &&& ~~~0xFFF

def pgRoundDown (a : BitVec 32) : BitVec 32 :=
  a &&& ~~~0xFFF

structure Kmap where
  virt : BitVec 32
  physStart : BitVec 32
  physEnd : BitVec 32
  perm : BitVec 32

/-- What the linker and the layout of memory fix: `V2P(end)`, and the table `kmap`. -/
structure KernelLayout where
  kernelEnd : ℕ
  kmap : List Kmap

def EXTMEM : BitVec 32 := 0x100000
def PHYSTOP : BitVec 32 := 0xE000000
def DEVSPACE : BitVec 32 := 0xFE000000
def KERNLINK : BitVec 32 := KERNBASE + EXTMEM

/-- The table `kmap`, for the address that the linker gives to `data`. -/
def kmap (data : BitVec 32) : List Kmap :=
  [⟨KERNBASE, 0, EXTMEM, PTE_W⟩, ⟨KERNLINK, KERNLINK - KERNBASE, data - KERNBASE, 0⟩,
   ⟨data, data - KERNBASE, PHYSTOP, PTE_W⟩,
   ⟨DEVSPACE, DEVSPACE, 0, PTE_W⟩]

namespace Vm

variable {P : ℕ}

def v2p (a : Addr P) : BitVec 32 :=
  BitVec.ofNat 32 (a.val * PGSIZE)

def frame (pa : BitVec 32) : Ptr P :=
  if h : pa.toNat / PGSIZE < P then some ⟨pa.toNat / PGSIZE, h⟩ else none

def p2v (pa : BitVec 32) : VmM P (Addr P) :=
  match frame pa with
  | some a => pure a
  | none => throw .fault

def page (a : Addr P) : VmM P Page := do
  return (← get).content a

def setPage (a : Addr P) (x : Page) : VmM P Unit :=
  modify fun vm => vm.write a x

def setWord (a : Addr P) (i : ℕ) (w : BitVec 32) : VmM P Unit := do
  setPage a ((← page a).setWord i w)

def kalloc : VmM P (Ptr P) := do
  let vm ← get
  match vm.free with
  | [] => return none
  | r :: l => do
    set { vm with free := l }
    return some r

def kfree (k : KernelLayout) (v : Addr P) : VmM P Unit :=
  if v.val * PGSIZE < k.kernelEnd then throw .kfree
  else do
    setPage v (Page.fill 1)
    modify fun vm => vm.release v

/-- The page table and the index of the entry in it. -/
def walkpgdir (pgdir : Addr P) (va : BitVec 32) (alloc : Bool) : VmM P (Option (Addr P × ℕ)) := do
  let pde := (← page pgdir).word (pdx va)
  if present pde then
    let pgtab ← p2v (pteAddr pde)
    return some (pgtab, ptx va)
  else if !alloc then return none
  else
    match ← kalloc with
    | none => return none
    | some pgtab => do
      setPage pgtab (Page.fill 0)
      setWord pgdir (pdx va) (v2p pgtab ||| PTE_P ||| PTE_W ||| PTE_U)
      return some (pgtab, ptx va)

def mapLoop (pgdir : Addr P) (last perm : BitVec 32) : (fuel : ℕ) → (a pa : BitVec 32) → VmM P Bool
  | 0, _, _ => throw .diverges
  | fuel + 1, a, pa => do
    match ← walkpgdir pgdir a true with
    | none => return false
    | some (pgtab, i) =>
      if present ((← page pgtab).word i) then throw .remap
      else do
        setWord pgtab i (pa ||| perm ||| PTE_P)
        if a = last then return true
        else mapLoop pgdir last perm fuel (a + 0x1000) (pa + 0x1000)

/-- It returns whether it has not run out of memory. -/
def mappages (pgdir : Addr P) (va size pa perm : BitVec 32) : VmM P Bool :=
  mapLoop pgdir (pgRoundDown (va + size - 1)) perm (2 ^ 20) (pgRoundDown va) pa

variable (k : KernelLayout)

def deallocLoop (pgdir : Addr P) (oldsz : BitVec 32) : (fuel : ℕ) → (a : BitVec 32) → VmM P Unit
  | 0, _ => throw .diverges
  | fuel + 1, a => do
    if a < oldsz then
      match ← walkpgdir pgdir a false with
      | none => deallocLoop pgdir oldsz fuel (pgAddr (pdx a + 1) - 0x1000 + 0x1000)
      | some (pgtab, i) => do
        let pte := (← page pgtab).word i
        if present pte then
          -- panic("kfree")
          if pteAddr pte = 0 then throw .kfree
          else do
            kfree k (← p2v (pteAddr pte))
            setWord pgtab i 0
            deallocLoop pgdir oldsz fuel (a + 0x1000)
        else deallocLoop pgdir oldsz fuel (a + 0x1000)
    else return ()

def deallocuvm (pgdir : Addr P) (oldsz newsz : BitVec 32) : VmM P (BitVec 32) :=
  if newsz ≥ oldsz then return oldsz
  else do
    deallocLoop k pgdir oldsz (2 ^ 20) (pgRoundUp newsz)
    return newsz

def freeTable (pgdir : Addr P) (i : ℕ) : VmM P Unit := do
  let pde := (← page pgdir).word i
  if present pde then
    kfree k (← p2v (pteAddr pde))

def freevm (pgdir : Addr P) : VmM P Unit := do
  let _ ← deallocuvm k pgdir KERNBASE 0
  (List.range NPDENTRIES).forM (freeTable k pgdir)
  kfree k pgdir

def mapKernel (pgdir : Addr P) : List Kmap → VmM P Bool
  | [] => return true
  | m :: kmap => do
    if ← mappages pgdir m.virt (m.physEnd - m.physStart) m.physStart m.perm then mapKernel pgdir kmap
    else return false

def setupkvm : VmM P (Ptr P) := do
  match ← kalloc with
  | none => return none
  | some pgdir => do
    setPage pgdir (Page.fill 0)
    if ← mapKernel pgdir k.kmap then return some pgdir
    else do
      freevm k pgdir
      return none

/-- The loop of `allocuvm`; it returns whether it has not run out of memory. -/
def allocLoop (pgdir : Addr P) (oldsz newsz : BitVec 32) : (fuel : ℕ) → (a : BitVec 32) → VmM P Bool
  | 0, _ => throw .diverges
  | fuel + 1, a => do
    if a < newsz then
      match ← kalloc with
      | none => do
        let _ ← deallocuvm k pgdir newsz oldsz
        return false
      | some mem => do
        setPage mem (Page.fill 0)
        if ← mappages pgdir a 0x1000 (v2p mem) (PTE_W ||| PTE_U) then
          allocLoop pgdir oldsz newsz fuel (a + 0x1000)
        else do
          let _ ← deallocuvm k pgdir newsz oldsz
          kfree k mem
          return false
    else return true

def allocuvm (pgdir : Addr P) (oldsz newsz : BitVec 32) : VmM P (BitVec 32) :=
  if newsz ≥ KERNBASE then return 0
  else if newsz < oldsz then return oldsz
  else do
    if ← allocLoop k pgdir oldsz newsz (2 ^ 20) (pgRoundUp oldsz) then return newsz else return 0

/-- The loop of `copyuvm` into `d`; it returns whether it has not run out of memory. -/
def copyLoop (pgdir d : Addr P) (sz : BitVec 32) : (fuel : ℕ) → (i : BitVec 32) → VmM P Bool
  | 0, _ => throw .diverges
  | fuel + 1, i => do
    if i < sz then
      match ← walkpgdir pgdir i false with
      | none => throw .copyuvmPteShouldExist
      | some (pgtab, j) => do
        let pte := (← page pgtab).word j
        if !present pte then throw .copyuvmPageNotPresent
        else
          match ← kalloc with
          | none => return false
          | some mem => do
            setPage mem (← page (← p2v (pteAddr pte)))
            if ← mappages d i 0x1000 (v2p mem) (pteFlags pte) then copyLoop pgdir d sz fuel (i + 0x1000)
            else do
              kfree k mem
              return false
    else return true

def copyuvm (pgdir : Addr P) (sz : BitVec 32) : VmM P (Ptr P) := do
  match ← setupkvm k with
  | none => return none
  | some d => do
    if ← copyLoop k pgdir d sz (2 ^ 20) 0 then return some d
    else do
      freevm k d
      return none

def uva2ka (pgdir : Addr P) (uva : BitVec 32) : VmM P (Ptr P) := do
  match ← walkpgdir pgdir uva false with
  | none => throw .fault -- `*pte` of a null pointer
  | some (pgtab, i) => do
    let pte := (← page pgtab).word i
    if !present pte then return none
    else if pte &&& PTE_U = 0 then return none
    else return some (← p2v (pteAddr pte))

/-- The loop of `copyout`; each round copies at least one byte. -/
def copyoutLoop (pgdir : Addr P) : (fuel : ℕ) → (va : BitVec 32) → (buf : List (BitVec 8)) → VmM P Bool
  | 0, _, _ => throw .diverges
  | fuel + 1, va, buf => do
    if buf = [] then return true
    else
      let va0 := pgRoundDown va
      match ← uva2ka pgdir va0 with
      | none => return false
      | some pa0 => do
        let n := min (PGSIZE - (va - va0).toNat) buf.length
        setPage pa0 ((← page pa0).store (va - va0).toNat (buf.take n))
        copyoutLoop pgdir fuel (va0 + 0x1000) (buf.drop n)

/-- `copyout(pgdir, va, p, len)` of the bytes at `p`; it returns whether it has not failed. -/
def copyout (pgdir : Addr P) (va : BitVec 32) (buf : List (BitVec 8)) : VmM P Bool :=
  copyoutLoop pgdir (buf.length + 1) va buf

end Vm

end Xv6Bfs
