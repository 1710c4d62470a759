import Xv6Bfs.Library.Transition
import Mathlib.Data.Finset.Basic
import Mathlib.Algebra.Ring.Nat

/-!
# The user allocator

`umalloc.c`: `malloc` and `free` over a circular list of free blocks that is entered at `freep`, and
a program that uses them. Pointers are byte addresses; the memory of a process ends far below
`2 ^ 32`, so sums of addresses and of sizes do not wrap, and what could wrap is the size of a
request.
-/

namespace Xv6Bfs

namespace Umalloc

structure Header where
  ptr : ℕ
  size : ℕ

def headerSize : ℕ := 8

/-- The allocator's memory and `freep`, where 0 is the null pointer, and what `sbrk` has done. -/
structure Heap where
  mem : ℕ → Header
  freep : ℕ
  /-- Where the memory ends that the process has had so far. -/
  brk : ℕ
  /-- The memory that `sbrk` gave to the allocator, by its start and its bytes. -/
  obtained : List (ℕ × ℕ)
  /-- How often `sbrk` was called. -/
  calls : ℕ

namespace Heap

variable (h : Heap)

def ptr (p : ℕ) : ℕ := (h.mem p).ptr

def size (p : ℕ) : ℕ := (h.mem p).size

/-- `p->s.ptr = v`. -/
def setPtr (p v : ℕ) : Heap :=
  { h with mem := Function.update h.mem p ⟨v, h.size p⟩ }

def setSize (p v : ℕ) : Heap :=
  { h with mem := Function.update h.mem p ⟨h.ptr p, v⟩ }

def setFreep (v : ℕ) : Heap := { h with freep := v }

/-- More steps than a search of the list takes. -/
def fuel : ℕ := 4 * h.brk + 8

def freeLoop (bp : ℕ) : (fuel : ℕ) → (p : ℕ) → Option ℕ
  | 0, _ => none
  | fuel + 1, p =>
    if bp > p ∧ bp < h.ptr p then some p
    else if p ≥ h.ptr p ∧ (bp > p ∨ bp < h.ptr p) then some p
    else freeLoop bp fuel (h.ptr p)

def joinUpper (bp p : ℕ) : Heap :=
  if bp + headerSize * h.size bp = h.ptr p then
    let h := h.setSize bp (h.size bp + h.size (h.ptr p))
    h.setPtr bp (h.ptr (h.ptr p))
  else h.setPtr bp (h.ptr p)

def joinLower (bp p : ℕ) : Heap :=
  if p + headerSize * h.size p = bp then
    let h := h.setSize p (h.size p + h.size bp)
    h.setPtr p (h.ptr bp)
  else h.setPtr p bp

def free (ap : ℕ) : Option Heap := do
  let bp := ap - headerSize
  let p ← h.freeLoop bp h.fuel h.freep
  return ((h.joinUpper bp p).joinLower bp p).setFreep p

section Sbrk

-- The answers of `sbrk`, one for each call: -1, or fresh memory above all that the process has had,
-- at some distance from it.
variable (answer : ℕ → Option ℕ)

/-- The heap once `sbrk` has given `n` bytes. -/
def grow (gap n : ℕ) : Heap :=
  { h with calls := h.calls + 1, brk := h.brk + gap + n,
           obtained := (h.brk + gap, n) :: h.obtained }

def sbrk (n : ℕ) : Option ℕ × Heap :=
  match answer h.calls with
  | none => (none, { h with calls := h.calls + 1 })
  | some gap => (some (h.brk + gap), h.grow gap n)

def morecore (nu : ℕ) : Option (ℕ × Heap) :=
  let nu := if nu < 4096 then 4096 else nu
  match h.sbrk answer (nu * headerSize % 2 ^ 32) with
  | (none, h) => some (0, h)
  | (some hp, h) => do
    let h ← (h.setSize hp nu).free (hp + headerSize)
    return (h.freep, h)

/-- What `malloc` does with the first block that is large enough. -/
def carve (nunits prevp p : ℕ) : ℕ × Heap :=
  if h.size p = nunits then
    (p + headerSize, (h.setPtr prevp (h.ptr p)).setFreep prevp)
  else
    let h := h.setSize p (h.size p - nunits)
    let q := p + headerSize * h.size p
    (q + headerSize, (h.setSize q nunits).setFreep prevp)

end Sbrk

end Heap

/-- The size that `morecore(nu)` records in the header of the block it makes. -/
def coreUnits (nu : ℕ) : ℕ := if nu < 4096 then 4096 else nu

/-- The argument with which `morecore(nu)` calls `sbrk`, whose parameter is an `int`. -/
def coreBytes (nu : ℕ) : BitVec 32 := BitVec.ofNat 32 (coreUnits nu * headerSize)

section Malloc

variable (base : ℕ) (answer : ℕ → Option ℕ)

def mallocLoop (nunits : ℕ) : (fuel : ℕ) → (prevp p : ℕ) → Heap → Option (ℕ × Heap)
  | 0, _, _, _ => none
  | fuel + 1, prevp, p, h =>
    if h.size p ≥ nunits then some (h.carve nunits prevp p)
    else if p = h.freep then do
      let (p, h) ← h.morecore answer nunits
      if p = 0 then return (0, h)
      else mallocLoop nunits fuel p (h.ptr p) h
    else mallocLoop nunits fuel p (h.ptr p) h

/-- The units of a request, in the arithmetic of `uint`. -/
def nunits (nbytes : ℕ) : ℕ := (nbytes + headerSize - 1) % 2 ^ 32 / headerSize + 1

/-- The first call of `malloc` makes the list of `base` alone. -/
def Heap.init (h : Heap) : Heap :=
  if h.freep = 0 then ((h.setPtr base base).setFreep base).setSize base 0 else h

def malloc (nbytes : ℕ) (h : Heap) : Option (ℕ × Heap) :=
  let h := h.init base
  mallocLoop answer (nunits nbytes) h.fuel h.freep (h.ptr h.freep) h

/-- The size arithmetic of a request does not wrap. -/
def Small (nbytes : ℕ) : Prop :=
  ((nbytes + headerSize - 1) / headerSize + 1) * headerSize < 2 ^ 32

instance (nbytes : ℕ) : Decidable (Small nbytes) := inferInstanceAs (Decidable (_ < _))

/-- A program that uses the allocator: the headers of the blocks it holds, and how many bytes it
asked for each of them. -/
structure Program where
  heap : Heap
  live : Finset ℕ
  want : ℕ → ℕ

inductive Event where
  | malloc (nbytes : ℕ)
  /-- `free` of the pointer behind a header. -/
  | free (hp : ℕ)
  /-- The program writes into a block that it holds. -/
  | write (hp : ℕ) (a : ℕ) (v : Header)

def Event.step : Event → Program → Option Program
  | .malloc nbytes, x =>
    if Small nbytes then do
      let (ap, h) ← Umalloc.malloc base answer nbytes x.heap
      if ap = 0 then return { x with heap := h }
      else
        return { heap := h, live := insert (ap - headerSize) x.live,
                 want := Function.update x.want (ap - headerSize) nbytes }
    else none
  | .free hp, x =>
    if hp ∈ x.live then do
      let h ← x.heap.free (hp + headerSize)
      return { x with heap := h, live := x.live.erase hp }
    else none
  | .write hp a v, x =>
    if hp ∈ x.live ∧ hp + headerSize ≤ a ∧ a + headerSize ≤ hp + headerSize * x.heap.size hp then
      some { x with heap := { x.heap with mem := Function.update x.heap.mem a v } }
    else none

/-- A program from its start: `base` lies in its data, below the heap. -/
def program : Transition.System Program Event where
  init x := x.heap.freep = 0 ∧ x.heap.obtained = [] ∧ x.live = ∅ ∧ 0 < base ∧ base + headerSize ≤ x.heap.brk
  step := Event.step base answer

end Malloc

end Umalloc

end Xv6Bfs
