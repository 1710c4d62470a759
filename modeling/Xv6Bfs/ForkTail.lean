import Xv6Bfs.Kernel

/-!
# The tail of nicefork, step by step

`nicefork` releases `ptable.lock` before it sets the deadline of its child and inserts it in
the list, with interrupts on. Here one such tail is cut at every point at which another CPU
or an interrupt can come in between: behind the new deadline, behind the search for the
predecessors, and behind each level that is linked.
-/

namespace Xv6Bfs

open Transition

/-- The rest of `nicefork`: the search of `insert_node`, or its link loop from `level` on with
the predecessors that the search has found. -/
inductive TailStage (P : ℕ)
  | search
  | link (level : ℕ) (prevNodes : ℕ → Ptr P) (forward : Ptr P)

/-- The tail of the `nicefork` of `cur`, whose child is `np`. -/
structure Tail (P : ℕ) where
  cur : Slot
  np : Slot
  stage : TailStage P

structure ForkKernel (P : ℕ) (Cpu : Type) where
  kernel : Kernel P Cpu
  tail : Option (Tail P)

namespace ForkKernel

variable {P : ℕ} {Cpu : Type}

def tailOn (s : ForkKernel P Cpu) (c : Cpu) : Option (Tail P) :=
  s.tail.filter (fun t => s.kernel.executing c = some t.cur ∧ s.kernel.pc t.cur = .user)

/-- `np->nice_value = nice_value; np->virtual_deadline = ...`. -/
def setDeadline (c : Cpu) (niceValue : ℤ) (s : ForkKernel P Cpu) : Option (ForkKernel P Cpu) :=
  match s.tail with
  | some _ => none
  | none => do
    let (cur, np) ← s.kernel.forking c .published
    some { kernel := s.kernel.setNice niceValue np, tail := some ⟨cur, np, .search⟩ }

/-- `insert_node` up to the link loop. -/
def search (c : Cpu) (maxLevel : ℕ) (s : ForkKernel P Cpu) : Option (ForkKernel P Cpu) := do
  let t ← s.tailOn c
  match t.stage with
  | .link _ _ _ => none
  | .search => do
    let prevNodes ← findPrev s.kernel.skiplist (s.kernel.proc t.np).virtualDeadline maxLevel
    some { kernel := s.kernel.modify t.np (fun p => { p with maxLevel := maxLevel })
           tail := some { t with stage := .link 0 prevNodes none } }

/-- The history of an insertion. The bottom level makes the process visible to the others. -/
def enter (cur np : Slot) (k : Kernel P Cpu) : Kernel P Cpu :=
  { k with
    frame := Function.update k.frame cur (some (.linking, np))
    queuedAt := Function.update k.queuedAt np k.enqueues
    enqueues := k.enqueues + 1 }

/-- A round of the link loop of `insert_node`, or its end. -/
def link (c : Cpu) (page : Ptr P) (s : ForkKernel P Cpu) : Option (ForkKernel P Cpu) := do
  let t ← s.tailOn c
  match t.stage with
  | .search => none
  | .link level prevNodes forward =>
    let p := s.kernel.proc t.np
    if level ≤ p.maxLevel then do
      let prevNode ← prevNodes level
      let (newNode, mem) ←
        insertToLevel s.kernel.skiplist.mem p.pid p.virtualDeadline prevNode forward page
      let k := { s.kernel with skiplist := { s.kernel.skiplist with mem := mem } }
      some { kernel := if level = 0 then enter t.cur t.np k else k
             tail := some { t with stage := .link (level + 1) prevNodes (some newNode) } }
    else
      some { kernel := { s.kernel with frame := Function.update s.kernel.frame t.cur none }
             tail := none }

end ForkKernel

variable {P : ℕ} {Cpu : Type} [DecidableEq Cpu]

/-- A step of the tail, or of anything else in the kernel. -/
inductive ForkEvent (P : ℕ) (Cpu : Type)
  | other (e : Event P Cpu)
  | setDeadline (c : Cpu) (niceValue : ℤ)
  | search (c : Cpu) (maxLevel : ℕ)
  | link (c : Cpu) (page : Ptr P)

/-- The CPU on which the event is a whole tail at once. -/
def Event.tailOf : Event P Cpu → Option Cpu
  | .niceforkInsert c _ _ => some c
  | _ => none

def ForkKernel.other (e : Event P Cpu) (s : ForkKernel P Cpu) : Option (ForkKernel P Cpu) :=
  if (e.tailOf.bind s.tailOn).isSome then none
  else (e.step s.kernel).map (fun k => { s with kernel := k })

def ForkEvent.step : ForkEvent P Cpu → ForkKernel P Cpu → Option (ForkKernel P Cpu)
  | other e => ForkKernel.other e
  | setDeadline c niceValue => ForkKernel.setDeadline c niceValue
  | search c maxLevel => ForkKernel.search c maxLevel
  | link c page => ForkKernel.link c page

def forkKernel (P : ℕ) (Cpu : Type) [DecidableEq Cpu] : System (ForkKernel P Cpu) (ForkEvent P Cpu) where
  init s := (kernel P Cpu).init s.kernel ∧ s.tail = none
  step := ForkEvent.step

/-- The predecessors from `level` on would be found again by a new search. -/
def SearchStands (sl : Skiplist P) (virtualDeadline : ℤ) (level : ℕ) (prevNodes : ℕ → Ptr P) : Prop :=
  ∃ found ∈ findPrev sl virtualDeadline sl.levels,
    ∀ j < sl.levels, level ≤ j → prevNodes j = none ∨ found j = prevNodes j

instance (sl : Skiplist P) (virtualDeadline : ℤ) (level : ℕ) (prevNodes : ℕ → Ptr P) :
    Decidable (SearchStands sl virtualDeadline level prevNodes) := by
  unfold SearchStands
  infer_instance

/-- The child has not been dispatched, which would set its `max_level` to -1, and the
predecessors that are still to be used stand. -/
def Tail.Settled (k : Kernel P Cpu) (t : Tail P) : Prop :=
  match t.stage with
  | .search => True
  | .link level prevNodes _ => 0 ≤ (k.proc t.np).maxLevel ∧
      SearchStands k.skiplist (k.proc t.np).virtualDeadline level prevNodes

/-- The other steps leave the tail settled. -/
def Undisturbed (s : ForkKernel P Cpu) (e : ForkEvent P Cpu) : Prop :=
  match e with
  | .other e => ∀ s' ∈ s.other e, ∀ t ∈ s'.tail, t.Settled s'.kernel
  | _ => True

instance (k : Kernel P Cpu) (t : Tail P) : Decidable (t.Settled k) := by
  unfold Tail.Settled
  split <;> infer_instance

instance (s : ForkKernel P Cpu) (e : ForkEvent P Cpu) : Decidable (Undisturbed s e) := by
  unfold Undisturbed
  split <;> infer_instance

end Xv6Bfs
