import Xv6Bfs.Library.LinkedList

/-!
# The skip list of the scheduler

The run queue of `proc.c`: nodes in pages, the four header nodes, insertion along the
predecessors found by a descent from the top level, deletion of a tower found by the same
descent, and the minimum. A function returns `none` where the C code has no defined
behaviour: it reads or writes through a null pointer or a page that holds no node, uses an
array entry that was never stored, or runs around a cycle for ever.
-/

namespace Xv6Bfs

open Function LinkedList

/-- The physical pages of a machine with `P` of them. -/
abbrev Addr (P : ℕ) := Fin P

abbrev Ptr (P : ℕ) := Option (Addr P)

/-- `struct node` of `skiplist.h`. -/
structure Node (P : ℕ) where
  pid : ℤ
  virtualDeadline : ℤ
  prev : Ptr P
  next : Ptr P
  forward : Ptr P
  deriving DecidableEq

abbrev Mem (P : ℕ) := Addr P → Option (Node P)

/-- `struct skiplist`, together with the memory its pointers lead to. -/
structure Skiplist (P : ℕ) where
  levels : ℕ
  headers : List (Addr P)
  mem : Mem P

def SKIPLIST_LEVELS : ℕ := 4

variable {P : ℕ}

/-- `kalloc` returns the null pointer or a page that is not in use. Which page it is depends
on the whole kernel, so the caller proposes it. -/
def kalloc (mem : Mem P) (page : Ptr P) : Ptr P :=
  page.filter (fun a => (mem a).isNone)

def kfree (mem : Mem P) (a : Addr P) : Mem P :=
  update mem a none

def setNext (mem : Mem P) (a : Addr P) (next : Ptr P) : Option (Mem P) := do
  let node ← mem a
  some (update mem a (some { node with next := next }))

def setPrev (mem : Mem P) (a : Addr P) (prev : Ptr P) : Option (Mem P) := do
  let node ← mem a
  some (update mem a (some { node with prev := prev }))

/-- The loop of `init_skiplist`. `below` is the header allocated last. -/
def initHeaders (pages : ℕ → Ptr P) :
    ℕ → ℕ → Ptr P → List (Addr P) → Mem P → Option (List (Addr P) × Mem P)
  | 0, _, _, headers, mem => some (headers, mem)
  | n + 1, i, below, headers, mem => do
    let a ← kalloc mem (pages i)
    initHeaders pages n (i + 1) (some a) (headers ++ [a]) (update mem a
      (some { pid := -1, virtualDeadline := -1, prev := none, next := none, forward := below }))

/-- `init_skiplist` on a memory without nodes. The bottom header's `forward` is never
initialised and keeps the `junk` that its page held. -/
def initSkiplist (pages : ℕ → Ptr P) (junk : Ptr P) : Option (Skiplist P) := do
  let (headers, mem) ← initHeaders pages SKIPLIST_LEVELS 0 junk [] (fun _ => none)
  some { levels := SKIPLIST_LEVELS, headers := headers, mem := mem }

def insertToLevel (mem : Mem P) (pid virtualDeadline : ℤ) (prevNode : Addr P)
    (forward page : Ptr P) : Option (Addr P × Mem P) := do
  let newNode ← kalloc mem page
  let prev ← mem prevNode
  let nextNode := prev.next
  let mem ← setNext mem prevNode (some newNode)
  let node : Node P := ⟨pid, virtualDeadline, some prevNode, nextNode, forward⟩
  let mem := update mem newNode (some node)
  match nextNode with
  | none => some (newNode, mem)
  | some next => do
    let mem ← setPrev mem next (some newNode)
    some (newNode, mem)

def insertStep (mem : Mem P) (virtualDeadline : ℤ) (current : Addr P) : Option (Ptr P) := do
  let node ← mem current
  match node.next with
  | none => some none
  | some next => do
    let nextNode ← mem next
    if virtualDeadline ≥ nextNode.virtualDeadline then some (some next) else some none

/-- The descent of `insert_node` from level `current_level`, one below its first argument. -/
def searchPrev (mem : Mem P) (virtualDeadline : ℤ) (maxLevel : ℕ) :
    ℕ → Ptr P → (ℕ → Ptr P) → Option (ℕ → Ptr P)
  | 0, _, prevNodes => some prevNodes
  | level + 1, currentNode, prevNodes => do
    let current ← currentNode
    let current ← chase (insertStep mem virtualDeadline) P current
    let node ← mem current
    searchPrev mem virtualDeadline maxLevel level node.forward
      (if maxLevel ≥ level then update prevNodes level (some current) else prevNodes)

def linkLevels (pid virtualDeadline : ℤ) (prevNodes pages : ℕ → Ptr P) :
    ℕ → ℕ → Ptr P → Mem P → Option (Mem P)
  | 0, _, _, mem => some mem
  | n + 1, level, forward, mem => do
    let prevNode ← prevNodes level
    let (newNode, mem) ← insertToLevel mem pid virtualDeadline prevNode forward (pages level)
    linkLevels pid virtualDeadline prevNodes pages n (level + 1) (some newNode) mem

/-- The predecessors that `insert_node` finds before it links anything. -/
def findPrev (skiplist : Skiplist P) (virtualDeadline : ℤ) (maxLevel : ℕ) :
    Option (ℕ → Ptr P) := do
  let top ← skiplist.headers[skiplist.levels - 1]?
  searchPrev skiplist.mem virtualDeadline maxLevel skiplist.levels (some top) (fun _ => none)

/-- `insert_node` for a process with the given pid and deadline, where
`randomize_max_level` has drawn `maxLevel` and `kalloc` returns `pages level` on each level. -/
def insertNode (skiplist : Skiplist P) (pid virtualDeadline : ℤ) (maxLevel : ℕ)
    (pages : ℕ → Ptr P) : Option (Skiplist P) := do
  let prevNodes ← findPrev skiplist virtualDeadline maxLevel
  let mem ← linkLevels pid virtualDeadline prevNodes pages (maxLevel + 1) 0 none skiplist.mem
  some { skiplist with mem := mem }

/-- `delete_from_levels`. Every round frees a page, so `P` rounds are enough. -/
def deleteFromLevels : ℕ → Ptr P → Mem P → Option (Mem P)
  | _, none, mem => some mem
  | 0, some _, _ => none
  | fuel + 1, some current, mem => do
    let node ← mem current
    let prev ← node.prev
    let mem ← setNext mem prev node.next
    let mem ← match node.next with
      | none => some mem
      | some next => setPrev mem next (some prev)
    deleteFromLevels fuel node.forward (kfree mem current)

def forwardStep (mem : Mem P) (pid virtualDeadline : ℤ) (current : Addr P) : Option (Ptr P) := do
  let node ← mem current
  if node.virtualDeadline < virtualDeadline ∧ node.pid ≠ pid then
    if node.virtualDeadline > virtualDeadline ∨ node.next = none then some none
    else some node.next
  else some none

/-- One round of the backward walk in `delete_node`. Walking back over a header means
reading through its null `prev`. -/
def backwardStep (mem : Mem P) (virtualDeadline : ℤ) (current : Addr P) : Option (Ptr P) := do
  let node ← mem current
  if node.virtualDeadline ≥ virtualDeadline then do
    let prev ← node.prev
    some (some prev)
  else some none

/-- The search of `delete_node`, which ends in the node to delete and its level, or in
nothing after the bottom level. -/
def findNode (mem : Mem P) (pid virtualDeadline : ℤ) :
    ℕ → Ptr P → Option (Option (Addr P × ℕ))
  | 0, _ => some none
  | level + 1, currentNode => do
    let current ← currentNode
    let current ← chase (forwardStep mem pid virtualDeadline) P current
    let node ← mem current
    if node.pid = pid ∧ node.virtualDeadline = virtualDeadline then some (some (current, level))
    else do
      let current ← chase (backwardStep mem virtualDeadline) P current
      let node ← mem current
      findNode mem pid virtualDeadline level node.forward

def deleteNode (skiplist : Skiplist P) (pid virtualDeadline : ℤ) : Option (Skiplist P) := do
  let top ← skiplist.headers[skiplist.levels - 1]?
  match ← findNode skiplist.mem pid virtualDeadline skiplist.levels (some top) with
  | none => some skiplist
  | some (node, _) => do
    let mem ← deleteFromLevels P (some node) skiplist.mem
    some { skiplist with mem := mem }

def getMinimum (skiplist : Skiplist P) : Option ℤ := do
  let header ← skiplist.headers[0]?
  let node ← skiplist.mem header
  match node.next with
  | some first => do
    let node ← skiplist.mem first
    some node.pid
  | none => some (-69)

def printNodes (mem : Mem P) : ℕ → Ptr P → Option (List (ℤ × ℤ))
  | _, none => some []
  | 0, some _ => none
  | fuel + 1, some current => do
    let node ← mem current
    let rest ← printNodes mem fuel node.next
    some ((node.pid, node.virtualDeadline) :: rest)

/-- The pids and deadlines that `print_skiplist` shows on a level behind its header. -/
def levelEntries (skiplist : Skiplist P) (level : ℕ) : Option (List (ℤ × ℤ)) := do
  let header ← skiplist.headers[level]?
  let node ← skiplist.mem header
  printNodes skiplist.mem P node.next

end Xv6Bfs
