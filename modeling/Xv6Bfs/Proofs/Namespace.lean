import Xv6Bfs.Proofs.Tree
import Xv6Bfs.Sysfile

/-!
# Path names in a tree

How a path is looked up in a directory tree.
-/

namespace Xv6Bfs

namespace Tree

variable (t : Tree)

def Names (d i : ℕ) : Prop :=
  ∃ de ∈ (t d).entries, de.inum ≠ 0 ∧ de.inum.toNat = i

/-- Entries of directories lead from one inode to the other. -/
def Leads : ℕ → ℕ → Prop :=
  Relation.ReflTransGen t.Names

/-- A lookup from the inode may come to a free one. -/
def Dangling (i : ℕ) : Prop :=
  ∃ j, t.Leads i j ∧ (t j).type = 0

/-! ### Paths -/

def lookup (d : ℕ) (name : List (BitVec 8)) : Option ℕ :=
  ((t d).entries.find? (·.Matches name)).map (·.inum.toNat)

def walk (parent : Bool) : (fuel : ℕ) → ℕ → List (BitVec 8) → Option (ℕ × List (BitVec 8))
  | 0, i, _ => if parent then none else some (i, [])
  | fuel + 1, i, path =>
    match skipelem path with
    | none => if parent then none else some (i, [])
    | some (name, path) =>
      if (t i).type ≠ T_DIR then none
      else if parent ∧ path.headD 0 = 0 then some (i, name)
      else match t.lookup i name with
        | none => none
        | some j => walk parent fuel j path

def namex (cwd : ℕ) (path : List (BitVec 8)) (parent : Bool) : Option (ℕ × List (BitVec 8)) :=
  t.walk parent path.length (if path.headD 0 = 47 then ROOTINO else cwd) path

def namei (cwd : ℕ) (path : List (BitVec 8)) : Option ℕ :=
  (t.namex cwd path false).map Prod.fst

def nameiparent (cwd : ℕ) (path : List (BitVec 8)) : Option (ℕ × List (BitVec 8)) :=
  t.namex cwd path true

end Tree

/-- Whenever the process has asked for a lock, it held none. -/
def Vfs.OneLock (p : Pid) (v : Vfs) : Prop :=
  ∀ fs ∈ v.trace, ∀ ip, (fs.icache ip).lock ≠ some p

end Xv6Bfs
