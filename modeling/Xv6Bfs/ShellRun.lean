import Xv6Bfs.Shell
import Xv6Bfs.Sysfile

/-!
# The shell runs a command

`runcmd` of `sh.c` with the descriptors of the processes that it forks. These share nothing but the pipes, so that it does not
matter in which order they run; here a child comes before the rest of its parent.
-/

namespace Xv6Bfs

namespace Shell

variable {α : Type}

/-- What a descriptor stands for; a pipe is known by the place of its command, as a path in the tree of commands. -/
inductive Handle (α : Type)
  | inherited (n : ℕ)
  | file (name : α) (mode : ℕ)
  | readEnd (place : List Bool)
  | writeEnd (place : List Bool)

abbrev Fds (α : Type) := List (Option (Handle α))

namespace Fds

variable (fds : Fds α)

def close (fd : ℕ) : Fds α := fds.set fd none

def alloc (h : Handle α) : Option (ℕ × Fds α) :=
  (fds.findIdx? Option.isNone).map fun fd => (fd, fds.set fd (some h))

def dup (fd : ℕ) : Fds α :=
  (((fds.getD fd none).bind fds.alloc).map Prod.snd).getD fds

def pipe (place : List Bool) : Option (ℕ × ℕ × Fds α) := do
  let (fd₀, fds) ← fds.alloc (.readEnd place)
  let (fd₁, fds) ← fds.alloc (.writeEnd place)
  return (fd₀, fd₁, fds)

end Fds

/-- A process that has become a program or, without `argv`, a shell that waits for its children. -/
structure Job (α δ : Type) where
  argv : Option (List α)
  fds : δ

/-- `fails` says of the system calls to come whether they fail. -/
structure Session (α : Type) where
  fails : List Bool
  jobs : List (Job α (Fds α))

namespace Session

end Session

open Session

end Shell

end Xv6Bfs
