import Xv6Bfs.ShellRun
import Xv6Bfs.Proofs.ShellParser

/-!
# Redirections and pipes connect the programs

What a command means without descriptors: every program has three channels, a redirection replaces one of them and a pipe
connects two commands. The shell's descriptors come to this, because `open` and `dup` return the lowest one that is free.
Where a system call fails, the process that made it does no more.
-/

namespace Xv6Bfs

namespace Shell

open Session

variable {α : Type} {c : Cmd α}

structure Std (α : Type) where
  inp : Handle α
  out : Handle α
  err : Handle α

namespace Std

/-- The three channels are the descriptors 0, 1 and 2, and no other is open. -/
def fds (io : Std α) : Fds α :=
  [some io.inp, some io.out, some io.err] ++ List.replicate (NOFILE - 3) none

end Std

/-- Only the descriptors 0 and 1 are redirected. -/
def Cmd.StdRedirs : Cmd α → Prop
  | .exec _ => True
  | .redir cmd _ _ fd => cmd.StdRedirs ∧ fd < 2
  | .pipe left right | .list left right => left.StdRedirs ∧ right.StdRedirs
  | .back cmd => cmd.StdRedirs

lemma Cmd.StdRedirs.wrap (h : c.StdRedirs) (rs : List (Redir α)) : (rs.foldl Cmd.wrap c).StdRedirs := by
  induction rs generalizing c with
  | nil => exact h
  | cons r rs ih =>
    refine ih ⟨h, ?_⟩
    cases r.op <;> decide

lemma Cmd.StdRedirs.back (h : c.StdRedirs) (n : ℕ) : (Cmd.back^[n] c).StdRedirs := by
  induction n generalizing c with
  | zero => exact h
  | succ n ih => exact ih (c := .back c) h

def Job.open (j : Job α (Std α)) : Job α (Fds α) := ⟨j.argv, j.fds.fds⟩

/-- `run` adds processes as `may` has them and, if no call fails, those of `all`. -/
def Yields (run : Session α → Session α) (may : List (Job α (Std α)) → Prop) (all : List (Job α (Std α))) : Prop :=
  ∀ s, ∃ js, may js ∧ (run s).jobs = s.jobs ++ js.map Job.open ∧ (s.fails = [] → js = all ∧ (run s).fails = [])

namespace Yields

variable {run child parent : Session α → Session α} {may may' : List (Job α (Std α)) → Prop} {all all' : List (Job α (Std α))}

lemma mono (h : Yields run may all) (hmay : ∀ js, may js → may' js) : Yields run may' all := by
  intro s
  obtain ⟨js, hjs, hrun⟩ := h s
  exact ⟨js, hmay js hjs, hrun⟩

lemma id : Yields (α := α) id (· = []) [] :=
  fun _ => ⟨[], rfl, (List.append_nil _).symm, fun hs => ⟨rfl, hs⟩⟩

lemma comp (h : Yields child may all) (h' : Yields parent may' all') :
    Yields (fun s => parent (child s)) (fun js => ∃ js₁ js₂, may js₁ ∧ may' js₂ ∧ js = js₁ ++ js₂) (all ++ all') := by
  intro s
  obtain ⟨js, hjs, hrun, hall⟩ := h s
  obtain ⟨js', hjs', hrun', hall'⟩ := h' (child s)
  refine ⟨js ++ js', ⟨js, js', hjs, hjs', rfl⟩, ?_, fun hs => ?_⟩
  · rw [hrun', hrun, List.append_assoc, List.map_append]
  · obtain ⟨rfl, hs⟩ := hall hs
    obtain ⟨rfl, hs⟩ := hall' hs
    exact ⟨rfl, hs⟩

end Yields

end Shell

end Xv6Bfs
