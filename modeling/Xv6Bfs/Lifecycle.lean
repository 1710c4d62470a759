import Xv6Bfs.Kernel

/-!
# The life of a process

Scheduling as one process sees it: it is created, queued, dispatched and charged until its
quantum is over or it gives up the CPU, and its deadline is computed when it is created and
when it is queued again after a full quantum. This is a model of its own, of which the kernel
runs one copy for each slot of the table.
-/

namespace Xv6Bfs

inductive Phase
  | unborn | queued | running | preempted | leaving | asleep | dead

/-- What scheduling knows of a process, and the ticks charged since its deadline was
computed. -/
structure Account where
  niceValue : ℤ
  virtualDeadline : ℤ
  ticksLeft : ℤ
  charged : ℕ

/-- A step at time `ticks`, by which a new process would get the given nice value. -/
inductive Life (ticks : ℕ) (niceValue : ℤ) : Phase → Account → Phase → Account → Prop
  | stay (ph a) : Life ticks niceValue ph a ph a
  | create (a) : Life ticks niceValue .unborn a .queued { a with
      niceValue := niceValue
      virtualDeadline := computeVirtualDeadline ticks niceValue
      charged := 0 }
  | dispatch (a) : Life ticks niceValue .queued a .running { a with
      ticksLeft := BFS_DEFAULT_QUANTUM }
  | charge (a) : Life ticks niceValue .running a
      (if a.ticksLeft - 1 = 0 then .preempted else .running)
      { a with ticksLeft := a.ticksLeft - 1, charged := a.charged + 1 }
  | yield (a) : Life ticks niceValue .running a .leaving a
  | preempt (a) : Life ticks niceValue .preempted a .leaving a
  | sleep (a) : Life ticks niceValue .running a .asleep a
  | exit (a) : Life ticks niceValue .running a .dead a
  | requeue (a) : Life ticks niceValue .leaving a .queued
      (if a.ticksLeft = 0 then { a with
        virtualDeadline := computeVirtualDeadline ticks a.niceValue
        charged := 0 } else a)
  | wake (a) : Life ticks niceValue .asleep a .queued a
  | reap (a) : Life ticks niceValue .dead a .unborn a

variable {ticks : ℕ} {niceValue : ℤ} {ph ph' : Phase} {a a' : Account}

/-! ### Deadlines -/

def NiceOk (niceValue : ℤ) : Prop :=
  BFS_NICE_FIRST_LEVEL ≤ niceValue ∧ niceValue ≤ BFS_NICE_LAST_LEVEL

instance (niceValue : ℤ) : Decidable (NiceOk niceValue) := by
  unfold NiceOk
  infer_instance

/-- `compute_virtual_deadline` does not wrap around while `ticks` is below `2^31 - 2000`. -/
lemma computeVirtualDeadline_eq (hticks : ticks + 2000 < 2 ^ 31) (hn : NiceOk niceValue) :
    computeVirtualDeadline ticks niceValue = ticks + 50 * (niceValue + 21) := by
  unfold NiceOk BFS_NICE_FIRST_LEVEL BFS_NICE_LAST_LEVEL at hn
  unfold computeVirtualDeadline BFS_NICE_FIRST_LEVEL BFS_DEFAULT_QUANTUM
  dsimp only
  rw [Int.bmod_eq_of_le (by omega) (by omega)]
  omega

/-- A process that has been created has a deadline that was computed for a nice value. -/
def DeadlineOk (ph : Phase) (a : Account) : Prop :=
  ph ≠ .unborn → NiceOk a.niceValue ∧ 0 ≤ a.virtualDeadline

lemma computeVirtualDeadline_nonneg (hticks : ticks + 2000 < 2 ^ 31) (hn : NiceOk niceValue) :
    0 ≤ computeVirtualDeadline ticks niceValue := by
  rw [computeVirtualDeadline_eq hticks hn]
  unfold NiceOk BFS_NICE_FIRST_LEVEL at hn
  omega

lemma Life.deadlineOk (h : Life ticks niceValue ph a ph' a') (hticks : ticks + 2000 < 2 ^ 31)
    (hn : NiceOk niceValue) (ha : DeadlineOk ph a) : DeadlineOk ph' a' := by
  intro hph'
  cases h with
  | create => exact ⟨hn, computeVirtualDeadline_nonneg hticks hn⟩
  | requeue =>
    obtain ⟨hnice, hdeadline⟩ := ha (by simp)
    split
    · exact ⟨hnice, computeVirtualDeadline_nonneg hticks hnice⟩
    · exact ⟨hnice, hdeadline⟩
  | stay => exact ha hph'
  | reap => exact absurd rfl hph'
  | dispatch | charge | yield | preempt | sleep | exit | wake => exact ha (by simp)

/-! ### Quanta -/

/-- The ticks charged and the ticks left make up a quantum while the process runs, and it
waits for the next one with nothing charged. -/
def QuantumOk : Phase → Account → Prop
  | .unborn, a | .dead, a => a.charged ≤ BFS_DEFAULT_QUANTUM
  | .queued, a | .asleep, a => a.charged = 0
  | .running, a => a.charged + a.ticksLeft = BFS_DEFAULT_QUANTUM ∧ 0 < a.ticksLeft
  | .preempted, a => a.charged + a.ticksLeft = BFS_DEFAULT_QUANTUM ∧ a.ticksLeft = 0
  | .leaving, a => a.charged + a.ticksLeft = BFS_DEFAULT_QUANTUM ∧
      (a.ticksLeft = 0 ∨ a.ticksLeft = BFS_DEFAULT_QUANTUM)

lemma QuantumOk.charged_le (h : QuantumOk ph a) : a.charged ≤ BFS_DEFAULT_QUANTUM := by
  unfold BFS_DEFAULT_QUANTUM
  cases ph <;> simp only [QuantumOk, BFS_DEFAULT_QUANTUM] at h <;> omega

/-- A process that gives up the CPU only before its first tick or behind its last one never
uses more than one quantum for a deadline. -/
lemma Life.quantumOk (h : Life ticks niceValue ph a ph' a') (ha : QuantumOk ph a)
    (hleave : ph = .running → ph' = .leaving ∨ ph' = .asleep →
      a.ticksLeft = 0 ∨ a.ticksLeft = BFS_DEFAULT_QUANTUM) : QuantumOk ph' a' := by
  cases h with
  | stay => exact ha
  | create => simp [QuantumOk]
  | charge =>
    simp only [QuantumOk] at ha
    split
    · simp only [QuantumOk]
      omega
    · simp only [QuantumOk]
      omega
  | sleep =>
    have := hleave rfl (Or.inr rfl)
    simp only [QuantumOk, BFS_DEFAULT_QUANTUM] at *
    omega
  | yield => exact ⟨ha.1, hleave rfl (Or.inl rfl)⟩
  | preempt => exact ⟨ha.1, Or.inl ha.2⟩
  | requeue =>
    simp only [QuantumOk] at ha ⊢
    split
    · rfl
    · omega
  | dispatch =>
    simp only [QuantumOk, BFS_DEFAULT_QUANTUM] at *
    omega
  | exit => exact QuantumOk.charged_le ha
  | wake => exact ha
  | reap => exact ha

end Xv6Bfs
