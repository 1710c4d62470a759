import Xv6Bfs.Kernel
import Xv6Bfs.Proofs.SkiplistShape

/-!
# Deadlines and the headers

The nodes in front of each level have the deadline -1, and `delete_node` relies on every process
being later. Nothing bounds the nice value that a program passes to `nicefork`, so the deadline
computed from it may be negative, or wrap around.
-/

namespace Xv6Bfs

variable {ticks : ℕ} {lo hi nice : ℤ}

def exactDeadline (ticks : ℕ) (niceValue : ℤ) : ℤ :=
  ticks + BFS_DEFAULT_QUANTUM * (niceValue - BFS_NICE_FIRST_LEVEL + 1)

lemma exactDeadline_eq (ticks : ℕ) (nice : ℤ) : exactDeadline ticks nice = ticks + 50 * (nice + 21) := by
  simp only [exactDeadline, BFS_DEFAULT_QUANTUM, BFS_NICE_FIRST_LEVEL]
  ring

lemma computeVirtualDeadline_cases (ticks : ℕ) (nice : ℤ) :
    (exactDeadline ticks nice % 2 ^ 32 < 2 ^ 31 ∧
      computeVirtualDeadline ticks nice = exactDeadline ticks nice % 2 ^ 32) ∨
    (2 ^ 31 ≤ exactDeadline ticks nice % 2 ^ 32 ∧ computeVirtualDeadline ticks nice < 0) := by
  have hdef : computeVirtualDeadline ticks nice = (exactDeadline ticks nice).bmod (2 ^ 32) := rfl
  have hlt : exactDeadline ticks nice % 2 ^ 32 < 2 ^ 32 := Int.emod_lt_of_pos _ (by norm_num)
  rw [hdef, Int.bmod_def]
  norm_num at hlt ⊢
  by_cases hx : exactDeadline ticks nice % 4294967296 < 2147483648
  · rw [if_pos hx]
    omega
  · rw [if_neg hx]
    omega

/-- A process with this nice value can be dispatched: it is later than the headers, and
`delete_node` returns on any list that holds it. -/
def Dispatchable (ticks : ℕ) (niceValue : ℤ) : Prop :=
  -1 < computeVirtualDeadline ticks niceValue ∧
    ∀ (P : ℕ) (sl : Skiplist P) (ts : List (Tower P)) (pid : ℤ), Towers sl ts → 0 < pid →
      (∃ t ∈ ts, t.entry = (pid, computeVirtualDeadline ticks niceValue)) →
      deleteNode sl pid (computeVirtualDeadline ticks niceValue) ≠ none

def NiceRange (ticks : ℕ) (lo hi : ℤ) : Prop :=
  ∀ nice, lo ≤ nice → nice ≤ hi → Dispatchable ticks nice ∧ ∀ nice', lo ≤ nice' → nice' < nice →
      computeVirtualDeadline ticks nice' ≤ computeVirtualDeadline ticks nice

lemma dispatchable_iff : Dispatchable ticks nice ↔ exactDeadline ticks nice % 2 ^ 32 < 2 ^ 31 := by
  rcases computeVirtualDeadline_cases ticks nice with ⟨hlt, heq⟩ | ⟨hge, hneg⟩
  · refine ⟨fun _ => hlt, fun _ => ?_⟩
    have hd : 0 ≤ computeVirtualDeadline ticks nice := by
      rw [heq]
      exact Int.emod_nonneg _ (by norm_num)
    refine ⟨by omega, ?_⟩
    rintro P sl ts pid hts - -
    obtain ⟨pre, post, rfl, hpre, hpost⟩ := exists_split hts.rep.sorted (computeVirtualDeadline ticks nice)
    obtain ⟨top, -, hnone | hsome⟩ := hts.rep.deleteNode_cases pid hts.levels_pos hd hpre hpost
    · simp [hnone.2.1]
    · obtain ⟨us, t, vs, a, j, mem', -, -, -, -, -, -, hdel, -⟩ := hsome
      simp [hdel]
  · constructor
    · rintro ⟨hlt, -⟩
      omega
    · intro hlt
      omega

lemma dispatchable_succ {m : ℤ} (hlow : m * 2 ^ 32 ≤ exactDeadline ticks nice)
    (hhigh : exactDeadline ticks nice < m * 2 ^ 32 + 2 ^ 31) (hnext : Dispatchable ticks (nice + 1)) :
    m * 2 ^ 32 ≤ exactDeadline ticks (nice + 1) ∧ exactDeadline ticks (nice + 1) < m * 2 ^ 32 + 2 ^ 31 := by
  have hmod := dispatchable_iff.mp hnext
  have hstep : exactDeadline ticks (nice + 1) = exactDeadline ticks nice + 50 := by
    rw [exactDeadline_eq, exactDeadline_eq]
    ring
  rw [hstep] at hmod ⊢
  norm_num at *
  omega

/-- The nice values of a range are all handled well exactly if their deadlines, as integers, lie
in the lower half of one period of the 32-bit numbers. -/
theorem niceRange_iff (ticks : ℕ) (hle : lo ≤ hi) :
    NiceRange ticks lo hi ↔ ∃ m : ℤ, m * 2 ^ 32 ≤ ticks + 50 * (lo + 21) ∧
      ticks + 50 * (hi + 21) < m * 2 ^ 32 + 2 ^ 31 := by
  rw [← exactDeadline_eq, ← exactDeadline_eq]
  constructor
  · intro hrange
    refine ⟨exactDeadline ticks lo / 2 ^ 32, ?_⟩
    have hlow := dispatchable_iff.mp (hrange lo le_rfl hle).1
    have hall : ∀ n : ℕ, lo + n ≤ hi →
        exactDeadline ticks lo / 2 ^ 32 * 2 ^ 32 ≤ exactDeadline ticks (lo + n) ∧
          exactDeadline ticks (lo + n) < exactDeadline ticks lo / 2 ^ 32 * 2 ^ 32 + 2 ^ 31 := by
      intro n
      induction n with
      | zero =>
        intro _
        norm_num at hlow ⊢
        omega
      | succ n ih =>
        intro hn
        push_cast at hn ⊢
        obtain ⟨h₁, h₂⟩ := ih (by omega)
        rw [← add_assoc]
        exact dispatchable_succ h₁ h₂ (hrange (lo + n + 1) (by omega) (by omega)).1
    have hend := hall (hi - lo).toNat (by omega)
    rw [show lo + ((hi - lo).toNat : ℤ) = hi by omega] at hend
    exact ⟨by norm_num; omega, hend.2⟩
  · rintro ⟨m, hlow, hhigh⟩ nice hlo hhi
    -- in the lower half of the period the cut is the same for the whole range
    have hin : ∀ n, lo ≤ n → n ≤ hi → exactDeadline ticks n % 2 ^ 32 < 2 ^ 31 ∧
        computeVirtualDeadline ticks n = exactDeadline ticks n - m * 2 ^ 32 := by
      intro n hn hn'
      have hmono₁ : exactDeadline ticks lo ≤ exactDeadline ticks n := by
        rw [exactDeadline_eq, exactDeadline_eq]
        omega
      have hmono₂ : exactDeadline ticks n ≤ exactDeadline ticks hi := by
        rw [exactDeadline_eq, exactDeadline_eq]
        omega
      norm_num at *
      rcases computeVirtualDeadline_cases ticks n with ⟨-, heq⟩ | ⟨hge, -⟩
      · norm_num at heq
        rw [heq]
        omega
      · norm_num at hge
        omega
    refine ⟨dispatchable_iff.mpr (hin nice hlo hhi).1, ?_⟩
    intro nice' hlo' hlt
    rw [(hin nice' hlo' (by omega)).2, (hin nice hlo hhi).2, exactDeadline_eq, exactDeadline_eq]
    omega

/-- The documented nice values are handled well. -/
theorem niceRange_iff_documented : NiceRange 100 BFS_NICE_FIRST_LEVEL BFS_NICE_LAST_LEVEL :=
  (niceRange_iff 100 (by decide)).mpr ⟨0, by decide, by decide⟩

/-- A process with nice value -1000 is put in front of the headers' deadline, and `delete_node`
follows a null pointer to take it out. The smallest nice value is later than -20. -/
theorem not_niceRange_int :
    ¬ NiceRange 100 (-2 ^ 31) INT_MAX ∧ computeVirtualDeadline 100 (-1000) = -48850 ∧
      (∃ sl, insertNode emptyList 2 (-48850) 0 (pagesFrom 9 4) = some sl ∧
        deleteNode sl 2 (-48850) = none) ∧
      computeVirtualDeadline 100 (-20) < computeVirtualDeadline 100 (-2 ^ 31) := by
  refine ⟨?_, by decide, ?_, by decide⟩
  · intro hrange
    have hlt := (hrange (-1000) (by decide) (by decide)).1.1
    exact absurd hlt (by decide)
  · have hts := (tracked_initSkiplist emptyList_eq).towers
    obtain ⟨sl, hins⟩ := hts.rep.exists_insertNode_eq 2 (-48850) (by decide +kernel)
      (by decide +kernel : PagesFree emptyList.mem (pagesFrom 9 4) (0 + 1))
    obtain ⟨t, -, -, -, hts'⟩ := hts.insertNode hins
    exact ⟨sl, hins, hts'.rep.deleteNode_eq_none hts'.levels_pos (by decide) (by decide)⟩

end Xv6Bfs
