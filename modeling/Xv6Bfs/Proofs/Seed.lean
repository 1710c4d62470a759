import Xv6Bfs.Library.XorLinear
import Xv6Bfs.Proofs.TowerHeight

/-!
# The seed never becomes 0

One step of the generator is linear over the field with two elements, but not injective: the arithmetic shift makes `-1` to 0 in
the middle of a step. The parity of some of the seed's bits runs through a linear register of four places,
`b (n + 4) = b (n + 3) + b n`, and in the orbit of the kernel's seed this register is not empty.
-/

namespace Xv6Bfs

open XorLinear

def parity (x : BitVec 32) : BitVec 32 :=
  let x := x ^^^ x >>> 16
  let x := x ^^^ x >>> 8
  let x := x ^^^ x >>> 4
  let x := x ^^^ x >>> 2
  let x := x ^^^ x >>> 1
  x &&& 1

def observed (seed : BitVec 32) : BitVec 32 :=
  parity (seed &&& 0x20FFBED5)

lemma linear_nextSeed : Linear nextSeed := by
  have hfirst : Linear fun x : BitVec 32 => x ^^^ x <<< 17 := Linear.id.xor (Linear.id.shiftLeft 17)
  have hsecond : Linear fun x : BitVec 32 => x ^^^ x.sshiftRight 7 := Linear.id.xor (Linear.id.sshiftRight 7)
  have hthird : Linear fun x : BitVec 32 => x ^^^ x <<< 5 := Linear.id.xor (Linear.id.shiftLeft 5)
  exact hthird.comp (hsecond.comp hfirst)

lemma linear_observed : Linear observed := by
  have hfold : ∀ n, Linear fun x : BitVec 32 => x ^^^ x >>> n := fun n => Linear.id.xor (Linear.id.ushiftRight n)
  have hparity : Linear parity := ((hfold 1).comp ((hfold 2).comp ((hfold 4).comp ((hfold 8).comp (hfold 16))))).and 1
  exact hparity.comp (Linear.id.and _)

lemma observed_recurrence (x : BitVec 32) : observed (nextSeed^[4] x) = observed (nextSeed^[3] x) ^^^ observed x := by
  have hiter : ∀ n, Linear nextSeed^[n] := by
    intro n
    induction n with
    | zero => exact Linear.id
    | succ n ih => exact ih.comp linear_nextSeed
  have hleft := linear_observed.comp (hiter 4)
  have hright := (linear_observed.comp (hiter 3)).xor linear_observed
  exact hleft.eq_of_single hright (by decide) x

lemma observed_seedAfter (n : ℕ) :
    observed (seedAfter (n + 4)) = observed (seedAfter (n + 3)) ^^^ observed (seedAfter n) := by
  have hiter : ∀ k, seedAfter (n + k) = nextSeed^[k] (seedAfter n) := by
    intro k
    rw [seedAfter, seedAfter, Nat.add_comm, Function.iterate_add_apply]
  rw [hiter, hiter]
  exact observed_recurrence _

lemma observed_ne_zero (n : ℕ) : ∃ k < 4, observed (seedAfter (n + k)) ≠ 0 := by
  induction n with
  | zero => exact ⟨0, by decide, by decide⟩
  | succ n ih =>
    by_contra hzero
    push Not at hzero
    have hnext : ∀ k, 1 ≤ k → k ≤ 4 → observed (seedAfter (n + k)) = 0 := by
      intro k hlow hhigh
      have h := hzero (k - 1) (by omega)
      rwa [show n + 1 + (k - 1) = n + k by omega] at h
    have hfirst : observed (seedAfter n) = 0 := by
      have h := observed_seedAfter n
      rw [hnext 4 (by decide) (by decide), hnext 3 (by decide) (by decide)] at h
      simpa using h.symm
    obtain ⟨k, hk, hne⟩ := ih
    by_cases hk' : k = 0
    · exact hne (by rw [hk']; exact hfirst)
    · exact hne (hnext k (by omega) (by omega))

lemma nextSeed_zero : nextSeed 0 = 0 :=
  linear_nextSeed.map_zero

lemma randomizeLoop_zero (rounds level : ℕ) : (randomizeLoop rounds level 0).1 = level + rounds := by
  induction rounds generalizing level with
  | zero => rfl
  | succ rounds ih =>
    have hdraw : random 0 4 = (0, 0) := by
      rw [random, nextSeed_zero]
      rfl
    simp only [randomizeLoop, hdraw, if_true]
    rw [ih]
    omega

/-- The seed is never 0. At 0 the generator would stay, and every tower would get the maximal height. -/
theorem seed_ne_zero : (∀ n, seedAfter n ≠ 0) ∧ nextSeed 0 = 0 ∧ ∀ levels, (randomizeMaxLevel levels 0).1 = levels + 1 := by
  refine ⟨?_, nextSeed_zero, ?_⟩
  · intro n hzero
    obtain ⟨k, -, hne⟩ := observed_ne_zero n
    apply hne
    rw [seedAfter, Nat.add_comm, Function.iterate_add_apply, ← seedAfter, hzero, Function.iterate_fixed nextSeed_zero]
    exact linear_observed.map_zero
  · intro levels
    rw [randomizeMaxLevel, randomizeLoop_zero, Nat.zero_add]

end Xv6Bfs
