import Mathlib.Tactic.Common

/-!
# Maps of words that respect `xor`

Shifts, masks and their sums are linear over the field with two elements. Such maps are equal if they agree on the words with a
single bit.
-/

namespace XorLinear

variable {w v u : ℕ} {f g : BitVec w → BitVec v}

def Linear (f : BitVec w → BitVec v) : Prop :=
  ∀ x y, f (x ^^^ y) = f x ^^^ f y

namespace Linear

lemma id : Linear (fun x : BitVec w => x) :=
  fun _ _ => rfl

lemma comp {h : BitVec v → BitVec u} (hh : Linear h) (hf : Linear f) : Linear fun x => h (f x) := by
  intro x y
  dsimp only
  rw [hf, hh]

lemma xor (hf : Linear f) (hg : Linear g) : Linear fun x => f x ^^^ g x := by
  intro x y
  dsimp only
  rw [hf, hg]
  ac_rfl

lemma shiftLeft (hf : Linear f) (n : ℕ) : Linear fun x => f x <<< n := by
  intro x y
  dsimp only
  rw [hf, BitVec.shiftLeft_xor_distrib]

lemma ushiftRight (hf : Linear f) (n : ℕ) : Linear fun x => f x >>> n := by
  intro x y
  dsimp only
  rw [hf, BitVec.ushiftRight_xor_distrib]

lemma sshiftRight (hf : Linear f) (n : ℕ) : Linear fun x => (f x).sshiftRight n := by
  intro x y
  dsimp only
  rw [hf, BitVec.sshiftRight_xor_distrib]

lemma and (hf : Linear f) (mask : BitVec v) : Linear fun x => f x &&& mask := by
  intro x y
  dsimp only
  rw [hf]
  apply BitVec.eq_of_getLsbD_eq
  intro i _
  simp only [BitVec.getLsbD_and, BitVec.getLsbD_xor, Bool.and_xor_distrib_right]

lemma map_zero (hf : Linear f) : f 0 = 0 := by
  have h := hf 0 0
  rwa [BitVec.xor_self, BitVec.xor_self] at h

lemma eq_of_single (hf : Linear f) (hg : Linear g) (h : ∀ i < w, f (BitVec.twoPow w i) = g (BitVec.twoPow w i)) (x : BitVec w) :
    f x = g x := by
  suffices hbits : ∀ k ≤ w, ∀ x : BitVec w, (∀ i, k ≤ i → x.getLsbD i = false) → f x = g x from
    hbits w (Nat.le_refl w) x (fun i hi => BitVec.getLsbD_of_ge x i hi)
  intro k
  induction k with
  | zero =>
    intro _ x hx
    have hzero : x = 0 := BitVec.eq_of_getLsbD_eq (fun i _ => (hx i (Nat.zero_le i)).trans BitVec.getLsbD_zero.symm)
    rw [hzero, hf.map_zero, hg.map_zero]
  | succ k ih =>
    intro hk x hx
    cases hbit : x.getLsbD k with
    | false =>
      apply ih (by omega)
      intro i hi
      by_cases heq : i = k
      · rw [heq, hbit]
      · exact hx i (by omega)
    | true =>
      -- the word without this bit
      have hrest : f (x ^^^ BitVec.twoPow w k) = g (x ^^^ BitVec.twoPow w k) := by
        apply ih (by omega)
        intro i hi
        rw [BitVec.getLsbD_xor, BitVec.getLsbD_twoPow]
        by_cases heq : i = k
        · simp [heq, hbit, show k < w by omega]
        · simp [hx i (by omega), Ne.symm heq]
      have hx : x = (x ^^^ BitVec.twoPow w k) ^^^ BitVec.twoPow w k := by
        rw [BitVec.xor_assoc, BitVec.xor_self, BitVec.xor_zero]
      rw [hx, hf, hg, hrest, h k (by omega)]

end Linear

end XorLinear
