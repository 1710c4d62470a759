import Xv6Bfs.Vm
import Mathlib.Tactic

/-!
# Addresses and entries of page tables

The words of a page, and the address and flags in an entry, as arithmetic of numbers.
-/

namespace Xv6Bfs

open BitVec

namespace Page

variable {x : Page} {i j : ℕ}

lemma byte_setWord (x : Page) (w : BitVec 32) {r : ℕ} (hj : j < 1024) (hr : r < 4) :
    (x.setWord i w).byte (4 * j + r) = if j = i then w.extractLsb' (8 * r) 8 else x.byte (4 * j + r) := by
  have hval : (Fin.ofNat PGSIZE (4 * j + r)).val = 4 * j + r := by
    apply Nat.mod_eq_of_lt
    unfold PGSIZE
    omega
  have hdiv : (4 * j + r) / 4 = j := by omega
  have hmod : (4 * j + r) % 4 = r := by omega
  simp only [byte, setWord, hval, hdiv, hmod]

lemma word_setWord (x : Page) (w : BitVec 32) (hj : j < 1024) :
    (x.setWord i w).word j = if j = i then w else x.word j := by
  have h0 := byte_setWord (i := i) x w hj (r := 0) (by decide)
  rw [Nat.add_zero] at h0
  unfold word
  rw [h0, byte_setWord x w hj (by decide), byte_setWord x w hj (by decide), byte_setWord x w hj (by decide)]
  by_cases hji : j = i
  · simp only [if_pos hji]
    apply eq_of_getLsbD_eq
    intro k hk
    simp only [getLsbD_append, getLsbD_extractLsb']
    grind
  · simp only [if_neg hji]

lemma word_fill_zero (i : ℕ) : (fill 0).word i = 0 := by
  change ((0 : BitVec 8) ++ (0 : BitVec 8) ++ (0 : BitVec 8) ++ (0 : BitVec 8) : BitVec 32) = 0
  decide

end Page

/-! ### Addresses -/

lemma toNat_and_mask (a : BitVec 32) : (a &&& ~~~(0xFFF : BitVec 32)).toNat = a.toNat / 4096 * 4096 := by
  have hshift : a &&& ~~~(0xFFF : BitVec 32) = (a >>> 12) <<< 12 := by
    apply eq_of_getLsbD_eq
    intro k hk
    have hmask : ∀ k < 32, (~~~(0xFFF : BitVec 32)).getLsbD k = decide (12 ≤ k) := by decide
    rw [getLsbD_and, hmask k hk, getLsbD_shiftLeft, getLsbD_ushiftRight]
    grind
  have hlt := a.isLt
  rw [hshift, toNat_shiftLeft, toNat_ushiftRight, Nat.shiftLeft_eq, Nat.shiftRight_eq_div_pow]
  omega

lemma toNat_pgRoundDown (a : BitVec 32) : (pgRoundDown a).toNat = a.toNat / 4096 * 4096 :=
  toNat_and_mask a

lemma toNat_pteAddr (pte : BitVec 32) : (pteAddr pte).toNat = pte.toNat / 4096 * 4096 :=
  toNat_and_mask pte

lemma toNat_pgRoundUp {a : BitVec 32} (ha : a.toNat + 0xFFF < 2 ^ 32) :
    (pgRoundUp a).toNat = (a.toNat + 4095) / 4096 * 4096 := by
  unfold pgRoundUp
  rw [toNat_and_mask, toNat_add]
  change (a.toNat + 4095) % 2 ^ 32 / 4096 * 4096 = _
  rw [Nat.mod_eq_of_lt ha]

lemma toNat_and_ten (a : BitVec 32) (n : ℕ) : ((a >>> n) &&& 0x3FF).toNat = a.toNat / 2 ^ n % 1024 := by
  rw [toNat_and, toNat_ushiftRight, Nat.shiftRight_eq_div_pow]
  exact Nat.and_two_pow_sub_one_eq_mod _ 10

lemma pdx_eq (va : BitVec 32) : pdx va = va.toNat / 2 ^ 22 := by
  unfold pdx
  rw [toNat_and_ten]
  have := va.isLt
  omega

lemma ptx_eq (va : BitVec 32) : ptx va = va.toNat / 2 ^ 12 % 1024 :=
  toNat_and_ten va 12

lemma pdx_lt (va : BitVec 32) : pdx va < 1024 := by
  rw [pdx_eq]
  have := va.isLt
  omega

lemma ptx_lt (va : BitVec 32) : ptx va < 1024 := by
  rw [ptx_eq]
  omega

/-! ### Entries -/

lemma present_or (w : BitVec 32) : present (w ||| PTE_P) = true := by
  have hbit : (w ||| PTE_P) &&& PTE_P = PTE_P := by
    apply eq_of_getLsbD_eq
    intro k hk
    rw [getLsbD_and, getLsbD_or]
    grind
  unfold present
  rw [hbit]
  rfl

variable {pa flags : BitVec 32}

lemma toNat_or_flags (hpa : pa.toNat % 4096 = 0) (hflags : flags.toNat < 4096) :
    (pa ||| flags).toNat = pa.toNat + flags.toNat := by
  obtain ⟨q, hq⟩ := Nat.dvd_of_mod_eq_zero hpa
  have hshift : pa.toNat = q <<< 12 := by
    rw [Nat.shiftLeft_eq, hq, Nat.mul_comm]
  rw [toNat_or, hshift]
  exact (Nat.shiftLeft_add_eq_or_of_lt hflags q).symm

lemma pteAddr_or (hpa : pa.toNat % 4096 = 0) (hflags : flags.toNat < 4096) :
    pteAddr (pa ||| flags) = pa := by
  apply eq_of_toNat_eq
  rw [toNat_pteAddr, toNat_or_flags hpa hflags]
  omega

lemma toNat_pteFlags (w : BitVec 32) : (pteFlags w).toNat = w.toNat % 4096 := by
  unfold pteFlags
  rw [toNat_and]
  exact Nat.and_two_pow_sub_one_eq_mod _ 12

lemma pteFlags_or (hpa : pa.toNat % 4096 = 0) (hflags : flags.toNat < 4096) :
    pteFlags (pa ||| flags) = flags := by
  apply eq_of_toNat_eq
  rw [toNat_pteFlags, toNat_or_flags hpa hflags]
  omega

lemma pteFlags_or_present {w : BitVec 32} (hw : present w = true) : pteFlags w ||| PTE_P = pteFlags w := by
  have hone : ∀ i < 32, i ≠ 0 → PTE_P.getLsbD i = false := by decide
  have hbit : w.getLsbD 0 = true := by
    have hne : w &&& PTE_P ≠ 0 := of_decide_eq_true hw
    by_contra hbit
    apply hne
    apply eq_of_getLsbD_eq
    intro i hi
    change (w &&& PTE_P).getLsbD i = (0#32).getLsbD i
    rw [getLsbD_and, getLsbD_zero]
    by_cases hzero : i = 0
    · rw [hzero, Bool.eq_false_of_not_eq_true hbit, Bool.false_and]
    · rw [hone i hi hzero, Bool.and_false]
  apply eq_of_getLsbD_eq
  intro i hi
  unfold pteFlags
  rw [getLsbD_or, getLsbD_and]
  by_cases hzero : i = 0
  · rw [hzero, hbit]
    rfl
  · rw [hone i hi hzero, Bool.or_false]

namespace Vm

variable {P : ℕ}

lemma toNat_v2p (hP : P ≤ 2 ^ 19) (a : Addr P) : (v2p a).toNat = a.val * 4096 := by
  have := a.isLt
  unfold v2p PGSIZE
  rw [toNat_ofNat, Nat.mod_eq_of_lt]
  omega

lemma frame_v2p (hP : P ≤ 2 ^ 19) (a : Addr P) : frame (v2p a) = some a := by
  have hdiv : (v2p a).toNat / PGSIZE = a.val := by
    rw [toNat_v2p hP]
    unfold PGSIZE
    omega
  simp only [frame, hdiv]
  simp

def target (pte : BitVec 32) : Ptr P :=
  if present pte then frame (pteAddr pte) else none

lemma target_of_not_present {pte : BitVec 32} (h : ¬ present pte = true) : (target pte : Ptr P) = none :=
  if_neg h

lemma target_v2p (hP : P ≤ 2 ^ 19) (a : Addr P) {flags : BitVec 32} (hflags : flags.toNat < 4096) :
    target (v2p a ||| flags ||| PTE_P) = some a := by
  have hbound : (flags ||| PTE_P).toNat < 4096 := by
    rw [toNat_or]
    exact Nat.or_lt_two_pow (n := 12) hflags (by decide)
  have hpa : (v2p a).toNat % 4096 = 0 := by
    rw [toNat_v2p hP]
    omega
  have haddr : pteAddr (v2p a ||| flags ||| PTE_P) = v2p a := by
    rw [BitVec.or_assoc]
    exact pteAddr_or hpa hbound
  rw [target, if_pos (present_or _), haddr, frame_v2p hP]

end Vm

end Xv6Bfs
