import Xv6Bfs.Memmove
import Mathlib.Tactic.Common

/-!
# `memmove` copies overlapping ranges

Each loop is right if no byte of the source is read after it has been written over. Which loop that is depends on the order of the
two ranges.
-/

namespace Xv6Bfs

open Function

variable {mem : Memory} {d s : BitVec 32}

structure BytesMoved (mem mem' : Memory) (d s : BitVec 32) (n : ℕ) : Prop where
  bytes : ∀ i < n, mem' (d + BitVec.ofNat 32 i) = mem (s + BitVec.ofNat 32 i)
  other : ∀ a, (∀ i < n, a ≠ d + BitVec.ofNat 32 i) → mem' a = mem a

lemma eq_of_add_ofNat_eq {i j : ℕ} (hi : i < 2 ^ 32) (hj : j < 2 ^ 32)
    (h : d + BitVec.ofNat 32 i = d + BitVec.ofNat 32 j) : i = j := by
  have heq := congrArg BitVec.toNat ((BitVec.add_right_inj d).mp h)
  rwa [BitVec.toNat_ofNat, BitVec.toNat_ofNat, Nat.mod_eq_of_lt hi, Nat.mod_eq_of_lt hj] at heq

lemma add_one_add_ofNat (a : BitVec 32) (i : ℕ) : a + 1 + BitVec.ofNat 32 i = a + BitVec.ofNat 32 (i + 1) := by
  rw [BitVec.add_assoc, Nat.add_comm, BitVec.ofNat_add]
  rfl

lemma add_ofNat_sub_one (a : BitVec 32) (n : ℕ) : a + BitVec.ofNat 32 (n + 1) - 1 = a + BitVec.ofNat 32 n := by
  rw [BitVec.ofNat_add, ← BitVec.add_assoc]
  exact BitVec.add_sub_cancel _ _

lemma copyUp_moved (n : ℕ) : ∀ (mem : Memory) (d s : BitVec 32), n ≤ 2 ^ 32 →
    (∀ i j, i < j → j < n → d + BitVec.ofNat 32 i ≠ s + BitVec.ofNat 32 j) → BytesMoved mem (copyUp mem d s n) d s n := by
  induction n with
  | zero => exact fun mem d s _ _ => ⟨nofun, fun _ _ => rfl⟩
  | succ n ih =>
    intro mem d s hn hsafe
    have hzero : ∀ a : BitVec 32, a + BitVec.ofNat 32 0 = a := BitVec.add_zero
    have hrest := ih (update mem d (mem s)) (d + 1) (s + 1) (by omega) (fun i j hij hj => by
      rw [add_one_add_ofNat, add_one_add_ofNat]
      exact hsafe (i + 1) (j + 1) (by omega) (by omega))
    refine ⟨?_, ?_⟩
    · rintro (_ | i) hi
      · rw [hzero, hzero, copyUp, hrest.other, update_self]
        intro j hj heq
        rw [add_one_add_ofNat] at heq
        have h := eq_of_add_ofNat_eq (i := 0) (j := j + 1) (by omega) (by omega) ((hzero d).trans heq)
        omega
      · rw [copyUp, ← add_one_add_ofNat, hrest.bytes i (by omega), add_one_add_ofNat, update_of_ne]
        have hne := hsafe 0 (i + 1) (by omega) hi
        rw [hzero] at hne
        exact hne.symm
    · intro a ha
      rw [copyUp, hrest.other, update_of_ne]
      · have hne := ha 0 (by omega)
        rwa [hzero] at hne
      · intro i hi
        rw [add_one_add_ofNat]
        exact ha (i + 1) (by omega)

lemma copyDown_moved (n : ℕ) : ∀ (mem : Memory), n ≤ 2 ^ 32 →
    (∀ i j, j < i → i < n → d + BitVec.ofNat 32 i ≠ s + BitVec.ofNat 32 j) →
      BytesMoved mem (copyDown mem (d + BitVec.ofNat 32 n) (s + BitVec.ofNat 32 n) n) d s n := by
  induction n with
  | zero => exact fun mem _ _ => ⟨nofun, fun _ _ => rfl⟩
  | succ n ih =>
    intro mem hn hsafe
    rw [copyDown, add_ofNat_sub_one, add_ofNat_sub_one]
    have hrest := ih (update mem (d + BitVec.ofNat 32 n) (mem (s + BitVec.ofNat 32 n))) (by omega)
      (fun i j hij hi => hsafe i j hij (by omega))
    refine ⟨?_, ?_⟩
    · intro i hi
      by_cases hlast : i = n
      · rw [hlast, hrest.other, update_self]
        intro j hj heq
        have h := eq_of_add_ofNat_eq (by omega) (by omega) heq
        omega
      · rw [hrest.bytes i (by omega), update_of_ne]
        exact (hsafe n i (by omega) (by omega)).symm
    · intro a ha
      rw [hrest.other a (fun i hi => ha i (by omega)), update_of_ne (ha n (by omega))]

/-- For ranges inside the address space, however they overlap. -/
theorem memmove_moves (mem : Memory) (dst src n : BitVec 32) (hsrc : src.toNat + n.toNat ≤ 2 ^ 32)
    (hdst : dst.toNat + n.toNat ≤ 2 ^ 32) :
    (memmove mem dst src n).1 = dst ∧
      (∀ i < n.toNat, (memmove mem dst src n).2 (dst + BitVec.ofNat 32 i) = mem (src + BitVec.ofNat 32 i)) ∧
      ∀ a, (a.toNat < dst.toNat ∨ dst.toNat + n.toNat ≤ a.toNat) → (memmove mem dst src n).2 a = mem a := by
  have hn := n.isLt
  have haddr : ∀ (a : BitVec 32) i, a.toNat + n.toNat ≤ 2 ^ 32 → i < n.toNat → (a + BitVec.ofNat 32 i).toNat = a.toNat + i := by
    intro a i ha hi
    rw [BitVec.toNat_add, BitVec.toNat_ofNat]
    omega
  have hmoved : BytesMoved mem (memmove mem dst src n).2 dst src n.toNat := by
    unfold memmove
    split
    · rename_i hcond
      have hlt : src.toNat < dst.toNat := hcond.1
      have hdown := copyDown_moved (d := dst) (s := src) n.toNat mem (by omega) (fun i j hij hi heq => by
        have heq := congrArg BitVec.toNat heq
        rw [haddr dst i hdst hi, haddr src j hsrc (by omega)] at heq
        omega)
      rwa [BitVec.ofNat_toNat, BitVec.setWidth_eq] at hdown
    · rename_i hcond
      refine copyUp_moved n.toNat mem dst src (by omega) (fun i j hij hj heq => hcond ?_)
      -- a byte that is still to be read would be written over: the source is below the target and reaches into it
      have heq := congrArg BitVec.toNat heq
      rw [haddr dst i hdst (by omega), haddr src j hsrc hj] at heq
      refine ⟨BitVec.lt_def.mpr (by omega), BitVec.lt_def.mpr ?_⟩
      rw [BitVec.toNat_add]
      omega
  refine ⟨?_, hmoved.bytes, ?_⟩
  · unfold memmove
    split <;> rfl
  · intro a ha
    apply hmoved.other
    intro i hi heq
    rw [heq, haddr dst i hdst hi] at ha
    omega

/-- Four bytes are moved up by two. -/
theorem memmove_moves_up : (memmove (fun a => a.setWidth 8) 0x12 0x10 4).2 (0x12 + BitVec.ofNat 32 3) = 0x13 := by
  rw [(memmove_moves (fun a => a.setWidth 8) 0x12 0x10 4 (by decide) (by decide)).2.1 3 (by decide)]
  decide

end Xv6Bfs
