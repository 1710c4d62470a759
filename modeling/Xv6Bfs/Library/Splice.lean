import Mathlib.Data.List.Basic

/-!
# Overwriting a part of a list

`splice xs off ys` is `xs` with the elements from `off` on replaced by `ys`; it grows when
`ys` reaches past the end.
-/

namespace List

variable {α : Type*} {xs ys zs : List α} {off k : ℕ}

def splice (xs : List α) (off : ℕ) (ys : List α) : List α :=
  xs.take off ++ ys ++ xs.drop (off + ys.length)

@[simp]
lemma splice_nil : xs.splice off [] = xs := by
  simp [splice]

lemma length_splice (h : off ≤ xs.length) : (xs.splice off ys).length = max xs.length (off + ys.length) := by
  simp only [splice, length_append, length_take, length_drop]
  omega

lemma splice_end (h : xs.length = off) : xs.splice off ys = xs ++ ys := by
  simp [splice, ← h]

lemma getElem?_splice (h : off ≤ xs.length) :
    (xs.splice off ys)[k]? = if off ≤ k ∧ k < off + ys.length then ys[k - off]? else xs[k]? := by
  simp only [splice, append_assoc, getElem?_append, length_take, Nat.min_eq_left h, getElem?_take,
    getElem?_drop]
  by_cases hk : k < off
  · rw [if_pos hk, if_pos hk, if_neg (by omega)]
  · rw [if_neg hk]
    by_cases hk' : k < off + ys.length
    · rw [if_pos (by omega), if_pos ⟨by omega, hk'⟩]
    · rw [if_neg (by omega), if_neg (by omega)]
      congr 1
      omega

lemma take_drop_splice_of_le {n : ℕ} (h : off ≤ xs.length) (hk : k + n ≤ off) :
    ((xs.splice off ys).drop k).take n = (xs.drop k).take n := by
  apply ext_getElem?
  intro j
  rw [getElem?_take, getElem?_take, getElem?_drop, getElem?_drop, getElem?_splice h]
  by_cases hj : j < n
  · rw [if_pos hj, if_pos hj, if_neg (by omega)]
  · rw [if_neg hj, if_neg hj]

lemma take_drop_splice_self (h : off ≤ xs.length) : ((xs.splice off ys).drop off).take ys.length = ys := by
  apply ext_getElem?
  intro j
  rw [getElem?_take, getElem?_drop, getElem?_splice h]
  by_cases hj : j < ys.length
  · rw [if_pos hj, if_pos (by omega), Nat.add_sub_cancel_left]
  · rw [if_neg hj, getElem?_eq_none (by omega)]

lemma splice_splice (h : off ≤ xs.length) :
    (xs.splice off ys).splice (off + ys.length) zs = xs.splice off (ys ++ zs) := by
  have hlen : off + ys.length ≤ (xs.splice off ys).length := by
    rw [length_splice h]
    omega
  apply ext_getElem?
  intro k
  rw [getElem?_splice hlen, getElem?_splice h, getElem?_splice h, getElem?_append, length_append]
  by_cases hk : k < off
  · rw [if_neg (by omega), if_neg (by omega), if_neg (by omega)]
  · by_cases hk' : k < off + ys.length
    · rw [if_neg (by omega), if_pos (by omega), if_pos (by omega), if_pos (by omega)]
    · by_cases hk'' : k < off + ys.length + zs.length
      · rw [if_pos (by omega), if_pos (by omega), if_neg (by omega)]
        congr 1
        omega
      · rw [if_neg (by omega), if_neg (by omega), if_neg (by omega)]

end List
