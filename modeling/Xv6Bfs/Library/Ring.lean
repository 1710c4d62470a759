import Mathlib.Data.Int.ModEq
import Mathlib.Data.Fin.Basic

/-!
# Ring buffers with free-running counters

A buffer of `N` places is used through 32-bit counters that are never reset: the counter `r` stands
for the place `r % N`. As `N` divides `2 ^ 31`, nothing happens when a counter wraps.
-/

namespace Ring

open Function List

variable {N : ℕ} [NeZero N] {α : Type*}

def slot (N : ℕ) [NeZero N] (r : BitVec 32) : Fin N :=
  Fin.ofNat N r.toNat

def window (buf : Fin N → α) (r : BitVec 32) (k : ℕ) : List α :=
  (List.range k).map (fun j => buf (slot N (r + BitVec.ofNat 32 j)))

lemma slot_add (hN : N ∣ 2 ^ 31) (r : BitVec 32) (j : ℕ) :
    slot N (r + BitVec.ofNat 32 j) = Fin.ofNat N (r.toNat + j) := by
  apply Fin.ext
  simp only [slot, Fin.ofNat, BitVec.toNat_add, BitVec.toNat_ofNat, Nat.add_mod_mod]
  rw [Nat.mod_mod_of_dvd _ (hN.trans (by decide))]

lemma slot_ne (hN : N ∣ 2 ^ 31) (r : BitVec 32) {j k : ℕ} (hjk : j < k) (hk : k < N) :
    slot N (r + BitVec.ofNat 32 j) ≠ slot N (r + BitVec.ofNat 32 k) := by
  rw [slot_add hN, slot_add hN]
  intro heq
  have hmod : Nat.ModEq N (r.toNat + j) (r.toNat + k) := congrArg Fin.val heq
  have := Nat.ModEq.add_left_cancel' r.toNat hmod
  rw [Nat.ModEq, Nat.mod_eq_of_lt (hjk.trans hk), Nat.mod_eq_of_lt hk] at this
  omega

@[simp] lemma length_window (buf : Fin N → α) (r : BitVec 32) (k : ℕ) : (window buf r k).length = k := by
  simp [window]

lemma window_succ (buf : Fin N → α) (r : BitVec 32) (k : ℕ) :
    window buf r (k + 1) = window buf r k ++ [buf (slot N (r + BitVec.ofNat 32 k))] := by
  simp [window, range_succ]

lemma add_ofNat_succ (r : BitVec 32) (j : ℕ) : r + BitVec.ofNat 32 (j + 1) = r + 1 + BitVec.ofNat 32 j := by
  rw [BitVec.ofNat_add, BitVec.add_comm (BitVec.ofNat 32 j), BitVec.add_assoc]
  rfl

lemma window_cons (buf : Fin N → α) (r : BitVec 32) (k : ℕ) :
    window buf r (k + 1) = buf (slot N r) :: window buf (r + 1) k := by
  rw [window, range_succ_eq_map, map_cons, map_map, BitVec.add_zero, window]
  refine congrArg _ (map_congr_left ?_)
  intro j _
  rw [Function.comp_apply, add_ofNat_succ]

lemma window_append (buf : Fin N → α) (r : BitVec 32) (j k : ℕ) :
    window buf r (j + k) = window buf r j ++ window buf (r + BitVec.ofNat 32 j) k := by
  rw [window, range_add, map_append, map_map, window, window]
  refine congrArg _ (map_congr_left ?_)
  intro i _
  rw [Function.comp_apply, BitVec.ofNat_add, BitVec.add_assoc]

lemma window_update (hN : N ∣ 2 ^ 31) (buf : Fin N → α) (r : BitVec 32) {j k : ℕ} (hjk : j ≤ k) (hk : k < N) (x : α) :
    window (update buf (slot N (r + BitVec.ofNat 32 k)) x) r j = window buf r j := by
  refine map_congr_left ?_
  intro i hi
  have hi := mem_range.mp hi
  exact update_of_ne (slot_ne hN r (by omega) hk) ..

/-! ### Between two counters -/

def contents (buf : Fin N → α) (r e : BitVec 32) : List α :=
  window buf r (e - r).toNat

@[simp] lemma length_contents (buf : Fin N → α) (r e : BitVec 32) : (contents buf r e).length = (e - r).toNat :=
  length_window ..

@[simp] lemma contents_self (buf : Fin N → α) (r : BitVec 32) : contents buf r r = [] := by
  rw [contents, BitVec.sub_self]
  rfl

lemma add_span (r e : BitVec 32) : r + BitVec.ofNat 32 (e - r).toNat = e := by
  rw [BitVec.ofNat_toNat, BitVec.setWidth_eq, BitVec.add_comm, BitVec.sub_add_cancel]

variable {r e : BitVec 32}

lemma span_succ (h : (e - r).toNat < 2 ^ 31) : (e + 1 - r).toNat = (e - r).toNat + 1 := by
  bv_omega

lemma span_pred (h : r ≠ e) : (e - r).toNat = (e - (r + 1)).toNat + 1 := by
  bv_omega

/-- A write at `e` appends. -/
lemma contents_push (hN : N ∣ 2 ^ 31) (buf : Fin N → α) (h : (e - r).toNat < N) (x : α) :
    contents (update buf (slot N e) x) r (e + 1) = contents buf r e ++ [x] := by
  have hN' : N ≤ 2 ^ 31 := Nat.le_of_dvd (by decide) hN
  have hupdate := window_update hN buf r le_rfl h x
  rw [add_span] at hupdate
  rw [contents, span_succ (h.trans_le hN'), window_succ, add_span, update_self, hupdate, contents]

/-- A read at `r` takes the first. -/
lemma contents_pop (buf : Fin N → α) (h : r ≠ e) :
    contents buf r e = buf (slot N r) :: contents buf (r + 1) e := by
  rw [contents, span_pred h, window_cons, contents]

lemma contents_pred (buf : Fin N → α) (h : e ≠ r) :
    contents buf r e = contents buf r (e - 1) ++ [buf (slot N (e - 1))] := by
  have hspan : (e - r).toNat = (e - 1 - r).toNat + 1 := by bv_omega
  rw [contents, hspan, window_succ, add_span, contents]

lemma contents_append (buf : Fin N → α) {r w e : BitVec 32} (h : (e - r).toNat = (w - r).toNat + (e - w).toNat) :
    contents buf r e = contents buf r w ++ contents buf w e := by
  rw [contents, h, window_append, add_span, contents, contents]

lemma contents_update (hN : N ∣ 2 ^ 31) (buf : Fin N → α) {r w e : BitVec 32} (hw : (w - r).toNat ≤ (e - r).toNat)
    (he : (e - r).toNat < N) (x : α) : contents (update buf (slot N e) x) r w = contents buf r w := by
  have hupdate := window_update hN buf r hw he x
  rwa [add_span] at hupdate

end Ring
