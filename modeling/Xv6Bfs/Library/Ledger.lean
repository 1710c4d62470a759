import Mathlib.Algebra.Order.BigOperators.Group.Finset
import Mathlib.Tactic.Abel

/-!
# Resources that are free or owned

Resources have contents and lie on a free list or belong to somebody. `Moves s s' A A'` says of a
program that was given the resources `A` and leaves the resources `A'` to its caller that none has
been lost or made twice, and that it has not touched any resource that was neither free nor given
to it.
-/

namespace Ledger

open Finset

variable {R C : Type*}

structure State (R C : Type*) where
  free : List R
  content : R → C

namespace State

def within (s : State R C) (owned : Multiset R) : Multiset R :=
  (s.free : Multiset R) + owned

def write [DecidableEq R] (s : State R C) (r : R) (c : C) : State R C :=
  { s with content := Function.update s.content r c }

def release (s : State R C) (r : R) : State R C :=
  { s with free := r :: s.free }

end State

/-- Resources move between the free list and the owner, and no others are touched. -/
structure Moves (s s' : State R C) (owned owned' : Multiset R) : Prop where
  balance : s'.within owned' = s.within owned
  frame : ∀ r, r ∉ s.within owned → s'.content r = s.content r

namespace Moves

variable {s s₁ s' : State R C} {A A₁ A' B : Multiset R} {r : R}

lemma refl (s : State R C) (A : Multiset R) : Moves s s A A :=
  ⟨rfl, fun _ _ => rfl⟩

lemma trans (h : Moves s s₁ A A₁) (h' : Moves s₁ s' A₁ A') : Moves s s' A A' := by
  refine ⟨h'.balance.trans h.balance, ?_⟩
  intro r hr
  rw [h'.frame r (h.balance ▸ hr), h.frame r hr]

lemma nodup (h : Moves s s' A A') (hnodup : (s.within A).Nodup) : (s'.within A').Nodup := by
  rwa [h.balance]

end Moves

/-! ### Owners of many parts -/

section Total

variable {ι : Type*} [Fintype ι]

@[irreducible] def total (f : ι → Multiset R) : Multiset R :=
  ∑ i, f i

lemma total_def (f : ι → Multiset R) : total f = ∑ i, f i := by
  unfold total
  rfl

variable {f g : ι → Multiset R} {i j : ι} {r : R}

lemma total_congr (h : ∀ i, f i = g i) : total f = total g :=
  congrArg total (funext h)

lemma total_zero (h : ∀ i, f i = 0) : total f = 0 := by
  rw [total_def]
  exact sum_eq_zero (fun i _ => h i)

lemma mem_total : r ∈ total f ↔ ∃ i, r ∈ f i := by
  rw [total_def, Multiset.mem_sum]
  simp only [mem_univ, true_and]

lemma le_total (f : ι → Multiset R) (i : ι) : f i ≤ total f := by
  rw [total_def]
  exact single_le_sum (fun _ _ => Multiset.zero_le _) (mem_univ i)

variable [DecidableEq ι]

lemma total_add_eq (hne : ∀ j, j ≠ i → f j = g j) : total f + g i = total g + f i := by
  rw [total_def, total_def, ← add_sum_erase _ f (mem_univ i), ← add_sum_erase _ g (mem_univ i),
    sum_congr rfl (fun j hj => hne j (ne_of_mem_erase hj))]
  abel

lemma eq_of_mem (h : (total f).Nodup) (hi : r ∈ f i) (hj : r ∈ f j) : i = j := by
  by_contra hne
  rw [total_def, ← add_sum_erase _ f (mem_univ i),
    ← add_sum_erase _ f (mem_erase.mpr ⟨Ne.symm hne, mem_univ j⟩), ← add_assoc] at h
  exact Multiset.disjoint_left.mp (Multiset.nodup_add.mp (Multiset.nodup_add.mp h).1).2.2 hi hj

end Total

end Ledger
