import Mathlib.Data.Fintype.Card

/-!
# Counting the places that have a value
-/

namespace Count

open Finset Function

variable {α β : Type*} [Fintype α] [DecidableEq β] {g : α → β} {a : α} {b c : β}

def count (g : α → β) (c : β) : ℕ :=
  (Finset.univ.filter (fun x => g x = c)).card

lemma count_pos (h : g a = c) : 0 < count g c :=
  card_pos.mpr ⟨a, by simpa using h⟩

variable [DecidableEq α]

lemma count_update (g : α → β) (a : α) (b c : β) :
    count (update g a b) c + (if g a = c then 1 else 0) = count g c + (if b = c then 1 else 0) := by
  have hsplit : ∀ g : α → β, count g c =
      ((Finset.univ.erase a).filter (fun x => g x = c)).card + if g a = c then 1 else 0 := by
    intro g
    rw [count, ← insert_erase (mem_univ a), filter_insert]
    split
    · rw [card_insert_of_notMem (by simp), insert_erase (mem_univ a)]
    · rw [insert_erase (mem_univ a), Nat.add_zero]
  have hrest : (Finset.univ.erase a).filter (fun x => update g a b x = c) =
      (Finset.univ.erase a).filter (fun x => g x = c) := by
    apply filter_congr
    intro x hx
    rw [update_of_ne (ne_of_mem_erase hx)]
  rw [hsplit, hsplit g, hrest, update_self]
  omega

end Count
