import Mathlib.Init

/-!
# The fields of a list

The longest runs without a separator, in their order. Separators at the ends and several in a row
make no empty fields.
-/

namespace List

variable {α : Type} {sep : α → Bool} {xs ys : List α} {x : α}

def fields (sep : α → Bool) (xs : List α) : List (List α) :=
  (xs.splitOnP sep).filter (fun field => !field.isEmpty)

@[simp]
lemma fields_nil : fields sep [] = [] := by
  simp [fields]

lemma fields_append_cons (hx : sep x = true) : fields sep (xs ++ x :: ys) = fields sep xs ++ fields sep ys := by
  rw [fields, splitOnP_append_cons xs ys hx, filter_append]
  rfl

lemma fields_cons (hx : sep x = true) : fields sep (x :: ys) = fields sep ys := by
  have h : fields sep ([] ++ x :: ys) = fields sep [] ++ fields sep ys := fields_append_cons hx
  simpa using h

lemma fields_of_forall_not (hne : xs ≠ []) (h : ∀ y ∈ xs, sep y = false) : fields sep xs = [xs] := by
  rw [fields, splitOnP_eq_singleton h]
  simp [hne]

end List
