import Mathlib.Tactic

/-!
# Stable priority queues

A queue is a list in the order in which its elements will leave it. An element is inserted
behind all elements whose key is not larger than its own, so that elements with equal keys
leave in the order of their arrival.
-/

namespace StableQueue

open List

variable {α β κ : Type*} [LinearOrder κ]

def insert (key : α → κ) (a : α) (q : List α) : List α :=
  q.orderedInsert (fun x y => key x < key y) a

variable {key : α → κ} {a : α} {q : List α}

@[simp] lemma mem_insert {x : α} : x ∈ insert key a q ↔ x = a ∨ x ∈ q :=
  mem_orderedInsert _

lemma insert_perm (key : α → κ) (a : α) (q : List α) : (insert key a q).Perm (a :: q) :=
  perm_orderedInsert _ a q

lemma sublist_insert : q.Sublist (insert key a q) :=
  sublist_orderedInsert a q

lemma map_insert (f : α → β) (key' : β → κ) (h : ∀ x, key' (f x) = key x) :
    (insert key a q).map f = insert key' (f a) (q.map f) := by
  unfold insert
  exact map_orderedInsert _ _ f q a (fun x _ => by simp [h]) (fun x _ => by simp [h])

/-- The new element goes behind all that are not later. -/
lemma exists_insert_eq (hq : q.Pairwise (fun x y => key x ≤ key y)) (a : α) :
    ∃ pre post, q = pre ++ post ∧ insert key a q = pre ++ a :: post ∧
      (∀ x ∈ pre, key x ≤ key a) ∧ ∀ x ∈ post, key a < key x := by
  induction q with
  | nil => exact ⟨[], [], rfl, rfl, by simp, by simp⟩
  | cons x q ih =>
    rw [pairwise_cons] at hq
    by_cases hx : key a < key x
    · refine ⟨[], x :: q, rfl, by simp [insert, hx], by simp, ?_⟩
      intro y hy
      rcases mem_cons.mp hy with rfl | hy
      · exact hx
      · exact hx.trans_le (hq.1 y hy)
    · obtain ⟨pre, post, hsplit, hinsert, hpre, hpost⟩ := ih hq.2
      refine ⟨x :: pre, post, by rw [hsplit]; rfl, ?_, ?_, hpost⟩
      · unfold insert at hinsert ⊢
        rw [orderedInsert_cons, if_neg hx, hinsert]
        rfl
      · intro y hy
        rcases mem_cons.mp hy with rfl | hy
        · exact not_lt.mp hx
        · exact hpre y hy

/-- `x` leaves before `y`: its key is smaller, or the keys agree and `x` arrived first. -/
def Before {τ : Type*} [LT τ] (key : α → κ) (arrival : α → τ) (x y : α) : Prop :=
  key x < key y ∨ key x = key y ∧ arrival x < arrival y

/-- Among equal keys those that came first stay first. -/
lemma before_insert {τ : Type*} [LT τ] {arrival : α → τ}
    (hq : q.Pairwise (Before key arrival)) (ha : ∀ x ∈ q, arrival x < arrival a) :
    (insert key a q).Pairwise (Before key arrival) := by
  have hsorted : q.Pairwise (fun x y => key x ≤ key y) := by
    refine hq.imp ?_
    rintro x y (h | h)
    · exact h.le
    · exact h.1.le
  obtain ⟨pre, post, rfl, hinsert, hpre, hpost⟩ := exists_insert_eq hsorted a
  rw [pairwise_append] at hq
  rw [hinsert, pairwise_append, pairwise_cons]
  refine ⟨hq.1, ⟨fun x hx => Or.inl (hpost x hx), hq.2.1⟩, ?_⟩
  intro x hx y hy
  rcases mem_cons.mp hy with rfl | hy
  · rcases (hpre x hx).lt_or_eq with h | h
    · exact Or.inl h
    · exact Or.inr ⟨h, ha x (mem_append_left post hx)⟩
  · exact hq.2.2 x hx y hy

end StableQueue
