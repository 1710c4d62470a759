import Mathlib.Data.Fintype.List

/-!
# Doubly linked lists and pointer chasing

Cells are the elements of an arbitrary type, and the two links of a cell are read off
partial functions `next` and `prev`. `Linked next prev a l` says that the cells `a :: l`
are chained in this order and that the last one has no successor. The file proves that a
cell can be spliced in behind any cell of the list and taken out again, and what a loop
that follows pointers finds at its end.
-/

namespace LinkedList

open List

variable {α : Type*} {next prev next' prev' : α → Option α} {a x : α} {l l₁ l₂ : List α}
  {step : α → Option (Option α)}

/-- The cells `a :: l` form a doubly linked list which ends after its last cell. -/
def Linked (next prev : α → Option α) : α → List α → Prop
  | a, [] => next a = none
  | a, b :: l => next a = some b ∧ prev b = some a ∧ Linked next prev b l

def lastCell : α → List α → α
  | a, [] => a
  | _, b :: l => lastCell b l

@[simp] lemma lastCell_nil (a : α) : lastCell a [] = a := rfl

@[simp] lemma lastCell_cons (a b : α) (l : List α) : lastCell a (b :: l) = lastCell b l := rfl

@[simp] lemma lastCell_append_cons (a b : α) (l₁ l₂ : List α) :
    lastCell a (l₁ ++ b :: l₂) = lastCell b l₂ := by
  induction l₁ generalizing a with
  | nil => rfl
  | cons c l₁ ih => exact ih c

lemma lastCell_mem (a : α) (l : List α) : lastCell a l ∈ a :: l := by
  induction l generalizing a with
  | nil => simp
  | cons b l ih => exact mem_cons_of_mem a (ih b)

lemma isChain_concat {R : α → α → Prop} {b : α} (h : List.IsChain R (a :: l))
    (hb : R (lastCell a l) b) : List.IsChain R (a :: (l ++ [b])) := by
  induction l generalizing a with
  | nil => exact List.IsChain.cons_cons hb (List.IsChain.singleton b)
  | cons c l ih =>
    rw [isChain_cons_cons] at h
    exact List.IsChain.cons_cons h.1 (ih h.2 hb)

lemma Linked.congr (h : Linked next prev a l) (hn : ∀ c ∈ a :: l, next' c = next c)
    (hp : ∀ c ∈ l, prev' c = prev c) : Linked next' prev' a l := by
  induction l generalizing a with
  | nil => exact (hn a (by simp)).trans h
  | cons b l ih =>
    obtain ⟨hab, hba, hl⟩ := h
    refine ⟨(hn a (by simp)).trans hab, (hp b (by simp)).trans hba, ih hl ?_ ?_⟩
    · exact fun c hc => hn c (mem_cons_of_mem a hc)
    · exact fun c hc => hp c (mem_cons_of_mem b hc)

lemma Linked.next_lastCell (h : Linked next prev a (l₁ ++ l₂)) : next (lastCell a l₁) = l₂.head? := by
  induction l₁ generalizing a with
  | nil =>
    cases l₂ with
    | nil => exact h
    | cons b l₂ => exact h.1
  | cons c l₁ ih => exact ih h.2.2

lemma Linked.prev_of_append (h : Linked next prev a (l₁ ++ x :: l₂)) : prev x = some (lastCell a l₁) := by
  induction l₁ generalizing a with
  | nil => exact h.2.1
  | cons c l₁ ih => exact ih h.2.2

lemma Linked.next_of_append (h : Linked next prev a (l₁ ++ x :: l₂)) : next x = l₂.head? := by
  have h' : Linked next prev a ((l₁ ++ [x]) ++ l₂) := by simpa using h
  simpa using h'.next_lastCell

lemma Linked.isChain (h : Linked next prev a l) : List.IsChain (fun b c => next b = some c) (a :: l) := by
  induction l generalizing a with
  | nil => exact List.IsChain.singleton a
  | cons b l ih => exact List.IsChain.cons_cons h.1 (ih h.2.2)

theorem Linked.splice (h : Linked next prev a (l₁ ++ l₂)) (hd : (a :: (l₁ ++ l₂)).Nodup)
    (hx : x ∉ a :: (l₁ ++ l₂)) (hpn : next' (lastCell a l₁) = some x)
    (hxn : next' x = l₂.head?) (hxp : prev' x = some (lastCell a l₁))
    (hnp : ∀ n ∈ l₂.head?, prev' n = some x)
    (hn : ∀ c, c ≠ x → c ≠ lastCell a l₁ → next' c = next c)
    (hp : ∀ c, c ≠ x → c ∉ l₂.head? → prev' c = prev c) :
    Linked next' prev' a (l₁ ++ x :: l₂) := by
  induction l₁ generalizing a with
  | nil =>
    refine ⟨hpn, hxp, ?_⟩
    cases l₂ with
    | nil => exact hxn
    | cons n l₂ =>
      simp only [nil_append, nodup_cons, mem_cons, not_or] at hd hx
      refine ⟨hxn, hnp n rfl, h.2.2.congr ?_ ?_⟩
      · intro c hc
        apply hn c
        · rintro rfl
          exact (not_or.mpr hx.2) (by simpa using hc)
        · rintro rfl
          exact (not_or.mpr hd.1) (by simpa using hc)
      · intro c hc
        apply hp c
        · rintro rfl
          exact hx.2.2 hc
        · simp only [head?_cons, Option.mem_def, Option.some.injEq]
          rintro rfl
          exact hd.2.1 hc
  | cons b l₁ ih =>
    obtain ⟨hab, hba, hl⟩ := h
    simp only [cons_append, nodup_cons, mem_cons, not_or] at hd hx
    have hlast : lastCell b l₁ ∈ b :: (l₁ ++ l₂) := by
      have := lastCell_mem b l₁
      simp only [mem_cons, mem_append] at this ⊢
      tauto
    have hb : b ∉ l₂.head? := by
      intro hb
      exact hd.2.1 (mem_append_right l₁ (mem_of_mem_head? hb))
    refine ⟨?_, ?_, ih hl ?_ ?_ hpn hxp hn⟩
    · rw [hn a (Ne.symm hx.1), hab]
      intro ha
      rw [← lastCell_cons a, ← ha] at hlast
      exact (not_or.mpr hd.1) (mem_cons.mp hlast)
    · rw [hp b (Ne.symm hx.2.1) hb, hba]
    · simpa using hd.2
    · simpa using hx.2

theorem Linked.unsplice (h : Linked next prev a (l₁ ++ x :: l₂))
    (hd : (a :: (l₁ ++ x :: l₂)).Nodup) (hpn : next' (lastCell a l₁) = l₂.head?)
    (hnp : ∀ n ∈ l₂.head?, prev' n = some (lastCell a l₁))
    (hn : ∀ c, c ≠ x → c ≠ lastCell a l₁ → next' c = next c)
    (hp : ∀ c, c ≠ x → c ∉ l₂.head? → prev' c = prev c) :
    Linked next' prev' a (l₁ ++ l₂) := by
  induction l₁ generalizing a with
  | nil =>
    simp only [nil_append, nodup_cons, mem_cons, not_or] at hd
    cases l₂ with
    | nil => exact hpn
    | cons n l₂ =>
      simp only [mem_cons, not_or, nodup_cons] at hd
      refine ⟨hpn, hnp n rfl, h.2.2.2.2.congr ?_ ?_⟩
      · intro c hc
        apply hn c
        · rintro rfl
          exact (not_or.mpr hd.2.1) (by simpa using hc)
        · rintro rfl
          exact (not_or.mpr hd.1.2) (by simpa using hc)
      · intro c hc
        apply hp c
        · rintro rfl
          exact hd.2.1.2 hc
        · simp only [head?_cons, Option.mem_def, Option.some.injEq]
          rintro rfl
          exact hd.2.2.1 hc
  | cons b l₁ ih =>
    obtain ⟨hab, hba, hl⟩ := h
    simp only [cons_append, nodup_cons, mem_cons, mem_append, not_or] at hd
    have hlast : lastCell b l₁ ∈ b :: l₁ := lastCell_mem b l₁
    have hb : b ∉ l₂.head? := fun hb => hd.2.1.2.2 (mem_of_mem_head? hb)
    refine ⟨?_, ?_, ih hl ?_ hpn hnp hn⟩
    · rw [hn a hd.1.2.2.1, hab]
      intro ha
      rw [← lastCell_cons a, ← ha] at hlast
      rcases mem_cons.mp hlast with hlast | hlast
      · exact hd.1.1 hlast
      · exact hd.1.2.1 hlast
    · rw [hp b hd.2.1.2.1 hb, hba]
    · simpa using hd.2

/-! ### The links of a list and of the same list without one cell -/

lemma Linked.next_eq (h : Linked next prev a l) (h' : Linked next' prev' a l) :
    ∀ c ∈ a :: l, next' c = next c := by
  induction l generalizing a with
  | nil =>
    intro c hc
    rw [mem_singleton.mp hc]
    exact h'.trans h.symm
  | cons b l ih =>
    intro c hc
    rcases mem_cons.mp hc with rfl | hc
    · exact h'.1.trans h.1.symm
    · exact ih h.2.2 h'.2.2 c hc

lemma Linked.prev_eq (h : Linked next prev a l) (h' : Linked next' prev' a l) :
    ∀ c ∈ l, prev' c = prev c := by
  induction l generalizing a with
  | nil => simp
  | cons b l ih =>
    intro c hc
    rcases mem_cons.mp hc with rfl | hc
    · exact h'.2.1.trans h.2.1.symm
    · exact ih h.2.2 h'.2.2 c hc

lemma Linked.mem_of_next {b c : α} (h : Linked next prev a l) (hc : c ∈ a :: l)
    (hb : next c = some b) : b ∈ l := by
  induction l generalizing a with
  | nil =>
    rw [mem_singleton.mp hc, show next a = none from h] at hb
    exact absurd hb (by simp)
  | cons d l ih =>
    rcases mem_cons.mp hc with rfl | hc
    · rw [h.1] at hb
      simp [Option.some.inj hb]
    · exact mem_cons_of_mem d (ih h.2.2 hc)

lemma Linked.exists_prev {c : α} (h : Linked next prev a l) (hc : c ∈ l) :
    ∃ b ∈ a :: l, prev c = some b := by
  induction l generalizing a with
  | nil => simp at hc
  | cons d l ih =>
    rcases mem_cons.mp hc with rfl | hc
    · exact ⟨a, mem_cons_self, h.2.1⟩
    · obtain ⟨b, hb, hprev⟩ := ih h.2.2 hc
      exact ⟨b, mem_cons_of_mem a hb, hprev⟩

theorem Linked.next_of_unsplice [DecidableEq α] (h : Linked next prev a (l₁ ++ x :: l₂))
    (h' : Linked next' prev' a (l₁ ++ l₂)) (hd : (a :: (l₁ ++ x :: l₂)).Nodup) :
    ∀ c ∈ a :: (l₁ ++ l₂), next' c = if next c = some x then next x else next c := by
  induction l₁ generalizing a with
  | nil =>
    intro c hc
    rcases mem_cons.mp hc with rfl | hc
    · have hx : Linked next prev x ([] ++ l₂) := h.2.2
      rw [if_pos h.1]
      exact h'.next_lastCell.trans hx.next_lastCell.symm
    · cases l₂ with
      | nil => simp at hc
      | cons b l =>
        have hne : next c ≠ some x := by
          intro hnext
          have hmem := h.2.2.2.2.mem_of_next hc hnext
          simp only [nil_append, nodup_cons, mem_cons, not_or] at hd
          exact hd.2.1.2 hmem
        rw [if_neg hne]
        exact h.2.2.2.2.next_eq h'.2.2 c hc
  | cons b l₁ ih =>
    intro c hc
    simp only [cons_append, nodup_cons, mem_cons, mem_append, not_or] at hd
    rcases mem_cons.mp hc with rfl | hc
    · have hne : next c ≠ some x := by
        rw [h.1]
        intro hb
        exact hd.2.1.2.1 (Option.some.inj hb)
      rw [if_neg hne]
      exact h'.1.trans h.1.symm
    · exact ih h.2.2 h'.2.2 (by simpa using hd.2) c hc

theorem Linked.prev_of_unsplice [DecidableEq α] (h : Linked next prev a (l₁ ++ x :: l₂))
    (h' : Linked next' prev' a (l₁ ++ l₂)) (hd : (a :: (l₁ ++ x :: l₂)).Nodup) :
    ∀ c ∈ l₁ ++ l₂, prev' c = if prev c = some x then prev x else prev c := by
  induction l₁ generalizing a with
  | nil =>
    intro c hc
    cases l₂ with
    | nil => simp at hc
    | cons b l =>
      rcases mem_cons.mp hc with rfl | hc
      · rw [if_pos h.2.2.2.1, h.2.1]
        exact h'.2.1
      · obtain ⟨p, hp, hprev⟩ := h.2.2.2.2.exists_prev hc
        have hne : prev c ≠ some x := by
          rw [hprev]
          intro hpx
          rw [Option.some.inj hpx] at hp
          exact (nodup_cons.mp (nodup_cons.mp hd).2).1 hp
        rw [if_neg hne]
        exact h.2.2.2.2.prev_eq h'.2.2 c hc
  | cons b l₁ ih =>
    intro c hc
    have hax : a ≠ x := by
      rintro rfl
      exact (nodup_cons.mp hd).1 (by simp)
    rcases mem_cons.mp hc with rfl | hc
    · have hne : prev c ≠ some x := by
        rw [h.2.1]
        exact fun ha => hax (Option.some.inj ha)
      rw [if_neg hne]
      exact h'.2.1.trans h.2.1.symm
    · exact ih h.2.2 h'.2.2 (nodup_cons.mp hd).2 c hc

lemma Linked.reflTransGen {c : α} (h : Linked next prev a l) (hc : c ∈ a :: l) :
    Relation.ReflTransGen (fun b c => next b = some c) a c := by
  induction l generalizing a with
  | nil =>
    rw [mem_singleton.mp hc]
  | cons b l ih =>
    rcases mem_cons.mp hc with rfl | hc
    · exact .refl
    · exact .head h.1 (ih h.2.2 hc)

/-- A loop that follows pointers. The step from a cell either faults, stops, or names the
next cell; running out of fuel is a fault, too. -/
def chase (step : α → Option (Option α)) : ℕ → α → Option α
  | 0, _ => none
  | fuel + 1, a =>
    match step a with
    | none => none
    | some none => some a
    | some (some b) => chase step fuel b

theorem chase_of_isChain_or {stop : α → Prop} {fuel : ℕ}
    (hl : List.IsChain (fun b c => stop b ∧ step b = some none ∨ step b = some (some c)) (a :: l))
    (hstop : step (lastCell a l) = some none) (hfuel : l.length < fuel) :
    chase step fuel a = some (lastCell a l) ∨ ∃ b ∈ a :: l, stop b ∧ chase step fuel a = some b := by
  induction l generalizing a fuel with
  | nil =>
    obtain ⟨fuel, rfl⟩ := Nat.exists_eq_add_one_of_ne_zero (Nat.ne_of_gt hfuel)
    rw [lastCell_nil] at hstop
    exact Or.inl (by simp [chase, hstop])
  | cons b l ih =>
    obtain ⟨fuel, rfl⟩ := Nat.exists_eq_add_one_of_ne_zero (Nat.ne_of_gt (Nat.zero_lt_of_lt hfuel))
    rw [isChain_cons_cons] at hl
    rcases hl.1 with ⟨hsa, hnone⟩ | hstep
    · exact Or.inr ⟨a, mem_cons_self, hsa, by simp [chase, hnone]⟩
    · simp only [chase, hstep]
      rcases ih hl.2 hstop (by simpa using hfuel) with hend | ⟨c, hc, hsc, hend⟩
      · exact Or.inl hend
      · exact Or.inr ⟨c, mem_cons_of_mem a hc, hsc, hend⟩

/-- A loop that runs along `a :: l` and stops there ends in the last cell. -/
theorem chase_of_isChain {fuel : ℕ}
    (hl : List.IsChain (fun b c => step b = some (some c)) (a :: l))
    (hstop : step (lastCell a l) = some none) (hfuel : l.length < fuel) :
    chase step fuel a = some (lastCell a l) := by
  have hl' : List.IsChain (fun b c => False ∧ step b = some none ∨ step b = some (some c)) (a :: l) :=
    hl.imp (fun _ _ hstep => Or.inr hstep)
  rcases chase_of_isChain_or hl' hstop hfuel with hend | ⟨b, -, hfalse, -⟩
  · exact hend
  · exact hfalse.elim

end LinkedList
