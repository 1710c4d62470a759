import Mathlib.Data.Finset.Max
import Mathlib.Order.Interval.Finset.Nat

/-!
# Circular lists in order

The elements of a finite set of a linear order, linked so that each is followed by the next larger
one and the greatest by the least. What is said about the links does not depend on where the
circle is entered.
-/

namespace Circle

open Finset Function

variable {α : Type*} [LinearOrder α]

/-- The element after `a`: the next larger one, or the least if `a` is the greatest. -/
def Follows (s : Finset α) (a b : α) : Prop :=
  b ∈ s ∧ ((a < b ∧ ∀ c ∈ s, c ≤ a ∨ b ≤ c) ∨ ∀ c ∈ s, b ≤ c ∧ c ≤ a)

/-- Each member's `next` is the member that comes after it in circular order. -/
def IsCircle (next : α → α) (s : Finset α) : Prop :=
  ∀ a ∈ s, Follows s a (next a)

/-- Behind `a` and before `b` on the circle. -/
def Between (a x b : α) : Prop :=
  (a < x ∧ x < b) ∨ (b ≤ a ∧ (a < x ∨ x < b))

variable {next next' : α → α} {s : Finset α} {a b p x : α}

lemma isCircle_singleton (h : next a = a) : IsCircle next {a} := by
  intro b hb
  obtain rfl := mem_singleton.mp hb
  refine ⟨by simp [h], .inr fun c hc => ?_⟩
  obtain rfl := mem_singleton.mp hc
  exact ⟨h.le, le_rfl⟩

namespace IsCircle

lemma congr (h : IsCircle next s) (heq : ∀ a ∈ s, next' a = next a) : IsCircle next' s := by
  intro a ha
  rw [heq a ha]
  exact h a ha

lemma next_mem (h : IsCircle next s) (ha : a ∈ s) : next a ∈ s :=
  (h a ha).1

lemma lt_next_or (h : IsCircle next s) (ha : a ∈ s) : a < next a ∨ ∀ c ∈ s, next a ≤ c ∧ c ≤ a :=
  (h a ha).2.imp And.left id

lemma next_injOn (h : IsCircle next s) (ha : a ∈ s) (hb : b ∈ s) (heq : next a = next b) : a = b := by
  obtain ⟨-, ha'⟩ := h a ha
  obtain ⟨-, hb'⟩ := h b hb
  rw [heq] at ha'
  rcases ha' with ⟨hlt, hno⟩ | hall <;> rcases hb' with ⟨hlt', hno'⟩ | hall'
  · exact le_antisymm ((hno' a ha).resolve_right hlt.not_ge) ((hno b hb).resolve_right hlt'.not_ge)
  · exact absurd (hall' a ha).1 hlt.not_ge
  · exact absurd (hall b hb).1 hlt'.not_ge
  · exact le_antisymm (hall' a ha).2 (hall b hb).2

lemma next_ne (h : IsCircle next s) (ha : a ∈ s) (hb : b ∈ s) (hne : a ≠ b) : next a ≠ a := by
  intro heq
  rcases h.lt_next_or ha with hlt | hall
  · exact absurd heq hlt.ne'
  · have hb' := hall b hb
    rw [heq] at hb'
    exact hne (le_antisymm hb'.1 hb'.2)

lemma between_unique (h : IsCircle next s) (ha : a ∈ s) (hp : p ∈ s)
    (hgap : Between p x (next p)) (hgap' : Between a x (next a)) : a = p := by
  by_contra hne
  have hpa := (h p hp).2
  have hap := (h a ha).2
  have hnp := h.next_mem hp
  have hna := h.next_mem ha
  grind [Between]

lemma insert (h : IsCircle next s) (hp : p ∈ s) (hx : x ∉ s) (hgap : Between p x (next p)) :
    IsCircle (update (update next p x) x (next p)) (insert x s) := by
  obtain ⟨hmem, hp'⟩ := h p hp
  have hpx : p ≠ x := fun heq => hx (heq ▸ hp)
  intro a ha
  rcases Finset.mem_insert.mp ha with rfl | ha
  · rw [update_self]
    refine ⟨mem_insert_of_mem hmem, ?_⟩
    simp only [forall_mem_insert]
    grind [Between]
  · have hax : a ≠ x := fun heq => hx (heq ▸ ha)
    rw [update_of_ne hax]
    by_cases hap : a = p
    · subst hap
      rw [update_self]
      refine ⟨mem_insert_self _ _, ?_⟩
      simp only [forall_mem_insert]
      grind [Between]
    · rw [update_of_ne hap]
      obtain ⟨hmem', ha'⟩ := h a ha
      have hno : ¬ Between a x (next a) := fun hgap' => hap (h.between_unique ha hp hgap hgap')
      refine ⟨mem_insert_of_mem hmem', ?_⟩
      simp only [forall_mem_insert]
      grind [Between]

lemma exists_between (h : IsCircle next s) (hs : s.Nonempty) (hx : x ∉ s) :
    ∃ p ∈ s, Between p x (next p) := by
  by_cases hlow : (s.filter (· < x)).Nonempty
  · -- behind the greatest of the smaller elements
    obtain ⟨hp, hpx⟩ := mem_filter.mp (max'_mem _ hlow)
    refine ⟨_, hp, ?_⟩
    rcases h.lt_next_or hp with hlt | hall
    · have hnext : ¬ next ((s.filter (· < x)).max' hlow) < x := fun hlt' =>
        absurd (le_max' _ _ (mem_filter.mpr ⟨h.next_mem hp, hlt'⟩)) hlt.not_ge
      have hne : next ((s.filter (· < x)).max' hlow) ≠ x := fun heq => hx (heq ▸ h.next_mem hp)
      exact .inl ⟨hpx, lt_of_le_of_ne (not_lt.mp hnext) hne.symm⟩
    · exact .inr ⟨(hall _ hp).1, .inl hpx⟩
  · -- all elements are larger, and the greatest is followed by the least
    have hp := max'_mem s hs
    have hall : ∀ c ∈ s, next (s.max' hs) ≤ c ∧ c ≤ s.max' hs :=
      (h.lt_next_or hp).resolve_left (le_max' _ _ (h.next_mem hp)).not_gt
    have hnext : x < next (s.max' hs) := by
      by_contra hle
      refine hlow ⟨_, mem_filter.mpr ⟨h.next_mem hp, ?_⟩⟩
      exact lt_of_le_of_ne (not_lt.mp hle) fun heq => hx (heq ▸ h.next_mem hp)
    exact ⟨_, hp, .inr ⟨(hall _ hp).1, .inr hnext⟩⟩

lemma erase (h : IsCircle next s) (hp : p ∈ s) (hne : next p ≠ p) :
    IsCircle (update next p (next (next p))) (s.erase (next p)) := by
  have hq := h.next_mem hp
  have hp' := (h p hp).2
  obtain ⟨hr, hq'⟩ := h _ hq
  have hqq : next (next p) ≠ next p := h.next_ne hq hp hne
  intro a ha
  obtain ⟨hane, ha⟩ := mem_erase.mp ha
  by_cases hap : a = p
  · subst hap
    rw [update_self]
    refine ⟨mem_erase.mpr ⟨hqq, hr⟩, ?_⟩
    grind
  · have hna : next a ≠ next p := fun heq => hap (h.next_injOn ha hp heq)
    obtain ⟨hmem, ha'⟩ := h a ha
    rw [update_of_ne hap]
    refine ⟨mem_erase.mpr ⟨hna, hmem⟩, ?_⟩
    exact ha'.imp (And.imp_right fun hno c hc => hno c (mem_of_mem_erase hc))
      fun hall c hc => hall c (mem_of_mem_erase hc)

lemma exists_iterate_of_le (h : IsCircle next s) (ha : a ∈ s) (hb : b ∈ s) (hle : a ≤ b) :
    ∃ k < s.card, next^[k] a = b := by
  suffices hgo : ∃ k ≤ (s.filter (a < ·)).card, next^[k] a = b by
    obtain ⟨k, hk, heq⟩ := hgo
    refine ⟨k, lt_of_le_of_lt hk (card_lt_card ?_), heq⟩
    exact filter_ssubset.mpr ⟨a, ha, lt_irrefl a⟩
  -- the induction is on how many elements lie above `a`
  induction hn : (s.filter (a < ·)).card using Nat.strong_induction_on generalizing a with
  | h n ih =>
    rcases hle.eq_or_lt with rfl | hlt
    · exact ⟨0, Nat.zero_le _, rfl⟩
    obtain ⟨hmem, ⟨hup, hno⟩ | hall⟩ := h a ha
    · have hsub : s.filter (next a < ·) ⊂ s.filter (a < ·) := by
        refine Finset.ssubset_iff_subset_ne.mpr ⟨fun c hc => ?_, fun heq => ?_⟩
        · obtain ⟨hc, hlt⟩ := Finset.mem_filter.mp hc
          exact mem_filter.mpr ⟨hc, hup.trans hlt⟩
        · have hself : next a ∈ s.filter (next a < ·) := heq ▸ mem_filter.mpr ⟨hmem, hup⟩
          exact lt_irrefl _ (mem_filter.mp hself).2
      have hcard := card_lt_card hsub
      obtain ⟨k, hk, heq⟩ := ih _ (hn ▸ hcard) hmem ((hno b hb).resolve_left hlt.not_ge) rfl
      exact ⟨k + 1, by omega, heq⟩
    · exact absurd (hall b hb).2 hlt.not_ge

lemma exists_iterate (h : IsCircle next s) (ha : a ∈ s) (hb : b ∈ s) :
    ∃ k < 2 * s.card, next^[k] a = b := by
  have hs : s.Nonempty := ⟨a, ha⟩
  have hmax := max'_mem s hs
  have hall : ∀ c ∈ s, next (s.max' hs) ≤ c ∧ c ≤ s.max' hs :=
    (h.lt_next_or hmax).resolve_left (le_max' _ _ (h.next_mem hmax)).not_gt
  obtain ⟨k, hk, hup⟩ := h.exists_iterate_of_le ha hmax (hall a ha).2
  obtain ⟨m, hm, hdown⟩ := h.exists_iterate_of_le (h.next_mem hmax) hb (hall b hb).1
  refine ⟨m + 1 + k, by omega, ?_⟩
  rw [iterate_add_apply, hup, iterate_succ_apply, hdown]

lemma exists_first (h : IsCircle next s) (ha : a ∈ s) (hb : b ∈ s) :
    ∃ k < 2 * s.card, next^[k] (next a) = b ∧ ∀ j < k, next^[j] (next a) ≠ a := by
  have hex : ∃ k, k < 2 * s.card ∧ next^[k] (next a) = b := h.exists_iterate (h.next_mem ha) hb
  obtain ⟨hlt, heq⟩ := Nat.find_spec hex
  refine ⟨Nat.find hex, hlt, heq, fun j hj hback => ?_⟩
  -- a return to `a` on the way would cut the way short
  obtain ⟨m, hm⟩ := Nat.exists_eq_add_of_lt hj
  refine Nat.find_min hex (m := m) (by omega) ⟨by omega, ?_⟩
  have hsplit : next^[m + 1 + j] (next a) = b := by
    rw [← heq, hm]
    congr 1
    omega
  rwa [iterate_add_apply, hback, iterate_succ_apply] at hsplit

end IsCircle

end Circle
