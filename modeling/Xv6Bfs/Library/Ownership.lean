import Mathlib.Data.Set.Insert

/-!
# Resources with one owner

Places may refer to resources of a pool. The resources in use are those that some place
refers to, and no two places refer to the same one.
-/

namespace Ownership

open Function

variable {P R : Type*}

/-- The used resources of the pool are those referred to, each from one place. -/
structure Owned (pool used : Set R) (ref : P → Option R) : Prop where
  inj : ∀ {p q r}, ref p = some r → ref q = some r → p = q
  mem_pool : ∀ {p r}, ref p = some r → r ∈ pool
  used_iff : ∀ {r}, r ∈ pool → (r ∈ used ↔ ∃ p, ref p = some r)

namespace Owned

variable {pool used : Set R} {ref : P → Option R} {p q : P} {r : R}

lemma used_of_ref (h : Owned pool used ref) (hp : ref p = some r) : r ∈ used :=
  (h.used_iff (h.mem_pool hp)).mpr ⟨p, hp⟩

lemma ref_ne_of_not_used (h : Owned pool used ref) (hr : r ∉ used) : ref p ≠ some r := by
  intro hp
  exact hr (h.used_of_ref hp)

lemma take [DecidableEq P] (h : Owned pool used ref) (hp : ref p = none) (hr : r ∈ pool)
    (hfree : r ∉ used) : Owned pool (insert r used) (update ref p (some r)) := by
  refine ⟨?_, ?_, ?_⟩
  · intro q q' r' hq hq'
    by_cases hqp : q = p <;> by_cases hqp' : q' = p
    · rw [hqp, hqp']
    · subst hqp
      rw [update_self, Option.some.injEq] at hq
      rw [update_of_ne hqp', ← hq] at hq'
      exact absurd hq' (h.ref_ne_of_not_used hfree)
    · subst hqp'
      rw [update_self, Option.some.injEq] at hq'
      rw [update_of_ne hqp, ← hq'] at hq
      exact absurd hq (h.ref_ne_of_not_used hfree)
    · rw [update_of_ne hqp] at hq
      rw [update_of_ne hqp'] at hq'
      exact h.inj hq hq'
  · intro q r' hq
    by_cases hqp : q = p
    · subst hqp
      rw [update_self, Option.some.injEq] at hq
      rwa [← hq]
    · rw [update_of_ne hqp] at hq
      exact h.mem_pool hq
  · intro r' hr'
    rw [Set.mem_insert_iff, h.used_iff hr']
    constructor
    · rintro (rfl | ⟨q, hq⟩)
      · exact ⟨p, update_self ..⟩
      · have hqp : q ≠ p := by
          rintro rfl
          simp [hp] at hq
        exact ⟨q, by rwa [update_of_ne hqp]⟩
    · rintro ⟨q, hq⟩
      by_cases hqp : q = p
      · subst hqp
        rw [update_self, Option.some.injEq] at hq
        exact Or.inl hq.symm
      · rw [update_of_ne hqp] at hq
        exact Or.inr ⟨q, hq⟩

lemma release {used' : Set R} {ref' : P → Option R} (h : Owned pool used ref) (S : Set P)
    (hnone : ∀ p ∈ S, ref' p = none) (hsame : ∀ p, p ∉ S → ref' p = ref p)
    (hused : ∀ r ∈ pool, r ∈ used' ↔ r ∈ used ∧ ∀ p ∈ S, ref p ≠ some r) : Owned pool used' ref' := by
  have hof : ∀ {p r}, ref' p = some r → p ∉ S ∧ ref p = some r := by
    intro p r hp
    have hpS : p ∉ S := by
      intro hpS
      simp [hnone p hpS] at hp
    exact ⟨hpS, by rwa [← hsame p hpS]⟩
  refine ⟨?_, ?_, ?_⟩
  · intro p q r hp hq
    exact h.inj (hof hp).2 (hof hq).2
  · intro p r hp
    exact h.mem_pool (hof hp).2
  · intro r hr
    rw [hused r hr, h.used_iff hr]
    constructor
    · rintro ⟨⟨p, hp⟩, hS⟩
      have hpS : p ∉ S := fun hpS => hS p hpS hp
      exact ⟨p, by rwa [hsame p hpS]⟩
    · rintro ⟨p, hp⟩
      obtain ⟨hpS, hp⟩ := hof hp
      refine ⟨⟨p, hp⟩, ?_⟩
      rintro q hqS hq
      exact hpS (h.inj hp hq ▸ hqS)

end Owned

end Ownership
