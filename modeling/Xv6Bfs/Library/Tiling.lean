import Mathlib.Order.Interval.Finset.Nat
import Mathlib.Order.CompletePartialOrder

/-!
# Tilings of a region by blocks

A block is known by its start; `len` gives its length. Blocks tile a region if none runs into the
next and together they are the region. Blocks are cut in two, joined and added.
-/

namespace Tiling

open Finset Function

def block (len : ℕ → ℕ) (a : ℕ) : Set ℕ := Set.Ico a (a + len a)

/-- No block runs into the next, and together the blocks are the region. -/
structure Tiles (len : ℕ → ℕ) (blocks : Finset ℕ) (region : Set ℕ) : Prop where
  apart : ∀ a ∈ blocks, ∀ b ∈ blocks, a < b → a + len a ≤ b
  cover : ∀ y, y ∈ region ↔ ∃ a ∈ blocks, y ∈ block len a

namespace Tiles

variable {len len' : ℕ → ℕ} {blocks : Finset ℕ} {region : Set ℕ} {a b y : ℕ}

lemma congr (h : Tiles len blocks region) (heq : ∀ a ∈ blocks, len' a = len a) :
    Tiles len' blocks region where
  apart a ha b hb hlt := by
    rw [heq a ha]
    exact h.apart a ha b hb hlt
  cover y := by
    rw [h.cover]
    refine exists_congr fun a => and_congr_right fun ha => ?_
    rw [block, block, heq a ha]

lemma disjoint (h : Tiles len blocks region) (ha : a ∈ blocks) (hb : b ∈ blocks) (hne : a ≠ b) :
    Disjoint (block len a) (block len b) := by
  rw [Set.disjoint_left]
  rintro y ⟨hay, hya⟩ ⟨hby, hyb⟩
  rcases lt_or_gt_of_ne hne with hlt | hlt
  · have := h.apart a ha b hb hlt
    omega
  · have := h.apart b hb a ha hlt
    omega

lemma start_mem (h : Tiles len blocks region) (ha : a ∈ blocks) (hpos : 0 < len a) : a ∈ region :=
  (h.cover a).mpr ⟨a, ha, le_rfl, by omega⟩

lemma block_subset (h : Tiles len blocks region) (ha : a ∈ blocks) : block len a ⊆ region :=
  fun y hy => (h.cover y).mpr ⟨a, ha, hy⟩

lemma insert (h : Tiles len blocks region) (hpos : ∀ b ∈ blocks, 0 < len b)
    (hfresh : ∀ y ∈ region, y < a) :
    Tiles len (insert a blocks) (region ∪ block len a) where
  apart := by
    have hbelow : ∀ b ∈ blocks, b + len b ≤ a := by
      intro b hb
      have hlast : b + len b - 1 ∈ region :=
        h.block_subset hb ⟨by have := hpos b hb; omega, by have := hpos b hb; omega⟩
      have := hfresh _ hlast
      omega
    intro b hb' c hc' hlt
    rcases Finset.mem_insert.mp hb' with rfl | hb <;> rcases Finset.mem_insert.mp hc' with rfl | hc
    · exact absurd hlt (lt_irrefl _)
    · have := hbelow c hc
      omega
    · exact hbelow b hb
    · exact h.apart b hb c hc hlt
  cover y := by
    rw [Set.mem_union, h.cover]
    constructor
    · rintro (⟨b, hb, hy⟩ | hy)
      · exact ⟨b, mem_insert_of_mem hb, hy⟩
      · exact ⟨a, mem_insert_self _ _, hy⟩
    · rintro ⟨b, hb, hy⟩
      rcases Finset.mem_insert.mp hb with rfl | hb
      · exact .inr hy
      · exact .inl ⟨b, hb, hy⟩

lemma split {n : ℕ} (h : Tiles len blocks region) (ha : a ∈ blocks) (hpos : 0 < n)
    (hlt : n < len a) :
    Tiles (update (update len a (len a - n)) (a + (len a - n)) n)
      (Insert.insert (a + (len a - n)) blocks) region := by
  have hnew : a + (len a - n) ≠ a := by omega
  have hself : ∀ c ∈ blocks, c ≠ a + (len a - n) := by
    rintro c hc rfl
    have := h.apart a ha _ hc (by omega)
    omega
  constructor
  · intro b hb c hc hbc
    rcases Finset.mem_insert.mp hb with rfl | hb <;> rcases Finset.mem_insert.mp hc with rfl | hc
    · exact absurd hbc (lt_irrefl _)
    · rw [update_self]
      have := h.apart a ha c hc (by omega)
      omega
    · rw [update_of_ne (hself b hb)]
      by_cases hba : b = a
      · rw [hba, update_self]
      · rw [update_of_ne hba]
        rcases lt_or_gt_of_ne hba with hlt' | hlt'
        · have := h.apart b hb a ha hlt'
          omega
        · have := h.apart a ha b hb hlt'
          omega
    · rw [update_of_ne (hself b hb)]
      by_cases hba : b = a
      · have := h.apart b hb c hc hbc
        rw [hba, update_self]
        rw [hba] at this
        omega
      · rw [update_of_ne hba]
        exact h.apart b hb c hc hbc
  · intro y
    rw [h.cover]
    simp only [block, Set.mem_Ico]
    constructor
    · rintro ⟨b, hb, hy⟩
      by_cases hba : b = a
      · subst hba
        by_cases hcut : y < b + (len b - n)
        · refine ⟨b, mem_insert_of_mem hb, hy.1, ?_⟩
          rwa [update_of_ne hnew.symm, update_self]
        · refine ⟨_, mem_insert_self _ _, not_lt.mp hcut, ?_⟩
          rw [update_self]
          omega
      · refine ⟨b, mem_insert_of_mem hb, ?_⟩
        rwa [update_of_ne (hself b hb), update_of_ne hba]
    · rintro ⟨b, hb', hy⟩
      rcases Finset.mem_insert.mp hb' with rfl | hb
      · rw [update_self] at hy
        exact ⟨a, ha, by omega, by omega⟩
      · rw [update_of_ne (hself b hb)] at hy
        by_cases hba : b = a
        · subst hba
          rw [update_self] at hy
          exact ⟨b, hb, hy.1, by omega⟩
        · rw [update_of_ne hba] at hy
          exact ⟨b, hb, hy⟩

lemma merge (h : Tiles len blocks region) (ha : a ∈ blocks) (hb : b ∈ blocks) (hpos : 0 < len a)
    (hadj : a + len a = b) :
    Tiles (update len a (len a + len b)) (blocks.erase b) region := by
  constructor
  · intro c hc d hd hcd
    obtain ⟨hcb, hc⟩ := mem_erase.mp hc
    obtain ⟨hdb, hd⟩ := mem_erase.mp hd
    by_cases hca : c = a
    · subst hca
      have hend := h.apart c hc d hd hcd
      have := h.apart b hb d hd (by omega)
      rw [update_self]
      omega
    · rw [update_of_ne hca]
      exact h.apart c hc d hd hcd
  · intro y
    rw [h.cover]
    simp only [block, Set.mem_Ico]
    have hab : a ∈ blocks.erase b := mem_erase.mpr ⟨by omega, ha⟩
    constructor
    · rintro ⟨c, hc, hy⟩
      by_cases hca : c = a ∨ c = b
      · refine ⟨a, hab, ?_⟩
        rw [update_self]
        rcases hca with rfl | rfl <;> omega
      · push Not at hca
        refine ⟨c, mem_erase.mpr ⟨hca.2, hc⟩, ?_⟩
        rwa [update_of_ne hca.1]
    · rintro ⟨c, hc, hy⟩
      by_cases hca : c = a
      · subst hca
        rw [update_self] at hy
        by_cases hcut : y < b
        · exact ⟨c, ha, hy.1, by omega⟩
        · exact ⟨b, hb, not_lt.mp hcut, by omega⟩
      · rw [update_of_ne hca] at hy
        exact ⟨c, mem_of_mem_erase hc, hy⟩

end Tiles

end Tiling
