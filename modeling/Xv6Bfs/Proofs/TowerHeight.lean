import Xv6Bfs.Random
import Xv6Bfs.Proofs.SkiplistQueue

/-!
# The height of a tower and the predecessors

`insert_node` links a tower on the levels up to the height that `randomize_max_level` gives
it, and its descent stores a predecessor for each level of the list. The loop of
`randomize_max_level` has one round more than the list has levels above the bottom, so four
multiples of four in a row give a tower that is one level too high.
-/

namespace Xv6Bfs

variable {P : ℕ} {sl : Skiplist P} {ts : List (Tower P)}

def Raises (seed : BitVec 32) : Prop := seed.srem 4 = 0

instance : DecidablePred Raises := fun seed => decEq (seed.srem 4) 0

lemma seedAfter_succ (n : ℕ) : seedAfter (n + 1) = nextSeed (seedAfter n) :=
  Function.iterate_succ_apply' nextSeed n seed₀

lemma randomizeLoop_eq_iff (rounds level n : ℕ) :
    (randomizeLoop rounds level (seedAfter n)).1 = level + rounds ↔
      ∀ k < rounds, Raises (seedAfter (n + k + 1)) := by
  induction rounds generalizing level n with
  | zero => simp [randomizeLoop]
  | succ rounds ih =>
    have hshift : (∀ k < rounds + 1, Raises (seedAfter (n + k + 1))) ↔
        Raises (seedAfter (n + 1)) ∧ ∀ k < rounds, Raises (seedAfter (n + 1 + k + 1)) := by
      rw [Nat.forall_lt_succ_left]
      simp only [add_zero, Nat.add_right_comm n 1, Nat.add_assoc]
    rw [hshift]
    have hdraw : random (seedAfter n) 4 = ((seedAfter (n + 1)).srem 4, seedAfter (n + 1)) := by
      rw [seedAfter_succ]
      rfl
    simp only [randomizeLoop, hdraw]
    by_cases hx : Raises (seedAfter (n + 1))
    · have hrest := ih (level + 1) (n + 1)
      rw [show level + 1 + rounds = level + (rounds + 1) by omega] at hrest
      have hx' : (seedAfter (n + 1)).srem 4 = 0 := hx
      rw [if_pos hx', hrest]
      exact ⟨fun h => ⟨hx, h⟩, And.right⟩
    · have hx' : ¬ (seedAfter (n + 1)).srem 4 = 0 := hx
      rw [if_neg hx']
      constructor
      · intro h
        dsimp only at h
        omega
      · exact fun h => absurd h.1 hx

lemma randomizeLoop_le (rounds level : ℕ) (seed : BitVec 32) :
    (randomizeLoop rounds level seed).1 ≤ level + rounds := by
  induction rounds generalizing level seed with
  | zero => exact le_rfl
  | succ rounds ih =>
    simp only [randomizeLoop]
    by_cases hx : (random seed 4).1 = 0
    · rw [if_pos hx]
      have hle := ih (level + 1) (random seed 4).2
      omega
    · rw [if_neg hx]
      dsimp only
      omega

/-- A tower is too high only after four draws that all raise it. -/
lemma heightAfter_le_iff (n : ℕ) : heightAfter n ≤ SKIPLIST_LEVELS - 1 ↔
    ∃ k < SKIPLIST_LEVELS, ¬ Raises (seedAfter (n + k + 1)) := by
  have hle : heightAfter n ≤ 0 + SKIPLIST_LEVELS := randomizeLoop_le _ 0 (seedAfter n)
  have hiff : heightAfter n = 0 + SKIPLIST_LEVELS ↔ _ := randomizeLoop_eq_iff SKIPLIST_LEVELS 0 n
  have hpos : 0 < SKIPLIST_LEVELS := by decide
  have hlt : heightAfter n ≤ SKIPLIST_LEVELS - 1 ↔ ¬ heightAfter n = 0 + SKIPLIST_LEVELS := by omega
  rw [hlt, hiff]
  push Not
  rfl

lemma Towers.findPrev_stored (hts : Towers sl ts) (d : ℤ) (maxLevel : ℕ) :
    ∃ prevNodes, findPrev sl d maxLevel = some prevNodes ∧
      ∀ k, prevNodes k ≠ none ↔ k ≤ maxLevel ∧ k < SKIPLIST_LEVELS := by
  obtain ⟨pre, post, rfl, hpre, hpost, -⟩ := hts.rep.exists_insert 0 d
  refine ⟨_, hts.rep.findPrev_eq hts.levels_pos hpre hpost maxLevel, ?_⟩
  intro k
  have hcell : prevCell sl pre k ≠ none ↔ k < SKIPLIST_LEVELS := by
    rw [prevCell, Ne, Option.map_eq_none_iff, List.getElem?_eq_none_iff, hts.rep.length, hts.levels]
    omega
  by_cases hk : k ≤ maxLevel
  · rw [if_pos hk, hcell]
    exact ⟨fun h => ⟨hk, h⟩, And.right⟩
  · rw [if_neg hk]
    exact ⟨fun h => absurd rfl h, fun h => absurd h.1 hk⟩

/-- The tower drawn after `n` draws fits in the list, and the link loop reads only entries of
`prev_nodes` that were stored. -/
def HeightFits (n : ℕ) : Prop :=
  heightAfter n ≤ SKIPLIST_LEVELS - 1 ∧
    ∀ (P : ℕ) (sl : Skiplist P) (ts : List (Tower P)) (d : ℤ), Towers sl ts →
      ∃ prevNodes, findPrev sl d (heightAfter n) = some prevNodes ∧ ∀ k ≤ heightAfter n, prevNodes k ≠ none

theorem heightFits_iff (n : ℕ) :
    HeightFits n ↔ ∃ k < SKIPLIST_LEVELS, ¬ Raises (seedAfter (n + k + 1)) := by
  rw [← heightAfter_le_iff]
  refine ⟨And.left, fun hle => ⟨hle, ?_⟩⟩
  intro P sl ts d hts
  obtain ⟨prevNodes, hfind, hstored⟩ := hts.findPrev_stored d (heightAfter n)
  refine ⟨prevNodes, hfind, ?_⟩
  intro k hk
  have hpos : 0 < SKIPLIST_LEVELS := by decide
  exact (hstored k).mpr ⟨hk, by omega⟩

/-- The tower of the 417th insertion has five levels, and on any list the predecessor on the
fifth is read without having been stored. -/
theorem not_heightFits_560 : ¬ HeightFits 560 ∧ heightAfter 560 = SKIPLIST_LEVELS ∧
    ∀ (P : ℕ) (sl : Skiplist P) (ts : List (Tower P)) (d : ℤ), Towers sl ts →
      ∃ prevNodes, findPrev sl d (heightAfter 560) = some prevNodes ∧
        prevNodes (heightAfter 560) = none := by
  have hheight : heightAfter 560 = SKIPLIST_LEVELS := by decide +kernel
  refine ⟨fun h => ?_, hheight, ?_⟩
  · have hle := h.1
    rw [hheight] at hle
    exact absurd hle (by decide)
  · intro P sl ts d hts
    obtain ⟨prevNodes, hfind, hstored⟩ := hts.findPrev_stored d (heightAfter 560)
    refine ⟨prevNodes, hfind, ?_⟩
    by_contra hne
    have hlt := ((hstored _).mp hne).2
    omega

end Xv6Bfs
