import Xv6Bfs.ForkTail
import Xv6Bfs.Proofs.SkiplistOps

/-!
# Linking with predecessors that were found earlier

`Rep.raise` links the next level of a tower behind the right predecessor. One that an earlier search has found is right as
long as a new search finds it again, and no tower with the same deadline inserted since then reaches its level.
-/

namespace Xv6Bfs

open LinkedList

variable {P : ℕ} {sl : Skiplist P} {pre post : List (Tower P)} {t : Tower P} {a p : Addr P}
  {prevNodes : ℕ → Ptr P} {j : ℕ}

lemma Rep.exists_findPrev_eq (hr : Rep sl (pre ++ t :: post)) (hlevels : 0 < sl.levels) (m : ℕ) :
    ∃ ties later found, post = ties ++ later ∧ (∀ u ∈ ties, u.virtualDeadline = t.virtualDeadline) ∧
      (∀ u ∈ later, t.virtualDeadline < u.virtualDeadline) ∧
      findPrev sl t.virtualDeadline m = some found ∧
      ∀ j, t.nodes.length ≤ j → found j =
        if j ≤ m then sl.headers[j]?.map (fun h => lastCell h (lane j pre ++ lane j ties))
        else none := by
  obtain ⟨-, hsorted, hcross⟩ := List.pairwise_append.mp hr.sorted
  obtain ⟨hfirst, hpost⟩ := List.pairwise_cons.mp hsorted
  obtain ⟨ties, later, rfl, -, hties, hlater⟩ := StableQueue.exists_insert_eq hpost t
  have hsplit : pre ++ t :: (ties ++ later) = (pre ++ t :: ties) ++ later := by simp
  rw [hsplit] at hr
  have hfront : ∀ u ∈ pre ++ t :: ties, u.virtualDeadline ≤ t.virtualDeadline := by
    intro u hu
    simp only [List.mem_append, List.mem_cons] at hu
    rcases hu with hu | rfl | hu
    · exact hcross u hu t (by simp)
    · exact le_rfl
    · exact hties u hu
  refine ⟨ties, later, _, rfl, fun u hu => ?_, hlater, hr.findPrev_eq hlevels hfront hlater m, ?_⟩
  · exact le_antisymm (hties u hu) (hfirst u (List.mem_append_left later hu))
  · intro j hj
    have hnode : t.nodes[j]? = none := List.getElem?_eq_none hj
    simp [prevCell, lane_cons, hnode]

lemma lane_eq_nil_of_length_le {ts : List (Tower P)} (h : ∀ u ∈ ts, u.nodes.length ≤ j) :
    lane j ts = [] := by
  rw [List.eq_nil_iff_forall_not_mem]
  intro a ha
  obtain ⟨u, hu, hua⟩ := mem_lane.mp ha
  have hlt := (List.getElem?_eq_some_iff.mp hua).1
  have hle := h u hu
  omega

lemma Rep.exists_findPrev_low (hr : Rep sl (pre ++ t :: post)) (hlevels : 0 < sl.levels) (m : ℕ)
    (hlow : ∀ u ∈ post, u.virtualDeadline = t.virtualDeadline → u.nodes.length ≤ t.nodes.length) :
    ∃ found, findPrev sl t.virtualDeadline m = some found ∧
      ∀ j, t.nodes.length ≤ j → found j = if j ≤ m then prevCell sl pre j else none := by
  obtain ⟨ties, later, found, rfl, hties, -, hfind, hfound⟩ := hr.exists_findPrev_eq hlevels m
  refine ⟨found, hfind, ?_⟩
  intro j hj
  have hlane : lane j ties = [] := lane_eq_nil_of_length_le fun u hu =>
    (hlow u (List.mem_append_left later hu) (hties u hu)).trans hj
  rw [hfound j hj, hlane, List.append_nil]
  rfl

lemma Rep.searchStands {ts : List (Tower P)} {d : ℤ} {m : ℕ} (hr : Rep sl ts)
    (hlevels : 0 < sl.levels) (hfind : findPrev sl d m = some prevNodes) :
    SearchStands sl d 0 prevNodes ∧ ∀ j, sl.levels ≤ j → prevNodes j = none := by
  obtain ⟨pre, post, rfl, hpre, hpost, -⟩ := hr.exists_insert 0 d
  have hfind' := hr.findPrev_eq hlevels hpre hpost m
  obtain rfl := Option.some.inj (hfind.symm.trans hfind')
  refine ⟨⟨_, hr.findPrev_eq hlevels hpre hpost sl.levels, ?_⟩, ?_⟩
  · intro j hj _
    by_cases hjm : j ≤ m
    · exact .inr (by simp [hjm, hj.le])
    · exact .inl (by simp [hjm])
  · intro j hj
    have hnone : sl.headers[j]? = none := List.getElem?_eq_none (hr.length ▸ hj)
    simp [prevCell, hnone]

lemma SearchStands.prevCell_eq
    (hstands : SearchStands sl t.virtualDeadline t.nodes.length prevNodes)
    (hr : Rep sl (pre ++ t :: post))
    (hlow : ∀ u ∈ post, u.virtualDeadline = t.virtualDeadline → u.nodes.length ≤ t.nodes.length)
    (hj : t.nodes.length ≤ j) (hlevels : j < sl.levels) (hp : prevNodes j = some p) :
    prevCell sl pre j = some p := by
  obtain ⟨found, hfind, hfound⟩ := hstands
  obtain ⟨found', hfind', hfound'⟩ := hr.exists_findPrev_low (by omega) sl.levels hlow
  obtain rfl : found = found' := Option.some.inj (hfind.symm.trans hfind')
  rcases hfound j hlevels hj with h | h
  · simp [h] at hp
  · rw [← hp, ← h, hfound' j hj, if_pos hlevels.le]

lemma SearchStands.exists_tie
    (hstands : SearchStands sl t.virtualDeadline t.nodes.length prevNodes)
    (hr : Rep sl (pre ++ t :: post)) (hlevels : t.nodes.length < sl.levels)
    (hp : prevNodes t.nodes.length = some p) {u : Tower P} (hu : u ∈ post)
    (hd : u.virtualDeadline = t.virtualDeadline) (hlen : t.nodes.length < u.nodes.length) :
    ∃ z ∈ post, z.virtualDeadline = t.virtualDeadline ∧ z.nodes[t.nodes.length]? = some p := by
  obtain ⟨found, hfind, hfound⟩ := hstands
  obtain ⟨ties, later, found', rfl, hties, hlater, hfind', hfound'⟩ :=
    hr.exists_findPrev_eq (by omega) sl.levels
  obtain rfl : found = found' := Option.some.inj (hfind.symm.trans hfind')
  have huties : u ∈ ties := by
    rcases List.mem_append.mp hu with h | h
    · exact h
    · exact absurd hd (hlater u h).ne'
  have hnode : u.nodes[t.nodes.length]? = some u.nodes[t.nodes.length] :=
    List.getElem?_eq_getElem hlen
  obtain ⟨b, l, hl⟩ := List.exists_cons_of_ne_nil
    (List.ne_nil_of_mem (mem_lane.mpr ⟨u, huties, hnode⟩))
  obtain ⟨h, hh⟩ := hr.exists_header hlevels
  have hpred : p = lastCell b l := by
    have hfound'' := (hfound _ hlevels le_rfl).resolve_left (by simp [hp])
    rw [hp, hfound' _ le_rfl, if_pos hlevels.le, hh, hl] at hfound''
    simpa using hfound''.symm
  obtain ⟨z, hz, hzp⟩ := mem_lane.mp (show p ∈ lane t.nodes.length ties by
    rw [hl, hpred]
    exact lastCell_mem b l)
  exact ⟨z, List.mem_append_left later hz, hties z hz, hzp⟩

lemma SearchStands.live (hstands : SearchStands sl t.virtualDeadline t.nodes.length prevNodes)
    (hr : Rep sl (pre ++ t :: post)) (hlevels : t.nodes.length < sl.levels)
    (hlow : ∀ u ∈ post, u.virtualDeadline = t.virtualDeadline → u.nodes.length ≤ t.nodes.length)
    (hp : prevNodes t.nodes.length = some p) : sl.mem p ≠ none := by
  obtain ⟨h, hh, hlast⟩ := Option.map_eq_some_iff.mp (hstands.prevCell_eq hr hlow le_rfl hlevels hp)
  rw [← hlast]
  exact hr.row_live hh (lastCell_mem_row h _ pre (t :: post))

/-- `insert_to_level` with a predecessor that stands raises the tower, and the predecessors on
the levels above still stand. -/
lemma SearchStands.raise {page : Ptr P} {mem : Mem P}
    (hstands : SearchStands sl t.virtualDeadline t.nodes.length prevNodes)
    (hr : Rep sl (pre ++ t :: post)) (hlevels : t.nodes.length < sl.levels)
    (hlow : ∀ u ∈ post, u.virtualDeadline = t.virtualDeadline → u.nodes.length ≤ t.nodes.length)
    (hp : prevNodes t.nodes.length = some p)
    (hins : insertToLevel sl.mem t.pid t.virtualDeadline p (t.below t.nodes.length) page = some (a, mem)) :
    Rep { sl with mem := mem } (pre ++ t.push a :: post) ∧
      SearchStands { sl with mem := mem } t.virtualDeadline (t.nodes.length + 1) prevNodes := by
  obtain ⟨hpage, hfree⟩ := insertToLevel_eq_some hins
  obtain ⟨h, hh, hlast⟩ := Option.map_eq_some_iff.mp (hstands.prevCell_eq hr hlow le_rfl hlevels hp)
  obtain ⟨mem', hins', hr', -⟩ := hr.raise hh hfree
  rw [hlast, ← hpage, hins] at hins'
  obtain rfl : mem = mem' := by simpa using hins'
  refine ⟨hr', ?_⟩
  have hpos : 0 < sl.levels := by omega
  obtain ⟨found, hfind, hfound⟩ := hr'.exists_findPrev_low hpos sl.levels (fun u hu hd => by
    have := hlow u hu hd
    simp only [Tower.push_nodes, List.length_append, List.length_singleton]
    omega)
  refine ⟨found, hfind, ?_⟩
  intro j hj hlen
  cases hpj : prevNodes j with
  | none => exact .inl rfl
  | some b =>
    right
    have hcell := hstands.prevCell_eq hr hlow (j := j) (by omega) hj hpj
    rw [hfound j (by simpa using hlen), if_pos (le_of_lt hj), ← hcell]
    rfl

end Xv6Bfs
