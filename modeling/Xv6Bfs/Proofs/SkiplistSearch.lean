import Xv6Bfs.Proofs.SkiplistLink

/-!
# The descents

Both `insert_node` and `delete_node` walk down the levels. Whatever part `pre` of the towers
has been passed on one level, the walk enters the next level at a node of `pre` or at the
header, so that the express lanes never skip a node that the lower levels need.
-/

namespace Xv6Bfs

open LinkedList List Option

variable {P : ℕ} {sl : Skiplist P} {ts pre post : List (Tower P)} {t : Tower P} {h c : Addr P}
  {k : ℕ} {d pid : ℤ} {mem : Mem P} {b : Addr P} {n : Node P}

def prevCell (sl : Skiplist P) (pre : List (Tower P)) (k : ℕ) : Ptr P :=
  sl.headers[k]?.map (fun h => lastCell h (lane k pre))

lemma lastCell_of_append {a : Addr P} {l u w : List (Addr P)} (hl : a :: l = u ++ c :: w) :
    lastCell c w = lastCell a l := by
  cases u with
  | nil =>
    obtain ⟨rfl, rfl⟩ := List.cons.inj hl
    rfl
  | cons b u =>
    obtain ⟨rfl, rfl⟩ := List.cons.inj hl
    exact (lastCell_append_cons a c u w).symm

lemma Rep.exists_path (hr : Rep sl (pre ++ post)) (hh : sl.headers[k]? = some h)
    (hc : c ∈ h :: lane k pre) :
    ∃ w, (∀ b ∈ w, b ∈ lane k pre) ∧ lastCell c w = lastCell h (lane k pre) ∧
      (c :: w ++ lane k post).Nodup ∧
      List.IsChain (fun a b => nextOf sl.mem a = some b) (c :: w ++ lane k post) := by
  obtain ⟨u, w, huw⟩ := append_of_mem hc
  have hlink := (hr.linked k h hh).isChain
  have hrow := hr.row_nodup hh
  rw [lane_append, ← cons_append, huw, append_assoc] at hlink hrow
  refine ⟨w, ?_, lastCell_of_append huw, hrow.of_append_right, hlink.right_of_append⟩
  intro b hb
  cases u with
  | nil =>
    obtain ⟨-, hw⟩ := List.cons.inj huw
    rwa [hw]
  | cons a u =>
    obtain ⟨-, hw⟩ := List.cons.inj huw
    rw [hw]
    exact mem_append_right u (mem_cons_of_mem c hb)

lemma Rep.exists_down (hr : Rep sl (pre ++ post)) {g : Addr P}
    (hg : sl.headers[k + 1]? = some g) (hh : sl.headers[k]? = some h)
    (hc : c ∈ g :: lane (k + 1) pre) :
    ∃ n b m, sl.mem c = some n ∧ n.forward = some b ∧ b ∈ h :: lane k pre ∧
      sl.mem b = some m ∧ m.pid = n.pid := by
  rcases mem_cons.mp hc with rfl | hc
  · obtain ⟨n, hn, hnpid, -, hforward⟩ := hr.exists_header_node hg
    obtain ⟨m, hm, hmpid, -⟩ := hr.exists_header_node hh
    exact ⟨n, h, m, hn, (hforward k rfl).trans hh, mem_cons_self, hm, hmpid.trans hnpid.symm⟩
  · obtain ⟨t, ht, hk⟩ := mem_lane.mp hc
    obtain ⟨n, hn, hnpid, -, hforward⟩ := hr.exists_node (mem_append_left post ht) hk
    have hlt : k < t.nodes.length := by
      have := (List.getElem?_eq_some_iff.mp hk).1
      omega
    have hnode : t.nodes[k]? = some t.nodes[k] := getElem?_eq_getElem hlt
    obtain ⟨m, hm, hmpid, -⟩ := hr.exists_node (mem_append_left post ht) hnode
    refine ⟨n, t.nodes[k], m, hn, hforward.trans hnode, ?_, hm, hmpid.trans hnpid.symm⟩
    exact mem_cons_of_mem h (mem_lane.mpr ⟨t, ht, hnode⟩)

lemma Rep.exists_forward (hr : Rep sl (pre ++ post)) {g : Addr P}
    (hg : sl.headers[k + 1]? = some g) (hh : sl.headers[k]? = some h) :
    ∃ n c, sl.mem (lastCell g (lane (k + 1) pre)) = some n ∧ n.forward = some c ∧ c ∈ h :: lane k pre := by
  obtain ⟨n, b, -, hn, hforward, hb, -⟩ := hr.exists_down hg hh (lastCell_mem g (lane (k + 1) pre))
  exact ⟨n, b, hn, hforward, hb⟩

lemma Rep.next_lastCell (hr : Rep sl (pre ++ post)) (hh : sl.headers[k]? = some h) :
    nextOf sl.mem (lastCell h (lane k pre)) = (lane k post).head? := by
  have hlink := hr.linked k h hh
  rw [lane_append] at hlink
  exact hlink.next_lastCell

/-! ### Insertion -/

lemma insertStep_eq {m : Node P} (hm : mem c = some m)
    (hb : nextOf mem b = some c) :
    insertStep mem d b = if d ≥ m.virtualDeadline then some (some c) else some none := by
  obtain ⟨n, hn, hnext⟩ := bind_eq_some_iff.mp hb
  simp [insertStep, hn, hnext, hm]

lemma insertStep_eq_of_next_none (hlive : mem b ≠ none)
    (hb : nextOf mem b = none) : insertStep mem d b = some none := by
  obtain ⟨n, hn⟩ := ne_none_iff_exists'.mp hlive
  have hnext : n.next = none := by simpa [nextOf, hn] using hb
  simp [insertStep, hn, hnext]

lemma Rep.chase_insertStep (hr : Rep sl (pre ++ post)) (hpre : ∀ u ∈ pre, u.virtualDeadline ≤ d)
    (hpost : ∀ u ∈ post, d < u.virtualDeadline) (hh : sl.headers[k]? = some h)
    (hc : c ∈ h :: lane k pre) :
    chase (insertStep sl.mem d) P c = some (lastCell h (lane k pre)) := by
  obtain ⟨w, hw, hlast, hnodup, hchain⟩ := hr.exists_path hh hc
  have hlen : w.length < P := by simpa using hnodup.of_append_left.length_le_card
  rw [← hlast]
  refine chase_of_isChain (hchain.left_of_append.imp_of_mem_tail_imp ?_) ?_ hlen
  · intro a b _ hb hab
    obtain ⟨t, ht, hk⟩ := mem_lane.mp (hw b hb)
    obtain ⟨m, hm, -, hvd, -⟩ := hr.exists_node (mem_append_left post ht) hk
    rw [insertStep_eq hm hab, if_pos (hvd ▸ hpre t ht)]
  · rw [hlast]
    have hnext := hr.next_lastCell hh
    cases hhead : (lane k post).head? with
    | none =>
      exact insertStep_eq_of_next_none (hr.row_live hh (lastCell_mem_row h k pre post))
        (hnext.trans hhead)
    | some b =>
      obtain ⟨t, ht, hk⟩ := mem_lane.mp (mem_of_mem_head? hhead)
      obtain ⟨m, hm, -, hvd, -⟩ := hr.exists_node (mem_append_right pre ht) hk
      have hlt := hpost t ht
      rw [insertStep_eq hm (hnext.trans hhead), if_neg (by omega)]

lemma Rep.searchPrev_eq (hr : Rep sl (pre ++ post)) (hpre : ∀ u ∈ pre, u.virtualDeadline ≤ d)
    (hpost : ∀ u ∈ post, d < u.virtualDeadline) (maxLevel : ℕ) (prevNodes : ℕ → Ptr P)
    (hk : k ≤ sl.levels) (currentNode : Ptr P)
    (hc : ∀ j h, k = j + 1 → sl.headers[j]? = some h → ∃ c, currentNode = some c ∧ c ∈ h :: lane j pre) :
    searchPrev sl.mem d maxLevel k currentNode prevNodes = some (fun j =>
      if j < k ∧ j ≤ maxLevel then prevCell sl pre j else prevNodes j) := by
  induction k generalizing currentNode prevNodes with
  | zero => simp [searchPrev]
  | succ k ih =>
    obtain ⟨h, hh⟩ := hr.exists_header (k := k) (by omega)
    obtain ⟨c, rfl, hcm⟩ := hc k h rfl hh
    have hchase := hr.chase_insertStep hpre hpost hh hcm
    have hcell : prevCell sl pre k = some (lastCell h (lane k pre)) := by simp [prevCell, hh]
    obtain ⟨n, hn⟩ := ne_none_iff_exists'.mp
      (hr.row_live hh (lastCell_mem_row h k pre post))
    have hdown : ∀ j g, k = j + 1 → sl.headers[j]? = some g →
        ∃ c, n.forward = some c ∧ c ∈ g :: lane j pre := by
      rintro j g rfl hg
      obtain ⟨n', c', hn', hforward, hc'⟩ := hr.exists_forward hh hg
      obtain rfl : n = n' := Option.some.inj (hn.symm.trans hn')
      exact ⟨c', hforward, hc'⟩
    simp only [searchPrev, bind_eq_bind, bind_some, hchase, hn]
    rw [ih _ (by omega) n.forward hdown]
    congr 1
    funext j
    by_cases hj : j = k
    · subst hj
      by_cases hm : j ≤ maxLevel <;> simp [hm, hcell]
    · have hjk : j < k + 1 ↔ j < k := by omega
      by_cases hm : k ≤ maxLevel <;> simp [hm, hj, hjk]

lemma Rep.findPrev_eq (hr : Rep sl (pre ++ post)) (hlevels : 0 < sl.levels)
    (hpre : ∀ u ∈ pre, u.virtualDeadline ≤ d) (hpost : ∀ u ∈ post, d < u.virtualDeadline)
    (maxLevel : ℕ) :
    findPrev sl d maxLevel = some (fun j => if j ≤ maxLevel then prevCell sl pre j else none) := by
  obtain ⟨top, htop⟩ := hr.exists_header (k := sl.levels - 1) (by omega)
  have hsearch := hr.searchPrev_eq hpre hpost maxLevel (fun _ => none) le_rfl (some top) (by
    intro j h hj hh
    obtain rfl : sl.levels - 1 = j := by omega
    exact ⟨top, rfl, by simp [Option.some.inj (hh.symm.trans htop)]⟩)
  simp only [findPrev, htop, bind_eq_bind, bind_some, hsearch]
  congr 1
  funext j
  by_cases hj : j < sl.levels
  · simp [hj]
  · have hnone : sl.headers[j]? = none := getElem?_eq_none (by rw [hr.length]; omega)
    simp [hj, prevCell, hnone]

/-! ### Deletion -/

lemma forwardStep_eq (hn : mem b = some n)
    (hlt : n.virtualDeadline < d) (hpid : n.pid ≠ pid) :
    forwardStep mem pid d b = some (nextOf mem b) := by
  have hle : ¬ d < n.virtualDeadline := by omega
  cases hnext : n.next <;> simp [forwardStep, nextOf, hn, hlt, hpid, hle, hnext]

lemma forwardStep_eq_of_le (hn : mem b = some n)
    (hle : d ≤ n.virtualDeadline) : forwardStep mem pid d b = some none := by
  have hlt : ¬ n.virtualDeadline < d := by omega
  simp [forwardStep, hn, hlt]

lemma backwardStep_eq (hn : mem b = some n)
    (hle : d ≤ n.virtualDeadline) (hc : prevOf mem b = some c) :
    backwardStep mem d b = some (some c) := by
  have hprev : n.prev = some c := by simpa [prevOf, hn] using hc
  simp [backwardStep, hn, hle, hprev]

lemma backwardStep_eq_of_lt (hn : mem b = some n)
    (hlt : n.virtualDeadline < d) : backwardStep mem d b = some none := by
  have hle : ¬ d ≤ n.virtualDeadline := by omega
  simp [backwardStep, hn, hle]

lemma forwardStep_eq_of_pid (hn : mem b = some n)
    (hpid : n.pid = pid) : forwardStep mem pid d b = some none := by
  simp [forwardStep, hn, hpid]

lemma Rep.exists_front (hr : Rep sl (pre ++ post)) (hd : 0 ≤ d)
    (hpre : ∀ u ∈ pre, u.virtualDeadline < d) (hh : sl.headers[k]? = some h)
    (hc : c ∈ h :: lane k pre) : ∃ n, sl.mem c = some n ∧ n.virtualDeadline < d := by
  rcases mem_cons.mp hc with rfl | hc
  · obtain ⟨n, hn, -, hvd, -⟩ := hr.exists_header_node hh
    exact ⟨n, hn, by omega⟩
  · obtain ⟨t, ht, hk⟩ := mem_lane.mp hc
    obtain ⟨n, hn, -, hvd, -⟩ := hr.exists_node (mem_append_left post ht) hk
    exact ⟨n, hn, hvd ▸ hpre t ht⟩

def Blocks (sl : Skiplist P) (pid : ℤ) (a : Addr P) : Prop :=
  ∃ n, sl.mem a = some n ∧ n.pid = pid

lemma Rep.chase_forwardStep (hr : Rep sl (pre ++ post)) (hd : 0 ≤ d)
    (hpre : ∀ u ∈ pre, u.virtualDeadline < d)
    (hpost : ∀ u ∈ post, d ≤ u.virtualDeadline) (hh : sl.headers[k]? = some h)
    (hc : c ∈ h :: lane k pre) :
    chase (forwardStep sl.mem pid d) P c = some ((lane k post).head?.getD (lastCell h (lane k pre))) ∨
      ∃ b ∈ h :: lane k pre, Blocks sl pid b ∧ chase (forwardStep sl.mem pid d) P c = some b := by
  obtain ⟨w, hw, hlast, hnodup, hchain⟩ := hr.exists_path hh hc
  have hrow : ∀ a ∈ c :: w, a ∈ h :: lane k pre := by
    intro a ha
    rcases mem_cons.mp ha with rfl | ha
    · exact hc
    · exact mem_cons_of_mem h (hw a ha)
  have hstep : ∀ a ∈ c :: w, (a ∈ h :: lane k pre ∧ Blocks sl pid a) ∧
      forwardStep sl.mem pid d a = some none ∨ forwardStep sl.mem pid d a = some (nextOf sl.mem a) := by
    intro a ha
    obtain ⟨n, hn, hlt⟩ := hr.exists_front hd hpre hh (hrow a ha)
    by_cases hpid : n.pid = pid
    · exact .inl ⟨⟨hrow a ha, n, hn, hpid⟩, forwardStep_eq_of_pid hn hpid⟩
    · exact .inr (forwardStep_eq hn hlt hpid)
  have hwalk : List.IsChain (fun a b => (a ∈ h :: lane k pre ∧ Blocks sl pid a) ∧
      forwardStep sl.mem pid d a = some none ∨ forwardStep sl.mem pid d a = some (some b)) (c :: w) :=
    hchain.left_of_append.imp_of_mem_imp (fun a b ha _ hab => by rw [← hab]; exact hstep a ha)
  have hnext := hr.next_lastCell hh
  rw [← hlast] at hnext ⊢
  cases hpk : lane k post with
  | nil =>
    have hlen : w.length < P := by simpa using hnodup.of_append_left.length_le_card
    have hstop : forwardStep sl.mem pid d (lastCell c w) = some none := by
      rcases hstep _ (lastCell_mem c w) with ⟨-, hstop⟩ | hstop
      · exact hstop
      · rw [hstop, hnext, hpk, head?_nil]
    rw [head?_nil, getD_none]
    rcases chase_of_isChain_or hwalk hstop hlen with hend | ⟨b, -, hb, hend⟩
    · exact .inl hend
    · exact .inr ⟨b, hb.1, hb.2, hend⟩
  | cons b l =>
    rw [hpk, head?_cons] at hnext
    have hbmem : b ∈ lane k post := by simp [hpk]
    obtain ⟨t, ht, hk⟩ := mem_lane.mp hbmem
    obtain ⟨n, hn, -, hvd, -⟩ := hr.exists_node (mem_append_right pre ht) hk
    have hlen : (w ++ [b]).length < P := by
      rw [hpk] at hnodup
      have hle := hnodup.length_le_card
      simp only [length_append, length_cons, Fintype.card_fin, length_nil] at hle ⊢
      omega
    have hbend : lastCell c (w ++ [b]) = b := by simp
    have hstop : forwardStep sl.mem pid d (lastCell c (w ++ [b])) = some none := by
      rw [hbend]
      exact forwardStep_eq_of_le hn (hvd ▸ hpost t ht)
    rw [head?_cons, getD_some]
    have hstepLast := hstep _ (lastCell_mem c w)
    rw [hnext] at hstepLast
    rcases chase_of_isChain_or (isChain_concat hwalk hstepLast) hstop hlen with
      hend | ⟨b', -, hb', hend⟩
    · exact .inl (by rw [hend, hbend])
    · exact .inr ⟨b', hb'.1, hb'.2, hend⟩

lemma Rep.chase_backwardStep (hr : Rep sl (pre ++ post)) (hd : 0 ≤ d)
    (hpre : ∀ u ∈ pre, u.virtualDeadline < d)
    (hpost : ∀ u ∈ post, d ≤ u.virtualDeadline) (hh : sl.headers[k]? = some h) :
    chase (backwardStep sl.mem d) P ((lane k post).head?.getD (lastCell h (lane k pre))) =
      some (lastCell h (lane k pre)) := by
  obtain ⟨n, hn, hlt⟩ := hr.exists_front hd hpre hh (lastCell_mem h (lane k pre))
  have hstop := backwardStep_eq_of_lt hn hlt
  have hlink := hr.linked k h hh
  have hrow := hr.row_nodup hh
  rw [lane_append] at hlink hrow
  cases hpk : lane k post with
  | nil =>
    have hpos : 0 < P := Fin.pos h
    exact chase_of_isChain (l := []) (List.IsChain.singleton _) hstop hpos
  | cons b l =>
    rw [hpk] at hlink hrow
    have hbmem : b ∈ lane k post := by simp [hpk]
    obtain ⟨t, ht, hk⟩ := mem_lane.mp hbmem
    obtain ⟨m, hm, -, hvd, -⟩ := hr.exists_node (mem_append_right pre ht) hk
    have hlen : 1 < P := by
      have hle := hrow.length_le_card
      simp only [length_cons, length_append, Fintype.card_fin] at hle
      omega
    rw [head?_cons, getD_some]
    have hback := backwardStep_eq hm (hvd ▸ hpost t ht) hlink.prev_of_append
    exact chase_of_isChain (l := [lastCell h (lane k pre)])
      (List.IsChain.cons_cons hback (List.IsChain.singleton _)) hstop hlen

lemma Rep.findNode_of_blocks (hr : Rep sl (pre ++ post)) (hd : 0 ≤ d)
    (hpre : ∀ u ∈ pre, u.virtualDeadline < d) (hk : k ≤ sl.levels) (currentNode : Ptr P)
    (hc : ∀ i h, k = i + 1 → sl.headers[i]? = some h →
      ∃ c, currentNode = some c ∧ c ∈ h :: lane i pre ∧ Blocks sl pid c) :
    findNode sl.mem pid d k currentNode = some none := by
  induction k generalizing currentNode with
  | zero => rfl
  | succ k ih =>
    obtain ⟨h, hh⟩ := hr.exists_header (k := k) (by omega)
    obtain ⟨c, rfl, hcm, n, hn, hpid⟩ := hc k h rfl hh
    have hpos : 0 < P := Fin.pos h
    obtain ⟨n', hn', hlt⟩ := hr.exists_front hd hpre hh hcm
    obtain rfl : n = n' := Option.some.inj (hn.symm.trans hn')
    have hforward : chase (forwardStep sl.mem pid d) P c = some c :=
      chase_of_isChain (l := []) (List.IsChain.singleton _) (forwardStep_eq_of_pid hn hpid) hpos
    have hbackward : chase (backwardStep sl.mem d) P c = some c :=
      chase_of_isChain (l := []) (List.IsChain.singleton _) (backwardStep_eq_of_lt hn hlt) hpos
    have hne : ¬ n.virtualDeadline = d := by omega
    simp only [findNode, bind_eq_bind, bind_some, hforward, hn, hne, and_false, if_false,
      hbackward]
    refine ih (by omega) n.forward ?_
    rintro i g rfl hg
    obtain ⟨n', b, m, hn', hdown, hb, hm, hmpid⟩ := hr.exists_down hh hg hcm
    obtain rfl : n = n' := Option.some.inj (hn.symm.trans hn')
    exact ⟨b, hdown, hb, m, hm, hmpid.trans hpid⟩

lemma head_lane_of_head_lane {us : List (Tower P)} {j i : ℕ} {a b : Addr P}
    (hnodup : (us.flatMap Tower.nodes).Nodup) (ht : t ∈ us) (ha : t.nodes[j]? = some a)
    (hhead : (lane j us).head? = some a) (hji : j ≤ i) (hb : t.nodes[i]? = some b) :
    (lane i us).head? = some b := by
  induction us with
  | nil => simp at ht
  | cons u us ih =>
    rw [flatMap_cons, nodup_append] at hnodup
    rw [lane_cons] at hhead ⊢
    cases huj : u.nodes[j]? with
    | none =>
      have hui : u.nodes[i]? = none := by
        rw [getElem?_eq_none_iff] at huj ⊢
        omega
      have hne : t ≠ u := by
        rintro rfl
        simp [huj] at ha
      rw [huj] at hhead
      rw [hui]
      exact ih hnodup.2.1 ((mem_cons.mp ht).resolve_left hne) hhead
    | some a' =>
      rw [huj] at hhead
      obtain rfl : a' = a := by simpa using hhead
      rcases mem_cons.mp ht with rfl | ht
      · simp [hb]
      · exact absurd rfl (hnodup.2.2 a' (mem_of_getElem? huj) a'
          (mem_flatMap.mpr ⟨t, ht, mem_of_getElem? ha⟩))

/-- What the search of `delete_node` finds: the top node of a tower with the pid and the deadline
looked for that comes first among those not earlier on this level, or nothing. The latter is
because of an earlier node with this pid, or because no such tower comes first on any level. -/
lemma Rep.findNode_cases (hr : Rep sl (pre ++ post)) (hd : 0 ≤ d)
    (hpre : ∀ u ∈ pre, u.virtualDeadline < d) (hpost : ∀ u ∈ post, d ≤ u.virtualDeadline)
    (hk : k ≤ sl.levels) (currentNode : Ptr P)
    (hc : ∀ i h, k = i + 1 → sl.headers[i]? = some h → ∃ c, currentNode = some c ∧ c ∈ h :: lane i pre)
    (habove : ∀ u ∈ post, u.entry = (pid, d) → ∀ i a, k ≤ i → u.nodes[i]? = some a →
      (lane i post).head? ≠ some a) :
    findNode sl.mem pid d k currentNode = some none ∧
        ((∃ i h b, sl.headers[i]? = some h ∧ b ∈ h :: lane i pre ∧ Blocks sl pid b) ∨
          ∀ u ∈ post, u.entry = (pid, d) → ∀ i a, u.nodes[i]? = some a → (lane i post).head? ≠ some a) ∨
      ∃ u ∈ post, ∃ a j, u.entry = (pid, d) ∧ u.nodes.length = j + 1 ∧ u.nodes[j]? = some a ∧
        (lane j post).head? = some a ∧ findNode sl.mem pid d k currentNode = some (some (a, j)) := by
  induction k generalizing currentNode with
  | zero => exact .inl ⟨rfl, .inr (fun u hu hentry i a => habove u hu hentry i a (Nat.zero_le i))⟩
  | succ k ih =>
    obtain ⟨h, hh⟩ := hr.exists_header (k := k) (by omega)
    obtain ⟨c, rfl, hcm⟩ := hc k h rfl hh
    have hwalk : _ ∨ ∃ b ∈ h :: lane k pre, Blocks sl pid b ∧ _ :=
      hr.chase_forwardStep hd hpre hpost hh hcm
    rcases hwalk with hforward | ⟨b, hb, ⟨n, hn, hpid⟩, hforward⟩
    · obtain ⟨m, hm⟩ := ne_none_iff_exists'.mp
        (hr.row_live hh (lastCell_mem_row h k pre post))
      have hbackward := hr.chase_backwardStep hd hpre hpost hh
      have hdown : ∀ i g, k = i + 1 → sl.headers[i]? = some g →
          ∃ c, m.forward = some c ∧ c ∈ g :: lane i pre := by
        rintro i g rfl hg
        obtain ⟨m', c', hm', hdown, hc'⟩ := hr.exists_forward hh hg
        obtain rfl : m = m' := Option.some.inj (hm.symm.trans hm')
        exact ⟨c', hdown, hc'⟩
      simp only [findNode, bind_eq_bind, bind_some, hforward]
      cases hhead : (lane k post).head? with
      | none =>
        obtain ⟨m', hm', hlt⟩ := hr.exists_front hd hpre hh (lastCell_mem h (lane k pre))
        obtain rfl : m = m' := Option.some.inj (hm.symm.trans hm')
        have hne : ¬ m.virtualDeadline = d := by omega
        rw [hhead] at hbackward
        simp only [getD_none] at hbackward ⊢
        simp only [hm, bind_some, hne, and_false, if_false, hbackward]
        refine ih (by omega) m.forward hdown ?_
        intro u hu hentry i a hki ha
        rcases Nat.eq_or_lt_of_le hki with rfl | hlt
        · simp [hhead]
        · exact habove u hu hentry i a hlt ha
      | some b =>
        obtain ⟨u, hu, hub⟩ := mem_lane.mp (mem_of_mem_head? hhead)
        obtain ⟨n, hn, hnpid, hnvd, -⟩ := hr.exists_node (mem_append_right pre hu) hub
        rw [hhead] at hbackward
        simp only [getD_some] at hbackward ⊢
        by_cases hfound : n.pid = pid ∧ n.virtualDeadline = d
        · -- a node above this one would have been found before
          have hentry : u.entry = (pid, d) := by
            rw [Tower.entry, ← hnpid, ← hnvd, hfound.1, hfound.2]
          have hlen : u.nodes.length = k + 1 := by
            have hlt := (List.getElem?_eq_some_iff.mp hub).1
            by_contra hne
            have htop : u.nodes[k + 1]? = some u.nodes[k + 1] := getElem?_eq_getElem (by omega)
            have hnodup : (post.flatMap Tower.nodes).Nodup := by
              have := hr.nodes_nodup
              rw [flatMap_append] at this
              exact this.of_append_right
            exact habove u hu hentry (k + 1) _ le_rfl htop
              (head_lane_of_head_lane hnodup hu hub hhead (by omega) htop)
          refine .inr ⟨u, hu, b, k, hentry, hlen, hub, hhead, ?_⟩
          simp [hn, hfound]
        · simp only [hn, bind_some, if_neg hfound, hbackward, hm]
          refine ih (by omega) m.forward hdown ?_
          intro v hv hentry i a hki ha hheadv
          rcases Nat.eq_or_lt_of_le hki with rfl | hlt
          · obtain rfl : b = a := Option.some.inj (hhead.symm.trans hheadv)
            obtain ⟨n', hn', hpid', hvd', -⟩ := hr.exists_node (mem_append_right pre hv) ha
            obtain rfl : n = n' := Option.some.inj (hn.symm.trans hn')
            obtain ⟨rfl, rfl⟩ := Prod.mk.inj hentry
            exact hfound ⟨hpid', hvd'⟩
          · exact habove v hv hentry i a hlt ha hheadv
    · refine .inl ⟨?_, .inl ⟨k, h, b, hh, hb, n, hn, hpid⟩⟩
      have hstay : chase (forwardStep sl.mem pid d) P b = some b :=
        chase_of_isChain (l := []) (List.IsChain.singleton _) (forwardStep_eq_of_pid hn hpid) (Fin.pos h)
      have hsame : findNode sl.mem pid d (k + 1) (some c) = findNode sl.mem pid d (k + 1) (some b) := by
        simp only [findNode, bind_eq_bind, bind_some, hforward, hstay]
      rw [hsame]
      refine hr.findNode_of_blocks hd hpre hk (some b) ?_
      rintro i g ⟨⟩ hg
      obtain rfl : h = g := Option.some.inj (hh.symm.trans hg)
      exact ⟨b, rfl, hb, n, hn, hpid⟩

end Xv6Bfs
