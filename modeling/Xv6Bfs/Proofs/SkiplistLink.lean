import Xv6Bfs.Proofs.SkiplistRep

/-!
# Linking and unlinking one node

`insert_to_level` raises a tower by one level and a round of `delete_from_levels` lowers it
by one. A tower without nodes is in no level, so inserting a process amounts to adding an
empty tower at its place and raising it, and deleting it to lowering its tower until it is
empty.
-/

namespace Xv6Bfs

open LinkedList List Option

variable {P : ℕ} {sl : Skiplist P} {ts pre post : List (Tower P)} {t : Tower P} {h a p : Addr P}

/-! ### The memory after a link and after an unlink -/

/-- Only the links of the new node and of its neighbours change. -/
lemma insertToLevel_spec {mem : Mem P} {pn : Node P} (pid vd : ℤ) (forward : Ptr P)
    (hp : mem p = some pn) (ha : mem a = none)
    (hn : ∀ n ∈ pn.next, mem n ≠ none ∧ n ≠ p) :
    ∃ mem', insertToLevel mem pid vd p forward (some a) = some (a, mem') ∧
      (∀ c, nextOf mem' c = if c = a then pn.next else if c = p then some a else nextOf mem c) ∧
      (∀ c, prevOf mem' c = if c = a then some p else if c ∈ pn.next then some a else prevOf mem c) ∧
      (∀ c, (mem' c).map Node.payload = if c = a then some (pid, vd, forward)
        else (mem c).map Node.payload) := by
  have hpa : p ≠ a := by
    rintro rfl
    simp [hp] at ha
  have halloc : kalloc mem (some a) = some a := by simp [kalloc, ha]
  cases hnext : pn.next with
  | none =>
    refine ⟨_, by simp [insertToLevel, halloc, hp, setNext, hnext]; rfl, ?_, ?_, ?_⟩
    all_goals
      intro c
      by_cases hca : c = a
      · subst hca
        simp [nextOf, prevOf, Node.payload]
      · by_cases hcp : c = p
        · subst hcp
          simp [nextOf, prevOf, Node.payload, hca, hp]
        · simp [nextOf, prevOf, hca, hcp]
  | some n =>
    obtain ⟨hlive, hnp⟩ := hn n hnext
    obtain ⟨nn, hnn⟩ := ne_none_iff_exists'.mp hlive
    have hna : n ≠ a := by
      rintro rfl
      exact hlive ha
    refine ⟨_, by simp [insertToLevel, halloc, hp, setNext, setPrev, hnext, hna, hnp, hnn]; rfl,
      ?_, ?_, ?_⟩
    all_goals
      intro c
      by_cases hcn : c = n
      · subst hcn
        simp [nextOf, prevOf, Node.payload, hna, hnp, hnn]
      · have hcn' : ¬ n = c := fun hc => hcn hc.symm
        by_cases hca : c = a
        · subst hca
          simp [nextOf, prevOf, Node.payload, hcn]
        · by_cases hcp : c = p
          · subst hcp
            simp [nextOf, prevOf, Node.payload, hca, hcn, hcn', hp]
          · simp [nextOf, prevOf, hca, hcp, hcn, hcn']

lemma insertToLevel_eq_some {mem mem' : Mem P} {pid vd : ℤ} {forward page : Ptr P}
    (hi : insertToLevel mem pid vd p forward page = some (a, mem')) :
    page = some a ∧ mem a = none := by
  simp only [insertToLevel, kalloc, bind_eq_bind, bind_eq_some_iff,
    filter_eq_some_iff] at hi
  obtain ⟨b, ⟨hb, hfree⟩, prev, -, m, -, hi⟩ := hi
  have hab : b = a := by
    cases hnext : prev.next with
    | none =>
      rw [hnext] at hi
      simp only [Option.some.injEq, Prod.mk.injEq] at hi
      exact hi.1
    | some n =>
      rw [hnext] at hi
      simp only [bind_eq_some_iff, Option.some.injEq, Prod.mk.injEq] at hi
      obtain ⟨_, -, hi, -⟩ := hi
      exact hi
  subst hab
  exact ⟨hb, by simpa using hfree⟩

lemma deleteFromLevels_succ {mem : Mem P} {an pn : Node P} (fuel : ℕ)
    (ha : mem a = some an) (hprev : an.prev = some p) (hp : mem p = some pn) (hpa : p ≠ a)
    (hn : ∀ n ∈ an.next, mem n ≠ none ∧ n ≠ p ∧ n ≠ a) :
    ∃ mem', deleteFromLevels (fuel + 1) (some a) mem = deleteFromLevels fuel an.forward mem' ∧
      mem' a = none ∧
      (∀ c, c ≠ a → nextOf mem' c = if c = p then an.next else nextOf mem c) ∧
      (∀ c, c ≠ a → prevOf mem' c = if c ∈ an.next then some p else prevOf mem c) ∧
      (∀ c, c ≠ a → (mem' c).map Node.payload = (mem c).map Node.payload) := by
  cases hnext : an.next with
  | none =>
    refine ⟨_, by simp [deleteFromLevels, ha, hprev, hp, setNext, hnext]; rfl, ?_, ?_, ?_, ?_⟩
    · simp [kfree]
    all_goals
      intro c hca
      by_cases hcp : c = p
      · subst hcp
        simp [kfree, nextOf, prevOf, Node.payload, hca, hp]
      · simp [kfree, nextOf, prevOf, hca, hcp]
  | some n =>
    obtain ⟨hlive, hnp, hna⟩ := hn n hnext
    obtain ⟨nn, hnn⟩ := ne_none_iff_exists'.mp hlive
    refine ⟨_, by simp [deleteFromLevels, ha, hprev, hp, setNext, setPrev, hnext, hnp, hnn]; rfl,
      ?_, ?_, ?_, ?_⟩
    · simp [kfree]
    all_goals
      intro c hca
      by_cases hcn : c = n
      · subst hcn
        simp [kfree, nextOf, prevOf, Node.payload, hnp, hca, hnn]
      · have hcn' : ¬ n = c := fun hc => hcn hc.symm
        by_cases hcp : c = p
        · subst hcp
          simp [kfree, nextOf, prevOf, Node.payload, hca, hcn, hcn', hp]
        · simp [kfree, nextOf, prevOf, hca, hcp, hcn, hcn']

/-! ### Towers that grow and shrink -/

lemma lane_push_of_ne {k : ℕ} (hk : k ≠ t.nodes.length) :
    lane k (pre ++ t.push a :: post) = lane k (pre ++ t :: post) := by
  have hnode : (t.nodes ++ [a])[k]? = t.nodes[k]? := by
    rcases Nat.lt_or_gt_of_ne hk with hlt | hgt
    · exact getElem?_append_left hlt
    · rw [getElem?_eq_none (by simpa using hgt), getElem?_eq_none (by omega)]
  simp only [lane_append, lane_cons, Tower.push_nodes, hnode]

lemma lane_push_length : lane t.nodes.length (pre ++ t.push a :: post) =
    lane t.nodes.length pre ++ a :: lane t.nodes.length post := by
  simp [lane_cons]

lemma lane_length : lane t.nodes.length (pre ++ t :: post) =
    lane t.nodes.length pre ++ lane t.nodes.length post := by
  simp [lane_cons]

lemma flatMap_push_perm : ((pre ++ t.push a :: post).flatMap Tower.nodes).Perm
    (a :: (pre ++ t :: post).flatMap Tower.nodes) := by
  simp only [flatMap_append, flatMap_cons, Tower.push_nodes, append_assoc, singleton_append]
  rw [← append_assoc, ← append_assoc]
  exact perm_middle

lemma sorted_push : (pre ++ t.push a :: post).Pairwise
      (fun t u => t.virtualDeadline ≤ u.virtualDeadline) ↔
    (pre ++ t :: post).Pairwise (fun t u => t.virtualDeadline ≤ u.virtualDeadline) := by
  simp [pairwise_append]

lemma mem_push_iff {u : Tower P} (hu : u ∈ pre ++ t.push a :: post) :
    u = t.push a ∨ u ∈ pre ++ t :: post := by
  simp only [mem_append, mem_cons] at hu ⊢
  tauto

lemma lastCell_mem_row (h : Addr P) (k : ℕ) (pre post : List (Tower P)) :
    lastCell h (lane k pre) ∈ h :: lane k (pre ++ post) := by
  have hmem := lastCell_mem h (lane k pre)
  rw [lane_append]
  simp only [mem_cons, mem_append] at hmem ⊢
  tauto

lemma Rep.of_relinked {ts' : List (Tower P)} {mem' : Mem P} {k : ℕ} (hr : Rep sl ts)
    (hh : sl.headers[k]? = some h)
    (hnodup : (sl.headers ++ ts'.flatMap Tower.nodes).Nodup)
    (hpay : ∀ g ∈ sl.headers, (mem' g).map Node.payload = (sl.mem g).map Node.payload)
    (htower : ∀ t ∈ ts', ∀ j c, t.nodes[j]? = some c →
      (mem' c).map Node.payload = some (t.pid, t.virtualDeadline, t.below j))
    (hframe : ∀ c, sl.mem c ≠ none → c ∉ h :: lane k ts →
      nextOf mem' c = nextOf sl.mem c ∧ prevOf mem' c = prevOf sl.mem c)
    (hprev : prevOf mem' h = none) (hlane : ∀ j, j ≠ k → lane j ts' = lane j ts)
    (hlinked : LinkedList.Linked (nextOf mem') (prevOf mem') h (lane k ts'))
    (hheight : ∀ t ∈ ts', t.nodes.length ≤ sl.levels)
    (hsorted : ts'.Pairwise (fun t u => t.virtualDeadline ≤ u.virtualDeadline)) :
    Rep { sl with mem := mem' } ts' := by
  have hother : ∀ j g, j ≠ k → sl.headers[j]? = some g → ∀ c ∈ g :: lane j ts,
      nextOf mem' c = nextOf sl.mem c ∧ prevOf mem' c = prevOf sl.mem c := fun j g hj hg c hc =>
    hframe c (hr.row_live hg hc) (hr.row_disjoint hj hg hh hc)
  refine ⟨hr.length, hnodup, ?_, ?_, htower, ?_, hheight, hsorted⟩
  · intro j g hg
    obtain ⟨f, hf, hbelow⟩ := hr.header j g hg
    exact ⟨f, (hpay g (mem_of_getElem? hg)).trans hf, hbelow⟩
  · intro g hg
    obtain ⟨j, hj⟩ := mem_iff_getElem?.mp hg
    by_cases hjk : j = k
    · rw [hjk, hh] at hj
      rwa [← Option.some.inj hj]
    · exact (hother j g hjk hj g (by simp)).2.trans (hr.headerPrev g hg)
  · intro j g hg
    by_cases hjk : j = k
    · subst hjk
      rwa [← Option.some.inj (hh.symm.trans hg)]
    · rw [hlane j hjk]
      refine (hr.linked j g hg).congr ?_ ?_
      · exact fun c hc => (hother j g hjk hg c hc).1
      · exact fun c hc => (hother j g hjk hg c (mem_cons_of_mem g hc)).2

lemma push_payload {mem' : Mem P} {k : ℕ} {c : Addr P} (hc : (t.push a).nodes[k]? = some c)
    (hold : ∀ j d, t.nodes[j]? = some d →
      (mem' d).map Node.payload = some (t.pid, t.virtualDeadline, t.below j))
    (hnew : (mem' a).map Node.payload = some (t.pid, t.virtualDeadline, t.below t.nodes.length)) :
    (mem' c).map Node.payload = some ((t.push a).pid, (t.push a).virtualDeadline, (t.push a).below k) := by
  by_cases hk : k < t.nodes.length
  · rw [Tower.push_nodes, getElem?_append_left hk] at hc
    rw [hold k c hc, t.push_below a hk.le]
    rfl
  · have hlen := (List.getElem?_eq_some_iff.mp hc).1
    simp only [Tower.push_nodes, length_append, length_singleton] at hlen
    obtain rfl : k = t.nodes.length := by omega
    obtain rfl : a = c := by simpa using hc
    rw [hnew, t.push_below a le_rfl]
    rfl

/-- Linking a new node on the lowest level that a tower does not reach yet. -/
theorem Rep.raise (hr : Rep sl (pre ++ t :: post)) (hh : sl.headers[t.nodes.length]? = some h)
    (ha : sl.mem a = none) :
    ∃ mem', insertToLevel sl.mem t.pid t.virtualDeadline (lastCell h (lane t.nodes.length pre))
        (t.below t.nodes.length) (some a) = some (a, mem') ∧
      Rep { sl with mem := mem' } (pre ++ t.push a :: post) ∧
      ∀ c, mem' c = none ↔ c ≠ a ∧ sl.mem c = none := by
  have hrow := hr.row_nodup hh
  have hlink := hr.linked _ h hh
  rw [lane_length] at hrow hlink
  have hpmem := lastCell_mem_row h t.nodes.length pre (t :: post)
  obtain ⟨pn, hp⟩ := ne_none_iff_exists'.mp (hr.row_live hh hpmem)
  have hnext : pn.next = (lane t.nodes.length post).head? := by
    simpa [nextOf, hp] using hlink.next_lastCell
  have hnmem : ∀ n ∈ pn.next, n ∈ lane t.nodes.length (pre ++ t :: post) := by
    intro n hn
    rw [lane_length]
    exact mem_append_right _ (mem_of_mem_head? (hnext ▸ hn))
  have hnp : ∀ n ∈ pn.next, n ≠ lastCell h (lane t.nodes.length pre) := by
    rintro n hn rfl
    rw [← cons_append, nodup_append] at hrow
    exact hrow.2.2 _ (lastCell_mem h _) _ (mem_of_mem_head? (hnext ▸ hn)) rfl
  have hfresh : ∀ c, sl.mem c ≠ none → c ≠ a := by
    rintro c hc rfl
    exact hc ha
  have hnlive : ∀ n ∈ pn.next, sl.mem n ≠ none := fun n hn =>
    hr.row_live hh (mem_cons_of_mem h (hnmem n hn))
  obtain ⟨mem', heq, hn', hp', hpay'⟩ := insertToLevel_spec t.pid t.virtualDeadline
    (t.below t.nodes.length) hp ha (fun n hn => ⟨hnlive n hn, hnp n hn⟩)
  have hkeep : ∀ u ∈ pre ++ t :: post, ∀ j c, u.nodes[j]? = some c →
      (mem' c).map Node.payload = some (u.pid, u.virtualDeadline, u.below j) := by
    intro u hu j c hc
    have hlive := hr.live (mem_append_right sl.headers (mem_flatMap.mpr ⟨u, hu, mem_of_getElem? hc⟩))
    rw [hpay' c, if_neg (hfresh c hlive)]
    exact hr.tower u hu j c hc
  refine ⟨mem', heq, hr.of_relinked hh ?_ ?_ ?_ ?_ ?_ ?_ ?_ ?_ (sorted_push.mpr hr.sorted), ?_⟩
  · have hperm : (sl.headers ++ (pre ++ t.push a :: post).flatMap Tower.nodes).Perm
        (a :: (sl.headers ++ (pre ++ t :: post).flatMap Tower.nodes)) :=
      (flatMap_push_perm.append_left _).trans perm_middle
    exact hperm.nodup_iff.mpr (nodup_cons.mpr ⟨fun hm => hr.live hm ha, hr.nodup⟩)
  · intro g hg
    rw [hpay' g, if_neg (hfresh g (hr.live (mem_append_left _ hg)))]
  · intro u hu j c hc
    rcases mem_push_iff hu with rfl | hu
    · exact push_payload hc (hkeep t (by simp)) (by rw [hpay', if_pos rfl])
    · exact hkeep u hu j c hc
  · intro c hc hcrow
    have hcp : c ≠ lastCell h (lane t.nodes.length pre) := fun hcp => hcrow (hcp ▸ hpmem)
    have hcn : c ∉ pn.next := fun hcn => hcrow (mem_cons_of_mem h (hnmem c hcn))
    rw [hn', hp', if_neg (hfresh c hc), if_neg (hfresh c hc), if_neg hcp, if_neg hcn]
    exact ⟨rfl, rfl⟩
  · have hhead := mem_of_getElem? hh
    have hhn : h ∉ pn.next := fun hn => hr.header_not_mem_lane hhead (hnmem h hn)
    rw [hp', if_neg (hfresh h (hr.row_live hh (by simp))), if_neg hhn]
    exact hr.headerPrev h hhead
  · exact fun j hj => lane_push_of_ne hj
  · rw [lane_push_length]
    have hpa := hfresh _ (hr.row_live hh hpmem)
    refine hlink.splice hrow ?_ ?_ ?_ ?_ ?_ ?_ ?_
    · intro hm
      rw [← lane_length] at hm
      exact hr.row_live hh hm ha
    · rw [hn', if_neg hpa, if_pos rfl]
    · rw [hn', if_pos rfl, hnext]
    · rw [hp', if_pos rfl]
    · intro n hn
      rw [← hnext] at hn
      rw [hp', if_neg (hfresh n (hnlive n hn)), if_pos hn]
    · intro c hca hcp
      rw [hn', if_neg hca, if_neg hcp]
    · intro c hca hcn
      rw [hp', if_neg hca, if_neg (hnext ▸ hcn)]
  · intro u hu
    rcases mem_push_iff hu with rfl | hu
    · have hlt := (List.getElem?_eq_some_iff.mp hh).1
      simpa [← hr.length] using hlt
    · exact hr.height u hu
  · intro c
    rw [← map_eq_none_iff, hpay']
    by_cases hca : c = a <;> simp [hca]

theorem Rep.lower (hr : Rep sl (pre ++ t.push a :: post)) (fuel : ℕ) :
    ∃ mem', deleteFromLevels (fuel + 1) (some a) sl.mem =
        deleteFromLevels fuel (t.below t.nodes.length) mem' ∧
      Rep { sl with mem := mem' } (pre ++ t :: post) ∧
      (∀ c, mem' c = none ↔ c = a ∨ sl.mem c = none) ∧
      ∀ c, c ≠ a → (mem' c).map Node.payload = (sl.mem c).map Node.payload := by
  have hlen : t.nodes.length < sl.levels := by
    have := hr.height (t.push a) (by simp)
    simpa using this
  obtain ⟨h, hh⟩ := hr.exists_header hlen
  have hrow := hr.row_nodup hh
  have hlink := hr.linked _ h hh
  have hpmem := lastCell_mem_row h t.nodes.length pre (t.push a :: post)
  have hamem : a ∈ lane t.nodes.length (pre ++ t.push a :: post) := by
    rw [lane_push_length]
    simp
  obtain ⟨pn, hp⟩ := ne_none_iff_exists'.mp (hr.row_live hh hpmem)
  obtain ⟨an, han, -, -, hforward⟩ := hr.exists_node (t := t.push a) (k := t.nodes.length)
    (by simp) (a := a) (by simp)
  rw [t.push_below a le_rfl] at hforward
  rw [lane_push_length] at hrow hlink
  have hnext : an.next = (lane t.nodes.length post).head? := by
    simpa [nextOf, han] using hlink.next_of_append
  have hprev : an.prev = some (lastCell h (lane t.nodes.length pre)) := by
    simpa [prevOf, han] using hlink.prev_of_append
  have hnmem : ∀ n ∈ an.next, n ∈ lane t.nodes.length (pre ++ t.push a :: post) := by
    intro n hn
    rw [lane_push_length]
    exact mem_append_right _ (mem_cons_of_mem a (mem_of_mem_head? (hnext ▸ hn)))
  rw [← cons_append, nodup_append, nodup_cons] at hrow
  have hpa : lastCell h (lane t.nodes.length pre) ≠ a :=
    hrow.2.2 _ (lastCell_mem h _) a (by simp)
  have hnp : ∀ n ∈ an.next, n ≠ lastCell h (lane t.nodes.length pre) ∧ n ≠ a := by
    intro n hn
    have hpost := mem_of_mem_head? (hnext ▸ hn)
    constructor
    · rintro rfl
      exact hrow.2.2 _ (lastCell_mem h _) _ (mem_cons_of_mem a hpost) rfl
    · rintro rfl
      exact (nodup_cons.mp hrow.2.1).1 hpost
  obtain ⟨mem', heq, hfree, hn', hp', hpay'⟩ := deleteFromLevels_succ fuel han hprev hp hpa
    (fun n hn => ⟨hr.row_live hh (mem_cons_of_mem h (hnmem n hn)), hnp n hn⟩)
  rw [hforward] at heq
  have hperm : (sl.headers ++ (pre ++ t.push a :: post).flatMap Tower.nodes).Perm
      (a :: (sl.headers ++ (pre ++ t :: post).flatMap Tower.nodes)) :=
    (flatMap_push_perm.append_left _).trans perm_middle
  have hnodup := nodup_cons.mp (hperm.nodup_iff.mp hr.nodup)
  have hne : ∀ c ∈ sl.headers ++ (pre ++ t :: post).flatMap Tower.nodes, c ≠ a := by
    rintro c hc rfl
    exact hnodup.1 hc
  refine ⟨mem', heq, hr.of_relinked hh hnodup.2 ?_ ?_ ?_ ?_ ?_ ?_ ?_ (sorted_push.mp hr.sorted), ?_, hpay'⟩
  · exact fun g hg => hpay' g (hne g (mem_append_left _ hg))
  · intro u hu j c hc
    have hca := hne c (mem_append_right _ (mem_flatMap.mpr ⟨u, hu, mem_of_getElem? hc⟩))
    rw [hpay' c hca]
    by_cases hut : u = t
    · subst hut
      have hj := (List.getElem?_eq_some_iff.mp hc).1
      rw [hr.tower (u.push a) (by simp) j c (by rwa [Tower.push_nodes,
        getElem?_append_left hj]), u.push_below a hj.le]
      rfl
    · refine hr.tower u ?_ j c hc
      simp only [mem_append, mem_cons] at hu ⊢
      tauto
  · intro c hc hcrow
    have hca : c ≠ a := fun hca => hcrow (mem_cons_of_mem h (hca ▸ hamem))
    have hcp : c ≠ lastCell h (lane t.nodes.length pre) := fun hcp => hcrow (hcp ▸ hpmem)
    have hcn : c ∉ an.next := fun hcn => hcrow (mem_cons_of_mem h (hnmem c hcn))
    rw [hn' c hca, hp' c hca, if_neg hcp, if_neg hcn]
    exact ⟨rfl, rfl⟩
  · have hhead := mem_of_getElem? hh
    have hha : h ≠ a := hne h (mem_append_left _ hhead)
    have hhn : h ∉ an.next := fun hn => hr.header_not_mem_lane hhead (hnmem h hn)
    rw [hp' h hha, if_neg hhn]
    exact hr.headerPrev h hhead
  · exact fun j hj => (lane_push_of_ne hj).symm
  · rw [lane_length]
    refine hlink.unsplice ?_ ?_ ?_ ?_ ?_
    · rw [← cons_append, nodup_append, nodup_cons]
      exact hrow
    · rw [hn' _ hpa, if_pos rfl, hnext]
    · intro n hn
      rw [← hnext] at hn
      rw [hp' n (hnp n hn).2, if_pos hn]
    · intro c hca hcp
      rw [hn' c hca, if_neg hcp]
    · intro c hca hcn
      rw [hp' c hca, if_neg (hnext ▸ hcn)]
  · intro u hu
    by_cases hut : u = t
    · exact hut ▸ hlen.le
    · refine hr.height u ?_
      simp only [mem_append, mem_cons] at hu ⊢
      tauto
  · intro c
    by_cases hca : c = a
    · simp [hca, hfree]
    · rw [← map_eq_none_iff, hpay' c hca]
      simp [hca]

lemma Rep.of_nodes_nil (ht : t.nodes = []) (hr : Rep sl (pre ++ t :: post)) : Rep sl (pre ++ post) := by
  have hlane : ∀ k, lane k (pre ++ t :: post) = lane k (pre ++ post) := by
    intro k
    simp [lane_cons, ht]
  have hsub : (pre ++ post).Sublist (pre ++ t :: post) := (sublist_cons_self t post).append_left _
  refine ⟨hr.length, ?_, hr.header, hr.headerPrev, fun u hu => hr.tower u (hsub.subset hu), ?_,
    fun u hu => hr.height u (hsub.subset hu), hr.sorted.sublist hsub⟩
  · simpa [ht] using hr.nodup
  · exact fun k h hh => hlane k ▸ hr.linked k h hh

lemma Rep.insert_nodes_nil (ht : t.nodes = []) (hr : Rep sl (pre ++ post))
    (hpre : ∀ u ∈ pre, u.virtualDeadline ≤ t.virtualDeadline)
    (hpost : ∀ u ∈ post, t.virtualDeadline ≤ u.virtualDeadline) : Rep sl (pre ++ t :: post) := by
  have hlane : ∀ k, lane k (pre ++ t :: post) = lane k (pre ++ post) := by
    intro k
    simp [lane_cons, ht]
  have hmem : ∀ u ∈ pre ++ t :: post, u = t ∨ u ∈ pre ++ post := by
    intro u hu
    simp only [mem_append, mem_cons] at hu ⊢
    tauto
  refine ⟨hr.length, by simpa [ht] using hr.nodup, hr.header, hr.headerPrev, ?_, ?_, ?_, ?_⟩
  · intro u hu k a hk
    rcases hmem u hu with rfl | hu
    · simp [ht] at hk
    · exact hr.tower u hu k a hk
  · exact fun k h hh => (hlane k).symm ▸ hr.linked k h hh
  · intro u hu
    rcases hmem u hu with rfl | hu
    · simp [ht]
    · exact hr.height u hu
  · have hs := pairwise_append.mp hr.sorted
    refine pairwise_append.mpr ⟨hs.1, pairwise_cons.mpr ⟨hpost, hs.2.1⟩, ?_⟩
    intro u hu v hv
    rcases mem_cons.mp hv with rfl | hv
    · exact hpre u hu
    · exact hs.2.2 u hu v hv

end Xv6Bfs
