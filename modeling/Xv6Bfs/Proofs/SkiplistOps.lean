import Xv6Bfs.Proofs.SkiplistSearch
import Xv6Bfs.Library.StableQueue

/-!
# The operations on towers

What `init_skiplist`, `insert_node`, `delete_node`, `get_minimum` and `print_skiplist` do to the sequence of towers.
-/

namespace Xv6Bfs

open LinkedList List Option

variable {P : ℕ} {sl sl' : Skiplist P} {ts pre mid post : List (Tower P)} {t : Tower P}
  {pages : ℕ → Ptr P}

/-- The first `n` calls of `kalloc` each return a page, all of them different. -/
def PagesFree (mem : Mem P) (pages : ℕ → Ptr P) (n : ℕ) : Prop :=
  (∀ j, j < n → ∃ a, pages j = some a ∧ mem a = none) ∧ ∀ i, i < n → ∀ j, j < n → pages i = pages j → i = j

instance (mem : Mem P) (pages : ℕ → Ptr P) (n : ℕ) : Decidable (PagesFree mem pages n) := by
  unfold PagesFree
  infer_instance

/-! ### Insertion -/

lemma Rep.linkLevels_eq_some {n : ℕ} {prevNodes : ℕ → Ptr P} {mem' : Mem P}
    (hr : Rep sl (pre ++ t :: post))
    (hprev : ∀ j, t.nodes.length ≤ j → ∀ p, prevNodes j = some p → prevCell sl pre j = some p)
    (heq : linkLevels t.pid t.virtualDeadline prevNodes pages n t.nodes.length
      (t.below t.nodes.length) sl.mem = some mem') :
    ∃ t', Rep { sl with mem := mem' } (pre ++ t' :: post) ∧ t'.entry = t.entry ∧
      t'.nodes.length = t.nodes.length + n ∧ (∀ a ∈ t'.nodes, a ∈ t.nodes ∨ sl.mem a = none) ∧
      (∀ a, mem' a = none → sl.mem a = none) ∧
      ∀ j < t'.nodes.length, t'.nodes[j]? = if j < t.nodes.length then t.nodes[j]? else pages j := by
  induction n generalizing sl t with
  | zero =>
    obtain rfl : sl.mem = mem' := by simpa [linkLevels] using heq
    exact ⟨t, hr, rfl, rfl, fun a ha => .inl ha, fun a ha => ha, fun j hj => (if_pos hj).symm⟩
  | succ n ih =>
    simp only [linkLevels, bind_eq_bind, bind_eq_some_iff] at heq
    obtain ⟨p, hp, ⟨a, mem₁⟩, hins, heq⟩ := heq
    obtain ⟨hpage, hfree⟩ := insertToLevel_eq_some hins
    obtain ⟨h, hh, hlast⟩ := map_eq_some_iff.mp (hprev _ le_rfl p hp)
    obtain ⟨mem₂, hins₂, hr₂, hlive⟩ := hr.raise hh hfree
    rw [hlast, ← hpage, hins] at hins₂
    obtain rfl : mem₁ = mem₂ := by simpa using hins₂
    have hlen : (t.push a).nodes.length = t.nodes.length + 1 := by simp
    have hbelow : (t.push a).below (t.push a).nodes.length = some a := by simp [Tower.below]
    obtain ⟨t', hr', hentry, hlen', hfresh, hmono, hpages⟩ := ih hr₂ (fun j hj => hprev j (by omega))
      (by rw [hlen] at hbelow ⊢; rw [hbelow]; exact heq)
    refine ⟨t', hr', hentry, by omega, ?_, fun b hb => ((hlive b).mp (hmono b hb)).2, ?_⟩
    · intro b hb
      rcases hfresh b hb with hb | hb
      · rcases mem_append.mp hb with hb | hb
        · exact .inl hb
        · exact .inr (mem_singleton.mp hb ▸ hfree)
      · exact .inr ((hlive b).mp hb).2
    · intro j hj
      rw [hpages j hj]
      rcases Nat.lt_trichotomy j t.nodes.length with hlt | rfl | hgt
      · rw [if_pos (by omega), if_pos hlt, Tower.push_nodes, getElem?_append_left hlt]
      · rw [if_pos (by omega), if_neg (by omega), hpage]
        simp
      · rw [if_neg (by omega), if_neg (by omega)]

lemma Rep.exists_linkLevels_eq {n : ℕ} {prevNodes : ℕ → Ptr P} (hr : Rep sl (pre ++ t :: post))
    (hlevels : t.nodes.length + n ≤ sl.levels)
    (hprev : ∀ j, t.nodes.length ≤ j → j < t.nodes.length + n → prevNodes j = prevCell sl pre j)
    (hpages : ∀ j, t.nodes.length ≤ j → j < t.nodes.length + n → ∃ a, pages j = some a ∧ sl.mem a = none)
    (hinj : ∀ i j, i < t.nodes.length + n → j < t.nodes.length + n → pages i = pages j → i = j) :
    ∃ mem', linkLevels t.pid t.virtualDeadline prevNodes pages n t.nodes.length
      (t.below t.nodes.length) sl.mem = some mem' := by
  induction n generalizing sl t with
  | zero => exact ⟨sl.mem, rfl⟩
  | succ n ih =>
    obtain ⟨a, hpage, hfree⟩ := hpages t.nodes.length le_rfl (by omega)
    obtain ⟨h, hh⟩ := hr.exists_header (k := t.nodes.length) (by omega)
    have hcell : prevNodes t.nodes.length = some (lastCell h (lane t.nodes.length pre)) := by
      rw [hprev _ le_rfl (by omega), prevCell, hh]
      rfl
    obtain ⟨mem₁, hins, hr₁, hlive⟩ := hr.raise hh hfree
    have hlen : (t.push a).nodes.length = t.nodes.length + 1 := by simp
    have hbelow : (t.push a).below (t.nodes.length + 1) = some a := by simp [Tower.below]
    obtain ⟨mem', hmem'⟩ := ih hr₁ (by simp only [hlen]; omega)
      (fun j hj hj' => hprev j (by omega) (by omega))
      (fun j hj hj' => by
        obtain ⟨b, hb, hbfree⟩ := hpages j (by omega) (by omega)
        refine ⟨b, hb, (hlive b).mpr ⟨?_, hbfree⟩⟩
        rintro rfl
        have := hinj j t.nodes.length (by omega) (by omega) (hb.trans hpage.symm)
        omega)
      (fun i j hi hj => hinj i j (by omega) (by omega))
    refine ⟨mem', ?_⟩
    rw [hlen, hbelow] at hmem'
    simp only [linkLevels, hcell, hpage, hins, bind_eq_bind, bind_some]
    exact hmem'

lemma Rep.exists_insert (hr : Rep sl ts) (pid d : ℤ) :
    ∃ pre post, ts = pre ++ post ∧ (∀ u ∈ pre, u.virtualDeadline ≤ d) ∧
      (∀ u ∈ post, d < u.virtualDeadline) ∧ Rep sl (pre ++ ⟨pid, d, []⟩ :: post) ∧
      ∀ t : Tower P, t.virtualDeadline = d →
        StableQueue.insert Tower.virtualDeadline t ts = pre ++ t :: post := by
  obtain ⟨pre, post, hsplit, -, hpre, hpost⟩ :=
    StableQueue.exists_insert_eq hr.sorted ⟨pid, d, []⟩
  refine ⟨pre, post, hsplit, hpre, hpost, ?_, ?_⟩
  · rw [hsplit] at hr
    exact hr.insert_nodes_nil rfl hpre (fun u hu => (hpost u hu).le)
  · intro t ht
    have hgo : ∀ pre : List (Tower P), (∀ u ∈ pre, u.virtualDeadline ≤ d) →
        StableQueue.insert Tower.virtualDeadline t (pre ++ post) = pre ++ t :: post := by
      intro pre hpre
      induction pre with
      | nil =>
        cases post with
        | nil => rfl
        | cons u post =>
          have hlt := hpost u (by simp)
          simp [StableQueue.insert, ht, hlt]
      | cons u pre ih =>
        have hle := hpre u (by simp)
        have hrest := ih (fun v hv => hpre v (mem_cons_of_mem u hv))
        unfold StableQueue.insert at hrest ⊢
        rw [cons_append, orderedInsert_cons, if_neg (by omega), hrest]
        rfl
    rw [hsplit, hgo pre hpre]

theorem Rep.insertNode_eq_some {pid d : ℤ} {maxLevel : ℕ} (hr : Rep sl ts) (hlevels : 0 < sl.levels)
    (hins : insertNode sl pid d maxLevel pages = some sl') :
    ∃ t : Tower P, t.entry = (pid, d) ∧ t.nodes.length = maxLevel + 1 ∧
      (∀ a ∈ t.nodes, sl.mem a = none) ∧ (∀ a, sl'.mem a = none → sl.mem a = none) ∧
      (∀ j ≤ maxLevel, t.nodes[j]? = pages j) ∧
      Rep sl' (StableQueue.insert Tower.virtualDeadline t ts) ∧ sl'.levels = sl.levels ∧
      sl'.headers = sl.headers := by
  obtain ⟨pre, post, rfl, hpre, hpost, hr₀, hinsert⟩ := hr.exists_insert pid d
  have hfind := hr.findPrev_eq hlevels hpre hpost maxLevel
  simp only [insertNode, hfind, bind_eq_bind, bind_some, bind_eq_some_iff,
    Option.some.injEq] at hins
  obtain ⟨mem', hlink, rfl⟩ := hins
  obtain ⟨t, hr', hentry, hlen, hfresh, hmono, hpages⟩ := hr₀.linkLevels_eq_some (fun j _ p hp => by
    by_cases hj : j ≤ maxLevel
    · simpa [hj] using hp
    · simp [hj] at hp) hlink
  have hd : t.virtualDeadline = d := congrArg Prod.snd hentry
  have hlen' : t.nodes.length = maxLevel + 1 := by simpa using hlen
  refine ⟨t, hentry, hlen', fun a ha => by simpa using hfresh a ha, hmono, ?_, ?_, rfl, rfl⟩
  · exact fun j hj => by simpa using hpages j (by omega)
  · rwa [hinsert t hd]

theorem Rep.exists_insertNode_eq (hr : Rep sl ts) (pid d : ℤ) {maxLevel : ℕ}
    (hlevel : maxLevel < sl.levels) (hpages : PagesFree sl.mem pages (maxLevel + 1)) :
    ∃ sl', insertNode sl pid d maxLevel pages = some sl' := by
  obtain ⟨pre, post, rfl, hpre, hpost, hr₀, -⟩ := hr.exists_insert pid d
  have hfind := hr.findPrev_eq (by omega) hpre hpost maxLevel
  have hprev : ∀ j, j < maxLevel + 1 →
      (if j ≤ maxLevel then prevCell sl pre j else none) = prevCell sl pre j :=
    fun j hj => if_pos (by omega)
  obtain ⟨mem', hlink⟩ := hr₀.exists_linkLevels_eq (n := maxLevel + 1)
    (by simp only [length_nil]; omega) (fun j _ hj => hprev j (by simpa using hj))
    (fun j _ hj => hpages.1 j (by simpa using hj))
    (fun i j hi hj => hpages.2 i (by simpa using hi) j (by simpa using hj))
  refine ⟨{ sl with mem := mem' }, ?_⟩
  simp only [insertNode, hfind, bind_eq_bind, bind_some]
  simp only [length_nil, Tower.below] at hlink
  rw [hlink]
  rfl

/-! ### Deletion -/

structure Freed (mem mem' : Mem P) (nodes : List (Addr P)) : Prop where
  none_iff : ∀ c, mem' c = none ↔ c ∈ nodes ∨ mem c = none
  payload : ∀ c, c ∉ nodes → (mem' c).map Node.payload = (mem c).map Node.payload

lemma Rep.deleteFromLevels_eq (hr : Rep sl (pre ++ t :: post)) {fuel : ℕ}
    (hfuel : t.nodes.length ≤ fuel) :
    ∃ mem', deleteFromLevels fuel (t.below t.nodes.length) sl.mem = some mem' ∧
      Rep { sl with mem := mem' } (pre ++ post) ∧ Freed sl.mem mem' t.nodes := by
  induction hn : t.nodes.length generalizing sl t fuel with
  | zero =>
    have hnil := eq_nil_of_length_eq_zero hn
    refine ⟨sl.mem, by simp [Tower.below, deleteFromLevels], hr.of_nodes_nil hnil, ?_, ?_⟩
    · simp [hnil]
    · exact fun _ _ => rfl
  | succ n ih =>
    obtain ⟨pid, d, nodes⟩ := t
    obtain ⟨ns, a, rfl⟩ := eq_nil_or_concat' nodes |>.resolve_left (by
      rintro rfl
      simp at hn)
    obtain ⟨fuel, rfl⟩ : ∃ f, fuel = f + 1 := ⟨fuel - 1, by omega⟩
    have hlen : ns.length = n := by simpa using hn
    have htop : Tower.below ⟨pid, d, ns ++ [a]⟩ (n + 1) = some a := by simp [Tower.below, ← hlen]
    obtain ⟨mem₁, hstep, hr₁, hnone₁, hpay₁⟩ := Rep.lower (t := ⟨pid, d, ns⟩) hr fuel
    obtain ⟨mem', hrest, hr', hfreed⟩ := ih hr₁ (Nat.le_of_lt_succ (by simpa using hfuel)) hlen
    refine ⟨mem', by rw [htop, hstep]; simp only [hlen]; exact hrest, hr', ?_, ?_⟩
    · intro c
      rw [hfreed.none_iff, hnone₁]
      simp only [mem_append, mem_singleton]
      tauto
    · intro c hc
      simp only [mem_append, mem_singleton, not_or] at hc
      rw [hfreed.payload c hc.1, hpay₁ c hc.2]

lemma exists_split (hsorted : ts.Pairwise (fun t u => t.virtualDeadline ≤ u.virtualDeadline))
    (d : ℤ) : ∃ pre post, ts = pre ++ post ∧ (∀ u ∈ pre, u.virtualDeadline < d) ∧
      ∀ u ∈ post, d ≤ u.virtualDeadline := by
  induction ts with
  | nil => exact ⟨[], [], rfl, by simp, by simp⟩
  | cons t ts ih =>
    rw [pairwise_cons] at hsorted
    by_cases ht : t.virtualDeadline < d
    · obtain ⟨pre, post, rfl, hpre, hpost⟩ := ih hsorted.2
      exact ⟨t :: pre, post, rfl, forall_mem_cons.mpr ⟨ht, hpre⟩, hpost⟩
    · refine ⟨[], t :: ts, rfl, by simp, forall_mem_cons.mpr ⟨by omega, fun u hu => ?_⟩⟩
      have hle := hsorted.1 u hu
      omega

/-- `delete_node` removes one whole tower or nothing. -/
theorem Rep.deleteNode_cases {d : ℤ} (hr : Rep sl (pre ++ post)) (pid : ℤ) (hlevels : 0 < sl.levels)
    (hd : 0 ≤ d) (hpre : ∀ u ∈ pre, u.virtualDeadline < d)
    (hpost : ∀ u ∈ post, d ≤ u.virtualDeadline) :
    ∃ top, sl.headers[sl.levels - 1]? = some top ∧
      (findNode sl.mem pid d sl.levels (some top) = some none ∧ deleteNode sl pid d = some sl ∧
        ((∃ i h b, sl.headers[i]? = some h ∧ b ∈ h :: lane i pre ∧ Blocks sl pid b) ∨
          ∀ u ∈ post, u.entry = (pid, d) → ∀ i a, u.nodes[i]? = some a → (lane i post).head? ≠ some a) ∨
      ∃ us t vs a j mem', post = us ++ t :: vs ∧ t.entry = (pid, d) ∧ t.nodes.length = j + 1 ∧
        t.nodes[j]? = some a ∧ (lane j post).head? = some a ∧
        findNode sl.mem pid d sl.levels (some top) = some (some (a, j)) ∧
        deleteNode sl pid d = some { sl with mem := mem' } ∧
        Rep { sl with mem := mem' } (pre ++ us ++ vs) ∧ Freed sl.mem mem' t.nodes) := by
  obtain ⟨top, htop⟩ := hr.exists_header (k := sl.levels - 1) (by omega)
  refine ⟨top, htop, ?_⟩
  rcases hr.findNode_cases hd hpre hpost le_rfl (some top)
    (by
      intro i h hi hh
      obtain rfl : sl.levels - 1 = i := by omega
      exact ⟨top, rfl, by simp [Option.some.inj (hh.symm.trans htop)]⟩)
    (by
      intro u hu _ i a hi ha
      have hheight := hr.height u (List.mem_append_right pre hu)
      have hlt := (List.getElem?_eq_some_iff.mp ha).1
      omega) with ⟨hfind, hwhy⟩ | ⟨t, ht, a, j, hentry, hlen, ha, hhead, hfind⟩
  · exact .inl ⟨hfind, by simp [deleteNode, htop, hfind], hwhy⟩
  · obtain ⟨us, vs, rfl⟩ := List.append_of_mem ht
    have hr' : Rep sl (pre ++ us ++ t :: vs) := by simpa using hr
    have hnodup : t.nodes.Nodup := by
      have hsub : t.nodes.Sublist ((pre ++ us ++ t :: vs).flatMap Tower.nodes) := by
        rw [List.flatMap_append, List.flatMap_cons]
        exact (List.sublist_append_left _ _).trans (List.sublist_append_right _ _)
      exact hr'.nodes_nodup.sublist hsub
    obtain ⟨mem', hdel, hr', hfreed⟩ := hr'.deleteFromLevels_eq (by simpa using hnodup.length_le_card)
    have hbelow : t.below t.nodes.length = t.nodes[j]? := by rw [hlen]; rfl
    rw [hbelow, ha] at hdel
    exact .inr ⟨us, t, vs, a, j, mem', rfl, hentry, hlen, ha, hhead, hfind,
      by simp [deleteNode, htop, hfind, hdel], hr', hfreed⟩

lemma Rep.not_blocks {pid : ℤ} {h b : Addr P} {i : ℕ} (hr : Rep sl (pre ++ post)) (hpid : pid ≠ -1)
    (hpre : ∀ u ∈ pre, u.pid ≠ pid) (hh : sl.headers[i]? = some h) (hb : b ∈ h :: lane i pre) :
    ¬ Blocks sl pid b := by
  rintro ⟨n, hn, rfl⟩
  rcases mem_cons.mp hb with rfl | hb
  · obtain ⟨m, hm, hmpid, -⟩ := hr.exists_header_node hh
    obtain rfl : n = m := Option.some.inj (hn.symm.trans hm)
    exact hpid hmpid
  · obtain ⟨u, hu, hub⟩ := mem_lane.mp hb
    obtain ⟨m, hm, hmpid, -⟩ := hr.exists_node (mem_append_left post hu) hub
    obtain rfl : n = m := Option.some.inj (hn.symm.trans hm)
    exact hpre u hu hmpid.symm

lemma lane_eq_nil {us : List (Tower P)} {j : ℕ} : lane j us = [] ↔ ∀ u ∈ us, u.nodes.length ≤ j := by
  simp only [lane, filterMap_eq_nil_iff, getElem?_eq_none_iff]

/-- `delete_node` removes a tower from all levels, provided that none of the towers with the
same deadline in front of it reaches the level of its top. -/
theorem Rep.deleteNode_eq {j : ℕ} (hr : Rep sl (pre ++ (mid ++ t :: post)))
    (hd : 0 ≤ t.virtualDeadline) (hpid : t.pid ≠ -1)
    (hpre : ∀ u ∈ pre, u.virtualDeadline < t.virtualDeadline)
    (hmid : ∀ u ∈ mid, u.virtualDeadline = t.virtualDeadline ∧ u.nodes.length ≤ j)
    (huniq : ∀ u ∈ pre ++ mid ++ post, u.pid ≠ t.pid) (hlen : t.nodes.length = j + 1) :
    ∃ top a mem', sl.headers[sl.levels - 1]? = some top ∧ t.nodes[j]? = some a ∧
      findNode sl.mem t.pid t.virtualDeadline sl.levels (some top) = some (some (a, j)) ∧
      deleteNode sl t.pid t.virtualDeadline = some { sl with mem := mem' } ∧
      Rep { sl with mem := mem' } (pre ++ mid ++ post) ∧ Freed sl.mem mem' t.nodes := by
  have hsorted := pairwise_append.mp (pairwise_append.mp hr.sorted).2.1
  have hrest : ∀ u ∈ mid ++ t :: post, t.virtualDeadline ≤ u.virtualDeadline := by
    intro u hu
    rcases mem_append.mp hu with hu | hu
    · exact (hmid u hu).1.ge
    · rcases mem_cons.mp hu with rfl | hu
      · exact le_rfl
      · exact rel_of_pairwise_cons hsorted.2.1 hu
  have htop : t.nodes[j]? = some t.nodes[j] := getElem?_eq_getElem (by omega)
  have hfirst : (lane j (mid ++ t :: post)).head? = some t.nodes[j] := by
    rw [lane_append, lane_eq_nil.mpr (fun u hu => (hmid u hu).2), lane_cons, htop]
    rfl
  have hlevels : 0 < sl.levels := by
    have hheight := hr.height t (by simp)
    omega
  obtain ⟨top, hheader, hnone | hsome⟩ := hr.deleteNode_cases t.pid hlevels hd hpre hrest
  · obtain ⟨-, -, ⟨i, h, b, hh, hb, hblocks⟩ | hskip⟩ := hnone
    · exact absurd hblocks (hr.not_blocks hpid (fun u hu => huniq u (by simp [hu])) hh hb)
    · exact absurd hfirst (hskip t (by simp) rfl j _ htop)
  · obtain ⟨us, u, vs, a, i, mem', hsplit, hentry, hlen', ha, -, hfind, hdel, hr', hfreed⟩ := hsome
    -- the tower with this pid is `t`
    have hut : u = t := by
      by_contra hne
      refine huniq u ?_ (congrArg Prod.fst hentry)
      have hu : u ∈ mid ++ t :: post := by simp [hsplit]
      simp only [mem_append, mem_cons] at hu ⊢
      tauto
    subst hut
    obtain rfl : i = j := by omega
    have hmid' : u ∉ mid := fun hm => huniq u (by simp [hm]) rfl
    have hpost' : u ∉ post := fun hm => huniq u (by simp [hm]) rfl
    obtain ⟨rfl, -, rfl⟩ := (append_cons_inj_of_notMem hmid' hpost').mp hsplit
    exact ⟨top, a, mem', hheader, ha, hfind, hdel, hr', hfreed⟩

theorem Rep.deleteNode_eq_none {pid d : ℤ} (hr : Rep sl ts) (hlevels : 0 < sl.levels)
    (hpid : pid ≠ -1) (hd : d < 0) : deleteNode sl pid d = none := by
  obtain ⟨top, htop⟩ := hr.exists_header (k := sl.levels - 1) (by omega)
  obtain ⟨n, hn, hnpid, hvd, -⟩ := hr.exists_header_node htop
  have hprev : n.prev = none := by
    simpa [prevOf, hn] using hr.headerPrev top (mem_of_getElem? htop)
  have hle : d ≤ n.virtualDeadline := by omega
  have hne : n.pid ≠ pid := hnpid ▸ hpid.symm
  have hpos : 0 < P := Fin.pos top
  have hforward : chase (forwardStep sl.mem pid d) P top = some top :=
    chase_of_isChain (l := []) (List.IsChain.singleton _) (forwardStep_eq_of_le hn hle) hpos
  have hbackward : chase (backwardStep sl.mem d) P top = none := by
    obtain ⟨fuel, rfl⟩ : ∃ f, P = f + 1 := ⟨P - 1, by omega⟩
    simp [chase, backwardStep, hn, hle, hprev]
  obtain ⟨levels, hl⟩ : ∃ l, sl.levels = l + 1 := ⟨sl.levels - 1, by omega⟩
  have hfind : findNode sl.mem pid d sl.levels (some top) = none := by
    rw [hl]
    simp [findNode, hforward, hn, hne, hbackward]
  simp [deleteNode, htop, hfind]

/-! ### Reading the list -/

lemma Rep.getMinimum_eq (hr : Rep sl ts) (hlevels : 0 < sl.levels)
    (hnodes : ∀ t ∈ ts, t.nodes ≠ []) :
    getMinimum sl = some (ts.head?.elim (-69) Tower.pid) := by
  obtain ⟨h, hh⟩ := hr.exists_header hlevels
  obtain ⟨n, hn, -⟩ := hr.exists_header_node hh
  have hnext : n.next = (lane 0 ts).head? := by
    have hr' : Rep sl ([] ++ ts) := hr
    simpa [nextOf, hn] using hr'.next_lastCell hh
  cases ts with
  | nil => simp [getMinimum, hh, hn, hnext]
  | cons t ts =>
    obtain ⟨a, ns, hns⟩ := exists_cons_of_ne_nil (hnodes t (by simp))
    obtain ⟨m, hm, hpid, -⟩ := hr.exists_node (t := t) (k := 0) (by simp) (a := a) (by simp [hns])
    have hfirst : (lane 0 (t :: ts)).head? = some a := by simp [lane_cons, hns]
    simp [getMinimum, hh, hn, hnext, hfirst, hm, hpid]

lemma printNodes_eq {mem : Mem P} {prev : Addr P → Ptr P} {e : Addr P → ℤ × ℤ}
    {h : Addr P} {l : List (Addr P)} (hl : LinkedList.Linked (nextOf mem) prev h l)
    (he : ∀ c ∈ l, (mem c).map (fun n => (n.pid, n.virtualDeadline)) = some (e c)) {fuel : ℕ}
    (hfuel : l.length ≤ fuel) : printNodes mem fuel l.head? = some (l.map e) := by
  induction l generalizing h fuel with
  | nil => simp [printNodes]
  | cons c l ih =>
    obtain ⟨fuel, rfl⟩ : ∃ f, fuel = f + 1 := ⟨fuel - 1, by
      simp only [length_cons] at hfuel
      omega⟩
    obtain ⟨n, hn, hec⟩ := map_eq_some_iff.mp (he c (by simp))
    have hnext : n.next = l.head? := by
      have hl' : LinkedList.Linked (nextOf mem) prev c ([] ++ l) := hl.2.2
      simpa [nextOf, hn] using hl'.next_lastCell
    have hrest := ih hl.2.2 (fun b hb => he b (mem_cons_of_mem c hb))
      (Nat.le_of_succ_le_succ hfuel)
    simp only [head?_cons, printNodes, hn, bind_eq_bind, bind_some, hnext, hrest]
    rw [hec, map_cons]

theorem Rep.levelEntries_eq (hr : Rep sl ts) {k : ℕ} (hk : k < sl.levels) :
    levelEntries sl k = some ((ts.filter (fun t => k < t.nodes.length)).map Tower.entry) := by
  obtain ⟨h, hh⟩ := hr.exists_header hk
  obtain ⟨n, hn, -⟩ := hr.exists_header_node hh
  let e : Addr P → ℤ × ℤ := fun c =>
    ((sl.mem c).map (fun n => (n.pid, n.virtualDeadline))).getD (0, 0)
  have hentry : ∀ t ∈ ts, ∀ c, t.nodes[k]? = some c →
      (sl.mem c).map (fun n => (n.pid, n.virtualDeadline)) = some t.entry := by
    intro t ht c hc
    obtain ⟨m, hm, hpid, hvd, -⟩ := hr.exists_node ht hc
    simp [hm, Tower.entry, hpid, hvd]
  have hnext : n.next = (lane k ts).head? := by
    have hr' : Rep sl ([] ++ ts) := hr
    simpa [nextOf, hn] using hr'.next_lastCell hh
  have hshort : (lane k ts).length ≤ P := by
    simpa using (lane_nodup (k := k) hr.nodes_nodup).length_le_card
  have hprint := printNodes_eq (e := e) (hr.linked k h hh) (fun c hc => by
    obtain ⟨t, ht, hkt⟩ := mem_lane.mp hc
    simp [e, hentry t ht c hkt]) hshort
  have hmap : ∀ us : List (Tower P), (∀ u ∈ us, u ∈ ts) →
      (lane k us).map e = (us.filter (fun t => k < t.nodes.length)).map Tower.entry := by
    intro us hus
    induction us with
    | nil => rfl
    | cons u us ih =>
      have hrest := ih (fun v hv => hus v (mem_cons_of_mem u hv))
      by_cases hlt : k < u.nodes.length
      · have hnode := getElem?_eq_getElem hlt
        have heu : e u.nodes[k] = u.entry := by simp [e, hentry u (hus u (by simp)) _ hnode]
        simp [lane_cons, hlt, hrest, heu]
      · simp [lane_cons, hlt, hrest]
  simp only [levelEntries, hh, hn, bind_eq_bind, bind_some, hnext, hprint]
  rw [hmap ts (fun u hu => hu)]

/-! ### Initialisation -/

structure HeadersBuilt (headers : List (Addr P)) (below : Ptr P) (mem : Mem P) : Prop where
  nodup : headers.Nodup
  below : headers ≠ [] → below = headers[headers.length - 1]?
  node : ∀ (k : ℕ) (h : Addr P), headers[k]? = some h → ∃ f, mem h = some ⟨-1, -1, none, none, f⟩ ∧
    ∀ j, k = j + 1 → f = headers[j]?

lemma HeadersBuilt.initHeaders_eq_some {n i : ℕ} {below : Ptr P} {headers headers' : List (Addr P)}
    {mem mem' : Mem P} (hb : HeadersBuilt headers below mem)
    (hinit : initHeaders pages n i below headers mem = some (headers', mem')) :
    (∃ below', HeadersBuilt headers' below' mem') ∧ headers'.length = headers.length + n := by
  induction n generalizing i below headers mem with
  | zero =>
    obtain ⟨rfl, rfl⟩ : headers = headers' ∧ mem = mem' := by simpa [initHeaders] using hinit
    exact ⟨⟨below, hb⟩, rfl⟩
  | succ n ih =>
    simp only [initHeaders, kalloc, bind_eq_bind, bind_eq_some_iff,
      filter_eq_some_iff, isNone_iff_eq_none] at hinit
    obtain ⟨a, ⟨-, hfree⟩, hinit⟩ := hinit
    have hlive : ∀ (k : ℕ) (h : Addr P), headers[k]? = some h → h ≠ a := by
      rintro k h hh rfl
      obtain ⟨f, hf, -⟩ := hb.node k h hh
      simp [hf] at hfree
    have hstep : HeadersBuilt (headers ++ [a]) (some a)
        (Function.update mem a (some ⟨-1, -1, none, none, below⟩)) := by
      refine ⟨?_, by simp, ?_⟩
      · refine nodup_append.mpr ⟨hb.nodup, nodup_singleton a, ?_⟩
        intro h hh b hba
        obtain ⟨k, hk⟩ := mem_iff_getElem?.mp hh
        rw [mem_singleton.mp hba]
        exact hlive k h hk
      · intro k h hh
        by_cases hk : k < headers.length
        · rw [getElem?_append_left hk] at hh
          obtain ⟨f, hf, hbelow⟩ := hb.node k h hh
          refine ⟨f, by rw [Function.update_of_ne (hlive k h hh), hf], ?_⟩
          rintro j rfl
          rw [getElem?_append_left (by omega)]
          exact hbelow j rfl
        · have hlt := (List.getElem?_eq_some_iff.mp hh).1
          simp only [length_append, length_singleton] at hlt
          obtain rfl : k = headers.length := by omega
          obtain rfl : a = h := by simpa using hh
          refine ⟨below, by simp, ?_⟩
          intro j hj
          rw [getElem?_append_left (by omega), hb.below (by
            rintro rfl
            simp at hj)]
          congr 1
          omega
    obtain ⟨hbuilt, hlen⟩ := ih hstep hinit
    refine ⟨hbuilt, ?_⟩
    simp only [length_append, length_singleton] at hlen
    omega

theorem initSkiplist_rep {junk : Ptr P} (hinit : initSkiplist pages junk = some sl) :
    Rep sl [] ∧ sl.levels = SKIPLIST_LEVELS := by
  simp only [initSkiplist, bind_eq_bind, bind_eq_some_iff, Option.some.injEq] at hinit
  obtain ⟨⟨headers, mem⟩, hinit, rfl⟩ := hinit
  have hstart : HeadersBuilt [] junk (fun _ : Addr P => none) :=
    ⟨nodup_nil, by simp, by simp⟩
  obtain ⟨⟨below, hb⟩, hlen⟩ := hstart.initHeaders_eq_some hinit
  refine ⟨⟨by simpa using hlen, by simpa using hb.nodup, ?_, ?_, by simp, ?_, by simp, by simp⟩, rfl⟩
  · intro k h hh
    obtain ⟨f, hf, hbelow⟩ := hb.node k h hh
    exact ⟨f, by simp [hf, Node.payload], hbelow⟩
  · intro h hh
    obtain ⟨k, hk⟩ := mem_iff_getElem?.mp hh
    obtain ⟨f, hf, -⟩ := hb.node k h hk
    simp [prevOf, hf]
  · intro k h hh
    obtain ⟨f, hf, -⟩ := hb.node k h hh
    simp [lane, LinkedList.Linked, nextOf, hf]

end Xv6Bfs
