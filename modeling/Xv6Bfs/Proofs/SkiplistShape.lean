import Xv6Bfs.Proofs.SkiplistQueue

/-!
# The shape of the skip list

What holds of the levels and of the towers after any sequence of insertions and deletions, what
an insertion leaves behind when memory runs out, and which processes `delete_node` can take out.
The search of `delete_node` stops at the first node of a level that is not earlier than the
process and then goes down, so it never looks behind another process with the same deadline.
-/

namespace Xv6Bfs

open LinkedList List

variable {P : ℕ} {sl sl' : Skiplist P} {ts pre post : List (Tower P)} {t : Tower P}
  {pages : ℕ → Ptr P} {junk : Ptr P} {k : ℕ} {pid d : ℤ} {maxLevel : ℕ}

/-! ### Calls -/

structure Insertion (P : ℕ) where
  pid : ℤ
  virtualDeadline : ℤ
  maxLevel : ℕ
  pages : ℕ → Ptr P

inductive ListCall (P : ℕ)
  | insert (i : Insertion P)
  | delete (pid virtualDeadline : ℤ)

def ListCall.exec (sl : Skiplist P) : ListCall P → Option (Skiplist P)
  | insert i => insertNode sl i.pid i.virtualDeadline i.maxLevel i.pages
  | delete pid virtualDeadline => deleteNode sl pid virtualDeadline

/-- No deadline is negative, the towers fit in the list, and there is memory for them. -/
def ListCall.Allowed (sl : Skiplist P) : ListCall P → Prop
  | insert i => 0 ≤ i.virtualDeadline ∧ i.maxLevel < sl.levels ∧ PagesFree sl.mem i.pages (i.maxLevel + 1)
  | delete _ virtualDeadline => 0 ≤ virtualDeadline

instance (sl : Skiplist P) : DecidablePred (ListCall.Allowed sl)
  | .insert i => by unfold ListCall.Allowed; infer_instance
  | .delete pid virtualDeadline => by unfold ListCall.Allowed; infer_instance

def CallsAllowed (sl : Skiplist P) : List (ListCall P) → Prop
  | [] => True
  | call :: calls => call.Allowed sl ∧
    match call.exec sl with
    | some sl' => CallsAllowed sl' calls
    | none => True

instance decidableCallsAllowed :
    (calls : List (ListCall P)) → (sl : Skiplist P) → Decidable (CallsAllowed sl calls)
  | [], _ => .isTrue trivial
  | call :: calls, sl => by
    unfold CallsAllowed
    have hrest (sl' : Skiplist P) := decidableCallsAllowed calls sl'
    cases call.exec sl <;> infer_instance

/-! ### Levels and towers -/

def forwardOf (mem : Mem P) (a : Addr P) : Ptr P := (mem a).bind Node.forward

/-- Each level is doubly linked behind its header and sorted, the forward pointers lead down the
towers, and every tower occupies the levels from 0 to its top. -/
structure Shape (sl : Skiplist P) (ts : List (Tower P)) : Prop where
  levels : sl.levels = SKIPLIST_LEVELS
  row : ∀ k < sl.levels, ∃ h, sl.headers[k]? = some h ∧ prevOf sl.mem h = none ∧
    LinkedList.Linked (nextOf sl.mem) (prevOf sl.mem) h (lane k ts)
  sorted : ∀ k h, sl.headers[k]? = some h → (h :: lane k ts).Pairwise (fun a b =>
    ∀ n m, sl.mem a = some n → sl.mem b = some m → n.virtualDeadline ≤ m.virtualDeadline)
  node : ∀ t ∈ ts, ∀ k a, t.nodes[k]? = some a →
    ∃ n, sl.mem a = some n ∧ (n.pid, n.virtualDeadline) = t.entry ∧ n.forward = t.below k
  sublist : ∀ k, ((lane (k + 1) ts).filterMap (forwardOf sl.mem)).Sublist (lane k ts)
  height : ∀ t ∈ ts, 0 < t.nodes.length ∧ t.nodes.length ≤ sl.levels
  nodup : (sl.headers ++ ts.flatMap Tower.nodes).Nodup

/-- After each of the calls the list has the shape of towers to which an insertion has added one
whole tower, and from which a deletion has taken one whole tower or nothing. -/
inductive Tracks : Skiplist P → List (Tower P) → List (ListCall P) → Prop
  | done {sl : Skiplist P} {ts : List (Tower P)} (shape : Shape sl ts) : Tracks sl ts []
  | insert {sl sl' : Skiplist P} {pre post : List (Tower P)} {t : Tower P} {i : Insertion P}
      {calls : List (ListCall P)} (shape : Shape sl (pre ++ post))
      (exec : insertNode sl i.pid i.virtualDeadline i.maxLevel i.pages = some sl')
      (entry : t.entry = (i.pid, i.virtualDeadline)) (height : t.nodes.length = i.maxLevel + 1)
      (rest : Tracks sl' (pre ++ t :: post) calls) :
      Tracks sl (pre ++ post) (.insert i :: calls)
  | delete {sl sl' : Skiplist P} {pre post : List (Tower P)} {t : Tower P} {pid d : ℤ}
      {calls : List (ListCall P)} (shape : Shape sl (pre ++ t :: post))
      (exec : deleteNode sl pid d = some sl') (entry : t.entry = (pid, d))
      (rest : Tracks sl' (pre ++ post) calls) :
      Tracks sl (pre ++ t :: post) (.delete pid d :: calls)
  | missed {sl : Skiplist P} {ts : List (Tower P)} {pid d : ℤ} {calls : List (ListCall P)}
      (shape : Shape sl ts) (exec : deleteNode sl pid d = some sl) (rest : Tracks sl ts calls) :
      Tracks sl ts (.delete pid d :: calls)

lemma lane_sublist_map (hr : Rep sl ts) (k : ℕ) :
    ((lane (k + 1) ts).filterMap (forwardOf sl.mem)).Sublist (lane k ts) := by
  have hforward : ∀ t ∈ ts, ∀ a, t.nodes[k + 1]? = some a → forwardOf sl.mem a = t.nodes[k]? := by
    intro t ht a ha
    obtain ⟨n, hn, -, -, hf⟩ := hr.exists_node ht ha
    simp only [forwardOf, hn, Option.bind_some, hf]
    rfl
  clear hr
  induction ts with
  | nil => exact List.Sublist.refl _
  | cons t ts ih =>
    have hrest := ih (fun u hu => hforward u (mem_cons_of_mem t hu))
    rw [lane_cons, lane_cons, filterMap_append]
    refine List.Sublist.append ?_ hrest
    cases ha : t.nodes[k + 1]? with
    | none => exact nil_sublist _
    | some a =>
      simp only [Option.toList_some, filterMap_cons, hforward t (by simp) a ha,
        filterMap_nil]
      cases t.nodes[k]? <;> exact List.Sublist.refl _

lemma Rep.lane_sorted (hr : Rep sl ts) (hd : ∀ t ∈ ts, 0 ≤ t.virtualDeadline) {h : Addr P}
    (hh : sl.headers[k]? = some h) : (h :: lane k ts).Pairwise (fun a b =>
      ∀ n m, sl.mem a = some n → sl.mem b = some m → n.virtualDeadline ≤ m.virtualDeadline) := by
  have hnode : ∀ t ∈ ts, ∀ a m, t.nodes[k]? = some a → sl.mem a = some m →
      m.virtualDeadline = t.virtualDeadline := by
    intro t ht a m ha hm
    obtain ⟨n, hn, -, hvd, -⟩ := hr.exists_node ht ha
    rwa [Option.some.inj (hm.symm.trans hn)]
  refine pairwise_cons.mpr ⟨?_, ?_⟩
  · intro b hb n m hn hm
    obtain ⟨n', hn', -, hvd, -⟩ := hr.exists_header_node hh
    obtain rfl : n = n' := Option.some.inj (hn.symm.trans hn')
    obtain ⟨t, ht, htb⟩ := mem_lane.mp hb
    have hle := hd t ht
    rw [hnode t ht b m htb hm]
    omega
  · refine List.Pairwise.filterMap _ ?_ (hr.sorted.imp_of_mem (S := fun t u => t ∈ ts ∧ u ∈ ts ∧
      t.virtualDeadline ≤ u.virtualDeadline) (fun ht hu hle => ⟨ht, hu, hle⟩))
    rintro t u ⟨ht, hu, hle⟩ a ha b hb n m hn hm
    rw [hnode t ht a n ha hn, hnode u hu b m hb hm]
    exact hle

structure Tracked (sl : Skiplist P) (ts : List (Tower P)) : Prop where
  towers : Towers sl ts
  nonneg : ∀ t ∈ ts, 0 ≤ t.virtualDeadline

lemma Tracked.shape (h : Tracked sl ts) : Shape sl ts := by
  have hr := h.towers.rep
  refine ⟨h.towers.levels, ?_, fun k g hg => hr.lane_sorted h.nonneg hg, ?_, lane_sublist_map hr, ?_,
    hr.nodup⟩
  · intro k hk
    obtain ⟨g, hg⟩ := hr.exists_header hk
    exact ⟨g, hg, hr.headerPrev g (mem_of_getElem? hg), hr.linked k g hg⟩
  · intro t ht k a ha
    obtain ⟨n, hn, hpid, hvd, hforward⟩ := hr.exists_node ht ha
    exact ⟨n, hn, by rw [hpid, hvd]; rfl, hforward⟩
  · exact fun t ht => ⟨length_pos_iff.mpr (h.towers.nodes t ht), hr.height t ht⟩

lemma tracked_initSkiplist (hinit : initSkiplist pages junk = some sl) : Tracked sl [] := by
  obtain ⟨hr, hlevels⟩ := initSkiplist_rep hinit
  exact ⟨⟨hlevels, hr, by simp⟩, by simp⟩

lemma Tracked.insertNode (h : Tracked sl ts) (hd : 0 ≤ d)
    (hins : insertNode sl pid d maxLevel pages = some sl') :
    ∃ pre post t, ts = pre ++ post ∧ t.entry = (pid, d) ∧ t.nodes.length = maxLevel + 1 ∧
      (∀ j ≤ maxLevel, t.nodes[j]? = pages j) ∧ (∀ a ∈ t.nodes, sl.mem a = none) ∧
      sl'.headers = sl.headers ∧ Tracked sl' (pre ++ t :: post) := by
  obtain ⟨t, hentry, hlen, hfresh, -, hpages, hr', hlevels, hheaders⟩ :=
    h.towers.rep.insertNode_eq_some h.towers.levels_pos hins
  obtain ⟨pre, post, rfl, hinsert, -⟩ := StableQueue.exists_insert_eq h.towers.rep.sorted t
  rw [hinsert] at hr'
  have hmem : ∀ u ∈ pre ++ t :: post, u = t ∨ u ∈ pre ++ post := by
    intro u hu
    simp only [mem_append, mem_cons] at hu ⊢
    tauto
  refine ⟨pre, post, t, rfl, hentry, hlen, hpages, hfresh, hheaders,
    ⟨hlevels.trans h.towers.levels, hr', ?_⟩, ?_⟩
  · intro u hu
    rcases hmem u hu with rfl | hu
    · exact ne_nil_of_length_eq_add_one hlen
    · exact h.towers.nodes u hu
  · intro u hu
    rcases hmem u hu with rfl | hu
    · rw [show u.virtualDeadline = d from congrArg Prod.snd hentry]
      exact hd
    · exact h.nonneg u hu

lemma Tracked.deleteNode (h : Tracked sl ts) (pid : ℤ) (hd : 0 ≤ d) :
    deleteNode sl pid d = some sl ∨ ∃ pre t post sl', ts = pre ++ t :: post ∧ t.entry = (pid, d) ∧
      deleteNode sl pid d = some sl' ∧ Tracked sl' (pre ++ post) := by
  obtain ⟨pre, post, rfl, hpre, hpost⟩ := exists_split h.towers.rep.sorted d
  obtain ⟨top, -, hnone | hsome⟩ := h.towers.rep.deleteNode_cases pid h.towers.levels_pos hd hpre hpost
  · exact .inl hnone.2.1
  · obtain ⟨us, t, vs, a, j, mem', rfl, hentry, -, -, -, -, hdel, hr', -⟩ := hsome
    have hsub : (pre ++ us ++ vs).Sublist (pre ++ (us ++ t :: vs)) := by
      rw [append_assoc]
      exact ((sublist_cons_self t vs).append_left us).append_left pre
    refine .inr ⟨pre ++ us, t, vs, _, by simp, hentry, hdel, ⟨h.towers.levels, hr', ?_⟩, ?_⟩
    · exact fun u hu => h.towers.nodes u (hsub.subset hu)
    · exact fun u hu => h.nonneg u (hsub.subset hu)

lemma Tracked.tracks {calls : List (ListCall P)} (h : Tracked sl ts) (hcalls : CallsAllowed sl calls) :
    Tracks sl ts calls := by
  induction calls generalizing sl ts with
  | nil => exact .done h.shape
  | cons call calls ih =>
    obtain ⟨hcall, hrest⟩ := hcalls
    cases call with
    | insert i =>
      obtain ⟨hd, hlevel, hfree⟩ := hcall
      obtain ⟨sl', hins⟩ := h.towers.rep.exists_insertNode_eq i.pid i.virtualDeadline hlevel hfree
      simp only [ListCall.exec, hins] at hrest
      obtain ⟨pre, post, t, rfl, hentry, hlen, -, -, -, h'⟩ := h.insertNode hd hins
      exact .insert h.shape hins hentry hlen (ih h' hrest)
    | delete pid d =>
      rcases h.deleteNode pid hcall with hdel | ⟨pre, t, post, sl', rfl, hentry, hdel, h'⟩
      · simp only [ListCall.exec, hdel] at hrest
        exact .missed h.shape hdel (ih h hrest)
      · simp only [ListCall.exec, hdel] at hrest
        exact .delete h.shape hdel hentry (ih h' hrest)

/-- Any sequence of insertions and deletions keeps the levels linked and sorted and the towers
whole. -/
theorem skiplist_keeps_shape (hinit : initSkiplist pages junk = some sl) (calls : List (ListCall P))
    (hcalls : CallsAllowed sl calls) : Tracks sl [] calls :=
  (tracked_initSkiplist hinit).tracks hcalls

def emptyList : Skiplist 9 := (initSkiplist (pagesFrom 9 0) none).get (by decide +kernel)

lemma emptyList_eq : initSkiplist (pagesFrom 9 0) none = some emptyList := (Option.some_get _).symm

/-- Two processes with one deadline. The second is not found behind the first, which is higher. -/
theorem skiplist_keeps_shape_tie :
    Tracks emptyList [] [.insert ⟨1, 7, 1, pagesFrom 9 4⟩, .insert ⟨2, 7, 0, pagesFrom 9 6⟩,
      .delete 2 7, .delete 1 7] :=
  skiplist_keeps_shape emptyList_eq _ (by decide +kernel)

/-! ### Insertion when memory runs out -/

/-- `insert_node` returns, which it does unless it uses a null pointer or an entry of
`prev_nodes` never stored, and either the list is unchanged, or it has the full tower and on every
level each earlier node is still reached from the header. -/
def AllOrNothing (sl : Skiplist P) (ts : List (Tower P)) (pid d : ℤ) (maxLevel : ℕ)
    (pages : ℕ → Ptr P) : Prop :=
  ∃ sl', insertNode sl pid d maxLevel pages = some sl' ∧
    (sl' = sl ∨ ∃ pre post t, ts = pre ++ post ∧ t.entry = (pid, d) ∧
      t.nodes.length = maxLevel + 1 ∧ Towers sl' (pre ++ t :: post) ∧
      ∀ k h a, sl.headers[k]? = some h → a ∈ lane k ts →
        Relation.ReflTransGen (fun b c => nextOf sl'.mem b = some c) h a)

lemma Towers.pagesFree_of_insertNode (hts : Towers sl ts)
    (hins : Xv6Bfs.insertNode sl pid d maxLevel pages = some sl') :
    maxLevel < sl.levels ∧ PagesFree sl.mem pages (maxLevel + 1) := by
  obtain ⟨t, -, hlen, hfresh, -, hpages, hr', hlevels, -⟩ :=
    hts.rep.insertNode_eq_some hts.levels_pos hins
  have hmem : t ∈ StableQueue.insert Tower.virtualDeadline t ts := by
    rw [StableQueue.mem_insert]
    exact .inl rfl
  have hheight := hr'.height t hmem
  have hnodup : t.nodes.Nodup :=
    (nodup_flatMap.mp hr'.nodes_nodup).1 t hmem
  refine ⟨by omega, ?_, ?_⟩
  · intro j hj
    have hnode : t.nodes[j]? = some t.nodes[j] := getElem?_eq_getElem (by omega)
    exact ⟨t.nodes[j], (hpages j (by omega)).symm.trans hnode, hfresh _ (getElem_mem _)⟩
  · intro i hi j hj hij
    rw [← hpages i (by omega), ← hpages j (by omega)] at hij
    exact (getElem?_inj (by omega) hnodup).mp hij

/-- An insertion is all or nothing exactly if its tower fits in the list and none of its calls of
`kalloc` fails. -/
theorem allOrNothing_iff (hts : Towers sl ts) (pid d : ℤ) (maxLevel : ℕ) (pages : ℕ → Ptr P) :
    AllOrNothing sl ts pid d maxLevel pages ↔
      maxLevel < sl.levels ∧ PagesFree sl.mem pages (maxLevel + 1) := by
  constructor
  · rintro ⟨sl', hins, -⟩
    exact hts.pagesFree_of_insertNode hins
  · rintro ⟨hlevel, hfree⟩
    obtain ⟨sl', hins⟩ := hts.rep.exists_insertNode_eq pid d hlevel hfree
    refine ⟨sl', hins, .inr ?_⟩
    obtain ⟨t, hentry, hlen, -, -, -, hr', hlevels, hheaders⟩ :=
      hts.rep.insertNode_eq_some hts.levels_pos hins
    obtain ⟨pre, post, rfl, hinsert, -⟩ := StableQueue.exists_insert_eq hts.rep.sorted t
    rw [hinsert] at hr'
    refine ⟨pre, post, t, rfl, hentry, hlen, ⟨hlevels.trans hts.levels, hr', ?_⟩, ?_⟩
    · intro u hu
      rcases mem_append.mp hu with hu | hu
      · exact hts.nodes u (mem_append_left post hu)
      · rcases mem_cons.mp hu with rfl | hu
        · exact ne_nil_of_length_eq_add_one hlen
        · exact hts.nodes u (mem_append_right pre hu)
    · intro k h a hh ha
      rw [← hheaders] at hh
      apply (hr'.linked k h hh).reflTransGen
      apply mem_cons_of_mem
      rw [lane_append, mem_append] at ha ⊢
      rw [lane_cons, mem_append]
      tauto

def lastPage (P first : ℕ) (n : ℕ) : Ptr P :=
  if n = 0 then pagesFrom P first 0 else none

/-- With one page left a tower of two levels is linked on level 0 when the store through the null
pointer happens. -/
theorem not_allOrNothing_lastPage :
    Towers emptyList [] ∧ (∃ prevNodes mem, findPrev emptyList 7 1 = some prevNodes ∧
      linkLevels 1 7 prevNodes (lastPage 9 4) 1 0 none emptyList.mem = some mem ∧
      levelEntries { emptyList with mem := mem } 0 = some [(1, 7)] ∧
      linkLevels 1 7 prevNodes (lastPage 9 4) 2 0 none emptyList.mem = none) ∧
      ¬ AllOrNothing emptyList [] 1 7 1 (lastPage 9 4) := by
  have hts := (tracked_initSkiplist emptyList_eq).towers
  refine ⟨hts, ⟨_, _, rfl, rfl, by decide +kernel, by decide +kernel⟩, ?_⟩
  rintro ⟨sl', hins, -⟩
  exact absurd (hts.pagesFree_of_insertNode hins).2 (by decide +kernel)

theorem allOrNothing_iff_twoLevels : AllOrNothing emptyList [] 1 7 1 (pagesFrom 9 4) :=
  (allOrNothing_iff (tracked_initSkiplist emptyList_eq).towers 1 7 1 _).mpr (by decide +kernel)

/-! ### Deletion of any process -/

/-- Where a link leads that led to one of the `nodes` before they were taken out. -/
def bypass (link : Addr P → Ptr P) (nodes : List (Addr P)) : Ptr P → Ptr P
  | none => none
  | some a => if a ∈ nodes then link a else some a

/-- `delete_node` finds the tower at its top, takes it out of every level, and changes nothing else
but the links that led to its nodes. -/
def Removes (sl : Skiplist P) (pre : List (Tower P)) (t : Tower P) (post : List (Tower P)) : Prop :=
  ∃ top a sl', sl.headers[sl.levels - 1]? = some top ∧
    findNode sl.mem t.pid t.virtualDeadline sl.levels (some top) = some (some (a, t.nodes.length - 1)) ∧
    t.nodes[t.nodes.length - 1]? = some a ∧
    deleteNode sl t.pid t.virtualDeadline = some sl' ∧ sl'.levels = sl.levels ∧
    sl'.headers = sl.headers ∧
    (∀ k h, sl.headers[k]? = some h →
      LinkedList.Linked (nextOf sl'.mem) (prevOf sl'.mem) h (lane k (pre ++ post))) ∧
    ∀ c ∈ sl.headers ++ (pre ++ post).flatMap Tower.nodes,
      (sl'.mem c).map Node.payload = (sl.mem c).map Node.payload ∧
      nextOf sl'.mem c = bypass (nextOf sl.mem) t.nodes (nextOf sl.mem c) ∧
      prevOf sl'.mem c = bypass (prevOf sl.mem) t.nodes (prevOf sl.mem c)

lemma lane_cons_of_some {a : Addr P} (ha : t.nodes[k]? = some a) :
    lane k (pre ++ t :: post) = lane k pre ++ a :: lane k post := by
  simp [lane_cons, ha]

lemma lane_cons_of_none (hk : t.nodes[k]? = none) : lane k (pre ++ t :: post) = lane k (pre ++ post) := by
  simp [lane_cons, hk]

lemma bypass_eq {link : Addr P → Ptr P} {a : Addr P} {o : Ptr P} (ha : a ∈ t.nodes)
    (ho : ∀ b ∈ o, b ∈ t.nodes → b = a) :
    bypass link t.nodes o = if o = some a then link a else o := by
  cases o with
  | none => rfl
  | some b =>
    unfold bypass
    by_cases hb : b ∈ t.nodes
    · obtain rfl := ho b rfl hb
      simp [hb]
    · have hne : b ≠ a := by
        rintro rfl
        exact hb ha
      simp [hb, hne]

lemma bypass_eq_self {link : Addr P → Ptr P} {o : Ptr P} (ho : ∀ b ∈ o, b ∉ t.nodes) :
    bypass link t.nodes o = o := by
  cases o with
  | none => rfl
  | some b => exact if_neg (ho b rfl)

lemma Rep.exists_row (hr : Rep sl ts) {c : Addr P}
    (hc : c ∈ sl.headers ++ ts.flatMap Tower.nodes) :
    ∃ k h, sl.headers[k]? = some h ∧ c ∈ h :: lane k ts := by
  rcases mem_append.mp hc with hc | hc
  · obtain ⟨k, hk⟩ := mem_iff_getElem?.mp hc
    exact ⟨k, c, hk, mem_cons_self⟩
  · obtain ⟨u, hu, hcu⟩ := mem_flatMap.mp hc
    obtain ⟨k, hk⟩ := mem_iff_getElem?.mp hcu
    have hlt := (List.getElem?_eq_some_iff.mp hk).1
    have hheight := hr.height u hu
    obtain ⟨h, hh⟩ := hr.exists_header (k := k) (by omega)
    exact ⟨k, h, hh, mem_cons_of_mem h (mem_lane.mpr ⟨u, hu, hk⟩)⟩

lemma Rep.links_bypass {mem' : Mem P} (hr : Rep sl (pre ++ t :: post))
    (hr' : Rep { sl with mem := mem' } (pre ++ post)) {c : Addr P}
    (hc : c ∈ sl.headers ++ (pre ++ post).flatMap Tower.nodes) :
    nextOf mem' c = bypass (nextOf sl.mem) t.nodes (nextOf sl.mem c) ∧
      prevOf mem' c = bypass (prevOf sl.mem) t.nodes (prevOf sl.mem c) := by
  obtain ⟨k, h, hh, hrow⟩ := hr'.exists_row hc
  have hlink := hr.linked k h hh
  have hlink' := hr'.linked k h hh
  have hnodup := hr.row_nodup hh
  -- on the row of `c` the only node of `t` is the one of this level
  have honly : ∀ b ∈ h :: lane k (pre ++ t :: post), b ∈ t.nodes → t.nodes[k]? = some b := by
    intro b hb hbt
    obtain ⟨i, hi⟩ := mem_iff_getElem?.mp hbt
    have hlt := (List.getElem?_eq_some_iff.mp hi).1
    have hheight := hr.height t (by simp)
    obtain ⟨g, hg⟩ := hr.exists_header (k := i) (by omega)
    by_contra hne
    have hik : i ≠ k := by
      rintro rfl
      exact hne hi
    have hmem : b ∈ g :: lane i (pre ++ t :: post) :=
      mem_cons_of_mem g (mem_lane.mpr ⟨t, by simp, hi⟩)
    exact hr.row_disjoint hik hg hh hmem hb
  have hnext : ∀ b ∈ nextOf sl.mem c, b ∈ lane k (pre ++ t :: post) := by
    intro b hb
    refine hlink.mem_of_next ?_ hb
    rcases mem_cons.mp hrow with rfl | hrow
    · exact mem_cons_self
    · refine mem_cons_of_mem h ?_
      rw [lane_append] at hrow ⊢
      rw [lane_cons]
      simp only [mem_append] at hrow ⊢
      tauto
  have hprev : ∀ b ∈ prevOf sl.mem c, b ∈ h :: lane k (pre ++ t :: post) := by
    intro b hb
    rcases mem_cons.mp hrow with rfl | hrow
    · rw [Option.mem_def, hr.headerPrev c (mem_of_getElem? hh)] at hb
      exact absurd hb (by simp)
    · have hc' : c ∈ lane k (pre ++ t :: post) := by
        rw [lane_append] at hrow ⊢
        rw [lane_cons]
        simp only [mem_append] at hrow ⊢
        tauto
      obtain ⟨p, hp, hcp⟩ := hlink.exists_prev hc'
      rwa [← Option.some.inj (hcp.symm.trans hb)]
  have hheader : prevOf mem' h = bypass (prevOf sl.mem) t.nodes (prevOf sl.mem h) := by
    rw [hr.headerPrev h (mem_of_getElem? hh)]
    exact hr'.headerPrev h (mem_of_getElem? hh)
  cases hk : t.nodes[k]? with
  | none =>
    have hnone : ∀ b ∈ h :: lane k (pre ++ t :: post), b ∉ t.nodes := by
      intro b hb hbt
      have := honly b hb hbt
      simp [hk] at this
    rw [lane_cons_of_none hk] at hlink
    rw [bypass_eq_self (fun b hb => hnone b (mem_cons_of_mem h (hnext b hb))),
      bypass_eq_self (fun b hb => hnone b (hprev b hb))]
    refine ⟨hlink.next_eq hlink' c hrow, ?_⟩
    rcases mem_cons.mp hrow with rfl | hrow
    · rw [hheader, hr.headerPrev c (mem_of_getElem? hh)]
      rfl
    · exact hlink.prev_eq hlink' c hrow
  | some a =>
    have ha : a ∈ t.nodes := mem_of_getElem? hk
    have hsome : ∀ b ∈ h :: lane k (pre ++ t :: post), b ∈ t.nodes → b = a := by
      intro b hb hbt
      exact Option.some.inj ((honly b hb hbt).symm.trans hk)
    rw [lane_cons_of_some hk] at hlink hnodup
    rw [lane_append] at hlink' hrow
    rw [bypass_eq ha (fun b hb => hsome b (mem_cons_of_mem h (hnext b hb)))]
    refine ⟨hlink.next_of_unsplice hlink' hnodup c hrow, ?_⟩
    rcases mem_cons.mp hrow with rfl | hrow
    · exact hheader
    · rw [bypass_eq ha (fun b hb => hsome b (hprev b hb))]
      exact hlink.prev_of_unsplice hlink' hnodup c hrow

/-- A process is taken out exactly if no process with the same deadline in front of it has a tower
that is as high as its own. -/
lemma Tracked.removes_iff (h : Tracked sl (pre ++ t :: post)) (hpid : t.pid ≠ -1)
    (huniq : ∀ u ∈ pre ++ post, u.pid ≠ t.pid) :
    Removes sl pre t post ↔
      ∀ u ∈ pre, u.virtualDeadline = t.virtualDeadline → u.nodes.length < t.nodes.length := by
  have hr := h.towers.rep
  have hd := h.nonneg t (by simp)
  have hlen : t.nodes.length = t.nodes.length - 1 + 1 := by
    have := length_pos_iff.mpr (h.towers.nodes t (by simp))
    omega
  have hsorted := pairwise_append.mp hr.sorted
  obtain ⟨pre, mid, rfl, hpre, hmid⟩ := exists_split hsorted.1 t.virtualDeadline
  have hmid' : ∀ u ∈ mid, u.virtualDeadline = t.virtualDeadline := fun u hu =>
    le_antisymm (hsorted.2.2 u (mem_append_right pre hu) t (by simp)) (hmid u hu)
  rw [append_assoc] at hr
  constructor
  · rintro ⟨top, a, sl', htop, hfind, ha, -⟩ u hu hvd
    have humid : u ∈ mid := (mem_append.mp hu).resolve_left (fun hp => by
      have := hpre u hp
      omega)
    have hrest : ∀ v ∈ mid ++ t :: post, t.virtualDeadline ≤ v.virtualDeadline := by
      intro v hv
      rcases mem_append.mp hv with hv | hv
      · exact hmid v hv
      · rcases mem_cons.mp hv with rfl | hv
        · exact le_rfl
        · exact rel_of_pairwise_cons hsorted.2.1 hv
    obtain ⟨top', htop', hnone | hsome⟩ :=
      hr.deleteNode_cases t.pid h.towers.levels_pos hd hpre hrest
    all_goals obtain rfl : top = top' := Option.some.inj (htop.symm.trans htop')
    · rw [hfind] at hnone
      exact absurd hnone.1 (by simp)
    · obtain ⟨us, v, vs, a', j, mem', -, -, -, -, hhead, hfind', -⟩ := hsome
      rw [hfind] at hfind'
      obtain ⟨rfl, rfl⟩ : a = a' ∧ t.nodes.length - 1 = j := by simpa using hfind'
      -- the head of the level is in front of `t`
      by_contra hge
      have hne : lane (t.nodes.length - 1) mid ≠ [] := by
        intro hnil
        have := lane_eq_nil.mp hnil u humid
        omega
      have hamid : a ∈ lane (t.nodes.length - 1) mid := by
        rw [lane_append, head?_append_of_ne_nil _ hne] at hhead
        exact mem_of_mem_head? hhead
      have hnodup := hr.nodes_nodup
      rw [← append_assoc, flatMap_append, nodup_append] at hnodup
      refine hnodup.2.2 a ?_ a ?_ rfl
      · rw [flatMap_append]
        exact mem_append_right _ (mem_nodes_of_mem_lane hamid)
      · exact mem_flatMap.mpr ⟨t, by simp, mem_of_getElem? ha⟩
  · intro hcond
    have hlower : ∀ u ∈ mid, u.virtualDeadline = t.virtualDeadline ∧
        u.nodes.length ≤ t.nodes.length - 1 := by
      intro u hu
      have := hcond u (mem_append_right pre hu) (hmid' u hu)
      exact ⟨hmid' u hu, by omega⟩
    obtain ⟨top, a, mem', htop, ha, hfind, hdel, hr', hfreed⟩ :=
      hr.deleteNode_eq hd hpid hpre hlower huniq hlen
    rw [← append_assoc] at hr
    refine ⟨top, a, _, htop, hfind, ha, hdel, rfl, rfl, hr'.linked, ?_⟩
    intro c hc
    refine ⟨hfreed.payload c ?_, hr.links_bypass hr' hc⟩
    intro hct
    have hperm : (sl.headers ++ (pre ++ mid ++ t :: post).flatMap Tower.nodes).Perm
        (t.nodes ++ (sl.headers ++ (pre ++ mid ++ post).flatMap Tower.nodes)) := by
      simp only [flatMap_append, flatMap_cons, ← append_assoc]
      refine (perm_append_comm.trans ?_).append_right _
      simp only [append_assoc, List.Perm.refl]
    exact (nodup_append.mp (hperm.nodup_iff.mp hr.nodup)).2.2 c hct c hc rfl

def Tower.summary (t : Tower P) : ℤ × ℤ × ℕ := (t.pid, t.virtualDeadline, t.nodes.length - 1)

def Insertion.summary (i : Insertion P) : ℤ × ℤ × ℕ := (i.pid, i.virtualDeadline, i.maxLevel)

def runCalls (sl : Skiplist P) (calls : List (ListCall P)) : Option (Skiplist P) :=
  calls.foldlM ListCall.exec sl

lemma Tracked.runCalls_insert {ins : List (Insertion P)} (h : Tracked sl ts)
    (hcalls : CallsAllowed sl (ins.map .insert)) :
    ∃ sl' ts', runCalls sl (ins.map .insert) = some sl' ∧ Tracked sl' ts' ∧
      (ts'.map Tower.summary).Perm (ts.map Tower.summary ++ ins.map Insertion.summary) := by
  induction ins generalizing sl ts with
  | nil => exact ⟨sl, ts, rfl, h, by simp⟩
  | cons i ins ih =>
    obtain ⟨⟨hd, hlevel, hfree⟩, hrest⟩ := hcalls
    obtain ⟨sl₁, hins⟩ := h.towers.rep.exists_insertNode_eq i.pid i.virtualDeadline hlevel hfree
    simp only [ListCall.exec, hins] at hrest
    obtain ⟨pre, post, t, rfl, hentry, hlen, -, -, -, h₁⟩ := h.insertNode hd hins
    obtain ⟨sl', ts', hrun, h', hperm⟩ := ih h₁ hrest
    refine ⟨sl', ts', ?_, h', hperm.trans ?_⟩
    · simp only [runCalls, map_cons, foldlM_cons, ListCall.exec, hins] at hrun ⊢
      exact hrun
    · have hsummary : t.summary = i.summary := by
        obtain ⟨hpid, hvd⟩ := Prod.mk.inj hentry
        rw [Tower.summary, hpid, hvd, hlen]
        rfl
      rw [map_append, map_cons, map_append, map_cons, hsummary]
      refine (List.Perm.append_right _ perm_middle).trans ?_
      exact perm_middle.symm

/-- In every list built by insertions, `delete_node` takes a process out exactly if no process with
the same deadline that was inserted before has a tower that is as high as its own. -/
theorem deleteNode_removes_iff (hinit : initSkiplist pages junk = some sl) (ins : List (Insertion P))
    (hpid : ∀ i ∈ ins, 0 < i.pid) (huniq : (ins.map Insertion.pid).Nodup)
    (hcalls : CallsAllowed sl (ins.map .insert)) :
    ∃ sl' ts, runCalls sl (ins.map .insert) = some sl' ∧ Towers sl' ts ∧
      (ts.map Tower.summary).Perm (ins.map Insertion.summary) ∧
      ∀ pre t post, ts = pre ++ t :: post → (Removes sl' pre t post ↔
        ∀ u ∈ pre, u.virtualDeadline = t.virtualDeadline → u.nodes.length < t.nodes.length) := by
  obtain ⟨sl', ts, hrun, h', hperm⟩ := (tracked_initSkiplist hinit).runCalls_insert hcalls
  rw [map_nil, nil_append] at hperm
  refine ⟨sl', ts, hrun, h'.towers, hperm, ?_⟩
  rintro pre t post rfl
  have hpids : ((pre ++ t :: post).map Tower.pid).Perm (ins.map Insertion.pid) := by
    have hfst := hperm.map Prod.fst
    rw [map_map, map_map] at hfst
    exact hfst
  refine h'.removes_iff ?_ ?_
  · have hmem : t.pid ∈ ins.map Insertion.pid := hpids.mem_iff.mp (by simp)
    obtain ⟨i, hi, hti⟩ := mem_map.mp hmem
    have := hpid i hi
    omega
  · intro u hu hut
    have hnodup := hpids.nodup_iff.mpr huniq
    rw [map_append, map_cons, nodup_middle, nodup_cons, ← hut, ← map_append] at hnodup
    exact hnodup.1 (mem_map_of_mem hu)

def tie : List (Insertion 9) := [⟨1, 7, 0, pagesFrom 9 4⟩, ⟨2, 7, 0, pagesFrom 9 5⟩]

def tieList : Skiplist 9 := (runCalls emptyList (tie.map .insert)).get (by decide +kernel)

/-- The search finds nothing for the second of the two, which stays in the list. -/
theorem deleteNode_misses_tie :
    initSkiplist (pagesFrom 9 0) none = some emptyList ∧ CallsAllowed emptyList (tie.map .insert) ∧
      runCalls emptyList (tie.map .insert) = some tieList ∧
      (∃ ts, Towers tieList ts ∧ ∃ t ∈ ts, t.entry = (2, 7)) ∧
      (deleteNode tieList 2 7).bind (levelEntries · 0) = some [(1, 7), (2, 7)] ∧
      ∀ pre t post, t.entry = (2, 7) → ¬ Removes tieList pre t post := by
  have hcalls : CallsAllowed emptyList (tie.map .insert) := by decide +kernel
  have hrun : runCalls emptyList (tie.map .insert) = some tieList := (Option.some_get _).symm
  refine ⟨emptyList_eq, hcalls, hrun, ?_, by decide +kernel, ?_⟩
  · obtain ⟨sl', ts, hrun', h', hperm⟩ := (tracked_initSkiplist emptyList_eq).runCalls_insert hcalls
    obtain rfl : tieList = sl' := Option.some.inj (hrun.symm.trans hrun')
    have hmem : ((2, 7, 0) : ℤ × ℤ × ℕ) ∈ ts.map Tower.summary :=
      hperm.mem_iff.mpr (by decide)
    obtain ⟨t, ht, hsummary⟩ := mem_map.mp hmem
    obtain ⟨hpid, hrest⟩ := Prod.mk.inj hsummary
    exact ⟨ts, h'.towers, t, ht, by rw [Tower.entry, hpid, (Prod.mk.inj hrest).1]⟩
  · rintro pre t post hentry ⟨top, a, sl', htop, hfind, -⟩
    obtain ⟨hpid, hvd⟩ := Prod.mk.inj hentry
    have hnone : ∀ top, tieList.headers[tieList.levels - 1]? = some top →
        findNode tieList.mem 2 7 tieList.levels (some top) = some none := by decide +kernel
    rw [hpid, hvd, hnone top htop] at hfind
    exact absurd hfind (by simp)

def three : List (Insertion 9) :=
  [⟨1, 7, 0, pagesFrom 9 4⟩, ⟨2, 7, 1, pagesFrom 9 5⟩, ⟨3, 8, 0, pagesFrom 9 7⟩]

theorem deleteNode_removes_iff_three :
    ∃ sl ts, runCalls emptyList (three.map .insert) = some sl ∧ Towers sl ts ∧
      ∀ pre t post, ts = pre ++ t :: post → (Removes sl pre t post ↔
        ∀ u ∈ pre, u.virtualDeadline = t.virtualDeadline → u.nodes.length < t.nodes.length) := by
  obtain ⟨sl, ts, hrun, hts, -, hiff⟩ :=
    deleteNode_removes_iff emptyList_eq three (by decide) (by decide) (by decide +kernel)
  exact ⟨sl, ts, hrun, hts, hiff⟩

end Xv6Bfs
