import Xv6Bfs.Proofs.SkiplistOps

/-!
# The skip list is a stable priority queue

`Holds sl es` says that the list holds the processes `es`, given by their pids and deadlines in the order of level 0. It
abstracts from the heights of the towers and from the pages, and all that the kernel does with the list keeps it.
-/

namespace Xv6Bfs

open LinkedList List

variable {P : ℕ} {sl sl' : Skiplist P} {ts : List (Tower P)} {t : Tower P} {es : List (ℤ × ℤ)}
  {pid d : ℤ} {maxLevel : ℕ} {pages : ℕ → Ptr P} {junk : Ptr P}

/-- The skip list represents the towers `ts`, in this order. -/
structure Towers (sl : Skiplist P) (ts : List (Tower P)) : Prop where
  levels : sl.levels = SKIPLIST_LEVELS
  rep : Rep sl ts
  nodes : ∀ t ∈ ts, t.nodes ≠ []

lemma Towers.levels_pos (hts : Towers sl ts) : 0 < sl.levels := by
  rw [hts.levels]
  decide

lemma Towers.insertNode (hts : Towers sl ts) (hins : insertNode sl pid d maxLevel pages = some sl') :
    ∃ t : Tower P, t.entry = (pid, d) ∧ (∀ a ∈ t.nodes, sl.mem a = none) ∧
      (∀ a, sl'.mem a = none → sl.mem a = none) ∧
      Towers sl' (StableQueue.insert Tower.virtualDeadline t ts) := by
  obtain ⟨t, hentry, hlen, hfresh, hmono, -, hr', hlevels, -⟩ :=
    hts.rep.insertNode_eq_some hts.levels_pos hins
  refine ⟨t, hentry, hfresh, hmono, hlevels.trans hts.levels, hr', ?_⟩
  intro u hu
  rw [StableQueue.mem_insert] at hu
  rcases hu with rfl | hu
  · exact ne_nil_of_length_eq_add_one hlen
  · exact hts.nodes u hu

lemma Towers.deleteNode_head (hts : Towers sl (t :: ts)) (hd : 0 ≤ t.virtualDeadline)
    (hpid : t.pid ≠ -1) (huniq : ∀ u ∈ ts, u.pid ≠ t.pid) :
    ∃ sl', deleteNode sl t.pid t.virtualDeadline = some sl' ∧ Towers sl' ts := by
  have hne := hts.nodes t (by simp)
  have hlen : t.nodes.length = t.nodes.length - 1 + 1 := by
    have := length_pos_iff.mpr hne
    omega
  have hr : Rep sl ([] ++ ([] ++ t :: ts)) := hts.rep
  obtain ⟨-, -, mem', -, -, -, hdel, hr', -⟩ := hr.deleteNode_eq hd hpid (by simp) (by simp)
    (fun u hu => huniq u (by simpa using hu)) hlen
  exact ⟨_, hdel, hts.levels, hr', fun u hu => hts.nodes u (mem_cons_of_mem t hu)⟩

def Holds (sl : Skiplist P) (es : List (ℤ × ℤ)) : Prop :=
  ∃ ts, Towers sl ts ∧ ts.map Tower.entry = es

lemma holds_initSkiplist (hinit : initSkiplist pages junk = some sl) : Holds sl [] := by
  obtain ⟨hr, hlevels⟩ := initSkiplist_rep hinit
  exact ⟨[], ⟨hlevels, hr, by simp⟩, rfl⟩

lemma Holds.insertNode (hh : Holds sl es) (hins : insertNode sl pid d maxLevel pages = some sl') :
    Holds sl' (StableQueue.insert Prod.snd (pid, d) es) := by
  obtain ⟨ts, hts, rfl⟩ := hh
  obtain ⟨t, hentry, -, -, hts'⟩ := hts.insertNode hins
  refine ⟨_, hts', ?_⟩
  rw [← hentry]
  exact StableQueue.map_insert Tower.entry Prod.snd (fun _ => rfl)

lemma Holds.exists_insertNode_eq (hh : Holds sl es) (pid d : ℤ) (hlevel : maxLevel < sl.levels)
    (hpages : PagesFree sl.mem pages (maxLevel + 1)) :
    ∃ sl', Xv6Bfs.insertNode sl pid d maxLevel pages = some sl' := by
  obtain ⟨ts, hts, -⟩ := hh
  exact hts.rep.exists_insertNode_eq pid d hlevel hpages

lemma Holds.deleteNode_head {e : ℤ × ℤ} (hh : Holds sl (e :: es)) (hd : 0 ≤ e.2) (hpid : e.1 ≠ -1)
    (huniq : ∀ f ∈ es, f.1 ≠ e.1) : ∃ sl', deleteNode sl e.1 e.2 = some sl' ∧ Holds sl' es := by
  obtain ⟨ts, hts, hmap⟩ := hh
  obtain ⟨t, us, rfl, rfl, rfl⟩ := map_eq_cons_iff.mp hmap
  obtain ⟨sl', hdel, hus⟩ := hts.deleteNode_head hd hpid
    (fun u hu => huniq u.entry (mem_map_of_mem hu))
  exact ⟨sl', hdel, us, hus, rfl⟩

lemma Holds.getMinimum_eq (hh : Holds sl es) : getMinimum sl = some (es.head?.elim (-69) Prod.fst) := by
  obtain ⟨ts, hts, rfl⟩ := hh
  rw [hts.rep.getMinimum_eq hts.levels_pos hts.nodes]
  cases ts <;> rfl

lemma Holds.levelEntries_eq (hh : Holds sl es) : levelEntries sl 0 = some es := by
  obtain ⟨ts, hts, rfl⟩ := hh
  rw [hts.rep.levelEntries_eq hts.levels_pos, filter_eq_self.mpr]
  intro t ht
  simpa [length_pos_iff] using hts.nodes t ht

/-! ### A client of the list -/

inductive Op (P : ℕ)
  | insert (pid virtualDeadline : ℤ) (maxLevel : ℕ) (pages : ℕ → Ptr P)
  | deleteMin

/-- The list, and the deadlines that the client gave to the processes it inserted. -/
structure Client (P : ℕ) where
  skiplist : Skiplist P
  virtualDeadline : ℤ → ℤ

/-- The effect of a call. `delete_node` is passed the process that has the pid returned by
`get_minimum`, and there is none with pid -69. -/
def Op.exec (c : Client P) : Op P → Option (Client P)
  | insert pid virtualDeadline maxLevel pages => do
    let skiplist ← insertNode c.skiplist pid virtualDeadline maxLevel pages
    some ⟨skiplist, Function.update c.virtualDeadline pid virtualDeadline⟩
  | deleteMin => do
    let pid ← getMinimum c.skiplist
    if pid = -69 then some c
    else do
      let skiplist ← deleteNode c.skiplist pid (c.virtualDeadline pid)
      some ⟨skiplist, c.virtualDeadline⟩

def Client.run (c : Client P) (ops : List (Op P)) : Option (Client P) :=
  ops.foldlM Op.exec c

/-- What a call says to a sorted list: the process to insert, or to remove the head. -/
def Op.call : Op P → Option (ℤ × ℤ)
  | insert pid virtualDeadline _ _ => some (pid, virtualDeadline)
  | deleteMin => none

def refStep (q : List (ℤ × ℤ)) : Option (ℤ × ℤ) → List (ℤ × ℤ)
  | some e => StableQueue.insert Prod.snd e q
  | none => q.tail

def reference (calls : List (Option (ℤ × ℤ))) : List (ℤ × ℤ) :=
  calls.foldl refStep []

/-- What the client has to respect in a call when the processes `q` are queued. -/
def Op.Allowed (sl : Skiplist P) (q : List (ℤ × ℤ)) : Op P → Prop
  | insert pid virtualDeadline maxLevel pages =>
    0 < pid ∧ pid ∉ q.map Prod.fst ∧ 0 ≤ virtualDeadline ∧ maxLevel < sl.levels ∧
      PagesFree sl.mem pages (maxLevel + 1)
  | deleteMin => True

instance (sl : Skiplist P) (q : List (ℤ × ℤ)) : DecidablePred (Op.Allowed sl q)
  | .insert pid virtualDeadline maxLevel pages => by unfold Op.Allowed; infer_instance
  | .deleteMin => .isTrue trivial

def Client.Allowed (c : Client P) (q : List (ℤ × ℤ)) : List (Op P) → Prop
  | [] => True
  | op :: ops => op.Allowed c.skiplist q ∧
    match op.exec c with
    | some c' => Client.Allowed c' (refStep q op.call) ops
    | none => True

instance Client.decidableAllowed :
    (ops : List (Op P)) → (c : Client P) → (q : List (ℤ × ℤ)) → Decidable (c.Allowed q ops)
  | [], _, _ => .isTrue trivial
  | op :: ops, c, q => by
    unfold Client.Allowed
    have hrest (c' : Client P) := Client.decidableAllowed ops c' (refStep q op.call)
    cases op.exec c <;> infer_instance

structure Client.Refines (c : Client P) (q : List (ℤ × ℤ)) : Prop where
  holds : Holds c.skiplist q
  nodup : (q.map Prod.fst).Nodup
  entry : ∀ e ∈ q, 0 < e.1 ∧ 0 ≤ e.2 ∧ c.virtualDeadline e.1 = e.2

variable {q : List (ℤ × ℤ)} {c : Client P}

lemma Client.Refines.insert (hr : c.Refines q)
    (hpid : 0 < pid) (hnew : pid ∉ q.map Prod.fst) (hd : 0 ≤ d)
    (hins : insertNode c.skiplist pid d maxLevel pages = some sl') :
    Client.Refines ⟨sl', Function.update c.virtualDeadline pid d⟩
      (StableQueue.insert Prod.snd (pid, d) q) := by
  refine ⟨hr.holds.insertNode hins, ?_, ?_⟩
  · have hperm := (StableQueue.insert_perm Prod.snd (pid, d) q).map Prod.fst
    rw [hperm.nodup_iff, map_cons]
    exact nodup_cons.mpr ⟨hnew, hr.nodup⟩
  · intro e he
    rw [StableQueue.mem_insert] at he
    rcases he with rfl | he
    · exact ⟨hpid, hd, by simp⟩
    · obtain ⟨hpos, hnonneg, hentry⟩ := hr.entry e he
      have hne : e.1 ≠ pid := by
        rintro rfl
        exact hnew (mem_map_of_mem he)
      exact ⟨hpos, hnonneg, by simp only [Function.update_of_ne hne, hentry]⟩

lemma Client.Refines.deleteMin (hr : c.Refines q) :
    ∃ c', Op.exec c Op.deleteMin = some c' ∧ c'.Refines q.tail := by
  have hmin := hr.holds.getMinimum_eq
  cases q with
  | nil => exact ⟨c, by simp [Op.exec, hmin], hr⟩
  | cons e q =>
    obtain ⟨hpos, hnonneg, hentry⟩ := hr.entry e (by simp)
    have hnodup := nodup_cons.mp hr.nodup
    obtain ⟨sl', hdel, hh⟩ := hr.holds.deleteNode_head hnonneg (by omega)
      (fun f hf hfe => hnodup.1 (hfe ▸ mem_map_of_mem hf))
    refine ⟨⟨sl', c.virtualDeadline⟩, ?_, hh, hnodup.2, ?_⟩
    · have hne : e.1 ≠ -69 := by omega
      simp [Op.exec, hmin, hne, hentry, hdel]
    · intro f hf
      exact hr.entry f (mem_cons_of_mem e hf)

lemma Client.Refines.exec {op : Op P} (hr : c.Refines q)
    (hop : op.Allowed c.skiplist q) : ∃ c', op.exec c = some c' ∧ c'.Refines (refStep q op.call) := by
  cases op with
  | insert pid d maxLevel pages =>
    obtain ⟨hpid, hnew, hd, hlevel, hpages⟩ := hop
    obtain ⟨sl', hins⟩ := hr.holds.exists_insertNode_eq pid d hlevel hpages
    exact ⟨_, by simp [Op.exec, hins], hr.insert hpid hnew hd hins⟩
  | deleteMin => exact hr.deleteMin

/-- Calls on the skip list do what they do on the queue. -/
lemma Client.Refines.run {ops : List (Op P)} (hr : c.Refines q)
    (hops : c.Allowed q ops) :
    ∃ c', c.run ops = some c' ∧ c'.Refines ((ops.map Op.call).foldl refStep q) := by
  induction ops generalizing c q with
  | nil => exact ⟨c, rfl, hr⟩
  | cons op ops ih =>
    obtain ⟨hop, hrest⟩ := hops
    obtain ⟨c₁, hexec, hr₁⟩ := hr.exec hop
    simp only [hexec] at hrest
    obtain ⟨c', hrun, hr'⟩ := ih hr₁ hrest
    refine ⟨c', ?_, hr'⟩
    simp only [Client.run, foldlM_cons, hexec] at hrun ⊢
    exact hrun

lemma refines_initSkiplist (hinit : initSkiplist pages junk = some sl) (vd : ℤ → ℤ) :
    Client.Refines ⟨sl, vd⟩ [] :=
  ⟨holds_initSkiplist hinit, nodup_nil, by simp⟩

/-- The skip list refines a stable priority queue, whatever heights its towers get. -/
theorem skiplist_refines_stable_queue (hinit : initSkiplist pages junk = some sl) (vd : ℤ → ℤ)
    (ops : List (Op P)) (hops : Client.Allowed ⟨sl, vd⟩ [] ops) :
    ∃ c, Client.run ⟨sl, vd⟩ ops = some c ∧ levelEntries c.skiplist 0 = some (reference (ops.map Op.call)) ∧
      (∀ e q, reference (ops.map Op.call) = e :: q → getMinimum c.skiplist = some e.1) ∧
      (getMinimum c.skiplist = some (-69) ↔ reference (ops.map Op.call) = []) ∧
      ∀ ops', Client.Allowed ⟨sl, vd⟩ [] ops' → ops'.map Op.call = ops.map Op.call →
        ∃ c', Client.run ⟨sl, vd⟩ ops' = some c' ∧ levelEntries c'.skiplist 0 = levelEntries c.skiplist 0 ∧
          getMinimum c'.skiplist = getMinimum c.skiplist := by
  have hstart := refines_initSkiplist hinit vd
  obtain ⟨c, hrun, hr⟩ := hstart.run hops
  have hlevel : levelEntries c.skiplist 0 = some (reference (ops.map Op.call)) :=
    hr.holds.levelEntries_eq
  have hmin : getMinimum c.skiplist =
      some ((reference (ops.map Op.call)).head?.elim (-69) Prod.fst) := hr.holds.getMinimum_eq
  have hentry : ∀ e ∈ reference (ops.map Op.call), 0 < e.1 := fun e he => (hr.entry e he).1
  refine ⟨c, hrun, hlevel, ?_, ?_, ?_⟩
  · intro e q hq
    rw [hmin, hq]
    rfl
  · rw [hmin]
    cases hq : reference (ops.map Op.call) with
    | nil => simp
    | cons e q =>
      have hpos := hentry e (by simp [hq])
      have hne : e.1 ≠ -69 := by omega
      simp [hne]
  · intro ops' hops' hcall
    obtain ⟨c', hrun', hr'⟩ := hstart.run hops'
    rw [hcall] at hr'
    exact ⟨c', hrun', hr'.holds.levelEntries_eq.trans hlevel.symm, hr'.holds.getMinimum_eq.trans hmin.symm⟩

def pagesFrom (P first : ℕ) (n : ℕ) : Ptr P :=
  if h : first + n < P then some ⟨first + n, h⟩ else none

theorem skiplist_refines_stable_queue_example :
    ∃ sl c, initSkiplist (pagesFrom 9 0) none = some sl ∧
      Client.run ⟨sl, fun _ => 0⟩ [.insert 1 7 0 (pagesFrom 9 4), .insert 2 7 1 (pagesFrom 9 5),
        .insert 3 5 0 (pagesFrom 9 7), .deleteMin, .insert 4 6 1 (pagesFrom 9 7)] = some c ∧
      levelEntries c.skiplist 0 = some [(4, 6), (1, 7), (2, 7)] := by
  obtain ⟨sl, hsl⟩ : ∃ sl, initSkiplist (pagesFrom 9 0) none = some sl := ⟨_, rfl⟩
  have hops : Client.Allowed ⟨sl, fun _ => 0⟩ []
      [.insert 1 7 0 (pagesFrom 9 4), .insert 2 7 1 (pagesFrom 9 5),
        .insert 3 5 0 (pagesFrom 9 7), .deleteMin, .insert 4 6 1 (pagesFrom 9 7)] := by
    obtain rfl : _ = sl := Option.some.inj hsl
    decide +kernel
  obtain ⟨c, hrun, hlevel, -⟩ := skiplist_refines_stable_queue hsl (fun _ => 0) _ hops
  exact ⟨sl, c, hsl, hrun, hlevel⟩

end Xv6Bfs
