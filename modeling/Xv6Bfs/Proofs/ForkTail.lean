import Xv6Bfs.Proofs.ForkLink
import Xv6Bfs.Proofs.Scheduling

/-!
# The list after an interrupted nicefork

The tail of `nicefork` links the child behind predecessors that it has looked up without the
lock. If all of them stand until they are used, and the child is not dispatched before its
last level is linked, then the list is in order when `nicefork` returns. If a process is
woken in between, it need not be.
-/

namespace Xv6Bfs

open Function LinkedList List Option Transition

variable {P : ℕ} {Cpu : Type} [DecidableEq Cpu] {c : Cpu}

namespace Kernel

variable {s s' t : Kernel P Cpu} {i j np : Slot} {draw : Draw P} {draws : Slot → Draw P}
  {chan : Option Chan} {pid : ℤ} {rest : List Slot} {q : List (Queued P)}
  {q' pre post : List (Queued P)} {ns : List (Addr P)} {prevNodes : ℕ → Ptr P}

/-! ### What the other steps leave alone -/

lemma Safe.step_frame {e : Event P Cpu} {stage : ForkStage} (hs : s.Safe)
    (hstep : e.step s = some s') (hframe : s.frame j = some (stage, np))
    (hallocated : stage ≠ .allocated) (hcopied : stage ≠ .copied)
    (hother : ∀ c n draw, e = .niceforkInsert c n draw → s.executing c ≠ some j) :
    s'.frame j = some (stage, np) := by
  have hupdate : ∀ i f, s.frame i ≠ some (stage, np) → update s.frame i f j = some (stage, np) := by
    intro i f hi
    have hji : j ≠ i := fun hji => hi (hji ▸ hframe)
    rw [update_of_ne hji]
    exact hframe
  cases e with
  | userinit draw =>
    obtain ⟨-, -, np, -, hins⟩ := userinit_eq_some hstep
    rw [(insertProc_calm hins).frame]
    exact hframe
  | scheduler c =>
    obtain ⟨-, -, pid, -, hloop⟩ := scheduler_eq_some hstep
    rcases schedulerLoop_eq_some hloop with ⟨-, rfl⟩ | ⟨l₁, i, l₂, -, -, hswitch⟩
    · exact hframe
    · obtain ⟨sl, r, -, -, rfl⟩ := switchTo_eq_some hswitch
      exact hframe
  | proceed c draw =>
    rcases proceed_eq_some hstep with ⟨i, rest, pid, s₁, ht, hback, hloop⟩ |
      ⟨i, rest, pid, ht, ⟨r, hpc, hsched⟩ | ⟨hpc, hwait⟩ | ⟨r, hpc, hresume⟩⟩
    · obtain ⟨s₂, hcalm, -, rfl⟩ := hs.switchBack_eq ht hback hloop
      exact (congrFun hcalm.frame j).trans hframe
    · obtain ⟨i', rest', pid', -, -, rfl⟩ := sched_eq_some hsched
      exact hframe
    · rcases waitLoop_eq_some hwait with ⟨k, -, -, rfl⟩ | rfl | ⟨p, -, -, -, rfl⟩
      · exact hframe
      · exact hframe
      · exact hframe
    · cases r with
      | exit => simp [Kernel.resume] at hresume
      | forkret | yield | sleep | wait =>
        obtain rfl := Option.some.inj hresume
        exact hframe
  | yield c =>
    obtain ⟨i, p, rest, pid, -, -, -, -, rfl⟩ := yield_eq_some hstep
    exact hframe
  | sleep c a =>
    obtain ⟨i, p, rest, pid, -, -, -, -, -, rfl⟩ := sleep_eq_some hstep
    exact hframe
  | wait c =>
    obtain ⟨i, rest, pid, -, -, -, -, rfl⟩ := wait_eq_some hstep
    exact hframe
  | exit c draws =>
    obtain ⟨i, rest, pid, r, s₂, -, -, -, -, -, -, -, -, hhand, -, -, rfl⟩ := hs.exit_handover hstep
    exact (congrFun hhand.frame j).trans hframe
  | wakeup a draws =>
    simp only [Event.step, Kernel.wakeup, ite_none_right_eq_some] at hstep
    rw [(wakeup1_calm hstep.2).1.frame]
    exact hframe
  | kill pid draw =>
    rw [(kill_calm hstep).frame]
    exact hframe
  | nicefork c =>
    rcases nicefork_eq_some hstep with rfl | ⟨i, rest, pid, np, -, -, hnone, -, -, rfl⟩
    · exact hframe
    · exact hupdate i _ (by simp [hnone])
  | niceforkFail c =>
    obtain ⟨i, np', -, hi, rfl⟩ := niceforkFail_eq_some hstep
    exact hupdate i _ (by simp [hi, hallocated.symm])
  | niceforkCopy c =>
    obtain ⟨i, np', -, hi, rfl⟩ := niceforkCopy_eq_some hstep
    exact hupdate i _ (by simp [hi, hallocated.symm])
  | niceforkPublish c =>
    obtain ⟨i, np', -, hi, rfl⟩ := niceforkPublish_eq_some hstep
    exact hupdate i _ (by simp [hi, hcopied.symm])
  | niceforkInsert c n draw =>
    obtain ⟨i, np', s₁, hexec, -, -, hins, rfl⟩ := niceforkInsert_eq_some hstep
    have hji : j ≠ i := fun hji => hother c n draw rfl (hji ▸ hexec)
    have hcalm := (setNice_calm n).trans (insertProc_calm hins)
    simpa [hji, hcalm.frame] using hframe
  | tick =>
    obtain rfl := Option.some.inj hstep
    exact hframe
  | charge c =>
    rcases charge_eq_some hstep with rfl | ⟨i, p, rest, pid, -, -, -, -, rfl⟩
    · exact hframe
    · exact hframe
  | fault c =>
    obtain ⟨p, rfl⟩ := fault_eq_some hstep
    exact hframe

/-! ### A tower that is being linked -/

omit [DecidableEq Cpu] in
lemma QueueOk.rep_split (hq : s.QueueOk q) (hsplit : q = pre ++ ⟨np, ns⟩ :: post) :
    Rep s.skiplist (pre.map s.tower ++ s.tower ⟨np, ns⟩ :: post.map s.tower) := by
  have hr := hq.towers.rep
  rw [hsplit] at hr
  simpa using hr

/-- No tie behind the tower of `np` reaches the next level to be linked. -/
def Low (s : Kernel P Cpu) (np : Slot) (level : ℕ) (post : List (Queued P)) : Prop :=
  ∀ y ∈ post, (s.proc y.slot).virtualDeadline = (s.proc np).virtualDeadline → y.nodes.length ≤ level

omit [DecidableEq Cpu] in
lemma Low.tower (hlow : s.Low np ns.length post) : ∀ u ∈ post.map s.tower,
    u.virtualDeadline = (s.tower ⟨np, ns⟩).virtualDeadline →
    u.nodes.length ≤ (s.tower ⟨np, ns⟩).nodes.length := by
  intro u hu
  obtain ⟨y, hy, rfl⟩ := mem_map.mp hu
  exact hlow y hy

omit [DecidableEq Cpu] in
/-- Insertions put no tie behind the tower that reaches the next level, because its first node
there would be found by a new search. -/
lemma Grows.low (hgrows : Grows s q s' q') (hq : s.QueueOk q) (hq' : s'.QueueOk q')
    (hsplit : q = pre ++ ⟨np, ns⟩ :: post) {pre' post' : List (Queued P)}
    (hsplit' : q' = pre' ++ ⟨np, ns⟩ :: post') {p : Addr P} (hp : prevNodes ns.length = some p)
    (hlevels : ns.length < SKIPLIST_LEVELS)
    (hstands : SearchStands s.skiplist (s.proc np).virtualDeadline ns.length prevNodes)
    (hstands' : SearchStands s'.skiplist (s'.proc np).virtualDeadline ns.length prevNodes)
    (hlow : s.Low np ns.length post) : s'.Low np ns.length post' := by
  have hr := hq.rep_split hsplit
  have hr' := hq'.rep_split hsplit'
  have hlev : ns.length < s.skiplist.levels := by rw [hq.towers.levels]; exact hlevels
  have hlev' : ns.length < s'.skiplist.levels := by rw [hq'.towers.levels]; exact hlevels
  have hlive : s.skiplist.mem p ≠ none :=
    SearchStands.live (t := s.tower ⟨np, ns⟩) hstands hr hlev hlow.tower hp
  have hdeadline : ∀ x ∈ q, (s'.proc x.slot).virtualDeadline = (s.proc x.slot).virtualDeadline :=
    fun x hx => congrArg Tower.virtualDeadline (hgrows.entry x hx)
  have hnp := hdeadline ⟨np, ns⟩ (by simp [hsplit])
  -- a tie behind the tower that reaches the level was not in the list before
  have hnew : ∀ z ∈ post', (s'.proc z.slot).virtualDeadline = (s'.proc np).virtualDeadline →
      ns.length < z.nodes.length → z ∉ q := by
    intro z hz hd hlen hzq
    have hbehind : StableQueue.Before (fun x : Queued P => (s'.proc x.slot).virtualDeadline)
        (fun x => s'.queuedAt x.slot) ⟨np, ns⟩ z := by
      have horder := hq'.order
      rw [hsplit', pairwise_append, pairwise_cons] at horder
      exact horder.2.1.1 z hz
    have hfirst : ¬ StableQueue.Before (fun x : Queued P => (s'.proc x.slot).virtualDeadline)
        (fun x => s'.queuedAt x.slot) z ⟨np, ns⟩ := by
      rcases hbehind with h | ⟨-, h⟩
      · exact absurd hd h.ne'
      · rintro (h' | ⟨-, h'⟩)
        · exact absurd hd h'.ne
        · exact lt_asymm h h'
    have horder := hq'.order.sublist hgrows.sublist
    rw [hsplit, pairwise_append] at horder
    rw [hsplit, mem_append, mem_cons] at hzq
    rcases hzq with hzpre | rfl | hzpost
    · exact hfirst (horder.2.2 z hzpre _ (by simp))
    · exact absurd hlen (lt_irrefl _)
    · have hzd := hdeadline z (by simp [hsplit, hzpost])
      have := hlow z hzpost (by rw [← hzd, ← hnp]; exact hd)
      omega
  intro y hy hd
  by_contra hlen
  obtain ⟨u, hu, hud, hup⟩ := SearchStands.exists_tie (t := s'.tower ⟨np, ns⟩) hstands' hr' hlev' hp
    (mem_map_of_mem hy) hd (not_le.mp hlen)
  obtain ⟨z, hz, rfl⟩ := mem_map.mp hu
  have hzlen : ns.length < z.nodes.length := (List.getElem?_eq_some_iff.mp hup).1
  have hzq := hnew z hz hud hzlen
  have hzq' : z ∈ q' := by rw [hsplit']; simp [hz]
  rcases hgrows.fresh z hzq' with h | h
  · exact hzq h
  · exact hlive (h p (mem_of_getElem? hup))

omit [DecidableEq Cpu] in
lemma Evolves.linked (hev : Evolves s q s' q') (hq : s.QueueOk q) (hq' : s'.QueueOk q')
    (hsplit : q = pre ++ ⟨np, ns⟩ :: post) (hdispatch : 0 ≤ (s'.proc np).maxLevel)
    (hnone : ∀ j, SKIPLIST_LEVELS ≤ j → prevNodes j = none)
    (hstands : SearchStands s.skiplist (s.proc np).virtualDeadline ns.length prevNodes)
    (hstands' : SearchStands s'.skiplist (s'.proc np).virtualDeadline ns.length prevNodes)
    (hlow : prevNodes ns.length ≠ none → s.Low np ns.length post) :
    ∃ pre' post', q' = pre' ++ ⟨np, ns⟩ :: post' ∧
      (prevNodes ns.length ≠ none → s'.Low np ns.length post') := by
  rcases hev with hgrows | ⟨x, hx, hlevel, htower⟩
  · have hmem : (⟨np, ns⟩ : Queued P) ∈ q' := hgrows.sublist.subset (by simp [hsplit])
    obtain ⟨pre', post', hsplit'⟩ := append_of_mem hmem
    refine ⟨pre', post', hsplit', ?_⟩
    intro hsome
    obtain ⟨p, hp⟩ := ne_none_iff_exists'.mp hsome
    have hlevels : ns.length < SKIPLIST_LEVELS := by
      by_contra hge
      exact hsome (hnone _ (not_lt.mp hge))
    exact hgrows.low hq hq' hsplit hsplit' hp hlevels hstands hstands' (hlow hsome)
  · have hdeadline : ∀ y : Queued P, (s'.proc y.slot).virtualDeadline =
        (s.proc y.slot).virtualDeadline := fun y => congrArg Tower.virtualDeadline (htower y)
    cases pre with
    | nil =>
      obtain ⟨rfl, rfl⟩ : (⟨np, ns⟩ : Queued P) = x ∧ post = q' := by simpa using hsplit.symm.trans hx
      simp only at hlevel
      omega
    | cons y pre =>
      obtain ⟨-, rfl⟩ : y = x ∧ pre ++ ⟨np, ns⟩ :: post = q' := by simpa using hsplit.symm.trans hx
      refine ⟨pre, post, rfl, ?_⟩
      intro hsome y hy hd
      exact hlow hsome y hy (by rw [← hdeadline, hd]; exact hdeadline ⟨np, ns⟩)

/-! ### The steps of the tail -/

omit [DecidableEq Cpu] in
lemma not_ready_of_published (hframe : s.frame j = some (.published, np)) : ¬ s.Ready np := by
  intro hr
  simpa using hr.2.2 j _ hframe

omit [DecidableEq Cpu] in
lemma Inv.setNice {n : ℤ} (h : s.Inv q) (hframe : s.frame j = some (.published, np)) :
    (s.setNice n np).Inv q := by
  have hstill : Still s (s.setNice n np) := by
    refine still_of_ne (i := np) rfl rfl rfl rfl ?_ (fun _ _ _ _ => Iff.rfl)
      (not_ready_of_published hframe) (not_ready_of_published hframe)
    intro k hk
    simp [Kernel.setNice, setDeadline, modify, hk]
  exact ⟨h.safe.of_calm (setNice_calm n), (h.queue.of_still hstill).1⟩

omit [DecidableEq Cpu] in
lemma Inv.setMaxLevel {maxLevel : ℤ} (h : s.Inv q) :
    (s.modify np (fun p => { p with maxLevel := maxLevel })).Inv q := by
  have hcalm : Calm s (s.modify np (fun p => { p with maxLevel := maxLevel })) :=
    calm_update (.inl rfl) rfl rfl rfl
  exact ⟨h.safe.of_calm hcalm, (h.queue.of_still (still_modify rfl rfl rfl)).1⟩

omit [DecidableEq Cpu] in
lemma Inv.clearFrame (h : s.Inv q) (hframe : s.frame j = some (.linking, np)) :
    Inv { s with frame := update s.frame j none } q := by
  refine ⟨h.safe.endFrame (by simp), h.queue.toListOk.of_agree rfl (fun _ _ => rfl) (fun _ _ => rfl) le_rfl,
    ?_⟩
  intro k
  rw [h.queue.mem]
  unfold Ready
  dsimp only
  have hstage : (∀ i stage, update s.frame j none i = some (stage, k) → stage = .linking) ↔
      ∀ i stage, s.frame i = some (stage, k) → stage = .linking := by
    constructor
    · intro hall i stage hi
      by_cases hij : i = j
      · subst hij
        simp_all
      · exact hall i stage (by rwa [update_of_ne hij])
    · intro hall i stage hi
      by_cases hij : i = j
      · simp [hij] at hi
      · exact hall i stage (by rwa [update_of_ne hij] at hi)
  rw [hstage]

omit [DecidableEq Cpu] in
lemma Inv.enter {mem : Mem P} {p a : Addr P} {page : Ptr P} (h : s.Inv q)
    (hframe : s.frame j = some (.published, np))
    (hstands : SearchStands s.skiplist (s.proc np).virtualDeadline 0 prevNodes)
    (hp : prevNodes 0 = some p)
    (hins : insertToLevel s.skiplist.mem (s.proc np).pid (s.proc np).virtualDeadline p none page =
      some (a, mem)) :
    ∃ pre post, (ForkKernel.enter j np { s with skiplist := { s.skiplist with mem := mem } }).Inv
        (pre ++ ⟨np, [a]⟩ :: post) ∧
      SearchStands { s.skiplist with mem := mem } (s.proc np).virtualDeadline 1 prevNodes ∧
      s.Low np 1 post := by
  have hnp : np ∉ q.map Queued.slot := by
    rw [h.queue.mem]
    exact not_ready_of_published hframe
  have hsorted : q.Pairwise (fun x y =>
      (s.proc x.slot).virtualDeadline ≤ (s.proc y.slot).virtualDeadline) := by
    refine h.queue.order.imp ?_
    rintro x y (hlt | ⟨heq, -⟩)
    · exact hlt.le
    · exact heq.le
  obtain ⟨pre, post, hq, hinsert, hpre, hpost⟩ :=
    StableQueue.exists_insert_eq hsorted (⟨np, [a]⟩ : Queued P)
  have hr : Rep s.skiplist (pre.map s.tower ++ s.tower ⟨np, []⟩ :: post.map s.tower) := by
    have hr := h.queue.towers.rep
    rw [hq, map_append] at hr
    refine hr.insert_nodes_nil rfl ?_ ?_
    · intro u hu
      obtain ⟨x, hx, rfl⟩ := mem_map.mp hu
      exact hpre x hx
    · intro u hu
      obtain ⟨x, hx, rfl⟩ := mem_map.mp hu
      exact (hpost x hx).le
  have hlevels : 0 < s.skiplist.levels := h.queue.towers.levels_pos
  have hlow : ∀ u ∈ post.map s.tower, u.virtualDeadline = (s.tower ⟨np, []⟩).virtualDeadline →
      u.nodes.length ≤ (s.tower ⟨np, []⟩).nodes.length := by
    intro u hu hd
    obtain ⟨x, hx, rfl⟩ := mem_map.mp hu
    exact absurd hd (hpost x hx).ne'
  obtain ⟨hr', hstands'⟩ := SearchStands.raise (t := s.tower ⟨np, []⟩) hstands hr hlevels hlow hp hins
  obtain ⟨hrunnable, -, hoff⟩ := h.safe.frames.published j np hframe
  refine ⟨pre, post, ⟨?_, ?_, ?_⟩, hstands', fun x hx hd => absurd hd (hpost x hx).ne'⟩
  · have hcalm : Calm s { s with
        skiplist := { s.skiplist with mem := mem }
        queuedAt := update s.queuedAt np s.enqueues
        enqueues := s.enqueues + 1 } := by
      constructor <;> simp
    exact (h.safe.of_calm hcalm).endFrame (by simp)
  · rw [← hinsert]
    refine h.queue.toListOk.insert hnp ?_ (fun _ => rfl) rfl rfl
    have hmap : StableQueue.insert Tower.virtualDeadline (s.tower ⟨np, [a]⟩) (q.map s.tower) =
        (pre ++ ⟨np, [a]⟩ :: post).map s.tower := by
      rw [← hinsert]
      exact (StableQueue.map_insert s.tower Tower.virtualDeadline (fun _ => rfl)).symm
    rw [hmap]
    refine ⟨h.queue.towers.levels, by rw [map_append, map_cons]; exact hr', ?_⟩
    intro u hu
    rw [map_append, map_cons, mem_append, mem_cons, or_left_comm] at hu
    rcases hu with rfl | hu
    · exact cons_ne_nil a []
    · refine h.queue.towers.nodes u ?_
      rw [hq, map_append]
      exact mem_append.mpr hu
  · intro k
    have hslots : k ∈ (pre ++ ⟨np, [a]⟩ :: post).map Queued.slot ↔ k = np ∨ s.Ready k := by
      rw [← h.queue.mem, hq]
      simp only [map_append, map_cons, mem_append, mem_cons]
      tauto
    rw [hslots]
    by_cases hk : k = np
    · subst hk
      refine ⟨fun _ => ⟨hrunnable, hoff, ?_⟩, fun _ => .inl rfl⟩
      intro i stage hi
      change update s.frame j (some (.linking, k)) i = some (stage, k) at hi
      by_cases hij : i = j
      · simp_all
      · rw [update_of_ne hij] at hi
        by_contra hlink
        exact hij (h.safe.frames.inj i j stage _ k hi hframe hlink (by simp))
    · have hframes := update_frame_iff (s := s) (i := j) (v := some (.linking, np)) (k := k)
        (by simp [hframe, Ne.symm hk]) (by simp [Ne.symm hk])
      unfold Ready ForkKernel.enter
      simp [hk, hframes]

omit [DecidableEq Cpu] in
lemma Inv.raise {mem : Mem P} {p a : Addr P} {page : Ptr P} (h : s.Inv q)
    (hsplit : q = pre ++ ⟨np, ns⟩ :: post) (hlevels : ns.length < SKIPLIST_LEVELS)
    (hstands : SearchStands s.skiplist (s.proc np).virtualDeadline ns.length prevNodes)
    (hlow : s.Low np ns.length post) (hp : prevNodes ns.length = some p)
    (hins : insertToLevel s.skiplist.mem (s.proc np).pid (s.proc np).virtualDeadline p
      ((s.tower ⟨np, ns⟩).below ns.length) page = some (a, mem)) :
    Inv { s with skiplist := { s.skiplist with mem := mem } } (pre ++ ⟨np, ns ++ [a]⟩ :: post) ∧
      SearchStands { s.skiplist with mem := mem } (s.proc np).virtualDeadline (ns.length + 1)
        prevNodes := by
  have hlev : ns.length < s.skiplist.levels := by rw [h.queue.towers.levels]; exact hlevels
  obtain ⟨hr', hstands'⟩ := SearchStands.raise (t := s.tower ⟨np, ns⟩) hstands
    (h.queue.rep_split hsplit) hlev hlow.tower hp hins
  have hslots : (pre ++ ⟨np, ns ++ [a]⟩ :: post).map Queued.slot = q.map Queued.slot := by
    simp [hsplit]
  refine ⟨⟨?_, ⟨?_, ?_, ?_⟩, ?_⟩, hstands'⟩
  · have hcalm : Calm s { s with skiplist := { s.skiplist with mem := mem } } := by
      constructor <;> simp
    exact h.safe.of_calm hcalm
  · refine ⟨h.queue.towers.levels, by rw [map_append, map_cons]; exact hr', ?_⟩
    intro u hu
    rw [map_append, map_cons, mem_append, mem_cons, or_left_comm] at hu
    rcases hu with rfl | hu
    · simp [tower]
    · refine h.queue.towers.nodes u ?_
      rw [hsplit, map_append, map_cons, mem_append, mem_cons]
      tauto
  · have horder : (q.map Queued.slot).Pairwise
        (StableQueue.Before (fun i => (s.proc i).virtualDeadline) s.queuedAt) :=
      pairwise_map.mpr h.queue.order
    rw [← hslots, pairwise_map] at horder
    exact horder
  · intro x hx
    have hx' : x.slot ∈ q.map Queued.slot := hslots ▸ mem_map_of_mem hx
    obtain ⟨y, hy, hyx⟩ := mem_map.mp hx'
    rw [← hyx]
    exact h.queue.past y hy
  · intro k
    rw [hslots, h.queue.mem]
    rfl

end Kernel

namespace ForkKernel

variable {s s' : ForkKernel P Cpu} {q : List (Queued P)} {e : Event P Cpu}

/-! ### Every run of the tail -/

/-- How far the tail has come, with the processes `q` in the list. -/
def TailOk (k : Kernel P Cpu) (q : List (Queued P)) (t : Tail P) : Prop :=
  match t.stage with
  | .search => k.frame t.cur = some (.published, t.np)
  | .link level prevNodes forward =>
    0 ≤ (k.proc t.np).maxLevel ∧ (∀ j, SKIPLIST_LEVELS ≤ j → prevNodes j = none) ∧
    SearchStands k.skiplist (k.proc t.np).virtualDeadline level prevNodes ∧
    (level = 0 ∧ forward = none ∧ k.frame t.cur = some (.published, t.np) ∨
      k.frame t.cur = some (.linking, t.np) ∧ ∃ pre ns post, q = pre ++ ⟨t.np, ns⟩ :: post ∧
        0 < level ∧ ns.length = level ∧ forward = (k.tower ⟨t.np, ns⟩).below level ∧
        (prevNodes level ≠ none → k.Low t.np level post))

def Inv (s : ForkKernel P Cpu) : Prop :=
  ∃ q, s.kernel.Inv q ∧ ∀ t ∈ s.tail, TailOk s.kernel q t

lemma other_eq_some (h : s.other e = some s') :
    e.tailOf.bind s.tailOn = none ∧ ∃ k, e.step s.kernel = some k ∧ s' = { s with kernel := k } := by
  unfold other at h
  split at h
  · simp at h
  · next htail =>
    obtain ⟨k, hk, rfl⟩ := map_eq_some_iff.mp h
    exact ⟨by simpa using htail, k, hk, rfl⟩

lemma executing_ne {t : Tail P} (htail : e.tailOf.bind s.tailOn = none)
    (ht : s.tail = some t) {k : Kernel P Cpu} (hk : e.step s.kernel = some k) (c : Cpu) (n : ℤ)
    (draw : Draw P) (he : e = .niceforkInsert c n draw) : s.kernel.executing c ≠ some t.cur := by
  subst he
  intro hexec
  obtain ⟨i, np, s₁, hi, hpc, -⟩ := Kernel.niceforkInsert_eq_some hk
  obtain rfl : i = t.cur := Option.some.inj (hi.symm.trans hexec)
  simp [Event.tailOf, tailOn, ht, hexec, hpc] at htail

lemma Inv.other (h : s.Inv) (hok : Undisturbed s (.other e))
    (hstep : s.other e = some s') : s'.Inv := by
  have hsettled := hok s' hstep
  obtain ⟨htailOf, k, hk, rfl⟩ := other_eq_some hstep
  obtain ⟨q, hq, htail⟩ := h
  obtain ⟨q', hq', hev⟩ := hq.step hk
  refine ⟨q', hq', ?_⟩
  intro t ht
  have hsettled := hsettled t ht
  have hok := htail t ht
  have hown := executing_ne htailOf ht hk
  unfold TailOk at hok ⊢
  unfold Tail.Settled at hsettled
  cases hstage : t.stage with
  | search =>
    rw [hstage] at hok
    exact hq.safe.step_frame hk hok (by simp) (by simp) hown
  | link level prevNodes forward =>
    rw [hstage] at hok hsettled
    obtain ⟨hdispatch, hstands'⟩ := hsettled
    obtain ⟨-, hnone, hstands, hcases⟩ := hok
    refine ⟨hdispatch, hnone, hstands', ?_⟩
    rcases hcases with ⟨hlevel, hforward, hframe⟩ |
      ⟨hframe, pre, ns, post, hsplit, hpos, rfl, hforward, hlow⟩
    · exact .inl ⟨hlevel, hforward, hq.safe.step_frame hk hframe (by simp) (by simp) hown⟩
    · obtain ⟨pre', post', hsplit', hlow'⟩ :=
        hev.linked hq.queue hq'.queue hsplit hdispatch hnone hstands hstands' hlow
      refine .inr ⟨hq.safe.step_frame hk hframe (by simp) (by simp) hown, pre', ns, post', hsplit',
        hpos, rfl, ?_, hlow'⟩
      rw [hforward]
      cases hlen : ns.length with
      | zero => rfl
      | succ n => rfl

omit [DecidableEq Cpu] in
lemma tailOn_eq_some {t : Tail P} (h : s.tailOn c = some t) : s.tail = some t := by
  unfold tailOn at h
  exact (filter_eq_some_iff.mp h).1

omit [DecidableEq Cpu] in
lemma Inv.setDeadline {n : ℤ} (h : s.Inv) (hstep : s.setDeadline c n = some s') : s'.Inv := by
  unfold ForkKernel.setDeadline at hstep
  split at hstep
  · simp at hstep
  · simp only [bind_eq_bind, bind_eq_some_iff, Prod.exists, Option.some.injEq,
      Kernel.forking_eq_some] at hstep
    obtain ⟨cur, np, ⟨-, -, hframe⟩, rfl⟩ := hstep
    obtain ⟨q, hq, -⟩ := h
    refine ⟨q, hq.setNice hframe, ?_⟩
    intro t ht
    obtain rfl := Option.some.inj ht
    exact hframe

omit [DecidableEq Cpu] in
lemma Inv.search {maxLevel : ℕ} (h : s.Inv) (hstep : s.search c maxLevel = some s') : s'.Inv := by
  unfold ForkKernel.search at hstep
  simp only [bind_eq_bind, bind_eq_some_iff] at hstep
  obtain ⟨t, ht, hstep⟩ := hstep
  obtain ⟨q, hq, htail⟩ := h
  have hok := htail t (tailOn_eq_some ht)
  cases hstage : t.stage with
  | link => simp [hstage] at hstep
  | search =>
    simp only [hstage, bind_eq_some_iff, Option.some.injEq] at hstep
    simp only [TailOk, hstage] at hok
    obtain ⟨prevNodes, hfind, rfl⟩ := hstep
    refine ⟨q, hq.setMaxLevel, ?_⟩
    intro t' ht'
    obtain rfl := Option.some.inj ht'
    obtain ⟨hstands, hnone⟩ :=
      hq.queue.towers.rep.searchStands hq.queue.towers.levels_pos hfind
    rw [hq.queue.towers.levels] at hnone
    refine ⟨by simp [Kernel.modify], hnone, ?_, .inl ⟨rfl, rfl, hok⟩⟩
    simpa [Kernel.modify] using hstands

omit [DecidableEq Cpu] in
lemma Inv.link {page : Ptr P} (h : s.Inv) (hstep : s.link c page = some s') : s'.Inv := by
  unfold ForkKernel.link at hstep
  simp only [bind_eq_bind, bind_eq_some_iff] at hstep
  obtain ⟨t, ht, hstep⟩ := hstep
  obtain ⟨q, hq, htail⟩ := h
  have hok := htail t (tailOn_eq_some ht)
  cases hstage : t.stage with
  | search => simp [hstage] at hstep
  | link level prevNodes forward =>
    simp only [TailOk, hstage] at hok hstep
    obtain ⟨hdispatch, hnone, hstands, hcases⟩ := hok
    split at hstep
    · next hlevel =>
      simp only [bind_eq_some_iff, Option.some.injEq, Prod.exists] at hstep
      obtain ⟨p, hp, a, mem, hins, rfl⟩ := hstep
      have hlevels : level < SKIPLIST_LEVELS := by
        by_contra hge
        simp [hnone level (not_lt.mp hge)] at hp
      rcases hcases with ⟨rfl, rfl, hframe⟩ |
        ⟨hframe, pre, ns, post, hsplit, hpos, rfl, rfl, hlow⟩
      · obtain ⟨pre, post, hinv, hstands', hlow⟩ := hq.enter hframe hstands hp hins
        refine ⟨_, hinv, ?_⟩
        intro t' ht'
        obtain rfl := Option.some.inj ht'
        exact ⟨hdispatch, hnone, hstands', .inr ⟨by simp [enter], pre, [a], post, rfl, by simp, rfl,
          rfl, fun _ => hlow⟩⟩
      · have hlow' := hlow (by simp [hp])
        obtain ⟨hinv, hstands'⟩ := hq.raise hsplit hlevels hstands hlow' hp hins
        rw [if_neg hpos.ne']
        refine ⟨_, hinv, ?_⟩
        intro t' ht'
        obtain rfl := Option.some.inj ht'
        refine ⟨hdispatch, hnone, hstands', .inr ⟨hframe, pre, ns ++ [a], post, rfl, by simp,
          by simp, by simp [Tower.below, Kernel.tower], ?_⟩⟩
        exact fun _ y hy hd => (hlow' y hy hd).trans (Nat.le_succ _)
    · next hlevel =>
      obtain rfl := Option.some.inj hstep
      rcases hcases with ⟨rfl, -, -⟩ | ⟨hframe, -⟩
      · simp only [Nat.cast_zero] at hlevel
        exact absurd hdispatch hlevel
      · exact ⟨q, hq.clearFrame hframe, by simp⟩

theorem inv_of_reach (hs : Reach (forkKernel P Cpu) Undisturbed s) : s.Inv := by
  refine Reach.invariant Inv ?_ ?_ hs
  · rintro s ⟨hinit, htail⟩
    obtain ⟨q, hq⟩ := Kernel.inv_of_reachable (Reach.init hinit)
    exact ⟨q, hq, by simp [htail]⟩
  · intro s e s' hinv hok hstep
    cases e with
    | other e => exact hinv.other hok hstep
    | setDeadline c n => exact hinv.setDeadline hstep
    | search c maxLevel => exact hinv.search hstep
    | link c page => exact hinv.link hstep

/-- Every level can be walked without meeting a freed node and is in the order of deadlines,
and the RUNNABLE processes are on level 0, each once. -/
structure ListInOrder (k : Kernel P Cpu) : Prop where
  sorted : ∀ level < SKIPLIST_LEVELS, ∃ es, levelEntries k.skiplist level = some es ∧
    es.Pairwise (fun e f => e.2 ≤ f.2)
  runnable : ∃ es, levelEntries k.skiplist 0 = some es ∧ (es.map Prod.fst).Nodup ∧
    ∀ pid, pid ∈ es.map Prod.fst ↔ ∃ i, (k.proc i).state = .RUNNABLE ∧ (k.proc i).pid = pid

/-- If nothing disturbs the tails of `nicefork`, the list is in order whenever the lock is free
and no `nicefork` is going on. -/
theorem list_in_order_of_undisturbed (hs : Reach (forkKernel P Cpu) Undisturbed s)
    (hquiet : s.kernel.Quiet) : ListInOrder s.kernel := by
  obtain ⟨q, hq, -⟩ := inv_of_reach hs
  obtain ⟨es, hes, hnodup, hmem, -⟩ := hq.queue.exists_levelEntries hq.safe.toCore hquiet
  refine ⟨?_, es, hes, hnodup, hmem⟩
  intro level hlevel
  have hr := hq.queue.towers.rep
  refine ⟨_, hr.levelEntries_eq (by rw [hq.queue.towers.levels]; exact hlevel), ?_⟩
  rw [pairwise_map]
  exact hr.sorted.sublist filter_sublist

def boots (m : System (ForkKernel P Cpu) (ForkEvent P Cpu)) (es : List (ForkEvent P Cpu)) :
    Option (ForkKernel P Cpu) := do
  let sl ← initSkiplist (pagesFrom P 0) none
  run m es ⟨Kernel.boot sl, none⟩

lemma reachable_of_boots {m : System (ForkKernel P Cpu) (ForkEvent P Cpu)}
    {es : List (ForkEvent P Cpu)} (hm : m.init = (forkKernel P Cpu).init)
    (h : boots m es = some s) : Reachable m s := by
  simp only [boots, bind_eq_bind, bind_eq_some_iff] at h
  obtain ⟨sl, hinit, hrun⟩ := h
  exact Reachable.run (Reach.init (hm ▸ ⟨⟨_, _, sl, hinit, rfl⟩, rfl⟩)) hrun

/-- The first process creates a child of two levels, with ticks of the timer in between. -/
theorem list_in_order_of_undisturbed_ticks :
    ∃ s, boots ((forkKernel 12 Unit).restrict Undisturbed) [.other (.userinit ⟨0, pagesFrom 12 4⟩),
        .other (.scheduler ()), .other (.proceed () ⟨0, pagesFrom 12 4⟩), .other (.nicefork ()),
        .other (.niceforkCopy ()), .other (.niceforkPublish ()), .setDeadline () 5, .other .tick,
        .search () 1, .other (.charge ()), .link () (some 4), .other .tick, .link () (some 5),
        .link () none] = some s ∧ s.tail = none ∧ ListInOrder s.kernel := by
  have hrun : ∃ s ∈ boots ((forkKernel 12 Unit).restrict Undisturbed)
      [.other (.userinit ⟨0, pagesFrom 12 4⟩), .other (.scheduler ()),
        .other (.proceed () ⟨0, pagesFrom 12 4⟩), .other (.nicefork ()), .other (.niceforkCopy ()),
        .other (.niceforkPublish ()), .setDeadline () 5, .other .tick, .search () 1,
        .other (.charge ()), .link () (some 4), .other .tick, .link () (some 5), .link () none],
      s.tail.isNone ∧ s.kernel.Quiet := by
    decide +kernel
  obtain ⟨s, hs, htail, hquiet⟩ := hrun
  exact ⟨s, hs, by simpa using htail,
    list_in_order_of_undisturbed (reach_of_restrict (reachable_of_boots rfl hs)) hquiet⟩

/-- A sleeper with an earlier deadline is woken between the search and the link. -/
theorem list_out_of_order_after_wakeup :
    ∃ s, Reachable (forkKernel 12 Unit) s ∧ s.tail = none ∧ s.kernel.Quiet ∧ ¬ ListInOrder s.kernel := by
  have hrun : ∃ s ∈ boots (forkKernel 12 Unit) [.other (.userinit ⟨0, pagesFrom 12 4⟩),
      .other (.scheduler ()), .other (.proceed () ⟨0, pagesFrom 12 4⟩), .other (.nicefork ()),
      .other (.niceforkCopy ()), .other (.niceforkPublish ()),
      .other (.niceforkInsert () (-15) ⟨0, pagesFrom 12 4⟩), .other (.yield ()),
      .other (.proceed () ⟨0, pagesFrom 12 5⟩), .other (.proceed () ⟨0, pagesFrom 12 5⟩),
      .other (.scheduler ()), .other (.proceed () ⟨0, pagesFrom 12 4⟩), .other (.sleep () 0),
      .other (.proceed () ⟨0, pagesFrom 12 4⟩), .other (.proceed () ⟨0, pagesFrom 12 4⟩),
      .other (.scheduler ()), .other (.proceed () ⟨0, pagesFrom 12 4⟩), .other (.nicefork ()),
      .other (.niceforkCopy ()), .other (.niceforkPublish ()), .setDeadline () 0, .search () 0,
      .other (.wakeup 0 (fun _ => ⟨0, pagesFrom 12 4⟩)), .link () (some 5), .link () none],
      s.tail.isNone ∧ s.kernel.Quiet ∧ levelEntries s.kernel.skiplist 0 = some [(3, 1050), (2, 300)] := by
    decide +kernel
  obtain ⟨s, hs, htail, hquiet, hentries⟩ := hrun
  refine ⟨s, reachable_of_boots rfl hs, by simpa using htail, hquiet, ?_⟩
  intro hlaw
  obtain ⟨es, hes, hsorted⟩ := hlaw.sorted 0 (by decide)
  obtain rfl := Option.some.inj (hentries.symm.trans hes)
  simp at hsorted

end ForkKernel

end Xv6Bfs
