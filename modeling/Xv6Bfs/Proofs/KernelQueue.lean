import Xv6Bfs.Proofs.KernelSwitch

/-!
# The list holds the processes that wait for a CPU

`QueueOk s q` says that the list consists of one tower for each process that is RUNNABLE, has left the CPU and has been
inserted by the `nicefork` that created it, in the order of deadlines and, among equal ones, of insertions. A step inserts
(`Grows`) or takes the first element.
-/

namespace Xv6Bfs

open Function List

structure Queued (P : ℕ) where
  slot : Slot
  nodes : List (Addr P)

namespace Kernel

open Transition

variable {P : ℕ} {Cpu : Type} {s s' t : Kernel P Cpu} {c : Cpu} {i j np : Slot}
  {rest : List Slot} {pid : ℤ} {draw : Draw P} {draws : Slot → Draw P} {chan : Option Chan}
  {q q' : List (Queued P)} {x : Queued P}

def tower (s : Kernel P Cpu) (x : Queued P) : Tower P :=
  ⟨(s.proc x.slot).pid, (s.proc x.slot).virtualDeadline, x.nodes⟩

/-- The process is RUNNABLE, no CPU executes it and its creation is over. -/
def Ready (s : Kernel P Cpu) (i : Slot) : Prop :=
  (s.proc i).state = .RUNNABLE ∧ (∀ c, s.cpuProc c ≠ some i) ∧
    ∀ j stage, s.frame j = some (stage, i) → stage = .linking

/-- The skip list holds the towers of `q`, by deadline and then by arrival. -/
structure ListOk (s : Kernel P Cpu) (q : List (Queued P)) : Prop where
  towers : Towers s.skiplist (q.map s.tower)
  order : q.Pairwise (StableQueue.Before (fun x => (s.proc x.slot).virtualDeadline)
    (fun x => s.queuedAt x.slot))
  past : ∀ x ∈ q, s.queuedAt x.slot < s.enqueues

/-- In addition, `q` has exactly the processes that are ready. -/
structure QueueOk (s : Kernel P Cpu) (q : List (Queued P)) : Prop extends ListOk s q where
  mem : ∀ i, i ∈ q.map Queued.slot ↔ s.Ready i

/-- The list has grown by towers in pages that were free. -/
structure Grows (s : Kernel P Cpu) (q : List (Queued P)) (s' : Kernel P Cpu)
    (q' : List (Queued P)) : Prop where
  entry : ∀ x ∈ q, s'.tower x = s.tower x
  fresh : ∀ x ∈ q', x ∈ q ∨ ∀ a ∈ x.nodes, s.skiplist.mem a = none
  sublist : q.Sublist q'
  mono : ∀ a, s'.skiplist.mem a = none → s.skiplist.mem a = none

lemma Grows.refl (s : Kernel P Cpu) (q : List (Queued P)) : Grows s q s q :=
  ⟨fun _ _ => rfl, fun _ hx => .inl hx, List.Sublist.refl q, fun _ ha => ha⟩

lemma Grows.trans {s₁ s₂ s₃ : Kernel P Cpu} {q₁ q₂ q₃ : List (Queued P)}
    (h₁ : Grows s₁ q₁ s₂ q₂) (h₂ : Grows s₂ q₂ s₃ q₃) : Grows s₁ q₁ s₃ q₃ := by
  refine ⟨?_, ?_, h₁.sublist.trans h₂.sublist, fun a ha => h₁.mono a (h₂.mono a ha)⟩
  · intro x hx
    rw [h₂.entry x (h₁.sublist.subset hx), h₁.entry x hx]
  · intro x hx
    rcases h₂.fresh x hx with hx | hx
    · exact h₁.fresh x hx
    · exact .inr fun a ha => h₁.mono a (hx a ha)

/-! ### The order of the list -/

lemma ListOk.nodup (hq : s.ListOk q) : (q.map Queued.slot).Nodup := by
  rw [List.Nodup, pairwise_map]
  refine hq.order.imp ?_
  rintro x y (h | ⟨-, h⟩) hxy
  · simp [hxy] at h
  · simp [hxy] at h

lemma ListOk.of_agree (hq : s.ListOk q) (hsl : s'.skiplist = s.skiplist)
    (hentry : ∀ x ∈ q, s'.tower x = s.tower x) (hqueued : ∀ x ∈ q, s'.queuedAt x.slot = s.queuedAt x.slot)
    (henqueues : s.enqueues ≤ s'.enqueues) : s'.ListOk q := by
  have hdeadline : ∀ x ∈ q, (s'.proc x.slot).virtualDeadline = (s.proc x.slot).virtualDeadline :=
    fun x hx => congrArg Tower.virtualDeadline (hentry x hx)
  refine ⟨?_, ?_, ?_⟩
  · rw [hsl, map_congr_left hentry]
    exact hq.towers
  · refine hq.order.imp_of_mem ?_
    intro x y hx hy
    simp only [StableQueue.Before, hdeadline x hx, hdeadline y hy, hqueued x hx, hqueued y hy]
    exact id
  · intro x hx
    rw [hqueued x hx]
    exact (hq.past x hx).trans_le henqueues

lemma ListOk.insert {ns : List (Addr P)} (hq : s.ListOk q) (hi : i ∉ q.map Queued.slot)
    (htowers : Towers s'.skiplist
      (StableQueue.insert Tower.virtualDeadline (s.tower ⟨i, ns⟩) (q.map s.tower)))
    (htower : ∀ x, s'.tower x = s.tower x)
    (hqueuedAt : s'.queuedAt = update s.queuedAt i s.enqueues)
    (henqueues : s'.enqueues = s.enqueues + 1) :
    s'.ListOk (StableQueue.insert (fun x => (s.proc x.slot).virtualDeadline) ⟨i, ns⟩ q) := by
  have hne : ∀ x ∈ q, x.slot ≠ i := by
    rintro x hx rfl
    exact hi (mem_map_of_mem hx)
  have hqueued : ∀ x ∈ q, s'.queuedAt x.slot = s.queuedAt x.slot := fun x hx => by
    simp [hqueuedAt, hne x hx]
  refine ⟨?_, ?_, ?_⟩
  · have hmap := StableQueue.map_insert (a := ⟨i, ns⟩) (q := q) s.tower Tower.virtualDeadline
      (fun x => rfl)
    rw [map_congr_left (fun x _ => htower x)]
    exact hmap ▸ htowers
  · have hbase : q.Pairwise (StableQueue.Before (fun x => (s.proc x.slot).virtualDeadline)
        (fun x => s'.queuedAt x.slot)) := by
      refine hq.order.imp_of_mem ?_
      intro x y hx hy
      simp only [StableQueue.Before, hqueued x hx, hqueued y hy]
      exact id
    have hinsert := StableQueue.before_insert (a := ⟨i, ns⟩) hbase (fun x hx => by
      rw [hqueued x hx]
      simpa [hqueuedAt] using hq.past x hx)
    have hkey : (fun x : Queued P => (s'.proc x.slot).virtualDeadline) =
        fun x => (s.proc x.slot).virtualDeadline := by
      funext x
      exact congrArg Tower.virtualDeadline (htower x)
    rw [hkey]
    exact hinsert
  · intro x hx
    rw [StableQueue.mem_insert] at hx
    rw [henqueues]
    rcases hx with rfl | hx
    · simp [hqueuedAt]
    · have := hq.past x hx
      rw [hqueued x hx]
      omega

lemma ListOk.insertProc (hq : s.ListOk q) (hi : i ∉ q.map Queued.slot)
    (h : insertProc draw i s = some s') :
    ∃ ns, s'.ListOk (StableQueue.insert (fun x => (s.proc x.slot).virtualDeadline) ⟨i, ns⟩ q) ∧
      Grows s q s' (StableQueue.insert (fun x => (s.proc x.slot).virtualDeadline) ⟨i, ns⟩ q) := by
  obtain ⟨sl, hins, rfl⟩ := insertProc_eq_some h
  obtain ⟨t, hentry, hfresh, hmono, htowers⟩ := hq.towers.insertNode hins
  have ht : t = s.tower ⟨i, t.nodes⟩ := by
    have h₁ : t.pid = (s.proc i).pid := congrArg Prod.fst hentry
    have h₂ : t.virtualDeadline = (s.proc i).virtualDeadline := congrArg Prod.snd hentry
    cases t
    simp_all [tower]
  let s' : Kernel P Cpu := { s with
    proc := update s.proc i { s.proc i with maxLevel := draw.maxLevel }
    skiplist := sl
    queuedAt := update s.queuedAt i s.enqueues
    enqueues := s.enqueues + 1 }
  have htower : ∀ x, s'.tower x = s.tower x := by
    intro x
    by_cases hx : x.slot = i
    · simp [s', tower, hx]
    · simp [s', tower, hx]
  rw [ht] at htowers
  have hlist : s'.ListOk
      (StableQueue.insert (fun x => (s.proc x.slot).virtualDeadline) ⟨i, t.nodes⟩ q) :=
    hq.insert hi htowers htower rfl rfl
  refine ⟨t.nodes, hlist, ?_, ?_, ?_, hmono⟩
  · exact fun x _ => htower x
  · intro x hx
    rw [StableQueue.mem_insert] at hx
    rcases hx with rfl | hx
    · exact .inr hfresh
    · exact .inl hx
  · exact StableQueue.sublist_insert

lemma ListOk.insert_new {t : Kernel P Cpu} (hq : s.ListOk q) (hi : i ∉ q.map Queued.slot)
    (h : Kernel.insertProc draw i t = some s') (hsl : t.skiplist = s.skiplist)
    (hqueued : t.queuedAt = s.queuedAt) (henqueues : t.enqueues = s.enqueues)
    (hproc : ∀ k, k ≠ i → t.proc k = s.proc k) :
    ∃ q', s'.ListOk q' ∧ Grows s q s' q' ∧ ∀ k, k ∈ q'.map Queued.slot ↔ k = i ∨ k ∈ q.map Queued.slot := by
  have htower : ∀ x ∈ q, t.tower x = s.tower x := by
    intro x hx
    have hne : x.slot ≠ i := fun hxi => hi (hxi ▸ mem_map_of_mem hx)
    simp [tower, hproc x.slot hne]
  have hlist : t.ListOk q := hq.of_agree hsl htower (fun x _ => by rw [hqueued]) henqueues.ge
  obtain ⟨ns, hlist', hgrows⟩ := hlist.insertProc hi h
  refine ⟨_, hlist', ⟨?_, ?_, hgrows.sublist, ?_⟩, ?_⟩
  · exact fun x hx => (hgrows.entry x hx).trans (htower x hx)
  · rw [← hsl]
    exact hgrows.fresh
  · rw [← hsl]
    exact hgrows.mono
  · intro k
    simp only [mem_map, StableQueue.mem_insert]
    grind

/-! ### Steps that leave the list alone -/

/-- A step that leaves the queue alone. -/
structure Still (s s' : Kernel P Cpu) : Prop where
  skiplist : s'.skiplist = s.skiplist
  pid : ∀ i, s.Ready i → (s'.proc i).pid = (s.proc i).pid
  deadline : ∀ i, s.Ready i → (s'.proc i).virtualDeadline = (s.proc i).virtualDeadline
  queuedAt : s'.queuedAt = s.queuedAt
  enqueues : s'.enqueues = s.enqueues
  ready : ∀ i, s'.Ready i ↔ s.Ready i

lemma QueueOk.tower_eq (hq : s.QueueOk q)
    (hpid : ∀ i, s.Ready i → (s'.proc i).pid = (s.proc i).pid)
    (hdeadline : ∀ i, s.Ready i → (s'.proc i).virtualDeadline = (s.proc i).virtualDeadline) :
    ∀ x ∈ q, s'.tower x = s.tower x := by
  intro x hx
  have hready := (hq.mem x.slot).mp (mem_map_of_mem hx)
  simp [tower, hpid _ hready, hdeadline _ hready]

lemma QueueOk.of_still (hq : s.QueueOk q) (h : Still s s') : s'.QueueOk q ∧ Grows s q s' q := by
  have htower := hq.tower_eq h.pid h.deadline
  refine ⟨⟨hq.toListOk.of_agree h.skiplist htower (fun x _ => by rw [h.queuedAt]) h.enqueues.ge,
    fun i => (hq.mem i).trans (h.ready i).symm⟩, htower, fun x hx => .inl hx,
    List.Sublist.refl q, ?_⟩
  intro a ha
  rwa [h.skiplist] at ha

/-! ### Wakeups -/

lemma not_ready_of_state (h : (s.proc i).state ≠ .RUNNABLE) : ¬ s.Ready i :=
  fun hr => h hr.1

lemma FramesOk.stage_eq (hf : s.FramesOk) (hembryo : (s.proc i).state ≠ .EMBRYO)
    (hoff : (s.proc i).state = .RUNNABLE → ∃ c, s.cpuProc c = some i) {stage : ForkStage}
    (h : s.frame j = some (stage, i)) : stage = .linking := by
  cases stage with
  | allocated => exact absurd (hf.allocated j i h).1 hembryo
  | copied => exact absurd (hf.copied j i h).1 hembryo
  | published =>
    obtain ⟨hr, -, hno⟩ := hf.published j i h
    obtain ⟨c, hc⟩ := hoff hr
    exact absurd hc (hno c)
  | linking => rfl

lemma QueueOk.wake (hq : s.QueueOk q) (hs : s.Core) (hlock : s.lock = none)
    (hsleep : (s.proc i).state = .SLEEPING) (h : wake draw i s = some s') :
    ∃ q', s'.QueueOk q' ∧ Grows s q s' q' := by
  have hoff : ∀ c, s.cpuProc c ≠ some i := by
    intro c hc
    have := hs.cpus.running_of_free hlock hc
    simp [hsleep] at this
  have hi : i ∉ q.map Queued.slot := by
    rw [hq.mem]
    exact not_ready_of_state (by simp [hsleep])
  let s₁ := s.modify i (fun p => { p with state := .RUNNABLE })
  have htower : ∀ x, s₁.tower x = s.tower x := by
    intro x
    by_cases hx : x.slot = i
    · simp [s₁, tower, modify, hx]
    · simp [s₁, tower, modify, hx]
  have hlist : s₁.ListOk q := hq.toListOk.of_agree rfl (fun x _ => htower x) (fun _ _ => rfl) le_rfl
  obtain ⟨ns, hlist', hgrows⟩ := hlist.insertProc hi h
  refine ⟨_, ⟨hlist', ?_⟩, ⟨fun x hx => (hgrows.entry x hx).trans (htower x), hgrows.fresh,
    hgrows.sublist, hgrows.mono⟩⟩
  obtain ⟨sl, -, rfl⟩ := insertProc_eq_some h
  intro k
  have hmem : k ∈ (StableQueue.insert (fun x => (s₁.proc x.slot).virtualDeadline) ⟨i, ns⟩ q).map
      Queued.slot ↔ k = i ∨ k ∈ q.map Queued.slot := by
    simp only [mem_map, StableQueue.mem_insert]
    grind
  rw [hmem, hq.mem]
  have hstage : ∀ j stage, s.frame j = some (stage, i) → stage = .linking :=
    fun j stage hj => hs.frames.stage_eq (by simp [hsleep]) (by simp [hsleep]) hj
  unfold Ready
  dsimp only [modify]
  by_cases hk : k = i
  · subst hk
    simpa using ⟨hoff, hstage⟩
  · simp [hk]

lemma QueueOk.wakeup1Slot (hq : s.QueueOk q) (hs : s.Core) (hlock : s.lock = none)
    (h : wakeup1Slot chan draws s i = some s') : ∃ q', s'.QueueOk q' ∧ Grows s q s' q' := by
  unfold Kernel.wakeup1Slot at h
  split at h
  · next hcond => exact hq.wake hs hlock hcond.1 h
  · obtain rfl := Option.some.inj h
    exact ⟨q, hq, Grows.refl s q⟩

lemma QueueOk.wakeup1 (hq : s.QueueOk q) (hs : s.Core) (hlock : s.lock = none)
    (h : wakeup1 chan draws s = some s') : ∃ q', s'.QueueOk q' ∧ Grows s q s' q' := by
  have hloop : s'.Core ∧ s'.lock = none ∧ ∃ q', s'.QueueOk q' ∧ Grows s q s' q' := by
    refine foldlM_invariant (fun _ t => t.Core ∧ t.lock = none ∧
      ∃ q', t.QueueOk q' ∧ Grows s q t q') ?_ ⟨hs, hlock, q, hq, Grows.refl s q⟩ h
    intro _ j t t' ⟨ht, htlock, qt, hqt, hgrows⟩ hstep
    have hcalm := (wakeup1Slot_calm hstep).1
    obtain ⟨q', hq', hgrows'⟩ := hqt.wakeup1Slot ht htlock hstep
    exact ⟨hcalm.core ht, hcalm.lock.trans htlock, q', hq', hgrows.trans hgrows'⟩
  exact hloop.2.2

lemma still_modify {f : Proc → Proc} (hstate : (f (s.proc i)).state = (s.proc i).state)
    (hpid : (f (s.proc i)).pid = (s.proc i).pid)
    (hdeadline : (f (s.proc i)).virtualDeadline = (s.proc i).virtualDeadline) :
    Still s (s.modify i f) := by
  have hall : ∀ k, ((s.modify i f).proc k).state = (s.proc k).state ∧
      ((s.modify i f).proc k).pid = (s.proc k).pid ∧
      ((s.modify i f).proc k).virtualDeadline = (s.proc k).virtualDeadline := by
    intro k
    by_cases hk : k = i
    · subst hk
      simp [modify, hstate, hpid, hdeadline]
    · simp [modify, hk]
  refine ⟨rfl, fun k _ => (hall k).2.1, fun k _ => (hall k).2.2, rfl, rfl, ?_⟩
  intro k
  unfold Ready
  rw [(hall k).1]
  exact Iff.rfl

lemma QueueOk.kill (hq : s.QueueOk q) (hs : s.Core) (h : kill pid draw s = some s') :
    ∃ q', s'.QueueOk q' ∧ Grows s q s' q' := by
  obtain ⟨hlock, rfl | ⟨i, -, hcases⟩⟩ := kill_eq_some h
  · exact ⟨q, hq, Grows.refl s' q⟩
  · have hkilled : Calm s (s.modify i (fun p => { p with killed := true })) :=
      calm_update (.inl rfl) rfl rfl rfl
    obtain ⟨hq₁, hgrows⟩ := hq.of_still
      (still_modify (f := fun p => { p with killed := true }) (i := i) rfl rfl rfl)
    rcases hcases with ⟨hsleep, hwake⟩ | ⟨-, rfl⟩
    · obtain ⟨q', hq', hgrows'⟩ := hq₁.wake (hkilled.core hs) hlock
        (by simpa [modify] using hsleep) hwake
      exact ⟨q', hq', hgrows.trans hgrows'⟩
    · exact ⟨q, hq₁, hgrows⟩

/-! ### exit -/

lemma QueueOk.reparent {cur r : Slot} (hq : s.QueueOk q) (hs : s.Safe) (hlock : s.lock = none)
    (hinit : s.initproc = some r) (hframe : s.frame cur = none)
    (hrun : (s.proc cur).state = .RUNNING) (h : s.reparent cur draws j = some s') :
    ∃ q', s'.QueueOk q' ∧ Grows s q s' q' := by
  unfold Kernel.reparent at h
  split at h
  · next hchild =>
    obtain ⟨hcore, -⟩ := hs.setParent hinit hframe hrun hchild
    obtain ⟨hq₁, hgrows⟩ := hq.of_still
      (still_modify (f := fun p => { p with parent := s.initproc }) (i := j) rfl rfl rfl)
    dsimp only at h
    split at h
    · obtain ⟨q', hq', hgrows'⟩ := hq₁.wakeup1 hcore hlock h
      exact ⟨q', hq', hgrows.trans hgrows'⟩
    · obtain rfl := Option.some.inj h
      exact ⟨q, hq₁, hgrows⟩
  · obtain rfl := Option.some.inj h
    exact ⟨q, hq, Grows.refl s q⟩

lemma QueueOk.reparent_loop {cur r : Slot} (hq : s.QueueOk q) (hs : s.Safe) (hlock : s.lock = none)
    (hinit : s.initproc = some r) (hrc : r ≠ cur) (hframe : s.frame cur = none)
    (hrun : (s.proc cur).state = .RUNNING)
    (h : (List.finRange NPROC).foldlM (Kernel.reparent cur draws) s = some s') :
    ∃ q', s'.QueueOk q' ∧ Grows s q s' q' := by
  have hloop : s'.Safe ∧ Handover cur s s' ∧ ∃ q', s'.QueueOk q' ∧ Grows s q s' q' := by
    refine foldlM_invariant (fun _ t => t.Safe ∧ Handover cur s t ∧
      ∃ q', t.QueueOk q' ∧ Grows s q t q') ?_ ⟨hs, Handover.refl cur s, q, hq, Grows.refl s q⟩ h
    intro _ k t t' ⟨ht, hhand, qt, hqt, hgrows⟩ hstep
    have hrun' : (t.proc cur).state = .RUNNING := by
      have := hhand.state cur
      grind
    have hinit' := hhand.initproc.trans hinit
    have hframe' : t.frame cur = none := by rw [hhand.frame]; exact hframe
    obtain ⟨ht', hhand', -⟩ := ht.reparent hinit' hrc hframe' hrun' hstep
    obtain ⟨q', hq', hgrows'⟩ :=
      hqt.reparent ht (hhand.lock.trans hlock) hinit' hframe' hrun' hstep
    exact ⟨ht', hhand.trans hhand', q', hq', hgrows.trans hgrows'⟩
  exact hloop.2.2

lemma still_leave {p : Proc} {lock : Option Cpu} {pc : Slot → Pc} (hc : s.cpuProc c = some i) :
    Still s { s with proc := update s.proc i p, lock := lock, pc := pc } := by
  have hnot : ¬ s.Ready i := fun hr => hr.2.1 c hc
  have hne : ∀ k, s.Ready k → k ≠ i := by
    rintro k hk rfl
    exact hnot hk
  refine ⟨rfl, fun k hk => by simp [hne k hk], fun k hk => by simp [hne k hk], rfl, rfl, ?_⟩
  intro k
  by_cases hk : k = i
  · subst hk
    exact ⟨fun hr => absurd hc (hr.2.1 c), fun hr => absurd hr hnot⟩
  · unfold Ready
    dsimp only
    rw [update_of_ne hk]

lemma QueueOk.exit (hq : s.QueueOk q) (hs : s.Safe) (h : s.exit c draws = some s') :
    ∃ q', s'.QueueOk q' ∧ Grows s q s' q' := by
  obtain ⟨i, rest, pid, s₁, s₂, ht, hlock, hpc, hframe, hne, hwake, hloop, rfl⟩ := exit_eq_some h
  have hc := (hs.cpus.process c i rest pid ht).1
  have hrun := hs.cpus.running_of_free hlock hc
  obtain ⟨r, hinit⟩ : ∃ r, s.initproc = some r := by
    rw [← Option.ne_none_iff_exists']
    intro hnone
    simp [hs.tree.boot hnone i] at hrun
  have hri : r ≠ i := by
    rintro rfl
    exact hne hinit
  obtain ⟨hcalm, -⟩ := wakeup1_calm hwake
  have hrun₁ : (s₁.proc i).state = .RUNNING := by
    have := hcalm.state i
    grind
  have hinit₁ := hcalm.initproc.trans hinit
  have hframe₁ : s₁.frame i = none := by rw [hcalm.frame]; exact hframe
  obtain ⟨q₁, hq₁, hgrows₁⟩ := hq.wakeup1 hs.toCore hlock hwake
  obtain ⟨-, hhand, -⟩ := (hs.of_calm hcalm).reparent_loop hinit₁ hri hframe₁ hrun₁ hloop
  obtain ⟨q₂, hq₂, hgrows₂⟩ := hq₁.reparent_loop (hs.of_calm hcalm) (hcalm.lock.trans hlock) hinit₁
    hri hframe₁ hrun₁ hloop
  have hc₂ : s₂.cpuProc c = some i := by rw [hhand.cpuProc, hcalm.cpuProc]; exact hc
  obtain ⟨hq', hgrows'⟩ := hq₂.of_still (still_leave hc₂)
  exact ⟨q₂, hq', (hgrows₁.trans hgrows₂).trans hgrows'⟩

/-! ### The scheduler -/

variable [DecidableEq Cpu]

omit [DecidableEq Cpu] in
lemma QueueOk.pid_pos (hq : s.QueueOk q) (hs : s.Core) (hx : x ∈ q) : 0 < (s.proc x.slot).pid := by
  have hready := (hq.mem x.slot).mp (mem_map_of_mem hx)
  exact hs.pids.pos x.slot (by simp [hready.1])

omit [DecidableEq Cpu] in
lemma QueueOk.getMinimum_eq (hq : s.QueueOk q) (hs : s.Core) {pid : ℤ}
    (hmin : getMinimum s.skiplist = some pid) :
    (q = [] ∧ ∀ i, (s.proc i).pid ≠ pid) ∨
      ∃ x q', q = x :: q' ∧ ∀ i, (s.proc i).pid = pid ↔ i = x.slot := by
  have hholds : Holds s.skiplist ((q.map s.tower).map Tower.entry) := ⟨_, hq.towers, rfl⟩
  have hpid := hholds.getMinimum_eq
  rw [hmin, Option.some.injEq] at hpid
  cases q with
  | nil =>
    refine .inl ⟨rfl, ?_⟩
    intro i hi
    have := hs.pids.range i
    simp only [map_nil, head?_nil, Option.elim_none] at hpid
    omega
  | cons x q' =>
    have hx := hq.pid_pos hs (mem_cons_self (a := x) (l := q'))
    have heq : pid = (s.proc x.slot).pid := hpid
    refine .inr ⟨x, q', rfl, fun i => ⟨?_, ?_⟩⟩
    · intro hi
      rcases hs.pids.inj i x.slot (hi.trans heq) with h | h
      · exact h
      · omega
    · rintro rfl
      exact heq.symm

omit [DecidableEq Cpu] in
lemma QueueOk.pid_ne_head (hq : s.QueueOk (x :: q)) (hs : s.Core) :
    ∀ y ∈ q, (s.proc y.slot).pid ≠ (s.proc x.slot).pid := by
  intro y hy heq
  have hpos := hq.pid_pos hs (mem_cons_of_mem x hy)
  have hslot : y.slot = x.slot := by
    rcases hs.pids.inj y.slot x.slot heq with h | h
    · exact h
    · omega
  have hnodup := hq.nodup
  rw [map_cons, nodup_cons] at hnodup
  exact hnodup.1 (hslot ▸ mem_map_of_mem hy)

lemma QueueOk.switchTo (hq : s.QueueOk (x :: q)) (hs : s.Core) (hc : s.cpuProc c = none)
    (h : Kernel.switchTo c x.slot rest pid { s with lock := some c } = some s') :
    s'.QueueOk q ∧ (s'.proc x.slot).maxLevel = -1 ∧ ∀ y, s'.tower y = s.tower y := by
  obtain ⟨sl, r, hdel, hpc, rfl⟩ := switchTo_eq_some h
  dsimp only at hdel hpc
  clear h
  have hpos := hq.pid_pos hs mem_cons_self
  have hnonneg : 0 ≤ (s.proc x.slot).virtualDeadline := by
    by_contra hneg
    have hne : (s.proc x.slot).pid ≠ -1 := by omega
    have hfault := hq.towers.rep.deleteNode_eq_none hq.towers.levels_pos hne (not_le.mp hneg)
    simp [hfault] at hdel
  obtain ⟨sl', hdel', htowers⟩ := hq.towers.deleteNode_head hnonneg (by
    change (s.proc x.slot).pid ≠ -1
    omega) (by
    intro u hu
    obtain ⟨y, hy, rfl⟩ := mem_map.mp hu
    exact hq.pid_ne_head hs y hy)
  obtain rfl : sl = sl' := Option.some.inj (hdel.symm.trans hdel')
  have hhead : x.slot ∉ q.map Queued.slot := (nodup_cons.mp hq.nodup).1
  have hq' : ∀ y ∈ q, y.slot ≠ x.slot := by
    intro y hy heq
    exact hhead (heq ▸ mem_map_of_mem hy)
  set p : Proc := { s.proc x.slot with
    state := .RUNNING, ticksLeft := BFS_DEFAULT_QUANTUM, maxLevel := -1 } with hp
  have htower : ∀ y : Queued P, Tower.mk (update s.proc x.slot p y.slot).pid
      (update s.proc x.slot p y.slot).virtualDeadline y.nodes = s.tower y := by
    intro y
    by_cases hy : y.slot = x.slot
    · simp [tower, hy, hp]
    · simp [tower, hy]
  refine ⟨⟨⟨?_, ?_, ?_⟩, ?_⟩, by simp [hp], htower⟩
  · have hmap : q.map s.tower = q.map (fun y => Tower.mk (update s.proc x.slot p y.slot).pid
        (update s.proc x.slot p y.slot).virtualDeadline y.nodes) :=
      map_congr_left (fun y _ => (htower y).symm)
    rw [hmap] at htowers
    exact htowers
  · refine (pairwise_cons.mp hq.order).2.imp_of_mem ?_
    intro y z hy hz
    simp only [StableQueue.Before, update_of_ne (hq' y hy), update_of_ne (hq' z hz)]
    exact id
  · exact fun y hy => hq.past y (mem_cons_of_mem x hy)
  · intro k
    have hmem := hq.mem k
    rw [map_cons, mem_cons] at hmem
    unfold Ready at hmem ⊢
    dsimp only
    by_cases hk : k = x.slot
    · subst hk
      simp [hp, hhead]
    · have hcpu : (∀ c', update s.cpuProc c (some x.slot) c' ≠ some k) ↔ ∀ c', s.cpuProc c' ≠ some k := by
        refine forall_congr' fun c' => ?_
        by_cases hc' : c' = c
        · simp [hc', Ne.symm hk, hc]
        · simp [hc']
      rw [hcpu, update_of_ne hk, ← hmem]
      simp [hk]

lemma QueueOk.scheduler (hq : s.QueueOk q) (hs : s.Safe) (h : scheduler c s = some s') :
    (q = [] ∧ s' = s) ∨ ∃ x q' rest, q = x :: q' ∧ s'.thread c = .process x.slot rest (s.proc x.slot).pid ∧
        s'.Safe ∧ s'.QueueOk q' ∧ (s'.proc x.slot).maxLevel = -1 ∧ ∀ y, s'.tower y = s.tower y := by
  obtain ⟨ht, hlock, pid, hmin, hloop⟩ := scheduler_eq_some h
  have hc := (hs.cpus.idle c ht).1
  rcases schedulerLoop_eq_some hloop with ⟨hnone, rfl⟩ | ⟨l₁, i, rest, hl, hi, hswitch⟩
  · rcases hq.getMinimum_eq hs.toCore hmin with ⟨rfl, -⟩ | ⟨x, q', rfl, hx⟩
    · refine .inl ⟨rfl, ?_⟩
      simp [← hlock, ← ht]
    · exact absurd ((hx x.slot).mpr rfl) (hnone x.slot (mem_finRange x.slot))
  · rcases hq.getMinimum_eq hs.toCore hmin with ⟨-, hno⟩ | ⟨x, q', rfl, hx⟩
    · exact absurd hi (hno i)
    · obtain rfl : i = x.slot := (hx i).mp hi
      have hready := (hq.mem x.slot).mp (by simp)
      have hpos := hq.pid_pos hs.toCore mem_cons_self
      have hpid : (s.proc x.slot).pid = pid := hi
      have hnodup : (l₁ ++ x.slot :: rest).Nodup := hl ▸ nodup_finRange NPROC
      have hrest : ∀ j ∈ rest, (s.proc j).pid ≠ pid := by
        intro j hj hjp
        obtain rfl := (hx j).mp hjp
        exact (nodup_cons.mp (nodup_append.mp hnodup).2.1).1 hj
      obtain ⟨hq', hcpu, htower⟩ := hq.switchTo hs.toCore hc hswitch
      have hsafe := hs.switchTo hlock ht hready.1 hready.2.1
        (fun j hj => by simpa using hready.2.2 j _ hj)
        ⟨hpid ▸ hpos, hpid ▸ (hs.pids.range x.slot).2, hrest⟩ hswitch
      refine .inr ⟨x, q', rest, rfl, ?_, hsafe, hq', hcpu, htower⟩
      obtain ⟨sl, r, -, -, rfl⟩ := switchTo_eq_some hswitch
      simp [hpid]

omit [DecidableEq Cpu] in
lemma refreshed_calm : Calm s (s.refreshed i) := by
  unfold refreshed
  split
  · exact setDeadline_calm
  · exact Calm.refl s

omit [DecidableEq Cpu] in
lemma refreshed_proc_of_ne (hij : j ≠ i) : (s.refreshed i).proc j = s.proc j := by
  unfold refreshed
  split
  · simp [setDeadline, modify, hij]
  · rfl

omit [DecidableEq Cpu] in
lemma refreshed_state : ((s.refreshed i).proc j).state = (s.proc j).state := by
  by_cases hj : j = i
  · unfold refreshed
    split
    · simp [setDeadline, modify, hj]
    · rfl
  · rw [refreshed_proc_of_ne hj]

omit [DecidableEq Cpu] in
lemma QueueOk.insert_returned (hq : s.QueueOk q) (hc : s.cpuProc c = some i)
    (h : insertProc draw i (s.refreshed i) = some s') :
    ∃ q', s'.ListOk q' ∧ Grows s q s' q' ∧ ∀ k, k ∈ q'.map Queued.slot ↔ k = i ∨ k ∈ q.map Queued.slot := by
  have hi : i ∉ q.map Queued.slot := by
    rw [hq.mem]
    exact fun hr => hr.2.1 c hc
  have hsame : (s.refreshed i).skiplist = s.skiplist ∧ (s.refreshed i).queuedAt = s.queuedAt ∧
      (s.refreshed i).enqueues = s.enqueues := by
    unfold refreshed
    split <;> exact ⟨rfl, rfl, rfl⟩
  exact hq.toListOk.insert_new hi h hsame.1 hsame.2.1 hsame.2.2 (fun k hk => refreshed_proc_of_ne hk)

omit [DecidableEq Cpu] in
lemma insertProc_state (h : insertProc draw i s = some s') (k : Slot) :
    (s'.proc k).state = (s.proc k).state := by
  obtain ⟨sl, -, rfl⟩ := insertProc_eq_some h
  by_cases hk : k = i
  · simp [hk]
  · simp [hk]

lemma Safe.switchBack_eq (hs : s.Safe) (ht : s.thread c = .returned i rest pid)
    {s₁ : Kernel P Cpu} (hback : switchBack c draw i s = some s₁)
    (hloop : schedulerLoop c pid rest s₁ = some s') :
    ∃ s₂, Calm s s₂ ∧ ((s.proc i).state = .RUNNABLE ∧ insertProc draw i (s.refreshed i) = some s₂ ∨
        (s.proc i).state ≠ .RUNNABLE ∧ s₂ = s) ∧
      s' = { s₂ with
        lock := none
        cpuProc := update s₂.cpuProc c none
        thread := update s₂.thread c .scheduler } := by
  obtain ⟨-, -, hrest⟩ := hs.pids.scan c i rest pid (.inr ht)
  obtain ⟨s₂, rfl, hcases⟩ := switchBack_eq_some hback
  have hcalm : Calm s s₂ := by
    rcases hcases with ⟨-, hins⟩ | ⟨-, rfl⟩
    · exact refreshed_calm.trans (insertProc_calm hins)
    · exact Calm.refl s₂
  rcases schedulerLoop_eq_some hloop with ⟨-, rfl⟩ | ⟨l₁, j, l₂, rfl, hj, -⟩
  · exact ⟨s₂, hcalm, hcases, rfl⟩
  · exact absurd ((hcalm.pid j).symm.trans hj) (hrest j (by simp))

lemma CpusOk.update_none (hs : s.CpusOk) (hc : s.cpuProc c = some i) (k : Slot) (c' : Cpu) :
    update s.cpuProc c none c' = some k ↔ k ≠ i ∧ s.cpuProc c' = some k := by
  by_cases hcc : c' = c
  · subst hcc
    simp [hc, eq_comm]
  · rw [update_of_ne hcc]
    refine ⟨fun hk => ⟨?_, hk⟩, fun hk => hk.2⟩
    rintro rfl
    exact hcc (hs.inj c' c k hk hc)

lemma QueueOk.switchBack (hq : s.QueueOk q) (hs : s.Safe) (ht : s.thread c = .returned i rest pid)
    {s₁ : Kernel P Cpu} (hback : switchBack c draw i s = some s₁)
    (hloop : schedulerLoop c pid rest s₁ = some s') :
    s'.thread c = .scheduler ∧ s'.Safe ∧ ∃ q', s'.QueueOk q' ∧ Grows s q s' q' := by
  obtain ⟨hc, -, -⟩ := hs.cpus.returned c i rest pid ht
  obtain ⟨s₂, hcalm, hcases, rfl⟩ := hs.switchBack_eq ht hback hloop
  have ht₂ : s₂.thread c = .returned i rest pid := by rw [hcalm.thread]; exact ht
  refine ⟨by simp, (hs.of_calm hcalm).release ht₂, ?_⟩
  rcases hcases with ⟨hrunnable, hins⟩ | ⟨hrunnable, rfl⟩
  · obtain ⟨q', hlist, hgrows, hmem⟩ := hq.insert_returned hc hins
    refine ⟨q', ⟨hlist.of_agree rfl (fun _ _ => rfl) (fun _ _ => rfl) le_rfl, ?_⟩,
      ⟨hgrows.entry, hgrows.fresh, hgrows.sublist, hgrows.mono⟩⟩
    intro k
    have hstate := (insertProc_state hins k).trans refreshed_state
    rw [hmem, hq.mem]
    unfold Ready
    dsimp only
    rw [hstate, hcalm.frame, hcalm.cpuProc]
    simp only [ne_eq, hs.cpus.update_none hc]
    by_cases hk : k = i
    · subst hk
      have hstage : ∀ j stage, s.frame j = some (stage, k) → stage = .linking :=
        fun j stage hj => hs.frames.stage_eq (by simp [hrunnable]) (fun _ => ⟨c, hc⟩) hj
      simpa [hrunnable] using hstage
    · simp [hk]
  · refine ⟨q, ⟨hq.toListOk.of_agree rfl (fun _ _ => rfl) (fun _ _ => rfl) le_rfl, ?_⟩,
      ⟨fun _ _ => rfl, fun _ hx => .inl hx, List.Sublist.refl q, fun _ ha => ha⟩⟩
    intro k
    rw [hq.mem]
    unfold Ready
    dsimp only
    simp only [ne_eq, hs.cpus.update_none hc]
    by_cases hk : k = i
    · simp [hk, hrunnable]
    · simp [hk]

end Kernel

end Xv6Bfs
