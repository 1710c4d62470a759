import Xv6Bfs.Proofs.Scheduling
import Xv6Bfs.Proofs.Quantum

/-!
# How long a process waits for a CPU

A deadline lies behind the tick at which it is computed. From the tick of its own deadline on, a process in the list is therefore
passed over only by processes that keep the deadline they had, and, if these use whole quanta, for one quantum each.
-/

namespace Xv6Bfs

open Transition

variable {ticks : ℕ} {n d : ℤ} {ph ph' : Phase} {a a' : Account}

lemma lt_computeVirtualDeadline (hticks : ticks + 2000 < 2 ^ 31) (hn : NiceOk n) (hd : d ≤ ticks) :
    d < computeVirtualDeadline ticks n := by
  rw [computeVirtualDeadline_eq hticks hn]
  unfold NiceOk BFS_NICE_FIRST_LEVEL at hn
  omega

lemma Life.of_queued (h : Life ticks n .queued a ph' a') : ph' = .queued ∧ a' = a ∨ ph' = .running := by
  cases h with
  | stay => exact .inl ⟨rfl, rfl⟩
  | dispatch => exact .inr rfl

lemma Life.to_running (h : Life ticks n ph a ph' a') (hph' : ph' = .running ∨ ph' = .preempted) :
    ph = .queued ∨ ph = .running ∨ ph = .preempted := by
  cases h with
  | stay => exact .inr hph'
  | dispatch => exact .inl rfl
  | charge => exact .inr (.inl rfl)
  | create | yield | preempt | sleep | exit | requeue | wake | reap => simp at hph'

/-- The deadline is later than `d`, unless it is an old one. -/
def Later (d : ℤ) (old : ℤ → Prop) (ph : Phase) (a : Account) : Prop :=
  ph ≠ .unborn → d < a.virtualDeadline ∨ old a.virtualDeadline

lemma Life.later {old : ℤ → Prop} (h : Life ticks n ph a ph' a') (hticks : ticks + 2000 < 2 ^ 31) (hn : NiceOk n) (hd : d ≤ ticks)
    (hok : DeadlineOk ph a) (hlater : Later d old ph a) : Later d old ph' a' := by
  intro hph'
  cases h with
  | create => exact .inl (lt_computeVirtualDeadline hticks hn hd)
  | requeue =>
    split
    · exact .inl (lt_computeVirtualDeadline hticks (hok (by simp)).1 hd)
    · exact hlater (by simp)
  | stay => exact hlater hph'
  | reap => exact absurd rfl hph'
  | dispatch | charge | yield | preempt | sleep | exit | wake => exact hlater (by simp)

/-- What a process can be charged before one with the deadline `d` that waits. -/
def budget (d : ℤ) : Phase → Account → ℤ
  | .running, a => BFS_DEFAULT_QUANTUM - a.charged
  | _, a => if a.virtualDeadline ≤ d then BFS_DEFAULT_QUANTUM - a.charged else 0

lemma budget_le (d : ℤ) (ph : Phase) {a : Account} (ha : a.charged ≤ BFS_DEFAULT_QUANTUM) :
    0 ≤ budget d ph a ∧ budget d ph a ≤ BFS_DEFAULT_QUANTUM - a.charged := by
  unfold budget
  split
  · omega
  · split <;> omega

lemma budget_eq_zero (hph : ph ≠ .running) (h : d < a.virtualDeadline) : budget d ph a = 0 := by
  cases ph <;> first | exact absurd rfl hph | exact if_neg (by omega)

lemma Life.budget_step (h : Life ticks n ph a ph' a') (hticks : ticks + 2000 < 2 ^ 31) (hn : NiceOk n) (hd : d ≤ ticks)
    (hok : DeadlineOk ph a) (ha : QuantumOk ph a) (hdispatch : ph = .queued → ph' = .running → a.virtualDeadline ≤ d) :
    (if a'.charged = a.charged + 1 then 1 else 0) + budget d ph' a' ≤ budget d ph a := by
  have hle := ha.charged_le
  have hpos := (budget_le d ph hle).1
  cases h with
  | create =>
    rw [budget_eq_zero (by simp) (lt_computeVirtualDeadline hticks hn hd)]
    simpa using hpos
  | dispatch => simp [budget, hdispatch rfl rfl]
  | charge =>
    obtain ⟨hsum, hleft⟩ := ha
    rw [if_pos rfl]
    split
    · have := (budget_le d .preempted (a := { a with ticksLeft := a.ticksLeft - 1, charged := a.charged + 1 })
        (by push_cast; omega)).2
      simp only [budget] at this ⊢
      push_cast at this ⊢
      omega
    · simp only [budget]
      push_cast
      omega
  | requeue =>
    split
    · rw [budget_eq_zero (by simp) (lt_computeVirtualDeadline hticks (hok (by simp)).1 hd)]
      simpa using hpos
    · simp [budget]
  | yield | sleep | exit =>
    rw [if_neg (Nat.succ_ne_self _).symm, zero_add]
    exact (budget_le d _ hle).2
  | stay | preempt | wake | reap => simp [budget]

namespace Kernel

variable {P : ℕ} {Cpu : Type} [DecidableEq Cpu] {s s' t t' : Kernel P Cpu} {c : Cpu} {p k : Slot} {q q' : List (Queued P)}
  {e : Event P Cpu} {es : List (Event P Cpu)}

lemma Inv.ticks_le (h : s.Inv q) (hstep : e.step s = some s') : s.ticks ≤ s'.ticks := by
  by_cases he : e = .tick
  · subst he
    obtain rfl := Option.some.inj hstep
    exact Nat.le_succ _
  · exact (h.safe.step_ticks hstep he).ge

omit [DecidableEq Cpu] in
lemma Inv.ready_of_queued (h : s.Inv q) (hk : s.In k .queued) : s.Ready k := by
  refine ⟨hk.1, hk.2.1, ?_⟩
  intro j stage hj
  have hframes := h.safe.frames
  cases stage with
  | allocated => simp [(hframes.allocated j k hj).1, In] at hk
  | copied => simp [(hframes.copied j k hj).1, In] at hk
  | published => exact absurd hj (hk.2.2 j)
  | linking => rfl

lemma Inv.ready_of_dispatch (h : s.Inv q) (hstep : e.step s = some s') {ph : Phase} (hph : s.In k ph)
    (hk : (s.proc k).state ≠ .RUNNING) (hrun : (s'.proc k).state = .RUNNING) : s.Ready k := by
  obtain ⟨q', h', -⟩ := h.step hstep
  obtain ⟨ph', hph', hlife⟩ := h.step_lives hstep k ph hph
  rcases hlife.to_running ((hph'.running_iff h'.safe.frames).mp hrun) with rfl | hrunning
  · exact h.ready_of_queued hph
  · exact absurd ((hph.running_iff h.safe.frames).mpr hrunning) hk

/-- The process that a step takes from the list is the first one. -/
lemma Inv.deadline_le_of_dispatch (h : s.Inv q) (hstep : e.step s = some s') (hk : s.Ready k)
    (hrun : (s'.proc k).state = .RUNNING) (hp : s.Ready p) : (s.proc k).virtualDeadline ≤ (s.proc p).virtualDeadline := by
  obtain ⟨q', h', -⟩ := h.step hstep
  obtain ⟨c, hc⟩ := h'.safe.cpus.running k hrun
  have hfits := h'.safe.cpus.state k
  rw [hrun] at hfits
  obtain ⟨rest, pid, ht⟩ : ∃ rest pid, s'.thread c = .process k rest pid := by
    cases ht : s'.thread c with
    | scheduler => simp [(h'.safe.cpus.idle c ht).1] at hc
    | process i rest pid =>
      obtain rfl := Option.some.inj ((h'.safe.cpus.process c i rest pid ht).1.symm.trans hc)
      exact ⟨rest, pid, rfl⟩
    | returned i rest pid =>
      obtain ⟨hi, -, r, hpc⟩ := h'.safe.cpus.returned c i rest pid ht
      obtain rfl := Option.some.inj (hi.symm.trans hc)
      rw [hpc] at hfits
      exact hfits.elim
  rcases h.safe.step_thread hstep ht with hold | rfl
  · exact absurd (h.safe.cpus.process c k rest pid hold).1 (hk.2.1 c)
  · rcases h.queue.scheduler h.safe hstep with ⟨rfl, -⟩ | ⟨x, q', rest', rfl, ht', -⟩
    · simp [← h.queue.mem] at hp
    · obtain ⟨rfl, -⟩ : x.slot = k ∧ rest' = rest ∧ (s.proc x.slot).pid = pid := by simpa using ht'.symm.trans ht
      have hmem := (h.queue.mem p).mpr hp
      obtain ⟨y, hy, rfl⟩ := List.mem_map.mp hmem
      rcases List.mem_cons.mp hy with rfl | hy
      · exact le_rfl
      · rcases (List.pairwise_cons.mp h.queue.order).1 y hy with hlt | ⟨heq, -⟩
        · exact hlt.le
        · exact heq.le

/-- The process is in the list, and the tick of its deadline `d` has come. -/
structure Due (s : Kernel P Cpu) (p : Slot) (d : ℤ) : Prop where
  ready : s.Ready p
  deadline : (s.proc p).virtualDeadline = d
  come : d ≤ s.ticks

/-- A process that is due stays so while it waits. -/
lemma Due.step (hp : s.Due p d) (h : s.Inv q) (hstep : e.step s = some s') (hstill : (s'.proc p).state = .RUNNABLE) :
    s'.Due p d := by
  obtain ⟨q', h', -⟩ := h.step hstep
  have hqueued : s.In p .queued :=
    ⟨hp.ready.1, hp.ready.2.1, fun j hj => by simpa using hp.ready.2.2 j _ hj⟩
  obtain ⟨ph', hph', hlife⟩ := h.step_lives hstep p .queued hqueued
  rcases hlife.of_queued with ⟨rfl, haccount⟩ | rfl
  · refine ⟨h'.ready_of_queued hph', ?_, hp.come.trans (by exact_mod_cast h.ticks_le hstep)⟩
    exact (congrArg Account.virtualDeadline haccount).trans hp.deadline
  · simp [hph'.1] at hstill

def InRange (s : Kernel P Cpu) (e : Event P Cpu) : Prop :=
  s.ticks + 2000 < 2 ^ 31 ∧ NiceOk e.niceValue

def Waits (p : Slot) (s : Kernel P Cpu) (e : Event P Cpu) : Prop :=
  InRange s e ∧ ∀ s' ∈ e.step s, (s'.proc p).state = .RUNNABLE

instance (s : Kernel P Cpu) (e : Event P Cpu) : Decidable (InRange s e) := by
  unfold InRange
  infer_instance

instance (p : Slot) (s : Kernel P Cpu) (e : Event P Cpu) : Decidable (Waits p s e) := by
  unfold Waits
  infer_instance

lemma deadlinesOk_of_inRange (hs : Reach (kernel P Cpu) InRange s) : (∃ q, s.Inv q) ∧ s.DeadlinesOk := by
  refine hs.invariant (fun s => (∃ q, s.Inv q) ∧ s.DeadlinesOk) ?_ ?_
  · rintro s ⟨pages, junk, sl, hinit, rfl⟩
    refine ⟨inv_of_reachable (.init ⟨pages, junk, sl, hinit, rfl⟩), fun i => ⟨.unborn, .inl rfl, by simp [DeadlineOk]⟩⟩
  · rintro s e s' ⟨⟨q, h⟩, hd⟩ ⟨hticks, hn⟩ hstep
    obtain ⟨q', h', -⟩ := h.step hstep
    exact ⟨⟨q', h'⟩, hd.step h hticks hn hstep⟩

/-- From the tick of its deadline on a process in the list is passed over only by those in slots that were in use by then, with the
deadline that the slot had. -/
theorem overtaken_by_older (hs : Reach (kernel P Cpu) InRange s) (hp : s.Ready p) (hdue : (s.proc p).virtualDeadline ≤ s.ticks)
    (hrun : run ((kernel P Cpu).restrict (Waits p)) es s = some t) (hstep : e.step t = some t')
    (hk : (t.proc k).state ≠ .RUNNING) (hdispatch : (t'.proc k).state = .RUNNING) :
    ¬ s.In k .unborn ∧ (t.proc k).virtualDeadline = (s.proc k).virtualDeadline ∧
      (t.proc k).virtualDeadline ≤ (s.proc p).virtualDeadline := by
  obtain ⟨hinv, hdeadlines⟩ := deadlinesOk_of_inRange hs
  let old := fun x => ¬ s.In k .unborn ∧ x = (s.proc k).virtualDeadline
  have hend : (∃ q, t.Inv q) ∧ t.Due p (s.proc p).virtualDeadline ∧ ∃ ph, t.In k ph ∧ DeadlineOk ph (t.account k) ∧
      Later (s.proc p).virtualDeadline old ph (t.account k) := by
    refine run_invariant (fun t => (∃ q, t.Inv q) ∧ t.Due p (s.proc p).virtualDeadline ∧ ∃ ph, t.In k ph ∧
      DeadlineOk ph (t.account k) ∧ Later (s.proc p).virtualDeadline old ph (t.account k)) ?_ ⟨hinv, ⟨hp, rfl, hdue⟩, ?_⟩ hrun
    · rintro u e u' ⟨⟨q, h⟩, hdue, ph, hph, hok, hlater⟩ hstep
      obtain ⟨⟨⟨hticks, hn⟩, hstill⟩, hstep⟩ := restrict_step_eq_some.mp hstep
      obtain ⟨q', h', -⟩ := h.step hstep
      obtain ⟨ph', hph', hlife⟩ := h.step_lives hstep k ph hph
      exact ⟨⟨q', h'⟩, hdue.step h hstep (hstill u' hstep), ph', hph', hlife.deadlineOk hticks hn hok,
        hlife.later hticks hn hdue.come hok hlater⟩
    · by_cases hborn : s.In k .unborn
      · exact ⟨.unborn, hborn, by simp [DeadlineOk], by simp [Later]⟩
      · obtain ⟨ph, hph, hok⟩ := hdeadlines k
        exact ⟨ph, hph, hok, fun _ => .inr ⟨hborn, rfl⟩⟩
  obtain ⟨⟨q, h⟩, hdue, ph, hph, -, hlater⟩ := hend
  have hready := h.ready_of_dispatch hstep hph hk hdispatch
  have hle := h.deadline_le_of_dispatch hstep hready hdispatch hdue.ready
  rw [hdue.deadline] at hle
  obtain rfl := hph.of_ready hready
  obtain ⟨hborn, hsame⟩ := (hlater (by simp)).resolve_left hle.not_gt
  exact ⟨hborn, hsame, hle⟩

/-- The first process has two children with the deadline 50, and tick 50 has come. -/
def twoChildren : List (Event 12 Unit) :=
  [.userinit ⟨0, pagesFrom 12 4⟩, .scheduler (), .proceed () ⟨0, pagesFrom 12 4⟩,
    .nicefork (), .niceforkCopy (), .niceforkPublish (), .niceforkInsert () (-20) ⟨0, pagesFrom 12 4⟩,
    .nicefork (), .niceforkCopy (), .niceforkPublish (), .niceforkInsert () (-20) ⟨0, pagesFrom 12 5⟩] ++ List.replicate 50 .tick

def parentYields : List (Event 12 Unit) :=
  [.yield (), .proceed () ⟨0, pagesFrom 12 6⟩, .proceed () ⟨0, pagesFrom 12 6⟩]

theorem overtaken_by_older_sibling :
    ∃ s t, boots ((kernel 12 Unit).restrict InRange) twoChildren = some s ∧ (s.proc 2).state = .RUNNABLE ∧
      run ((kernel 12 Unit).restrict (Waits 2)) parentYields s = some t ∧ (t.proc 1).virtualDeadline = (s.proc 1).virtualDeadline := by
  have hrun : ∃ s ∈ boots ((kernel 12 Unit).restrict InRange) twoChildren, s.Quiet ∧ (s.proc 2).state = .RUNNABLE ∧
      (s.proc 2).virtualDeadline ≤ s.ticks ∧ ∃ t ∈ run ((kernel 12 Unit).restrict (Waits 2)) parentYields s,
        (t.proc 1).state ≠ .RUNNING ∧ ∃ t' ∈ Event.step (.scheduler ()) t, (t'.proc 1).state = .RUNNING := by
    decide +kernel
  obtain ⟨s, hs, hquiet, hp, hdue, t, ht, hk, t', hstep, hdispatch⟩ := hrun
  have hreach := reach_of_restrict (reachable_of_boots rfl hs)
  obtain ⟨q, h⟩ := (deadlinesOk_of_inRange hreach).1
  have hready := (hquiet.ready_iff h.safe.cpus 2).mpr hp
  exact ⟨s, t, hs, hp, ht, (overtaken_by_older hreach hready hdue ht hstep hk hdispatch).2.1⟩

/-- The ticks charged to a process in a run. -/
def chargedIn (k : Slot) : List (Event P Cpu) → Kernel P Cpu → ℕ
  | [], _ => 0
  | e :: es, s =>
    match e.step s with
    | none => 0
    | some s' => (if s'.charged k = s.charged k + 1 then 1 else 0) + chargedIn k es s'

lemma Inv.account_step (h : s.Inv q) (hstep : e.step s = some s') (he : InRange s e ∧ WholeQuanta s e) {ph : Phase} (hph : s.In k ph)
    (hok : DeadlineOk ph (s.account k)) (hquantum : QuantumOk ph (s.account k)) :
    ∃ ph', s'.In k ph' ∧ Life s.ticks e.niceValue ph (s.account k) ph' (s'.account k) ∧ DeadlineOk ph' (s'.account k) ∧
      QuantumOk ph' (s'.account k) := by
  obtain ⟨⟨hticks, hn⟩, hwhole⟩ := he
  obtain ⟨ph', hph', hlife⟩ := h.step_lives hstep k ph hph
  refine ⟨ph', hph', hlife, hlife.deadlineOk hticks hn hok, hlife.quantumOk hquantum ?_⟩
  rintro rfl hleave
  refine hwhole s' hstep k hph.1 ?_
  rcases hleave with rfl | rfl
  · exact .inl hph'.1
  · exact .inr hph'

lemma accountsOk_of_reach (hs : Reach (kernel P Cpu) (fun s e => InRange s e ∧ WholeQuanta s e) s) :
    (∃ q, s.Inv q) ∧ ∀ k, ∃ ph, s.In k ph ∧ DeadlineOk ph (s.account k) ∧ QuantumOk ph (s.account k) := by
  refine hs.invariant (fun s => (∃ q, s.Inv q) ∧ ∀ k, ∃ ph, s.In k ph ∧ DeadlineOk ph (s.account k) ∧
    QuantumOk ph (s.account k)) ?_ ?_
  · rintro s ⟨pages, junk, sl, hinit, rfl⟩
    refine ⟨inv_of_reachable (.init ⟨pages, junk, sl, hinit, rfl⟩), fun k => ⟨.unborn, .inl rfl, by simp [DeadlineOk], ?_⟩⟩
    simp [QuantumOk, account, boot, BFS_DEFAULT_QUANTUM]
  · rintro s e s' ⟨⟨q, h⟩, hall⟩ he hstep
    obtain ⟨q', h', -⟩ := h.step hstep
    refine ⟨⟨q', h'⟩, fun k => ?_⟩
    obtain ⟨ph, hph, hok, hquantum⟩ := hall k
    obtain ⟨ph', hph', -, hrest⟩ := h.account_step hstep he hph hok hquantum
    exact ⟨ph', hph', hrest⟩

lemma chargedIn_le_budget (h : s.Inv q) (hdue : s.Due p d) {ph : Phase} (hph : s.In k ph) (hok : DeadlineOk ph (s.account k))
    (hquantum : QuantumOk ph (s.account k))
    (hrun : run ((kernel P Cpu).restrict fun s e => Waits p s e ∧ WholeQuanta s e) es s = some t) :
    chargedIn k es s ≤ budget d ph (s.account k) := by
  induction es generalizing s q ph with
  | nil => exact (budget_le d ph hquantum.charged_le).1
  | cons e es ih =>
    rw [run_cons, Option.bind_eq_some_iff] at hrun
    obtain ⟨s', hstep, hrest⟩ := hrun
    obtain ⟨⟨⟨hrange, hstill⟩, hwhole⟩, hstep⟩ := restrict_step_eq_some.mp hstep
    obtain ⟨q', h', -⟩ := h.step hstep
    obtain ⟨ph', hph', hlife, hok', hquantum'⟩ := h.account_step hstep ⟨hrange, hwhole⟩ hph hok hquantum
    have hbudget := hlife.budget_step hrange.1 hrange.2 hdue.come hok hquantum (by
      rintro rfl rfl
      exact (h.deadline_le_of_dispatch hstep (h.ready_of_queued hph) hph'.1 hdue.ready).trans_eq hdue.deadline)
    have hstep' : e.step s = some s' := hstep
    simp only [chargedIn, hstep']
    have := ih h' (hdue.step h hstep (hstill s' hstep)) hph' hok' hquantum' hrest
    push_cast
    change ((if s'.charged k = s.charged k + 1 then 1 else 0 : ℤ)) + budget d ph' (s'.account k) ≤ _ at hbudget
    omega

/-- If processes give up the CPU with whole quanta only, then from the tick of its deadline on a process in the list waits for no
more than one quantum of each other process. -/
theorem waits_one_quantum_each (hs : Reach (kernel P Cpu) (fun s e => InRange s e ∧ WholeQuanta s e) s) (hp : s.Ready p)
    (hdue : (s.proc p).virtualDeadline ≤ s.ticks)
    (hrun : run ((kernel P Cpu).restrict fun s e => Waits p s e ∧ WholeQuanta s e) es s = some t) (k : Slot) :
    chargedIn k es s ≤ BFS_DEFAULT_QUANTUM := by
  obtain ⟨⟨q, h⟩, hall⟩ := accountsOk_of_reach hs
  obtain ⟨ph, hph, hok, hquantum⟩ := hall k
  have hle := chargedIn_le_budget h ⟨hp, rfl, hdue⟩ hph hok hquantum hrun
  have hbudget := (budget_le (s.proc p).virtualDeadline ph hquantum.charged_le).2
  omega

theorem waits_one_quantum_each_sibling :
    ∃ s, boots ((kernel 12 Unit).restrict fun s e => InRange s e ∧ WholeQuanta s e) twoChildren = some s ∧
      (s.proc 2).state = .RUNNABLE ∧
      ∃ es, chargedIn 1 es s = 50 ∧ (chargedIn 1 es s : ℤ) ≤ BFS_DEFAULT_QUANTUM := by
  let es : List (Event 12 Unit) := parentYields ++ [.scheduler (), .proceed () ⟨0, pagesFrom 12 6⟩] ++ List.replicate 50 (.charge ())
  have hrun : ∃ s ∈ boots ((kernel 12 Unit).restrict fun s e => InRange s e ∧ WholeQuanta s e) twoChildren, s.Quiet ∧
      (s.proc 2).state = .RUNNABLE ∧ (s.proc 2).virtualDeadline ≤ s.ticks ∧ chargedIn 1 es s = 50 ∧
      (run ((kernel 12 Unit).restrict fun s e => Waits 2 s e ∧ WholeQuanta s e) es s).isSome := by
    decide +kernel
  obtain ⟨s, hs, hquiet, hp, hdue, hcharged, ht⟩ := hrun
  obtain ⟨t, ht⟩ := Option.isSome_iff_exists.mp ht
  have hreach := reach_of_restrict (reachable_of_boots rfl hs)
  obtain ⟨q, h⟩ := (accountsOk_of_reach hreach).1
  have hready := (hquiet.ready_iff h.safe.cpus 2).mpr hp
  exact ⟨s, hs, hp, es, hcharged, waits_one_quantum_each hreach hready hdue ht 1⟩

end Kernel

end Xv6Bfs
