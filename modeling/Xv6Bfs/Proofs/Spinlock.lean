import Xv6Bfs.Spinlock
import Mathlib.Data.List.Nodup

/-!
# The interrupt flag under nested locks

Each thread has an interrupt flag of its own: while it runs, the CPU's flag or, under locks, `intena`; while it waits in
`sched`, what it has saved.
-/

namespace Xv6Bfs

open Function List Option Program

variable {L C T : Type}

def Spinlock.Foreign (me : C) (lk : Spinlock C) : Prop :=
  lk.locked ≠ some me ∧ lk.cpu ≠ some me

instance [DecidableEq C] (me : C) (lk : Spinlock C) : Decidable (lk.Foreign me) :=
  inferInstanceAs (Decidable (_ ∧ _))

namespace LockCpu

/-- Interrupts are off if a lock is held. -/
def Quiet (me : C) (s : LockCpu L C T) : Prop :=
  ∀ l, (s.locks l).locked = some me → s.interrupts = false

def own (s : LockCpu L C T) : Bool :=
  if s.ncli = 0 then s.interrupts else s.intena

def flagOf [DecidableEq T] (s : LockCpu L C T) (t : Option T) : Option Bool :=
  if s.thread = t then some s.own else t.bind s.saved

end LockCpu

/-- The event does not set the flag of the thread, here or on another CPU, and the scheduler, which saves nothing, stays. -/
def LockEvent.Keeps (t : Option T) : LockEvent L C T → Prop
  | setFlag t' _ => t' ≠ t
  | sched _ | swtch _ => t ≠ none
  | elsewhere p _ => t ≠ some p
  | _ => True

/-- What a matched sequence is about: the thread that runs and the locks that are held. -/
structure LockNest (L T : Type) where
  thread : Option T
  held : List L

/-- The next event, if every release matches an acquire, a flag is set only while no lock is held, and the switches are those of
`sched` and `scheduler`, with `ptable.lock` and no other. -/
def LockNest.next [DecidableEq L] [DecidableEq C] [DecidableEq T] (me : C) (ptable : L) (a : LockNest L T) :
    LockEvent L C T → Option (LockNest L T)
  | .acquire l others => if ∀ lk ∈ others, lk.Foreign me then some { a with held := l :: a.held } else none
  | .release l => if l ∈ a.held then some { a with held := a.held.erase l } else none
  | .setFlag t _ => if a.thread = t ∧ a.held = [] then some a else none
  | .sched running =>
    if a.thread ≠ none ∧ a.held = [ptable] ∧ running = false then some { a with thread := none } else none
  | .swtch p => if a.thread = none ∧ a.held = [ptable] then some { a with thread := some p } else none
  | .other l lk => if l ∉ a.held ∧ lk.Foreign me then some a else none
  | .elsewhere p _ => if a.thread ≠ some p then some a else none

/-! ### The calls -/

/-- `pushcli` has been called `d` times more than `popcli`, and no state that was passed had a lock held with interrupts on. -/
structure Masked (me : C) (d : ℕ) (r : LockRun L C T) : Prop where
  ncli : r.cpu.ncli = d
  off : d ≠ 0 → r.cpu.interrupts = false
  past : ∀ q ∈ r.past, q.Quiet me

structure SameThreads (r r' : LockRun L C T) : Prop where
  own : r'.cpu.own = r.cpu.own
  thread : r'.cpu.thread = r.cpu.thread
  saved : r'.cpu.saved = r.cpu.saved

structure Nested (me : C) (d : ℕ) (r r' : LockRun L C T) : Prop where
  masked : Masked me d r'
  same : SameThreads r r'
  locks : r'.cpu.locks = r.cpu.locks

lemma SameThreads.trans {r₁ r₂ r₃ : LockRun L C T} (h : SameThreads r₁ r₂) (h' : SameThreads r₂ r₃) : SameThreads r₁ r₃ :=
  ⟨h'.own.trans h.own, h'.thread.trans h.thread, h'.saved.trans h.saved⟩

namespace Masked

variable {me : C} {d : ℕ} {r : LockRun L C T}

lemma quiet (h : Masked me (d + 1) r) : r.cpu.Quiet me :=
  fun _ _ => h.off (Nat.succ_ne_zero d)

lemma own_eq (h : Masked me (d + 1) r) : r.cpu.own = r.cpu.intena := by
  have hne : r.cpu.ncli ≠ 0 := by
    rw [h.ncli]
    exact_mod_cast Nat.succ_ne_zero d
  exact if_neg hne

lemma past_cons (h : Masked me d r) (hquiet : r.cpu.Quiet me) : ∀ q ∈ r.cpu :: r.past, q.Quiet me :=
  forall_mem_cons.mpr ⟨hquiet, h.past⟩

lemma write (h : Masked me d r) (hquiet : r.cpu.Quiet me) {s' : LockCpu L C T} (hncli : s'.ncli = r.cpu.ncli)
    (hflag : s'.interrupts = r.cpu.interrupts) : Masked me d ⟨s', r.cpu :: r.past⟩ :=
  ⟨hncli.trans h.ncli, fun hd => hflag.trans (h.off hd), h.past_cons hquiet⟩

lemma pushcli (h : Masked me d r) (hquiet : r.cpu.Quiet me) :
    Wp (LockM.pushcli me) r (fun _ r' => Nested me (d + 1) r r') (fun _ _ => False) := by
  simp only [LockM.pushcli, LockM.read, LockM.setInterrupts, LockM.write, LockM.mycpu, wp_bind, wp_get, wp_pure, wp_modify,
    Bool.false_eq_true, if_false]
  refine ⟨⟨by simp [h.ncli], fun _ => rfl, ?_⟩, ⟨?_, rfl, rfl⟩, rfl⟩
  · -- interrupts are off after the first write
    refine forall_mem_cons.mpr ⟨fun _ _ => rfl, forall_mem_cons.mpr ⟨fun _ _ => rfl, h.past_cons hquiet⟩⟩
  · -- the outermost call records the flag, the others find it recorded
    have hne : r.cpu.ncli + 1 ≠ 0 := by
      rw [h.ncli]
      omega
    exact if_neg hne

lemma popcli (h : Masked me (d + 1) r) :
    Wp (LockM.popcli me) r (fun _ r' => Nested me d r r') (fun _ _ => False) := by
  have hcount : r.cpu.ncli - 1 = d := by
    rw [h.ncli]
    simp
  have hoff := h.off (Nat.succ_ne_zero d)
  have hown := h.own_eq
  simp only [LockM.popcli, LockM.read, LockM.setInterrupts, LockM.write, LockM.mycpu, wp_bind, wp_get, wp_pure, wp_modify,
    hoff, Bool.false_eq_true, if_false, hcount]
  have hneg : ¬ ((d : ℤ) < 0) := by omega
  rw [if_neg hneg]
  have hpast := h.past_cons h.quiet
  by_cases hon : (d : ℤ) = 0 ∧ r.cpu.intena = true
  · rw [if_pos hon]
    obtain ⟨hd, hintena⟩ := hon
    refine ⟨⟨rfl, fun hne => absurd (by exact_mod_cast hd) hne, forall_mem_cons.mpr ⟨fun _ _ => rfl, hpast⟩⟩,
      ⟨?_, rfl, rfl⟩, rfl⟩
    rw [hown, hintena]
    exact if_pos hd
  · rw [if_neg hon]
    refine ⟨⟨rfl, fun _ => rfl, hpast⟩, ⟨?_, rfl, rfl⟩, rfl⟩
    rw [hown, LockCpu.own]
    split
    · rename_i hd
      exact (Bool.eq_false_iff.mpr fun htrue => hon ⟨hd, htrue⟩).symm
    · rfl

lemma mycpu {post : C → LockRun L C T → Prop} {exn : LockStop → LockRun L C T → Prop} (h : Masked me (d + 1) r)
    (hpost : post me r) : Wp (LockM.mycpu me) r post exn := by
  simpa [LockM.mycpu, LockM.read, h.off] using hpost

lemma holding [DecidableEq C] {l : L} (h : Masked me d r) (hquiet : r.cpu.Quiet me) :
    Wp (LockM.holding me l) r (fun v r' => Nested me d r r' ∧
      v = ((r.cpu.locks l).locked.isSome && decide ((r.cpu.locks l).cpu = some me))) (fun _ _ => False) := by
  refine (h.pushcli hquiet).bind ?_ (fun _ _ h => h)
  rintro _ r₁ ⟨h₁, hs₁, hl₁⟩
  refine wp_bind.mpr (wp_bind.mpr (wp_get.mpr (wp_pure.mpr (wp_bind.mpr (h₁.mycpu ?_)))))
  refine h₁.popcli.bind ?_ (fun _ _ h => h)
  rintro _ r₂ ⟨h₂, hs₂, hl₂⟩
  exact ⟨⟨h₂, hs₁.trans hs₂, hl₂.trans hl₁⟩, by rw [hl₁]⟩

lemma myproc (h : Masked me d r) (hquiet : r.cpu.Quiet me) :
    Wp (LockM.myproc me) r (fun p r' => Nested me d r r' ∧ p = r.cpu.thread) (fun _ _ => False) := by
  refine (h.pushcli hquiet).bind ?_ (fun _ _ h => h)
  rintro _ r₁ ⟨h₁, hs₁, hl₁⟩
  refine wp_bind.mpr (h₁.mycpu ?_)
  refine wp_bind.mpr (wp_bind.mpr (wp_get.mpr (wp_pure.mpr ?_)))
  refine h₁.popcli.bind ?_ (fun _ _ h => h)
  rintro _ r₂ ⟨h₂, hs₂, hl₂⟩
  exact ⟨⟨h₂, hs₁.trans hs₂, hl₂.trans hl₁⟩, hs₁.thread⟩

end Masked

/-! ### The locks that are held -/

/-- The CPU `me` holds the locks of `a` with interrupts off, and no others. -/
structure LocksOk (me : C) (a : LockNest L T) (r : LockRun L C T) : Prop where
  masked : Masked me a.held.length r
  nodup : a.held.Nodup
  held : ∀ l ∈ a.held, r.cpu.locks l = ⟨some me, some me⟩
  free : ∀ l ∉ a.held, (r.cpu.locks l).Foreign me
  thread : r.cpu.thread = a.thread

/-- The event did not end: a lock was acquired twice, or another CPU has it. -/
def Stopped (me : C) (a : LockNest L T) (e : LockEvent L C T) (stop : LockStop) (r : LockRun L C T) : Prop :=
  (∀ q ∈ r.cpu :: r.past, q.Quiet me) ∧ ∃ l others, e = .acquire l others ∧
    (stop = .acquire ∧ l ∈ a.held ∨ stop = .spinning ∧ ∃ c, c ≠ me ∧ (r.cpu.locks l).locked = some c)

section LocksOk

variable [DecidableEq L] {me : C} {ptable l : L} {a a' : LockNest L T} {r : LockRun L C T} {d : ℕ}

lemma LocksOk.quiet (h : LocksOk me a r) : r.cpu.Quiet me := by
  intro l hl
  by_cases hmem : l ∈ a.held
  · exact h.masked.off (Nat.pos_iff_ne_zero.mp (length_pos_of_mem hmem))
  · exact absurd hl (h.free l hmem).1

lemma Masked.xchg (h : Masked me (d + 1) r) (hfree : (r.cpu.locks l).Foreign me) :
    Wp (LockM.xchg me l) r
      (fun was r' => Masked me (d + 1) r' ∧ ∃ lk, r'.cpu = { r.cpu with locks := update r.cpu.locks l lk } ∧
          (was = false ∧ lk.locked = some me ∨ was = true ∧ ∃ c, c ≠ me ∧ lk.locked = some c))
      (fun _ _ => False) := by
  refine ⟨h.write h.quiet rfl rfl, _, rfl, ?_⟩
  cases hlk : (r.cpu.locks l).locked with
  | none => exact .inl ⟨rfl, rfl⟩
  | some c => exact .inr ⟨rfl, c, fun hc => hfree.1 (hc ▸ hlk), rfl⟩

/-- By induction on what the other CPUs do: each round finds the lock set by another, or takes it. -/
lemma Masked.spin (others : List (Spinlock C)) (hothers : ∀ lk ∈ others, lk.Foreign me) (h : Masked me (d + 1) r)
    (hfree : (r.cpu.locks l).Foreign me) :
    Wp (LockM.spin me l others) r
      (fun _ r' => Masked me (d + 1) r' ∧
        ∃ lk, lk.locked = some me ∧ r'.cpu = { r.cpu with locks := update r.cpu.locks l lk })
      (fun stop r' => stop = .spinning ∧ Masked me (d + 1) r' ∧ ∃ c, c ≠ me ∧ (r'.cpu.locks l).locked = some c) := by
  induction others generalizing r with
  | nil =>
    refine (h.xchg hfree).bind ?_ (fun _ _ h => h.elim)
    rintro _ r₁ ⟨h₁, lk, hr₁, ⟨rfl, hlk⟩ | ⟨rfl, c, hc, hlk⟩⟩
    · exact ⟨h₁, lk, hlk, hr₁⟩
    · refine ⟨rfl, h₁, c, hc, ?_⟩
      rw [hr₁]
      simpa using hlk
  | cons lk' others ih =>
    refine (h.xchg hfree).bind ?_ (fun _ _ h => h.elim)
    rintro _ r₁ ⟨h₁, lk, hr₁, ⟨rfl, hlk⟩ | ⟨rfl, c, hc, hlk⟩⟩
    · exact ⟨h₁, lk, hlk, hr₁⟩
    · obtain ⟨hlk', hrest⟩ := forall_mem_cons.mp hothers
      let r₂ : LockRun L C T := ⟨{ r₁.cpu with locks := update r₁.cpu.locks l lk' }, r₁.cpu :: r₁.past⟩
      have h₂ : Masked me (d + 1) r₂ := h₁.write h₁.quiet rfl rfl
      refine (ih hrest h₂ (by simpa [r₂] using hlk')).mono ?_ (fun _ _ h => h)
      rintro _ r₃ ⟨h₃, lk₃, hlk₃, hr₃⟩
      exact ⟨h₃, lk₃, hlk₃, by simpa [r₂, hr₁] using hr₃⟩

variable [DecidableEq C]

lemma LocksOk.holding_eq (h : LocksOk me a r) :
    ((r.cpu.locks l).locked.isSome && decide ((r.cpu.locks l).cpu = some me)) = decide (l ∈ a.held) := by
  by_cases hmem : l ∈ a.held
  · simp [h.held l hmem, hmem]
  · simp [(h.free l hmem).2, hmem]

lemma LocksOk.acquire (h : LocksOk me a r) {others : List (Spinlock C)} (hothers : ∀ lk ∈ others, lk.Foreign me) :
    Wp (LockM.acquire me l others) r (fun _ r' => LocksOk me { a with held := l :: a.held } r' ∧ SameThreads r r')
      (Stopped me a (.acquire l others)) := by
  refine (h.masked.pushcli h.quiet).bind ?_ (fun _ _ h => h.elim)
  rintro _ r₁ ⟨h₁, hs₁, hl₁⟩
  refine (h₁.holding h₁.quiet).bind ?_ (fun _ _ h => h.elim)
  rintro _ r₂ ⟨⟨h₂, hs₂, hl₂⟩, rfl⟩
  have hlocks : r₂.cpu.locks = r.cpu.locks := hl₂.trans hl₁
  rw [hl₁, h.holding_eq]
  by_cases hmem : l ∈ a.held
  · rw [decide_eq_true hmem]
    exact ⟨h₂.past_cons h₂.quiet, l, others, rfl, .inl ⟨rfl, hmem⟩⟩
  rw [decide_eq_false hmem]
  refine (h₂.spin others hothers (hlocks ▸ h.free l hmem)).bind ?_ ?_
  · rintro _ r₃ ⟨h₃, lk, hlk, hr₃⟩
    refine wp_bind.mpr (h₃.mycpu ?_)
    have hs₃ : SameThreads r₂ r₃ := by
      constructor <;> rw [hr₃]
      rfl
    have hset : update r₃.cpu.locks l { r₃.cpu.locks l with cpu := some me } =
        update r.cpu.locks l ⟨some me, some me⟩ := by
      rw [hr₃, ← hlocks]
      simp [hlk]
    have hs := (hs₁.trans hs₂).trans hs₃
    refine ⟨⟨h₃.write h₃.quiet rfl rfl, h.nodup.cons hmem, ?_, ?_, hs.thread.trans h.thread⟩, hs.own, hs.thread, hs.saved⟩
    · intro l' hl'
      change update r₃.cpu.locks l _ l' = _
      rw [hset]
      by_cases heq : l' = l
      · rw [heq, update_self]
      · rw [update_of_ne heq]
        exact h.held l' ((mem_cons.mp hl').resolve_left heq)
    · intro l' hl'
      obtain ⟨hne, hl'⟩ := not_or.mp (mt mem_cons.mpr hl')
      change (update r₃.cpu.locks l _ l').Foreign me
      rw [hset, update_of_ne hne]
      exact h.free l' hl'
  · rintro _ r₃ ⟨rfl, h₃, hother⟩
    exact ⟨h₃.past_cons h₃.quiet, l, others, rfl, .inr ⟨rfl, hother⟩⟩

lemma LocksOk.release (h : LocksOk me a r) (hmem : l ∈ a.held) :
    Wp (LockM.release me l) r (fun _ r' => LocksOk me { a with held := a.held.erase l } r' ∧ SameThreads r r')
      (fun _ _ => False) := by
  refine (h.masked.holding h.quiet).bind ?_ (fun _ _ h => h)
  rintro _ r₁ ⟨⟨h₁, hs₁, hl₁⟩, rfl⟩
  rw [h.holding_eq, decide_eq_true hmem]
  rw [← length_erase_add_one hmem] at h₁
  let r₂ : LockRun L C T :=
    ⟨{ r₁.cpu with locks := update r₁.cpu.locks l { r₁.cpu.locks l with cpu := none } }, r₁.cpu :: r₁.past⟩
  have h₂ : Masked me ((a.held.erase l).length + 1) r₂ := h₁.write h₁.quiet rfl rfl
  let r₃ : LockRun L C T :=
    ⟨{ r₂.cpu with locks := update r₂.cpu.locks l { r₂.cpu.locks l with locked := none } }, r₂.cpu :: r₂.past⟩
  have h₃ : Masked me ((a.held.erase l).length + 1) r₃ := h₂.write h₂.quiet rfl rfl
  change Wp (LockM.popcli me) r₃ _ _
  refine h₃.popcli.imp ?_
  rintro _ r₄ ⟨h₄, hs₄, hl₄⟩
  have hset : r₄.cpu.locks = update r.cpu.locks l ⟨none, none⟩ := by
    rw [hl₄, ← hl₁]
    simp [r₃, r₂]
  have hs₃ : SameThreads r₁ r₃ := ⟨rfl, rfl, rfl⟩
  have hs := (hs₁.trans hs₃).trans hs₄
  refine ⟨⟨h₄, h.nodup.erase l, ?_, ?_, hs.thread.trans h.thread⟩, hs⟩
  · intro l' hl'
    obtain ⟨hne, hin⟩ := h.nodup.mem_erase_iff.mp hl'
    rw [hset, update_of_ne hne]
    exact h.held l' hin
  · intro l' hl'
    rw [hset]
    by_cases heq : l' = l
    · rw [heq, update_self]
      exact ⟨(some_ne_none me).symm, (some_ne_none me).symm⟩
    · rw [update_of_ne heq]
      exact h.free l' (fun hin => hl' (h.nodup.mem_erase_iff.mpr ⟨heq, hin⟩))

/-! ### The threads take turns -/

variable [DecidableEq T] {p : T}

def KeepsFlags (e : LockEvent L C T) (s s' : LockCpu L C T) : Prop :=
  ∀ t b, e.Keeps t → s.flagOf t = some b → s'.flagOf t = some b

omit [DecidableEq L] [DecidableEq C] in
lemma SameThreads.keepsFlags {r' : LockRun L C T} (h : SameThreads r r') (e : LockEvent L C T) :
    KeepsFlags e r.cpu r'.cpu := by
  intro t b _ hflag
  rwa [LockCpu.flagOf, h.thread, h.own, h.saved]

lemma LocksOk.sched (h : LocksOk me a r) (hthread : a.thread = some p) (hheld : a.held = [ptable]) :
    Wp (LockM.sched me ptable false) r
      (fun _ r' => LocksOk me { a with thread := none } r' ∧ KeepsFlags (.sched false) r.cpu r'.cpu) (fun _ _ => False) := by
  have hmem : ptable ∈ a.held := by
    rw [hheld]
    exact mem_singleton_self _
  have hlen : a.held.length = 0 + 1 := by rw [hheld, length_singleton]
  have h₀ := hlen ▸ h.masked
  refine (h₀.myproc h₀.quiet).bind ?_ (fun _ _ h => h)
  rintro _ r₁ ⟨⟨h₁, hs₁, hl₁⟩, rfl⟩
  refine (h₁.holding h₁.quiet).bind ?_ (fun _ _ h => h)
  rintro _ r₂ ⟨⟨h₂, hs₂, hl₂⟩, rfl⟩
  have hs := hs₁.trans hs₂
  have hl : r₂.cpu.locks = r.cpu.locks := hl₂.trans hl₁
  have hncli : ¬ r₂.cpu.ncli ≠ 1 := not_not_intro h₂.ncli
  rw [hl₁, h.holding_eq, decide_eq_true hmem, h.thread, hthread]
  refine wp_bind.mpr (h₂.mycpu ?_)
  simp only [LockM.read, LockM.write, wp_bind, wp_get, wp_pure]
  rw [if_neg hncli]
  simp only [h₂.off (Nat.succ_ne_zero 0), Bool.false_eq_true, if_false, wp_modify]
  refine ⟨⟨?_, h.nodup, fun l hmem => ?_, fun l hmem => ?_, rfl⟩, ?_⟩
  · exact hlen ▸ h₂.write h₂.quiet rfl (h₂.off (Nat.succ_ne_zero 0)).symm
  · exact hl ▸ h.held l hmem
  · exact hl ▸ h.free l hmem
  · intro t b ht hflag
    cases t with
    | none => exact absurd rfl ht
    | some q =>
      rw [LockCpu.flagOf, h.thread, hthread, ← hs.own, ← hs.saved, h₂.own_eq] at hflag
      rw [LockCpu.flagOf, if_neg (some_ne_none q).symm]
      by_cases hqp : p = q
      · subst hqp
        rw [if_pos rfl] at hflag
        exact (update_self ..).trans hflag
      · rw [if_neg (fun heq => hqp (Option.some.inj heq))] at hflag
        exact (update_of_ne (Ne.symm hqp) ..).trans hflag

omit [DecidableEq L] [DecidableEq C] in
lemma LocksOk.swtch (h : LocksOk me a r) (hthread : a.thread = none) (hheld : a.held = [ptable]) :
    Wp (LockM.swtch me p) r
      (fun _ r' => LocksOk me { a with thread := some p } r' ∧ KeepsFlags (.swtch p) r.cpu r'.cpu) (fun _ _ => False) := by
  have hlen : a.held.length = 0 + 1 := by rw [hheld, length_singleton]
  have h₀ := hlen ▸ h.masked
  let r₁ : LockRun L C T := ⟨{ r.cpu with thread := some p }, r.cpu :: r.past⟩
  have h₁ : Masked me (0 + 1) r₁ := h₀.write h₀.quiet rfl rfl
  have hwaits : ∀ {t : Option T}, t ≠ none → r.cpu.flagOf t = t.bind r.cpu.saved := by
    intro t ht
    exact if_neg (by rw [h.thread, hthread]; exact ht.symm)
  simp only [LockM.swtch, LockM.read, LockM.write, wp_bind, wp_get, wp_pure, wp_modify]
  cases hsaved : r.cpu.saved p with
  | none =>
    -- a new process
    refine ⟨⟨hlen ▸ h₁, h.nodup, h.held, h.free, rfl⟩, fun t b ht hflag => ?_⟩
    rw [hwaits ht] at hflag
    have hne : some p ≠ t := by
      rintro rfl
      rw [bind_some, hsaved] at hflag
      cases hflag
    exact (if_neg hne).trans hflag
  | some intena =>
    refine wp_bind.mpr (h₁.mycpu ?_)
    have h₂ : Masked me (0 + 1) ⟨{ r₁.cpu with intena := intena }, r₁.cpu :: r₁.past⟩ := h₁.write h₁.quiet rfl rfl
    refine ⟨⟨hlen ▸ h₂, h.nodup, h.held, h.free, rfl⟩, fun t b ht hflag => ?_⟩
    rw [hwaits ht] at hflag
    by_cases hpt : some p = t
    · subst hpt
      rw [bind_some, hsaved] at hflag
      exact (if_pos rfl).trans ((congrArg some h₂.own_eq).trans hflag)
    · exact (if_neg hpt).trans hflag

/-- An allowed event keeps the nesting, or the thread stops where it must. -/
lemma LocksOk.step {e : LockEvent L C T} (h : LocksOk me a r) (hnext : a.next me ptable e = some a') :
    Wp (e.exec me ptable) r (fun _ r' => LocksOk me a' r' ∧ KeepsFlags e r.cpu r'.cpu) (Stopped me a e) := by
  cases e with
  | acquire l others =>
    obtain ⟨hothers, ⟨⟩⟩ := ite_none_right_eq_some.mp hnext
    exact (h.acquire hothers).imp (fun _ _ h' => ⟨h'.1, h'.2.keepsFlags _⟩)
  | release l =>
    obtain ⟨hmem, ⟨⟩⟩ := ite_none_right_eq_some.mp hnext
    exact (h.release hmem).mono (fun _ _ h' => ⟨h'.1, h'.2.keepsFlags _⟩) (fun _ _ h => h.elim)
  | setFlag t flag =>
    obtain ⟨⟨rfl, hheld⟩, ⟨⟩⟩ := ite_none_right_eq_some.mp hnext
    have hzero : a.held.length = 0 := length_eq_zero_iff.mpr hheld
    refine ⟨⟨⟨h.masked.ncli, fun hd => absurd hzero hd, h.masked.past_cons h.quiet⟩, h.nodup, h.held, h.free, h.thread⟩, ?_⟩
    intro t b ht hflag
    have hne : r.cpu.thread ≠ t := h.thread ▸ ht
    rw [LockCpu.flagOf, if_neg hne] at hflag
    exact (if_neg hne).trans hflag
  | sched running =>
    obtain ⟨⟨hsome, hheld, rfl⟩, ⟨⟩⟩ := ite_none_right_eq_some.mp hnext
    obtain ⟨p, hthread⟩ := ne_none_iff_exists'.mp hsome
    exact (h.sched hthread hheld).mono (fun _ _ h => h) (fun _ _ h => h.elim)
  | swtch p =>
    obtain ⟨⟨hthread, hheld⟩, ⟨⟩⟩ := ite_none_right_eq_some.mp hnext
    exact (h.swtch hthread hheld).mono (fun _ _ h => h) (fun _ _ h => h.elim)
  | other l lk =>
    obtain ⟨⟨hmem, hlk⟩, ⟨⟩⟩ := ite_none_right_eq_some.mp hnext
    refine ⟨⟨h.masked.write h.quiet rfl rfl, h.nodup, ?_, ?_, h.thread⟩, fun _ _ _ hflag => hflag⟩
    · intro l' hl'
      have hne : l' ≠ l := fun heq => hmem (heq ▸ hl')
      exact (update_of_ne hne _ _).trans (h.held l' hl')
    · intro l' hl'
      change (update r.cpu.locks l lk l').Foreign me
      by_cases heq : l' = l
      · rwa [heq, update_self]
      · rw [update_of_ne heq]
        exact h.free l' hl'
  | elsewhere p intena =>
    obtain ⟨hne, ⟨⟩⟩ := ite_none_right_eq_some.mp hnext
    refine ⟨⟨h.masked.write h.quiet rfl rfl, h.nodup, h.held, h.free, h.thread⟩, fun t b ht hflag => ?_⟩
    cases t with
    | none => exact hflag
    | some q =>
      have hqp : q ≠ p := fun heq => ht (congrArg some heq)
      change (if r.cpu.thread = some q then some r.cpu.own else update r.cpu.saved p (some intena) q) = some b
      rw [update_of_ne hqp]
      exact hflag

lemma LocksOk.run {es : List (LockEvent L C T)} (h : LocksOk me a r) (hrun : es.foldlM (LockNest.next me ptable) a = some a') :
    Wp (es.forM (LockEvent.exec me ptable)) r
      (fun _ r' => LocksOk me a' r' ∧ ∀ t b, (∀ e ∈ es, e.Keeps t) → r.cpu.flagOf t = some b → r'.cpu.flagOf t = some b)
      (fun stop r' => ∃ before e after a₁, es = before ++ e :: after ∧
        before.foldlM (LockNest.next me ptable) a = some a₁ ∧ Stopped me a₁ e stop r') := by
  refine (Wp.forM (fun done r' => ∃ a₁, done.foldlM (LockNest.next me ptable) a = some a₁ ∧ LocksOk me a₁ r' ∧
    ∀ t b, (∀ e ∈ done, e.Keeps t) → r.cpu.flagOf t = some b → r'.cpu.flagOf t = some b)
    ?_ ⟨a, rfl, h, fun _ _ _ hflag => hflag⟩).imp ?_
  · rintro done e rest r₁ hes ⟨a₁, hdone, h₁, hflags⟩
    cases he : a₁.next me ptable e with
    | none =>
      rw [hes, foldlM_append, hdone] at hrun
      simp [he] at hrun
    | some a₂ =>
      refine (h₁.step he).mono ?_ (fun stop r' hstop => ⟨done, e, rest, a₁, hes, hdone, hstop⟩)
      rintro _ r₂ ⟨h₂, hkeeps⟩
      refine ⟨a₂, ?_, h₂, fun t b hall hflag => ?_⟩
      · rw [foldlM_append, hdone]
        simp [he]
      · obtain ⟨hall, hlast⟩ := forall_mem_append.mp hall
        exact hkeeps t b (hlast e mem_cons_self) (hflags t b hall hflag)
  · rintro _ r' ⟨a₁, ha₁, h₁⟩
    rw [hrun] at ha₁
    exact Option.some.inj ha₁ ▸ h₁

/-- From a CPU that holds no lock, events whose releases match their acquires keep interrupts off in every state in which a lock is
held, those inside the calls included. When all locks are released and the thread of the start runs again, the flag is what it was at
the start, unless an event has set it. The events do not end only if a lock is acquired twice or another CPU keeps it. -/
theorem interrupts_restored {s : LockCpu L C T} (hncli : s.ncli = 0) (hfree : ∀ l, (s.locks l).Foreign me)
    {es : List (LockEvent L C T)} (hrun : es.foldlM (LockNest.next me ptable) ⟨s.thread, []⟩ = some a) :
    Wp (es.forM (LockEvent.exec me ptable)) ⟨s, []⟩
      (fun _ r => (∀ q ∈ r.cpu :: r.past, q.Quiet me) ∧
        (∀ l, l ∈ a.held ↔ (r.cpu.locks l).locked = some me) ∧
        (a.held = [] → r.cpu.thread = s.thread → (∀ e ∈ es, e.Keeps s.thread) → r.cpu.interrupts = s.interrupts))
      (fun stop r => ∃ before e after a₁, es = before ++ e :: after ∧
        before.foldlM (LockNest.next me ptable) ⟨s.thread, []⟩ = some a₁ ∧ Stopped me a₁ e stop r) := by
  have hstart : LocksOk me ⟨s.thread, []⟩ ⟨s, []⟩ :=
    ⟨⟨hncli, fun hd => absurd rfl hd, forall_mem_nil _⟩, nodup_nil, forall_mem_nil _, fun l _ => hfree l, rfl⟩
  have hflag : s.flagOf s.thread = some s.interrupts := by
    rw [LockCpu.flagOf, if_pos rfl, LockCpu.own, if_pos hncli]
  refine (hstart.run hrun).imp ?_
  rintro _ r ⟨h, hflags⟩
  refine ⟨h.masked.past_cons h.quiet, fun l => ⟨fun hl => by rw [h.held l hl], fun hl => ?_⟩, ?_⟩
  · by_contra hmem
    exact (h.free l hmem).1 hl
  · intro hheld hthread hkeeps
    have hzero : r.cpu.ncli = 0 := by
      rw [h.masked.ncli, hheld]
      rfl
    have hend := hflags _ _ hkeeps hflag
    rw [LockCpu.flagOf, if_pos hthread, LockCpu.own, if_pos hzero] at hend
    exact Option.some.inj hend

end LocksOk

def idleLocks : LockCpu (Fin 2) (Fin 2) (Fin 2) where
  interrupts := true
  ncli := 0
  intena := false
  locks _ := ⟨none, none⟩
  thread := some 0
  saved _ := none

def crossedLocks : List (LockEvent (Fin 2) (Fin 2) (Fin 2)) :=
  [.other 1 ⟨some 1, some 1⟩, .acquire 1 [⟨some 1, none⟩, ⟨none, none⟩], .acquire 0 [], .release 1, .sched false,
    .swtch 1, .release 0, .setFlag (some 1) false, .acquire 0 [], .sched false, .swtch 0, .release 0]

theorem interrupts_restored_crossed : ∃ r, crossedLocks.forM (LockEvent.exec 0 0) ⟨idleLocks, []⟩ = .ok () r ∧
    r.cpu.thread = some 0 ∧ r.cpu.interrupts = idleLocks.interrupts := by
  have hfree : ∀ l, (idleLocks.locks l).Foreign 0 := by decide
  have hmatched : ((crossedLocks.foldlM (LockNest.next 0 0) ⟨idleLocks.thread, []⟩).map fun a => a.held) = some [] := by
    decide +kernel
  have hkeeps : ∀ e ∈ crossedLocks, e.Keeps idleLocks.thread := by
    simp [crossedLocks, LockEvent.Keeps, idleLocks]
  have hends : (match crossedLocks.forM (LockEvent.exec 0 0) ⟨idleLocks, []⟩ with
      | .ok _ r => r.cpu.thread
      | .error _ _ => none) = some 0 := by
    decide +kernel
  -- from here on the events are not evaluated
  generalize crossedLocks = es at *
  obtain ⟨a, hrun, hheld⟩ := map_eq_some_iff.mp hmatched
  cases hx : es.forM (LockEvent.exec 0 0) ⟨idleLocks, []⟩ with
  | ok u r =>
    rw [hx] at hends
    exact ⟨r, rfl, hends, (Returns.of_ok (interrupts_restored rfl hfree hrun) hx).2.2 hheld hends hkeeps⟩
  | error stop r =>
    rw [hx] at hends
    cases hends

end Xv6Bfs
