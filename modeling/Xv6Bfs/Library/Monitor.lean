import Xv6Bfs.Library.Transition
import Mathlib.Logic.Function.Basic

/-!
# Processes that share data under a spin-lock

Each process reads and changes the shared data while it holds the spin-lock. To sleep it swaps the spin-lock for the lock of the
process table, which wakeups and kills take too, and once woken it takes the spin-lock again before it goes on.

A proof outline gives an assertion for each place in the code and an invariant for the data while the lock is free. Its rule
(`Outline.valid`) reduces a fact about all interleavings to one obligation for each action. `Signals.waits_of_asleep` is the rule
for sleepers: nobody sleeps on a channel after what they wait for has come.
-/

namespace Monitor

open Function

variable {P C σ L : Type*}

inductive Action (C σ L : Type*)
  | acquire (next : L)
  | release (next : L)
  | compute (data : σ) (next : L)
  | wakeup (chan : C) (next : L)
  | sleep (chan : C) (next : L)
  | halt

/-- A dozing process has the lock of the table and is about to sleep. -/
inductive Status (C : Type*)
  | running
  | dozing (chan : C)
  | sleeping (chan : C)
  | runnable
  deriving DecidableEq

structure Process (C L : Type*) where
  status : Status C
  killed : Bool
  locals : L

structure State (P C σ L : Type*) where
  lock : Option P
  table : Option P
  data : σ
  proc : P → Process C L

inductive Event (P L : Type*)
  | call (p : P) (entry : L)
  | step (p : P)
  | kill (p : P)

/-- `begins` says which calls a process may begin where it is. -/
structure Program (P C σ L : Type*) where
  code : P → L → σ → Bool → Action C σ L
  begins : P → L → L → σ → Bool
  start : σ → Prop
  idle : L

namespace Process

def waiting (x : Process C L) : Bool :=
  match x.status with
  | .running => false
  | _ => true

@[simp] lemma waiting_eq_false {x : Process C L} : x.waiting = false ↔ x.status = .running := by
  obtain ⟨status, _, _⟩ := x
  cases status <;> simp [waiting]

@[simp] lemma waiting_eq_true {x : Process C L} : x.waiting = true ↔ x.status ≠ .running := by
  rw [← Bool.not_eq_false, waiting_eq_false]

end Process

namespace State

/-- The process sleeps on the channel, or cannot but do so next. -/
def Asleep (s : State P C σ L) (p : P) (c : C) : Prop :=
  (s.proc p).status = .sleeping c ∨ (s.proc p).status = .dozing c

section Set

variable [DecidableEq P]

def set (s : State P C σ L) (p : P) (x : Process C L) : State P C σ L :=
  { s with proc := update s.proc p x }

def goto (s : State P C σ L) (p : P) (next : L) : State P C σ L :=
  s.set p { s.proc p with locals := next }

def kill (s : State P C σ L) (p : P) : State P C σ L :=
  s.set p { s.proc p with
    killed := true
    status := match (s.proc p).status with
      | .sleeping _ => .runnable
      | status => status }

variable (s : State P C σ L) {p q : P}

@[simp] lemma set_proc_self (x : Process C L) : (s.set p x).proc p = x :=
  update_self ..

@[simp] lemma set_proc_of_ne (h : q ≠ p) (x : Process C L) : (s.set p x).proc q = s.proc q :=
  update_of_ne h ..

@[simp] lemma goto_status (p q : P) (n : L) : ((s.goto p n).proc q).status = (s.proc q).status := by
  by_cases h : q = p
  · subst h
    rw [goto, set_proc_self]
  · rw [goto, set_proc_of_ne s h]

lemma goto_locals_of_ne (h : q ≠ p) (n : L) : ((s.goto p n).proc q).locals = (s.proc q).locals := by
  rw [goto, set_proc_of_ne s h]

@[simp] lemma kill_locals (p q : P) : ((s.kill p).proc q).locals = (s.proc q).locals := by
  by_cases h : q = p
  · subst h
    rw [kill, set_proc_self]
  · rw [kill, set_proc_of_ne s h]

lemma goto_locals_self (p : P) (n : L) : ((s.goto p n).proc p).locals = n := by
  rw [goto, set_proc_self]

lemma Asleep.of_kill {s : State P C σ L} {c : C} (h : (s.kill p).Asleep q c) : s.Asleep q c := by
  by_cases hq : q = p
  · subst hq
    rw [Asleep, kill, set_proc_self] at h
    dsimp only at h
    split at h
    · simp at h
    · exact h
  · rwa [Asleep, kill, set_proc_of_ne s hq] at h

end Set

section Wake

variable [DecidableEq C]

def wake (s : State P C σ L) (c : C) : State P C σ L :=
  { s with proc := fun q =>
      if (s.proc q).status = .sleeping c then { s.proc q with status := .runnable } else s.proc q }

variable (s : State P C σ L) (c : C) (q : P)

@[simp] lemma wake_locals : ((s.wake c).proc q).locals = (s.proc q).locals := by
  unfold wake
  dsimp only
  split <;> rfl

lemma wake_status :
    ((s.wake c).proc q).status = if (s.proc q).status = .sleeping c then .runnable else (s.proc q).status := by
  unfold wake
  dsimp only
  split <;> rfl

lemma Asleep.of_wake {s : State P C σ L} {c c' : C} {q : P} (h : (s.wake c).Asleep q c') :
    s.Asleep q c' ∧ (c' = c → (s.proc q).status = .dozing c) := by
  rw [Asleep, wake_status] at h
  split at h
  · simp at h
  · rename_i hq
    refine ⟨h, ?_⟩
    rintro rfl
    exact h.resolve_left hq

end Wake

end State

namespace Program

variable [DecidableEq P] [DecidableEq C] (prog : Program P C σ L)

def action (s : State P C σ L) (p : P) : Action C σ L :=
  prog.code p (s.proc p).locals s.data (s.proc p).killed

def exec (s : State P C σ L) (p : P) : Option (State P C σ L) :=
  match prog.action s p with
  | .acquire n => if s.lock = none then some { s.goto p n with lock := some p } else none
  | .release n => some { s.goto p n with lock := none }
  | .compute d n => some { s.goto p n with data := d }
  | .wakeup c n => if s.table = none then some ((s.wake c).goto p n) else none
  | .sleep c n =>
    if s.table = none then
      some { s.set p ⟨.dozing c, (s.proc p).killed, n⟩ with lock := none, table := some p }
    else none
  | .halt => none

def step : Event P L → State P C σ L → Option (State P C σ L)
  | .call p n, s =>
    if (s.proc p).status = .running ∧ prog.begins p (s.proc p).locals n s.data then some (s.goto p n) else none
  | .kill p, s => if s.table = none then some (s.kill p) else none
  | .step p, s =>
    match (s.proc p).status with
    | .running => prog.exec s p
    | .dozing c => some { s.set p { s.proc p with status := .sleeping c } with table := none }
    | .sleeping _ => none
    | .runnable =>
      if s.lock = none then some { s.set p { s.proc p with status := .running } with lock := some p } else none

def system : Transition.System (State P C σ L) (Event P L) where
  init s := s.lock = none ∧ s.table = none ∧ prog.start s.data ∧
    ∀ p, (s.proc p).status = .running ∧ (s.proc p).locals = prog.idle
  step := prog.step

variable {prog} {e : Event P L} {s s' : State P C σ L}

/-- What a step may be, one case for each event and action. -/
lemma step_cases {motive : State P C σ L → Prop} (hstep : prog.step e s = some s')
    (call : ∀ p n, (s.proc p).status = .running → prog.begins p (s.proc p).locals n s.data = true → motive (s.goto p n))
    (kill : ∀ p, s.table = none → motive (s.kill p))
    (doze : ∀ p c, (s.proc p).status = .dozing c →
      motive { s.set p { s.proc p with status := .sleeping c } with table := none })
    (resume : ∀ p, (s.proc p).status = .runnable → s.lock = none →
      motive { s.set p { s.proc p with status := .running } with lock := some p })
    (acquire : ∀ p n, e = .step p → (s.proc p).status = .running → prog.action s p = .acquire n → s.lock = none →
      motive { s.goto p n with lock := some p })
    (release : ∀ p n, e = .step p → (s.proc p).status = .running → prog.action s p = .release n →
      motive { s.goto p n with lock := none })
    (compute : ∀ p d n, e = .step p → (s.proc p).status = .running → prog.action s p = .compute d n →
      motive { s.goto p n with data := d })
    (wakeup : ∀ p c n, e = .step p → (s.proc p).status = .running → prog.action s p = .wakeup c n → s.table = none →
      motive ((s.wake c).goto p n))
    (sleep : ∀ p c n, e = .step p → (s.proc p).status = .running → prog.action s p = .sleep c n → s.table = none →
      motive { s.set p ⟨.dozing c, (s.proc p).killed, n⟩ with lock := none, table := some p }) :
    motive s' := by
  cases e with
  | call p n =>
    obtain ⟨⟨hstatus, hbegins⟩, hs'⟩ := Option.ite_none_right_eq_some.mp hstep
    exact Option.some.inj hs' ▸ call p n hstatus hbegins
  | kill p =>
    obtain ⟨htable, hs'⟩ := Option.ite_none_right_eq_some.mp hstep
    exact Option.some.inj hs' ▸ kill p htable
  | step p =>
    rw [step] at hstep
    split at hstep
    next hstatus =>
      rw [exec] at hstep
      split at hstep
      next n hact =>
        obtain ⟨hlock, hs'⟩ := Option.ite_none_right_eq_some.mp hstep
        exact Option.some.inj hs' ▸ acquire p n rfl hstatus hact hlock
      next n hact => exact Option.some.inj hstep ▸ release p n rfl hstatus hact
      next d n hact => exact Option.some.inj hstep ▸ compute p d n rfl hstatus hact
      next c n hact =>
        obtain ⟨htable, hs'⟩ := Option.ite_none_right_eq_some.mp hstep
        exact Option.some.inj hs' ▸ wakeup p c n rfl hstatus hact htable
      next c n hact =>
        obtain ⟨htable, hs'⟩ := Option.ite_none_right_eq_some.mp hstep
        exact Option.some.inj hs' ▸ sleep p c n rfl hstatus hact htable
      next => cases hstep
    next c hstatus => exact Option.some.inj hstep ▸ doze p c hstatus
    next => cases hstep
    next hstatus =>
      obtain ⟨hlock, hs'⟩ := Option.ite_none_right_eq_some.mp hstep
      exact Option.some.inj hs' ▸ resume p hstatus hlock

end Program

/-! ### Proof outlines -/

/-- The obligation for an action of `p`, which is at `l` and whose assertion holds. The other
processes keep their assertions; if `p` holds the lock, they do not. -/
def Action.Sound (holds : L → Bool) (inv : σ → Prop) (assert : P → Bool → L → σ → Prop) (p : P) (l : L) (d : σ) :
    Action C σ L → Prop
  | .acquire n => holds l = false ∧ holds n = true ∧ (inv d → assert p false n d)
  | .release n => holds l = true ∧ holds n = false ∧ inv d ∧ assert p false n d
  | .compute d' n => holds n = holds l ∧ (holds l = false → inv d → inv d') ∧ assert p false n d' ∧
    ∀ q w m, q ≠ p → (holds l = true → w = true ∨ holds m = false) → assert q w m d → assert q w m d'
  | .wakeup _ n => holds n = holds l ∧ assert p false n d
  | .sleep _ n => holds l = true ∧ holds n = true ∧ inv d ∧ assert p true n d
  | .halt => True

/-- `holds` are the places where the lock is held, `inv` is true of the data while it is free, and
`assert` of a process that is running or, if the flag is set, waiting. -/
structure Outline (prog : Program P C σ L) where
  holds : L → Bool
  inv : σ → Prop
  assert : P → Bool → L → σ → Prop
  idle : holds prog.idle = false
  start : ∀ d, prog.start d → inv d ∧ ∀ p, assert p false prog.idle d
  begins : ∀ p l n d, prog.begins p l n d = true → assert p false l d →
    holds l = false ∧ holds n = false ∧ assert p false n d
  resume : ∀ p l d, assert p true l d → inv d → assert p false l d
  sound : ∀ p l d k, assert p false l d → (prog.code p l d k).Sound holds inv assert p l d

namespace Outline

variable {prog : Program P C σ L} (O : Outline prog)

def Active (x : Process C L) : Prop :=
  x.status = .running ∧ O.holds x.locals = true

/-- The lock belongs to the process that runs under it, and what a process asserts holds. -/
structure Valid (s : State P C σ L) : Prop where
  lock : ∀ p, s.lock = some p ↔ O.Active (s.proc p)
  table : ∀ p, s.table = some p ↔ ∃ c, (s.proc p).status = .dozing c
  waiting : ∀ p, (s.proc p).waiting = true → O.holds (s.proc p).locals = true
  inv : s.lock = none → O.inv s.data
  assert : ∀ p, O.assert p (s.proc p).waiting (s.proc p).locals s.data

variable {O} {s s' : State P C σ L} {p : P}

namespace Valid

lemma not_active (h : O.Valid s) (hlock : s.lock = none) (p : P) : ¬ O.Active (s.proc p) := by
  rw [← h.lock, hlock]
  nofun

lemma eq_of_active (h : O.Valid s) {q : P} (hp : O.Active (s.proc p)) (hq : O.Active (s.proc q)) : q = p := by
  rw [← h.lock] at hp hq
  exact Option.some.inj (hq.symm.trans hp)

lemma assert_running (h : O.Valid s) (hp : (s.proc p).status = .running) :
    O.assert p false (s.proc p).locals s.data := by
  have := h.assert p
  rwa [Process.waiting_eq_false.mpr hp] at this

lemma not_dozing (h : O.Valid s) (htable : s.table = none) (p : P) (c : C) : (s.proc p).status ≠ .dozing c := by
  intro hp
  have := (h.table p).mpr ⟨c, hp⟩
  rw [htable] at this
  cases this

lemma of_status (h : O.Valid s) {proc : P → Process C L}
    (hproc : ∀ q, (proc q).locals = (s.proc q).locals ∧ ((proc q).status = (s.proc q).status ∨
      (∃ c, (s.proc q).status = .sleeping c) ∧ (proc q).status = .runnable)) :
    O.Valid { s with proc := proc } := by
  have hstatus : ∀ q, ((proc q).status = .running ↔ (s.proc q).status = .running) ∧
      ((∃ c, (proc q).status = .dozing c) ↔ ∃ c, (s.proc q).status = .dozing c) := by
    intro q
    rcases (hproc q).2 with hq | ⟨⟨c, hc⟩, hq⟩
    · rw [hq]
      exact ⟨Iff.rfl, Iff.rfl⟩
    · simp [hq, hc]
  have hwaiting : ∀ q, (proc q).waiting = (s.proc q).waiting := by
    intro q
    rw [Bool.eq_iff_iff, Process.waiting_eq_true, Process.waiting_eq_true, ne_eq, (hstatus q).1]
  have hactive : ∀ q, O.Active (proc q) ↔ O.Active (s.proc q) := by
    intro q
    rw [Active, Active, (hstatus q).1, (hproc q).1]
  constructor
  · exact fun q => (h.lock q).trans (hactive q).symm
  · exact fun q => (h.table q).trans (hstatus q).2.symm
  · intro q
    dsimp only
    rw [hwaiting, (hproc q).1]
    exact h.waiting q
  · exact h.inv
  · intro q
    dsimp only
    rw [hwaiting, (hproc q).1]
    exact h.assert q

section

variable [DecidableEq C]

lemma wake (h : O.Valid s) (c : C) : O.Valid (s.wake c) := by
  refine h.of_status ?_
  intro q
  dsimp only
  split
  · rename_i hq
    exact ⟨rfl, .inr ⟨⟨c, hq⟩, rfl⟩⟩
  · exact ⟨rfl, .inl rfl⟩

end

variable [DecidableEq P]

lemma set (h : O.Valid s) {x : Process C L} {lock table : Option P} {d : σ} (hlock : lock = some p ↔ O.Active x)
    (hlock' : ∀ q, q ≠ p → (lock = some q ↔ s.lock = some q)) (htable : table = some p ↔ ∃ c, x.status = .dozing c)
    (htable' : ∀ q, q ≠ p → (table = some q ↔ s.table = some q))
    (hwaiting : x.waiting = true → O.holds x.locals = true) (hinv : lock = none → O.inv d)
    (hassert : O.assert p x.waiting x.locals d)
    (hothers : ∀ q, q ≠ p → O.assert q (s.proc q).waiting (s.proc q).locals d) :
    O.Valid ⟨lock, table, d, update s.proc p x⟩ := by
  have hsplit : ∀ {Q : P → Process C L → Prop}, Q p x → (∀ q, q ≠ p → Q q (s.proc q)) →
      ∀ q, Q q (update s.proc p x q) := by
    intro Q hp hq q
    by_cases h : q = p
    · subst h
      rwa [update_self]
    · rw [update_of_ne h]
      exact hq q h
  constructor
  · exact hsplit (Q := fun q y => lock = some q ↔ O.Active y) hlock (fun q hq => (hlock' q hq).trans (h.lock q))
  · exact hsplit (Q := fun q y => table = some q ↔ ∃ c, y.status = .dozing c) htable
      (fun q hq => (htable' q hq).trans (h.table q))
  · exact hsplit (Q := fun _ y => y.waiting = true → O.holds y.locals = true) hwaiting (fun q _ => h.waiting q)
  · exact hinv
  · exact hsplit (Q := fun q y => O.assert q y.waiting y.locals d) hassert hothers

lemma goto (h : O.Valid s) {n : L} {d : σ} (hp : (s.proc p).status = .running)
    (hholds : O.holds n = O.holds (s.proc p).locals)
    (hd : O.holds (s.proc p).locals = false → O.inv s.data → O.inv d) (hassert : O.assert p false n d)
    (hothers : ∀ q w m, q ≠ p → (O.holds (s.proc p).locals = true → w = true ∨ O.holds m = false) →
      O.assert q w m s.data → O.assert q w m d) :
    O.Valid { s.goto p n with data := d } := by
  have hactive : O.Active { s.proc p with locals := n } ↔ O.Active (s.proc p) := by
    unfold Active
    rw [hholds]
  refine h.set ((h.lock p).trans hactive.symm) (fun _ _ => Iff.rfl) (h.table p) (fun _ _ => Iff.rfl) ?_ ?_ ?_ ?_
  · intro hw
    exact absurd hp (Process.waiting_eq_true.mp hw)
  · intro hlock
    have hnot := h.not_active hlock p
    have hfalse : O.holds (s.proc p).locals = false := by
      rw [← Bool.not_eq_true]
      exact fun hl => hnot ⟨hp, hl⟩
    exact hd hfalse (h.inv hlock)
  · change O.assert p (s.proc p).waiting n d
    rw [Process.waiting_eq_false.mpr hp]
    exact hassert
  · intro q hq
    refine hothers q _ _ hq ?_ (h.assert q)
    intro hl
    by_contra hcon
    rw [not_or, Bool.not_eq_true, Bool.not_eq_false, Process.waiting_eq_false] at hcon
    exact hq (h.eq_of_active ⟨hp, hl⟩ hcon)

lemma kill (h : O.Valid s) (p : P) : O.Valid (s.kill p) := by
  refine h.of_status ?_
  intro q
  by_cases hq : q = p
  · subst hq
    rw [update_self]
    refine ⟨rfl, ?_⟩
    dsimp only
    split
    · rename_i c hc
      exact .inr ⟨⟨c, hc⟩, rfl⟩
    · exact .inl rfl
  · rw [update_of_ne hq]
    exact ⟨rfl, .inl rfl⟩

end Valid

lemma sound_action (O : Outline prog) (h : O.Valid s) (hp : (s.proc p).status = .running) :
    (prog.action s p).Sound O.holds O.inv O.assert p (s.proc p).locals s.data :=
  O.sound p _ _ _ (h.assert_running hp)

lemma Valid.lock_of_holds (h : O.Valid s) (hp : (s.proc p).status = .running)
    (hholds : O.holds (s.proc p).locals = true) : s.lock = some p :=
  (h.lock p).mpr ⟨hp, hholds⟩

variable [DecidableEq P] [DecidableEq C] {e : Event P L}

theorem Valid.step (h : O.Valid s) (hstep : prog.step e s = some s') : O.Valid s' := by
  refine Program.step_cases hstep ?call ?kill ?doze ?resume ?acquire ?release ?compute ?wakeup ?sleep
  case call =>
    intro p n hp hbegins
    obtain ⟨hl, hn, hassert⟩ := O.begins p _ n _ hbegins (h.assert_running hp)
    exact h.goto hp (hn.trans hl.symm) (fun _ hinv => hinv) hassert (fun _ _ _ _ _ hq => hq)
  case kill =>
    exact fun p _ => h.kill p
  case doze =>
    intro p c hp
    have htable := (h.table p).mpr ⟨c, hp⟩
    refine h.set ?_ (fun _ _ => Iff.rfl) ?_ ?_ ?_ h.inv ?_ (fun q _ => h.assert q)
    · simp [State.set, h.lock p, Active, hp]
    · simp
    · intro q hq
      simp [htable, hq.symm]
    · exact fun _ => h.waiting p (Process.waiting_eq_true.mpr (by rw [hp]; nofun))
    · have hassert := h.assert p
      rwa [Process.waiting_eq_true.mpr (by rw [hp]; nofun)] at hassert
  case resume =>
    intro p hp hlock
    have hwaiting : (s.proc p).waiting = true := Process.waiting_eq_true.mpr (by rw [hp]; nofun)
    have hassert := h.assert p
    rw [hwaiting] at hassert
    refine h.set ?_ ?_ ?_ (fun _ _ => Iff.rfl) nofun nofun (O.resume p _ _ hassert (h.inv hlock)) (fun q _ => h.assert q)
    · simp [Active, h.waiting p hwaiting]
    · intro q hq
      simp [hlock, hq.symm]
    · simp [State.set, h.table p, hp]
  case acquire =>
    intro p n _ hp hact hlock
    have hsound := O.sound_action h hp
    rw [hact] at hsound
    obtain ⟨-, hn, hassert⟩ := hsound
    refine h.set ?_ ?_ (h.table p) (fun _ _ => Iff.rfl) ?_ nofun ?_ (fun q _ => h.assert q)
    · simp [Active, hp, hn]
    · intro q hq
      simp [hlock, hq.symm]
    · exact fun _ => hn
    · change O.assert p (s.proc p).waiting n s.data
      rw [Process.waiting_eq_false.mpr hp]
      exact hassert (h.inv hlock)
  case release =>
    intro p n _ hp hact
    have hsound := O.sound_action h hp
    rw [hact] at hsound
    obtain ⟨hl, hn, hinv, hassert⟩ := hsound
    have hlock := h.lock_of_holds hp hl
    refine h.set ?_ ?_ (h.table p) (fun _ _ => Iff.rfl) ?_ (fun _ => hinv) ?_ (fun q _ => h.assert q)
    · simp [Active, hn]
    · intro q hq
      simp [hlock, hq.symm]
    · intro hw
      exact absurd hp (Process.waiting_eq_true.mp hw)
    · change O.assert p (s.proc p).waiting n s.data
      rw [Process.waiting_eq_false.mpr hp]
      exact hassert
  case compute =>
    intro p d n _ hp hact
    have hsound := O.sound_action h hp
    rw [hact] at hsound
    obtain ⟨hn, hd, hassert, hothers⟩ := hsound
    exact h.goto hp hn hd hassert hothers
  case wakeup =>
    intro p c n _ hp hact _
    have hsound := O.sound_action h hp
    rw [hact] at hsound
    have hsame : (s.wake c).proc p = s.proc p := if_neg (by rw [hp]; nofun)
    refine (h.wake c).goto ?_ ?_ (fun _ hinv => hinv) hsound.2 (fun _ _ _ _ _ hq => hq)
    · rw [hsame, hp]
    · rw [hsame, hsound.1]
  case sleep =>
    intro p c n _ hp hact htable
    have hsound := O.sound_action h hp
    rw [hact] at hsound
    obtain ⟨hl, hn, hinv, hassert⟩ := hsound
    have hlock := h.lock_of_holds hp hl
    refine h.set ?_ ?_ ?_ ?_ (fun _ => hn) (fun _ => hinv) hassert (fun q _ => h.assert q)
    · simp [Active]
    · intro q hq
      simp [hlock, hq.symm]
    · simp
    · intro q hq
      simp [htable, hq.symm]

lemma Valid.init (hs : prog.system.init s) : O.Valid s := by
  obtain ⟨hlock, htable, hstart, hidle⟩ := hs
  obtain ⟨hinv, hassert⟩ := O.start _ hstart
  constructor
  · intro p
    simp [hlock, Active, hidle p, O.idle]
  · intro p
    simp [htable, hidle p]
  · intro p hp
    exact absurd (hidle p).1 (Process.waiting_eq_true.mp hp)
  · exact fun _ => hinv
  · intro p
    rw [Process.waiting_eq_false.mpr (hidle p).1, (hidle p).2]
    exact hassert p

/-- The assertions hold in every run. -/
theorem valid (O : Outline prog) {ok : State P C σ L → Event P L → Prop} (hs : Transition.Reach prog.system ok s) :
    O.Valid s :=
  hs.invariant O.Valid (fun _ => Valid.init) (fun _ _ _ h _ hstep => h.step hstep)

end Outline

/-! ### Outlines about the holder of the lock -/

/-- The obligation for an action if only the holder of the lock knows anything about the data. -/
def Action.HolderSound (holds : L → Bool) (inv : σ → Prop) (knows : L → σ → Prop) (resumes : L → Prop) (l : L) (d : σ) :
    Action C σ L → Prop
  | .acquire n => holds l = false ∧ holds n = true ∧ (inv d → knows n d)
  | .release n => holds l = true ∧ holds n = false
  | .compute d' n => holds l = true ∧ holds n = true ∧ inv d' ∧ knows n d'
  | .wakeup _ n => holds l = true ∧ holds n = true ∧ knows n d
  | .sleep _ n => holds l = true ∧ holds n = true ∧ resumes n
  | .halt => True

/-- The data always have the invariant; the holder of the lock knows more. -/
structure HolderOutline (prog : Program P C σ L) where
  holds : L → Bool
  inv : σ → Prop
  knows : L → σ → Prop
  resumes : L → Prop
  idle : holds prog.idle = false
  start : ∀ d, prog.start d → inv d
  begins : ∀ p l n d, prog.begins p l n d = true → holds l = false ∧ holds n = false
  resume : ∀ l d, resumes l → inv d → knows l d
  sound : ∀ p l d k, (holds l = true → inv d ∧ knows l d) → (prog.code p l d k).HolderSound holds inv knows resumes l d

namespace HolderOutline

variable {prog : Program P C σ L} (O : HolderOutline prog)

def Assert (waiting : Bool) (l : L) (d : σ) : Prop :=
  if waiting then O.resumes l else O.holds l = true → O.inv d ∧ O.knows l d

variable {O}

lemma Assert.other {w : Bool} {l : L} {d d' : σ} (h : O.Assert w l d) (hw : w = true ∨ O.holds l = false) :
    O.Assert w l d' := by
  cases w with
  | true => exact h
  | false =>
    intro hholds
    simp [hholds] at hw

variable (O)

def outline : Outline prog where
  holds := O.holds
  inv := O.inv
  assert _ := O.Assert
  idle := O.idle
  start d hd := ⟨O.start d hd, fun _ hholds => by simp [O.idle] at hholds⟩
  begins := by
    intro p l n d hbegins _
    obtain ⟨hl, hn⟩ := O.begins p l n d hbegins
    exact ⟨hl, hn, fun hholds => by simp [hn] at hholds⟩
  resume p l d h hinv _ := ⟨hinv, O.resume l d h hinv⟩
  sound := by
    intro p l d k h
    have hsound := O.sound p l d k h
    cases hact : prog.code p l d k with
    | acquire n =>
      rw [hact] at hsound
      exact ⟨hsound.1, hsound.2.1, fun hinv _ => ⟨hinv, hsound.2.2 hinv⟩⟩
    | release n =>
      rw [hact] at hsound
      exact ⟨hsound.1, hsound.2, (h hsound.1).1, fun hholds => by simp [hsound.2] at hholds⟩
    | compute d' n =>
      rw [hact] at hsound
      obtain ⟨hl, hn, hinv, hknows⟩ := hsound
      refine ⟨hn.trans hl.symm, fun _ _ => hinv, fun _ => ⟨hinv, hknows⟩, ?_⟩
      exact fun _ _ _ _ hw hassert => hassert.other (hw hl)
    | wakeup c n =>
      rw [hact] at hsound
      exact ⟨hsound.2.1.trans hsound.1.symm, fun _ => ⟨(h hsound.1).1, hsound.2.2⟩⟩
    | sleep c n =>
      rw [hact] at hsound
      exact ⟨hsound.1, hsound.2.1, (h hsound.1).1, hsound.2.2⟩
    | halt => trivial

variable {s : State P C σ L}

lemma inv_of_valid (h : O.outline.Valid s) : O.inv s.data := by
  cases hlock : s.lock with
  | none => exact h.inv hlock
  | some p =>
    obtain ⟨hp, hholds⟩ := (h.lock p).mp hlock
    exact (h.assert_running hp hholds).1

lemma knows_of_valid (h : O.outline.Valid s) {p : P} (hp : (s.proc p).status = .running)
    (hholds : O.holds (s.proc p).locals = true) : O.knows (s.proc p).locals s.data :=
  (h.assert_running hp hholds).2

end HolderOutline

/-! ### Wakeups -/

/-- The obligation for an action at `l`: whoever ends a wait owes a wakeup afterwards. -/
def Action.Fair (waits : C → σ → Prop) (owes : C → L → Prop) (l : L) (d : σ) : Action C σ L → Prop
  | .sleep c _ => waits c d ∧ ∀ c', owes c' l → waits c' d
  | .compute d' n => ∀ c, waits c d ∨ owes c l → waits c d' ∨ owes c n
  | .wakeup c n => ∀ c', c' ≠ c → owes c' l → waits c' d ∨ owes c' n
  | _ => True

/-- `waits c` is what the sleepers of `c` wait to become false; a process that makes it false owes a
wakeup of `c` until it has given it. -/
structure Signals [DecidableEq P] [DecidableEq C] {prog : Program P C σ L} (O : Outline prog)
    (ok : State P C σ L → Event P L → Prop) where
  waits : C → σ → Prop
  owes : C → L → Prop
  holds : ∀ c l, owes c l → O.holds l = true
  fair : ∀ p l d k, O.assert p false l d → (prog.code p l d k).Fair waits owes l d
  release : ∀ s p n q c, O.Valid s → ok s (.step p) → (s.proc p).status = .running → prog.action s p = .release n →
    s.Asleep q c → owes c (s.proc p).locals → waits c s.data

namespace Signals

variable [DecidableEq P] [DecidableEq C] {prog : Program P C σ L} {O : Outline prog}
  {ok : State P C σ L → Event P L → Prop} (S : Signals O ok) {s s' : State P C σ L} {e : Event P L}

/-- Sleepers wait with reason, or somebody owes them a wakeup. -/
def Safe (s : State P C σ L) : Prop :=
  ∀ q c, s.Asleep q c → S.waits c s.data ∨ ∃ p, s.lock = some p ∧ S.owes c (s.proc p).locals

variable {S}

lemma fair_action (S : Signals O ok) (h : O.Valid s) {p : P} (hp : (s.proc p).status = .running) :
    (prog.action s p).Fair S.waits S.owes (s.proc p).locals s.data :=
  S.fair p _ _ _ (h.assert_running hp)

lemma Safe.of_asleep (h : S.Safe s) (hasleep : ∀ q c, s'.Asleep q c → s.Asleep q c)
    (hwaits : ∀ q c, s.Asleep q c → S.waits c s.data → S.waits c s'.data ∨ ∃ p, s'.lock = some p ∧ S.owes c (s'.proc p).locals)
    (howes : ∀ q c r, s.Asleep q c → s.lock = some r → S.owes c (s.proc r).locals →
      S.waits c s'.data ∨ ∃ p, s'.lock = some p ∧ S.owes c (s'.proc p).locals) : S.Safe s' := by
  intro q c hq
  have hq' := hasleep q c hq
  rcases h q c hq' with hw | ⟨r, hr, ho⟩
  · exact hwaits q c hq' hw
  · exact howes q c r hq' hr ho

lemma Safe.frame (h : S.Safe s) {proc : P → Process C L} {table : Option P}
    (hasleep : ∀ q c, (State.mk s.lock table s.data proc).Asleep q c → s.Asleep q c)
    (hlocals : ∀ r, s.lock = some r → (proc r).locals = (s.proc r).locals) :
    S.Safe ⟨s.lock, table, s.data, proc⟩ := by
  refine h.of_asleep hasleep (fun _ _ _ hw => .inl hw) ?_
  intro q c r _ hr ho
  refine .inr ⟨r, hr, ?_⟩
  dsimp only
  rwa [hlocals r hr]

lemma Safe.step (h : S.Safe s) (hvalid : O.Valid s) (hok : ok s e) (hstep : prog.step e s = some s') : S.Safe s' := by
  have hset : ∀ {p : P} {x : Process C L} {q : P} {c : C}, (∀ c, x.status ≠ .sleeping c ∧ x.status ≠ .dozing c) →
      (s.set p x).Asleep q c → s.Asleep q c := by
    intro p x q c hx hq
    by_cases hqp : q = p
    · subst hqp
      rw [State.Asleep, State.set_proc_self] at hq
      rcases hq with hq | hq
      · exact absurd hq (hx c).1
      · exact absurd hq (hx c).2
    · rwa [State.Asleep, State.set_proc_of_ne s hqp] at hq
  refine Program.step_cases hstep ?call ?kill ?doze ?resume ?acquire ?release ?compute ?wakeup ?sleep
  case call =>
    intro p n hp hbegins
    have hidle := (O.begins p _ n _ hbegins (hvalid.assert_running hp)).1
    refine h.frame (fun q c hq => ?_) ?_
    · exact hset (by simp [hp]) hq
    · rintro r hr
      have hne : r ≠ p := by
        rintro rfl
        simp [(hvalid.lock r).mp hr |>.2] at hidle
      exact State.goto_locals_of_ne s hne n
  case kill =>
    intro p _
    exact h.frame (fun q c hq => hq.of_kill) (fun r _ => s.kill_locals p r)
  case doze =>
    intro p c hp
    refine h.frame ?_ ?_
    · intro q c' hq
      by_cases hqp : q = p
      · subst hqp
        simp only [State.Asleep, State.set_proc_self] at hq
        rw [State.Asleep, hp]
        simpa using hq
      · simpa only [State.Asleep, State.set_proc_of_ne s hqp] using hq
    · intro r _
      by_cases hrp : r = p
      · rw [hrp, State.set_proc_self]
      · rw [State.set_proc_of_ne s hrp]
  case resume =>
    intro p hp hlock
    refine h.of_asleep (fun q c hq => hset (by simp) hq) (fun _ _ _ hw => .inl hw) ?_
    intro q c r _ hr
    cases hlock.symm.trans hr
  case acquire =>
    intro p n _ hp hact hlock
    refine h.of_asleep (fun q c hq => hset (by simp [hp]) hq) (fun _ _ _ hw => .inl hw) ?_
    intro q c r _ hr
    cases hlock.symm.trans hr
  case release =>
    rintro p n rfl hp hact
    have hsound := O.sound_action hvalid hp
    rw [hact] at hsound
    have hlock := hvalid.lock_of_holds hp hsound.1
    refine h.of_asleep (fun q c hq => hset (by simp [hp]) hq) (fun _ _ _ hw => .inl hw) ?_
    intro q c r hq hr howes
    obtain rfl := Option.some.inj (hlock.symm.trans hr)
    exact .inl (S.release s p n q c hvalid hok hp hact hq howes)
  case compute =>
    rintro p d n rfl hp hact
    have hsound := O.sound_action hvalid hp
    have hfair := S.fair_action hvalid hp
    rw [hact] at hsound hfair
    by_cases hholds : O.holds (s.proc p).locals = true
    · have hlock := hvalid.lock_of_holds hp hholds
      have hnext : ∀ c, S.waits c s.data ∨ S.owes c (s.proc p).locals →
          S.waits c d ∨ ∃ r, s.lock = some r ∧ S.owes c ((s.goto p n).proc r).locals := by
        intro c hc
        refine (hfair c hc).imp_right ?_
        intro howes
        refine ⟨p, hlock, ?_⟩
        rwa [State.goto_locals_self]
      refine h.of_asleep (fun q c hq => hset (by simp [hp]) hq) (fun _ c _ hw => hnext c (.inl hw)) ?_
      intro q c r _ hr howes
      obtain rfl := Option.some.inj (hlock.symm.trans hr)
      exact hnext c (.inr howes)
    · refine h.of_asleep (fun q c hq => hset (by simp [hp]) hq) ?_ ?_
      · intro q c _ hwaits
        refine .inl ((hfair c (.inl hwaits)).resolve_right ?_)
        intro howes
        exact hholds (hsound.1.symm.trans (S.holds c n howes))
      · intro q c r _ hr howes
        refine .inr ⟨r, hr, ?_⟩
        rwa [State.goto_locals_of_ne s]
        rintro rfl
        exact hholds ((hvalid.lock r).mp hr).2
  case wakeup =>
    rintro p c n rfl hp hact htable q c' hq
    have hfair := S.fair_action hvalid hp
    rw [hact] at hfair
    have hq' : (s.wake c).Asleep q c' := by simpa [State.Asleep] using hq
    obtain ⟨hq, hdoze⟩ := hq'.of_wake
    have hne : c' ≠ c := fun hc => hvalid.not_dozing htable q c (hdoze hc)
    rcases h q c' hq with hwaits | ⟨r, hr, howes⟩
    · exact .inl hwaits
    · by_cases hrp : r = p
      · subst hrp
        refine (hfair c' hne howes).imp_right ?_
        intro howes
        refine ⟨r, hr, ?_⟩
        rwa [State.goto_locals_self]
      · refine .inr ⟨r, hr, ?_⟩
        rwa [State.goto_locals_of_ne _ hrp, State.wake_locals]
  case sleep =>
    rintro p c n rfl hp hact htable q c' hq
    have hsound := O.sound_action hvalid hp
    have hfair := S.fair_action hvalid hp
    rw [hact] at hsound hfair
    have hlock := hvalid.lock_of_holds hp hsound.1
    obtain ⟨hwaits, howed⟩ := hfair
    refine .inl ?_
    by_cases hqp : q = p
    · subst hqp
      simp only [State.Asleep, State.set_proc_self] at hq
      obtain rfl : c = c' := by simpa using hq
      exact hwaits
    · simp only [State.Asleep, State.set_proc_of_ne s hqp] at hq
      rcases h q c' hq with hw | ⟨r, hr, howes⟩
      · exact hw
      · obtain rfl := Option.some.inj (hlock.symm.trans hr)
        exact howed c' howes

/-- With the lock free, nobody sleeps on a channel whose wait is over. -/
theorem waits_of_asleep (S : Signals O ok) (hs : Transition.Reach prog.system ok s) (hlock : s.lock = none) {q : P}
    {c : C} (hq : s.Asleep q c) : S.waits c s.data := by
  have hboth : O.Valid s ∧ S.Safe s := by
    refine hs.invariant (fun s => O.Valid s ∧ S.Safe s) ?_ ?_
    · intro s hinit
      refine ⟨.init hinit, ?_⟩
      intro q c hq
      simp [State.Asleep, (hinit.2.2.2 q).1] at hq
    · rintro s e s' ⟨hvalid, hsafe⟩ hok hstep
      exact ⟨hvalid.step hstep, hsafe.step hvalid hok hstep⟩
  rcases hboth.2 q c hq with hwaits | ⟨r, hr, -⟩
  · exact hwaits
  · cases hlock.symm.trans hr

end Signals

end Monitor
