import Xv6Bfs.Sleeplock

/-!
# Sleep-locks exclude each other

At most one process is between `acquiresleep` and `releasesleep`; the fields of the lock name it,
and nobody sleeps on a lock that is free.
-/

namespace Xv6Bfs

open Monitor Transition

namespace Sleeplock

def Assert (p : Pid) (_waiting : Bool) (pc : SleeplockPc) (lk : Sleeplock) : Prop :=
  (pc.mine = true ↔ lk.locked = true ∧ lk.pid = p) ∧ ∀ mine r, pc = .holdingDone mine r → r = mine

lemma Assert.of_iff {q : Pid} {w : Bool} {pc : SleeplockPc} {lk lk' : Sleeplock} (h : Assert q w pc lk)
    (hlk : lk.locked = true ∧ lk.pid = q ↔ lk'.locked = true ∧ lk'.pid = q) : Assert q w pc lk' :=
  ⟨h.1.trans hlk, h.2⟩

lemma sound (p : Pid) (pc : SleeplockPc) (lk : Sleeplock) (killed : Bool) (h : Assert p false pc lk) :
    (code p pc lk killed).Sound SleeplockPc.holds (fun _ => True) Assert p pc lk := by
  obtain ⟨hmine, hdone⟩ := h
  cases pc with
  | idle mine => trivial
  | acquiresleep => exact ⟨rfl, rfl, fun _ => ⟨hmine, nofun⟩⟩
  | acquireTest =>
    by_cases hfree : lk.locked = true
    · rw [code, if_pos hfree]
      exact ⟨rfl, rfl, trivial, hmine, nofun⟩
    · rw [code, if_neg hfree]
      refine ⟨rfl, nofun, ⟨by simp [SleeplockPc.mine], nofun⟩, ?_⟩
      intro q w m hq _ hassert
      exact hassert.of_iff (by simp [hfree, hq.symm])
  | acquired => exact ⟨rfl, rfl, trivial, hmine, nofun⟩
  | releasesleep => exact ⟨rfl, rfl, fun _ => ⟨hmine, nofun⟩⟩
  | releaseClear =>
    refine ⟨rfl, nofun, ⟨by simp [SleeplockPc.mine], nofun⟩, ?_⟩
    intro q w m hq _ hassert
    have hp := (hmine.mp rfl).2
    exact hassert.of_iff (by simp [hp, hq.symm])
  | releaseWakeup => exact ⟨rfl, hmine, nofun⟩
  | released => exact ⟨rfl, rfl, trivial, hmine, nofun⟩
  | holdingsleep mine => exact ⟨rfl, rfl, fun _ => ⟨hmine, nofun⟩⟩
  | holdingTest mine =>
    refine ⟨rfl, nofun, ⟨hmine, ?_⟩, fun _ _ _ _ _ hassert => hassert⟩
    rintro mine' r heq
    obtain ⟨rfl, rfl⟩ := SleeplockPc.holdingDone.inj heq
    rw [Bool.eq_iff_iff, Bool.and_eq_true, beq_iff_eq]
    exact hmine.symm
  | holdingDone mine r => exact ⟨rfl, rfl, trivial, hmine, nofun⟩

def outline : Outline program where
  holds := SleeplockPc.holds
  inv _ := True
  assert := Assert
  idle := rfl
  start := by
    rintro lk rfl
    exact ⟨trivial, fun p => ⟨by simp [init, program, SleeplockPc.mine], nofun⟩⟩
  begins := by
    intro p pc entry lk hbegins h
    unfold program begins at hbegins
    dsimp only at hbegins
    split at hbegins
    · exact ⟨rfl, rfl, h.1, nofun⟩
    · exact ⟨rfl, rfl, h.1, nofun⟩
    · obtain rfl := beq_iff_eq.mp hbegins
      exact ⟨rfl, rfl, h.1, nofun⟩
    · cases hbegins
  resume := fun _ _ _ h _ => h
  sound := sound

lemma fair (p : Pid) (pc : SleeplockPc) (lk : Sleeplock) (killed : Bool) :
    (code p pc lk killed).Fair (fun _ lk => lk.locked = true) (fun _ pc => pc = .releaseWakeup) pc lk := by
  cases pc with
  | acquireTest =>
    by_cases hlocked : lk.locked = true
    · rw [code, if_pos hlocked]
      exact ⟨hlocked, fun _ _ => hlocked⟩
    · rw [code, if_neg hlocked]
      exact fun _ _ => .inl rfl
  | releaseClear => exact fun _ _ => .inr rfl
  | releaseWakeup => exact fun _ hne => absurd rfl hne
  | holdingTest mine => exact fun _ h => .inl (h.resolve_right nofun)
  | _ => trivial

def signals : Signals outline (fun _ _ => True) where
  waits _ lk := lk.locked = true
  owes _ pc := pc = .releaseWakeup
  holds := by
    rintro c pc rfl
    rfl
  fair p pc lk killed _ := fair p pc lk killed
  release := by
    intro s p n q c _ _ _ hact _ howes
    rw [Program.action, howes] at hact
    cases hact

/-- For any number of processes and any interleaving, kills included: one process at most is between
its `acquiresleep` and `releasesleep`, `locked` and `pid` name it, `holdingsleep` tells it and no
other that it holds the lock, and with `lk` free nobody sleeps on a lock that is free. -/
theorem sleeplock_excludes {s : State Pid Unit Sleeplock SleeplockPc} (hs : Reachable program.system s) :
    (∀ p q, (s.proc p).locals.mine = true → (s.proc q).locals.mine = true → p = q) ∧
    (∀ p, (s.proc p).locals.mine = true ↔ s.data.locked = true ∧ s.data.pid = p) ∧
    (∀ p mine r, (s.proc p).locals = .holdingDone mine r → (r = true ↔ (s.proc p).locals.mine = true)) ∧
    (s.lock = none → ∀ p, (s.proc p).status = .sleeping () → s.data.locked = true) := by
  have hassert := (outline.valid hs).assert
  refine ⟨?_, fun p => (hassert p).1, ?_, ?_⟩
  · intro p q hp hq
    exact ((hassert p).1.mp hp).2.symm.trans ((hassert q).1.mp hq).2
  · intro p mine r hpc
    rw [(hassert p).2 mine r hpc, hpc]
    rfl
  · intro hlock p hp
    exact signals.waits_of_asleep hs hlock (.inl hp)

def contended : List (Monitor.Event Pid SleeplockPc) :=
  [.call 1 .acquiresleep, .step 1, .step 1, .step 1, .call 2 .acquiresleep, .step 2, .step 2, .step 2, .kill 2, .step 2,
    .step 2, .step 2]

theorem sleeplock_excludes_contended : ∃ s, Reachable program.system s ∧ (s.proc 2).status = .sleeping () ∧
    s.data.locked = true ∧ ∀ p, (s.proc p).locals.mine = true → p = 1 := by
  have hrun : ∃ s ∈ run program.system contended ⟨none, none, init, fun _ => ⟨.running, false, .idle false⟩⟩,
      s.lock = none ∧ (s.proc 2).status = .sleeping () ∧ (s.proc 1).locals.mine = true := by decide +kernel
  obtain ⟨s, hs, hlock, hsleep, hmine⟩ := hrun
  have hinit : Reachable program.system ⟨none, none, init, fun _ => ⟨.running, false, .idle false⟩⟩ :=
    .init ⟨rfl, rfl, rfl, fun _ => ⟨rfl, rfl⟩⟩
  have hreach := hinit.run hs
  obtain ⟨hone, -, -, hfree⟩ := sleeplock_excludes hreach
  exact ⟨s, hreach, hsleep, hfree hlock 2 hsleep, fun p hp => hone p 1 hp hmine⟩

end Sleeplock

end Xv6Bfs
