import Xv6Bfs.Pipe

/-!
# Pipes are channels of bytes

What readers have got and what is in the buffer is what writers have stored, however the calls are
interleaved and however often the counters wrap. A reader that sleeps has nothing to read, except
that a writer that leaves early does not wake the readers.
-/

namespace Xv6Bfs

open Monitor Transition

namespace PipePc

def holds : PipePc → Bool
  | idle | pipewrite _ _ | piperead _ | pipeclose _ => false
  | _ => true

def Resumes : PipePc → Prop
  | writeFull _ _ _ | readEmpty _ => True
  | _ => False

def Found (x : Pipe) : PipePc → Prop
  | writeWakeup _ _ _ | writeSleep _ _ _ => x.full = true ∧ x.readopen = true
  | readCopy _ i => i = 0 → x.empty = true → x.writeopen = false
  | readEnd n i | readReturn n i => i = 0 → 0 < n → x.empty = true ∧ x.writeopen = false
  | _ => True

/-- A process that makes the reason of a sleep go away has yet to wake the sleepers. -/
def Owes : PipePc → PipeChan → Prop
  | writeLoop _ _ _, .nread | writeFull _ _ _, .nread | writeWakeup _ _ _, .nread | writeFail, .nread
  | writeEnd _, .nread | closeWakeup true, .nread => True
  | readCopy _ _, .nwrite | readEnd _ _, .nwrite | closeWakeup false, .nwrite => True
  | _, _ => False

def fails : PipePc → Bool
  | writeFail => true
  | _ => false

end PipePc

def Pipe.Waits (x : Pipe) : PipeChan → Prop
  | .nread => x.nread = x.nwrite ∧ x.writeopen = true
  | .nwrite => x.nwrite = x.nread + BitVec.ofNat 32 PIPESIZE ∧ x.readopen = true

namespace PipeRun

lemma pipesize_dvd : PIPESIZE ∣ 2 ^ 31 := by decide

/-- The bytes read, then those in the ring, are the bytes written. -/
structure Inv (x : PipeRun) : Prop where
  stored : x.delivered ++ x.pipe.contents = x.stored
  bound : (x.pipe.nwrite - x.pipe.nread).toNat ≤ PIPESIZE

variable {P : Type*} {x : PipeRun}

lemma Inv.store (h : x.Inv) (hfull : x.pipe.full = false) (b : BitVec 8) : (x.store b).Inv := by
  have hlt : (x.pipe.nwrite - x.pipe.nread).toNat < PIPESIZE := by
    refine lt_of_le_of_ne h.bound ?_
    intro heq
    have hspan := Ring.add_span x.pipe.nread x.pipe.nwrite
    rw [heq] at hspan
    simp [Pipe.full, hspan] at hfull
  constructor
  · change x.delivered ++ Ring.contents (Function.update x.pipe.data _ b) x.pipe.nread (x.pipe.nwrite + 1) = x.stored ++ [b]
    rw [Ring.contents_push pipesize_dvd _ hlt, ← List.append_assoc]
    exact congrArg (· ++ [b]) h.stored
  · change (x.pipe.nwrite + 1 - x.pipe.nread).toNat ≤ PIPESIZE
    rw [Ring.span_succ (hlt.trans (by decide))]
    exact hlt

lemma Inv.take (h : x.Inv) (hempty : x.pipe.empty = false) : x.take.Inv := by
  have hne : x.pipe.nread ≠ x.pipe.nwrite := by simpa [Pipe.empty] using hempty
  constructor
  · change (x.delivered ++ [_]) ++ Ring.contents x.pipe.data (x.pipe.nread + 1) x.pipe.nwrite = x.stored
    rw [← h.stored, Pipe.contents, Ring.contents_pop _ hne, List.append_assoc, List.singleton_append]
  · have hbound := h.bound
    rw [Ring.span_pred hne] at hbound
    change (x.pipe.nwrite - (x.pipe.nread + 1)).toNat ≤ PIPESIZE
    omega

lemma Inv.close (h : x.Inv) (writable : Bool) : (x.close writable).Inv := by
  cases writable <;> exact ⟨h.stored, h.bound⟩

lemma sound (pc : PipePc) (x : PipeRun) (killed : Bool) (h : pc.holds = true → x.Inv ∧ pc.Found x.pipe) :
    (code pc x killed).HolderSound PipePc.holds Inv (fun pc x => pc.Found x.pipe) PipePc.Resumes pc x := by
  cases pc with
  | idle => trivial
  | pipewrite addr n => exact ⟨rfl, rfl, fun _ => trivial⟩
  | writeLoop addr n i =>
    by_cases hi : (i : ℤ) < n
    · rw [code, if_pos hi]
      exact ⟨rfl, rfl, (h rfl).1, trivial⟩
    · rw [code, if_neg hi]
      exact ⟨rfl, rfl, (h rfl).1, trivial⟩
  | writeFull addr n i =>
    by_cases hfull : x.pipe.full = true
    · by_cases hleave : (!x.pipe.readopen || killed) = true
      · rw [code, if_pos hfull, if_pos hleave]
        exact ⟨rfl, rfl, (h rfl).1, trivial⟩
      · rw [code, if_pos hfull, if_neg hleave]
        simp at hleave
        exact ⟨rfl, rfl, (h rfl).1, hfull, hleave.1⟩
    · rw [code, if_neg hfull]
      exact ⟨rfl, rfl, (h rfl).1.store (by simpa using hfull) _, trivial⟩
  | writeWakeup addr n i => exact ⟨rfl, rfl, (h rfl).2⟩
  | writeSleep addr n i => exact ⟨rfl, rfl, trivial⟩
  | writeFail => exact ⟨rfl, rfl⟩
  | writeEnd n => exact ⟨rfl, rfl, trivial⟩
  | writeReturn n => exact ⟨rfl, rfl⟩
  | piperead n => exact ⟨rfl, rfl, fun _ => trivial⟩
  | readEmpty n =>
    by_cases hwait : (x.pipe.empty && x.pipe.writeopen) = true
    · cases killed with
      | true =>
        rw [code, if_pos hwait, if_pos rfl]
        exact ⟨rfl, rfl, (h rfl).1, trivial⟩
      | false =>
        rw [code, if_pos hwait, if_neg Bool.false_ne_true]
        exact ⟨rfl, rfl, trivial⟩
    · rw [code, if_neg hwait]
      refine ⟨rfl, rfl, (h rfl).1, ?_⟩
      intro _ hempty
      simpa [hempty] using hwait
  | readFail => exact ⟨rfl, rfl⟩
  | readCopy n i =>
    by_cases hcopy : (i : ℤ) < n ∧ x.pipe.empty = false
    · rw [code, if_pos hcopy]
      exact ⟨rfl, rfl, (h rfl).1.take hcopy.2, nofun⟩
    · rw [code, if_neg hcopy]
      refine ⟨rfl, rfl, (h rfl).1, ?_⟩
      rintro rfl hn
      have hempty : x.pipe.empty = true := by simpa [hn] using hcopy
      exact ⟨hempty, (h rfl).2 rfl hempty⟩
  | readEnd n i => exact ⟨rfl, rfl, (h rfl).2⟩
  | readReturn n i => exact ⟨rfl, rfl⟩
  | pipeclose writable => exact ⟨rfl, rfl, fun _ => trivial⟩
  | closeEnd writable => exact ⟨rfl, rfl, (h rfl).1.close writable, trivial⟩
  | closeWakeup writable => exact ⟨rfl, rfl, trivial⟩
  | closeReturn => exact ⟨rfl, rfl⟩

def outline (P : Type*) : HolderOutline (program P) where
  holds := PipePc.holds
  inv := Inv
  knows pc x := pc.Found x.pipe
  resumes := PipePc.Resumes
  idle := rfl
  start := by
    rintro x ⟨hread, hwrite, -, -, hstored, hdelivered⟩
    constructor
    · rw [hstored, hdelivered, Pipe.contents, hread, hwrite, Ring.contents_self]
      rfl
    · rw [hread, hwrite]
      exact Nat.zero_le _
  begins := by
    intro p pc entry x hbegins
    unfold program begins at hbegins
    dsimp only at hbegins
    split at hbegins
    · exact ⟨rfl, rfl⟩
    · exact ⟨rfl, rfl⟩
    · exact ⟨rfl, rfl⟩
    · cases hbegins
  resume := by
    intro pc x h _
    cases pc with
    | writeFull addr n i => trivial
    | readEmpty n => trivial
    | _ => exact h.elim
  sound _ := sound

/-- Pipes are channels: whatever the calls, their interleaving and the number of bytes, the bytes
delivered are a prefix of those stored, the rest is in the buffer, which holds at most `PIPESIZE`, and
`piperead` returns 0 for `n > 0` only at the end of the data. -/
theorem pipe_fifo {P : Type*} [DecidableEq P] {s : State P PipeChan PipeRun PipePc}
    (hs : Reachable (program P).system s) :
    s.data.delivered ++ s.data.pipe.contents = s.data.stored ∧
    (s.data.pipe.nwrite - s.data.pipe.nread).toNat ≤ PIPESIZE ∧
    ∀ p n, (s.proc p).status = .running → (s.proc p).locals = .readReturn n 0 → 0 < n →
      s.data.pipe.writeopen = false ∧ s.data.delivered = s.data.stored := by
  have hvalid := (outline P).outline.valid hs
  have hinv := (outline P).inv_of_valid hvalid
  refine ⟨hinv.stored, hinv.bound, ?_⟩
  intro p n hp hpc hn
  have hfound := (outline P).knows_of_valid hvalid hp (by rw [hpc]; rfl)
  rw [hpc] at hfound
  obtain ⟨hempty, hclosed⟩ := hfound rfl hn
  refine ⟨hclosed, ?_⟩
  have hcounters : s.data.pipe.nread = s.data.pipe.nwrite := by simpa [Pipe.empty] using hempty
  rw [← hinv.stored, Pipe.contents, hcounters, Ring.contents_self, List.append_nil]

def created : State Bool PipeChan PipeRun PipePc :=
  ⟨none, none, ⟨⟨fun _ => 0, 0, 0, true, true⟩, [], []⟩, fun _ => ⟨.running, false, .idle⟩⟩

lemma created_init : (program Bool).system.init created :=
  ⟨rfl, rfl, ⟨rfl, rfl, rfl, rfl, rfl, rfl⟩, fun _ => ⟨rfl, rfl⟩⟩

def readToEnd : List (Monitor.Event Bool PipePc) :=
  [.call true (.pipewrite (fun i => BitVec.ofNat 8 i) 2)] ++ List.replicate 8 (.step true) ++
    [.call true (.pipeclose true)] ++ List.replicate 4 (.step true) ++ [.call false (.piperead 5)] ++
    List.replicate 7 (.step false) ++ [.call false (.piperead 5)] ++ List.replicate 4 (.step false)


theorem pipe_fifo_readToEnd : ∃ s, Reachable (program Bool).system s ∧ s.data.pipe.writeopen = false ∧
    s.data.delivered = [0, 1] ∧ s.data.stored = [0, 1] := by
  have hrun : ∃ s ∈ run (program Bool).system readToEnd created, (s.proc false).status = .running ∧
      s.data.delivered = [0, 1] ∧ (match (s.proc false).locals with
        | .readReturn n i => n == 5 && i == 0
        | _ => false) = true := by decide +kernel
  obtain ⟨s, hs, hp, hdelivered, hpc⟩ := hrun
  have hreach : Reachable (program Bool).system s := Reachable.run (.init created_init) hs
  split at hpc
  · rename_i n i heq
    obtain ⟨rfl, rfl⟩ : n = 5 ∧ i = 0 := by simpa using hpc
    obtain ⟨hopen, hend⟩ := (pipe_fifo hreach).2.2 false 5 hp heq (by decide)
    exact ⟨s, hreach, hopen, hdelivered, hend ▸ hdelivered⟩
  · cases hpc

/-! ### Wakeups -/

lemma waits_nread : x.pipe.Waits .nread ↔ (x.pipe.empty && x.pipe.writeopen) = true := by
  simp [Pipe.Waits, Pipe.empty]

lemma waits_nwrite : x.pipe.Waits .nwrite ↔ (x.pipe.full && x.pipe.readopen) = true := by
  simp [Pipe.Waits, Pipe.full]

lemma fair (pc : PipePc) (x : PipeRun) (killed : Bool) (h : pc.holds = true → x.Inv ∧ pc.Found x.pipe) :
    (code pc x killed).Fair (fun c x => x.pipe.Waits c) (fun c pc => pc.Owes c) pc x := by
  cases pc with
  | writeLoop addr n i =>
    rintro (_ | _) hc
    · right
      split <;> trivial
    · exact .inl (hc.resolve_right id)
  | writeFull addr n i =>
    by_cases hfull : x.pipe.full = true
    · rw [code, if_pos hfull]
      rintro (_ | _) hc
      · right
        split <;> trivial
      · exact .inl (hc.resolve_right id)
    · rw [code, if_neg hfull]
      rintro (_ | _) hc
      · exact .inr trivial
      · -- nobody waits for room, as there is some
        have hwaits := waits_nwrite.mp (hc.resolve_right id)
        simp [hfull] at hwaits
  | writeWakeup addr n i =>
    rintro (_ | _) hne howes
    · exact absurd rfl hne
    · exact howes.elim
  | writeSleep addr n i =>
    obtain ⟨hfull, hopen⟩ := (h rfl).2
    refine ⟨waits_nwrite.mpr (by rw [hfull, hopen]; rfl), ?_⟩
    rintro (_ | _) howes <;> exact howes.elim
  | writeEnd n =>
    rintro (_ | _) hne howes
    · exact absurd rfl hne
    · exact howes.elim
  | readEmpty n =>
    by_cases hwait : (x.pipe.empty && x.pipe.writeopen) = true
    · cases killed with
      | true =>
        rw [code, if_pos hwait, if_pos rfl]
        rintro (_ | _) hc <;> exact .inl (hc.resolve_right id)
      | false =>
        rw [code, if_pos hwait, if_neg Bool.false_ne_true]
        refine ⟨waits_nread.mpr hwait, ?_⟩
        rintro (_ | _) howes <;> exact howes.elim
    · rw [code, if_neg hwait]
      rintro (_ | _) hc <;> exact .inl (hc.resolve_right id)
  | readCopy n i =>
    by_cases hcopy : (i : ℤ) < n ∧ x.pipe.empty = false
    · rw [code, if_pos hcopy]
      rintro (_ | _) hc
      · -- nobody waits for bytes, as there are some
        have hwaits := waits_nread.mp (hc.resolve_right id)
        simp [hcopy.2] at hwaits
      · exact .inr trivial
    · rw [code, if_neg hcopy]
      rintro (_ | _) hc
      · exact .inl (hc.resolve_right id)
      · exact .inr trivial
  | readEnd n i =>
    rintro (_ | _) hne howes
    · exact howes.elim
    · exact absurd rfl hne
  | closeEnd writable =>
    cases writable <;> rintro (_ | _) hc
    · exact .inl (hc.resolve_right id)
    · exact .inr trivial
    · exact .inr trivial
    · exact .inl (hc.resolve_right id)
  | closeWakeup writable =>
    cases writable <;> rintro (_ | _) hne howes
    · exact howes.elim
    · exact absurd rfl hne
    · exact absurd rfl hne
    · exact howes.elim
  | _ => trivial

/-- A writer returns early while a reader sleeps. -/
def LeavesReaders (s : State P PipeChan PipeRun PipePc) : Monitor.Event P PipePc → Prop
  | .step p => (s.proc p).locals.fails = true ∧ ∃ q, s.Asleep q .nread
  | _ => False

/-- A process that gives up the lock owes no wakeup, unless its write fails. -/
lemma not_owes_of_release {pc n : PipePc} {killed : Bool} (hact : code pc x killed = .release n)
    (hfails : pc.fails = false) (c : PipeChan) : ¬ pc.Owes c := by
  cases pc with
  | writeFull addr n i =>
    rw [code] at hact
    split at hact <;> cases hact
  | readEmpty n => cases c <;> exact id
  | readCopy n i =>
    rw [code] at hact
    split at hact <;> cases hact
  | writeFail => cases hfails
  | writeReturn n => cases c <;> exact id
  | readFail => cases c <;> exact id
  | readReturn n i => cases c <;> exact id
  | closeReturn => cases c <;> exact id
  | _ => cases hact

def signals (P : Type*) [DecidableEq P] : Signals (outline P).outline (fun s e => ¬ LeavesReaders s e) where
  waits c x := x.pipe.Waits c
  owes c pc := pc.Owes c
  holds := by
    intro c pc howes
    cases pc <;> cases c <;> first | rfl | exact howes.elim
  fair _ := fair
  release := by
    intro s p n q c _ hok _ hact hq howes
    cases hfails : (s.proc p).locals.fails with
    | false => exact absurd howes (not_owes_of_release hact hfails c)
    | true =>
      cases hpc : (s.proc p).locals with
      | writeFail =>
        rw [hpc] at howes
        cases c with
        | nread => exact absurd ⟨hfails, q, hq⟩ hok
        | nwrite => exact howes.elim
      | _ =>
        rw [hpc] at hfails
        cases hfails

/-- If no writer returns early while a reader sleeps, a process that sleeps has a reason to do so
whenever the lock of the pipe is free. -/
theorem pipe_wakeups {P : Type*} [DecidableEq P] {s : State P PipeChan PipeRun PipePc}
    (hs : Reach (program P).system (fun s e => ¬ LeavesReaders s e) s) (hlock : s.lock = none) (p : P) :
    ((s.proc p).status = .sleeping .nread → s.data.pipe.nread = s.data.pipe.nwrite ∧ s.data.pipe.writeopen = true) ∧
    ((s.proc p).status = .sleeping .nwrite →
      s.data.pipe.nwrite = s.data.pipe.nread + BitVec.ofNat 32 PIPESIZE ∧ s.data.pipe.readopen = true) :=
  ⟨fun hp => (signals P).waits_of_asleep hs hlock (.inl hp), fun hp => (signals P).waits_of_asleep hs hlock (.inl hp)⟩

instance [Fintype P] (s : State P PipeChan PipeRun PipePc) (e : Monitor.Event P PipePc) :
    Decidable (LeavesReaders s e) :=
  match e with
  | .step p => inferInstanceAs (Decidable ((s.proc p).locals.fails = true ∧
      ∃ q, (s.proc q).status = .sleeping .nread ∨ (s.proc q).status = .dozing .nread))
  | .call _ _ | .kill _ => isFalse id

def fillPipe : List (Monitor.Event Bool PipePc) :=
  [.call true (.pipewrite (fun _ => 7) 600)] ++ List.replicate 1030 (.step true)

set_option maxRecDepth 4000 in
theorem pipe_wakeups_fillPipe : ∃ s, Reach (program Bool).system (fun s e => ¬ LeavesReaders s e) s ∧
    (s.proc true).status = .sleeping .nwrite ∧ s.data.pipe.nwrite = s.data.pipe.nread + BitVec.ofNat 32 PIPESIZE := by
  have hrun : ∃ s ∈ run ((program Bool).system.restrict (fun s e => ¬ LeavesReaders s e)) fillPipe created,
      s.lock = none ∧ (s.proc true).status = .sleeping .nwrite := by decide +kernel
  obtain ⟨s, hs, hlock, hsleep⟩ := hrun
  have hreach : Reach (program Bool).system (fun s e => ¬ LeavesReaders s e) s := by
    refine reach_of_restrict (Reachable.run (.init ?_) hs)
    exact created_init
  exact ⟨s, hreach, hsleep, ((pipe_wakeups hreach hlock true).2 hsleep).1⟩

def lostWakeup : List (Monitor.Event Bool PipePc) :=
  [.call false (.piperead 1), .step false, .step false, .step false, .call true (.pipewrite (fun _ => 7) 513)] ++
    List.replicate 1026 (.step true) ++ [.kill true, .step true, .step true]

set_option maxRecDepth 4000 in
theorem pipe_wakeup_lost : ∃ s, Reachable (program Bool).system s ∧ s.lock = none ∧
    (s.proc false).status = .sleeping .nread ∧ s.data.pipe.nread ≠ s.data.pipe.nwrite ∧
    s.data.pipe.writeopen = true := by
  have hrun : ∃ s ∈ run (program Bool).system lostWakeup created, s.lock = none ∧
      (s.proc false).status = .sleeping .nread ∧ s.data.pipe.nread ≠ s.data.pipe.nwrite ∧
      s.data.pipe.writeopen = true := by decide +kernel
  obtain ⟨s, hs, hstate⟩ := hrun
  exact ⟨s, Reachable.run (.init created_init) hs, hstate⟩

end PipeRun

end Xv6Bfs
