import Xv6Bfs.Proofs.IputSteps

/-!
# Freeing and allocating inodes at the same time

An `iput` that frees an inode does not reach the one that is allocated under its number.
-/

namespace Xv6Bfs

open Function Option Transition

namespace InodeRun

variable {sb : FsSuperblock} {s s' : InodeRun} {p : Pid} {ip : Fin NINODE}

/-! ### Which entries a step renames -/

lemma inum_setInode (fs : Fs) {x : Inode} (hx : x.inum = (fs.icache ip).inum) (jp : Fin NINODE) :
    ((fs.setInode ip x).icache jp).inum = (fs.icache jp).inum := by
  by_cases hjp : jp = ip
  · subst hjp
    simp only [Fs.setInode, update_self, hx]
  · simp only [Fs.setInode, update_of_ne hjp]

lemma inum_setDinode (fs : Fs) (d : Dinode) (c : Content) (jp : Fin NINODE) :
    ((fs.setDinode ip d c).icache jp).inum = (fs.icache jp).inum := by
  by_cases hjp : jp = ip
  · subst hjp
    simp only [Fs.setDinode, update_self]
  · simp only [Fs.setDinode, update_of_ne hjp]

lemma inum_of_inside {l : InodeLabel} (hstep : s.inside sb p ip l = some s') (jp : Fin NINODE) :
    (s'.fs.icache jp).inum = (s.fs.icache jp).inum := by
  cases l with
  | ilockSleep | iputSleep =>
    obtain ⟨-, hs'⟩ := ite_none_right_eq_some.mp hstep
    cases hs'
    exact inum_setInode s.fs (by rfl) jp
  | ilockValid =>
    obtain ⟨-, hs'⟩ := ite_none_left_eq_some.mp hstep
    cases hs'
    exact inum_setInode s.fs (by rfl) jp
  | ilockTest | iputTest | iputRef | iputUpdate =>
    cases hstep
    rfl
  | ilockReturn =>
    cases hstep
    change ((s.settle p (s.fs.icache ip).inum).fs.icache jp).inum = _
    rw [settle_fs]
  | iputTrunc =>
    rw [inside] at hstep
    split at hstep
    · cases hstep
      exact inum_setDinode s.fs _ _ jp
    · cases hstep
  | ilockRead | iputType | iputInvalid | iputUnlock | iputDrop =>
    cases hstep
    exact inum_setInode s.fs (by rfl) jp

lemma inum_of_get {i : ℕ} {b : Bool} (hget : s.get p i b = some s') (jp : Fin NINODE) :
    (s'.fs.icache jp).inum = (s.fs.icache jp).inum ∨ (s.fs.icache jp).ref = 0 := by
  unfold InodeRun.get at hget
  split at hget
  · rename_i ip fs hret
    obtain ⟨x, hx, rfl⟩ := gets_of_iget hret
    cases hget
    by_cases hjp : jp = ip
    · subst hjp
      obtain ⟨-, -, rfl⟩ | ⟨hzero, -, -⟩ := hx
      · exact .inl (inum_setInode s.fs (by rfl) jp)
      · exact .inr hzero
    · left
      simp only [Fs.setInode, update_of_ne hjp]
  · cases hget

lemma inum_of_step {devsw : Devsw} {e : InodeEvent} (hstep : step sb devsw e s = some s') (jp : Fin NINODE) :
    (s'.fs.icache jp).inum = (s.fs.icache jp).inum ∨ (s.fs.icache jp).ref = 0 := by
  cases e with
  | step p =>
    rw [step] at hstep
    split at hstep
    · cases hstep
    · obtain ⟨-, hround⟩ := ite_none_right_eq_some.mp hstep
      split at hround <;> cases hround <;> exact .inl rfl
    · obtain ⟨t, ht, rfl⟩ := map_eq_some_iff.mp hstep
      exact inum_of_get ht jp
    · exact .inl (inum_of_inside hstep jp)
  | call p c =>
    obtain ⟨-, hcall⟩ := ite_none_right_eq_some.mp hstep
    cases c with
    | iget i =>
      obtain ⟨-, hget⟩ := ite_none_right_eq_some.mp hcall
      exact inum_of_get hget jp
    | ialloc | ilock =>
      obtain ⟨-, hs'⟩ := ite_none_right_eq_some.mp hcall
      cases hs'
      exact .inl rfl
    | idup ip b =>
      obtain ⟨-, hs'⟩ := ite_none_right_eq_some.mp hcall
      cases hs'
      exact .inl (inum_setInode s.fs (by rfl) jp)
    | iunlock ip =>
      rw [call] at hcall
      split at hcall
      · rename_i fs hret
        cases hcall
        unfold Fs.iunlock at hret
        dsimp only at hret
        split at hret <;> cases hret
        exact .inl (inum_setInode s.fs (by rfl) jp)
      · cases hcall
    | iput ip =>
      obtain ⟨-, hs'⟩ := ite_none_right_eq_some.mp hcall
      cases hs'
      left
      change ((s.settle p (s.fs.icache ip).inum).fs.icache jp).inum = _
      rw [settle_fs]
    | writei ip src off n =>
      obtain ⟨-, hs'⟩ := ite_none_right_eq_some.mp hcall
      split at hs'
      · rename_i r fs hret
        cases hs'
        unfold Fs.writei at hret
        dsimp only at hret
        cases hw : writei sb devsw (s.fs.icache ip).inum (s.fs.icache ip).toDinode src off n s.fs.content with
        | error e =>
          rw [hw] at hret
          cases hret
        | ok r =>
          rw [hw] at hret
          cases hret
          exact .inl (inum_setDinode s.fs _ _ jp)
      · cases hs'
    | update ip major minor nlink =>
      obtain ⟨-, hs'⟩ := ite_none_right_eq_some.mp hcall
      cases hs'
      exact .inl (inum_setDinode s.fs _ _ jp)

/-! ### What `iput` writes -/

lemma Inv.iput_writes (h : Inv sb s) {l : InodeLabel} (hpc : s.pc p = .inside ip l) (hl : l.sole = true)
    (hstep : s.inside sb p ip l = some s') :
    (∀ r ∈ s.refs, r.ip = ip → r.named = true → r.pid = p) ∧ s.born (s.fs.icache ip).inum = none ∧
      (s.fs.content.dinode sb (s.fs.icache ip).inum).type ≠ 0 ∧
      (∀ j < sb.ninodes, j ≠ (s.fs.icache ip).inum → s'.fs.content.dinode sb j = s.fs.content.dinode sb j) ∧
      ∀ b, sb.IsData b → s'.fs.content b = s.fs.content b := by
  obtain ⟨b, hb, -⟩ := h.holds p ip l hpc
  have hpos := h.ref_pos hb
  have hsole := h.sole p ip l hpc hl
  have htype := ((h.inside_locked hpc (InodeLabel.critical_of_sole hl)).2.of_sole hl).1
  rw [← h.disk_eq hpos] at htype
  refine ⟨?_, hsole.2.2, htype, ?_⟩
  · intro r hr hip hnamed
    rw [hsole.1 r hr hip hnamed]
  · have himage : (∀ j, j ≠ (s.fs.icache ip).inum → (s'.fs.content.image sb).inode j = (s.fs.content.image sb).inode j) ∧
        (s'.fs.content.image sb).data = (s.fs.content.image sb).data := by
      cases l with
      | iputTrunc =>
        obtain ⟨-, c, rfl, himage⟩ := h.iputTrunc_step hpc hstep
        change (∀ j, _ → (c.image sb).inode j = _) ∧ (c.image sb).data = _
        rw [himage]
        exact ⟨fun j hj => update_of_ne hj .., rfl⟩
      | iputType =>
        cases hstep
        exact ⟨fun _ _ => rfl, rfl⟩
      | iputUpdate =>
        obtain ⟨-, rfl⟩ := h.iputUpdate_step hpc hstep
        have himage := Content.image_iupdate (c := s.fs.content) (h.range ip hpos) (s.fs.icache ip).toDinode
        change (∀ j, _ → ((iupdate sb _ _ s.fs.content).image sb).inode j = _) ∧
          ((iupdate sb _ _ s.fs.content).image sb).data = _
        rw [himage]
        exact ⟨fun j hj => update_of_ne hj .., rfl⟩
      | _ => cases hl
    refine ⟨?_, ?_⟩
    · intro j hj hne
      rw [← Content.image_inode hj, ← Content.image_inode hj]
      exact himage.1 j hne
    · intro b hdata
      have hdisk := congrFun himage.2 b
      rwa [Content.image_data hdata, Content.image_data hdata] at hdisk

lemma iput_reads {l : InodeLabel} (hl : l.puts = true) (hsole : l.sole = false)
    (hstep : s.inside sb p ip l = some s') :
    s'.fs.content = s.fs.content ∧ (s'.fs.icache ip).toDinode = (s.fs.icache ip).toDinode := by
  cases l with
  | iputSleep =>
    obtain ⟨-, hs'⟩ := ite_none_right_eq_some.mp hstep
    cases hs'
    simp [goto, setInode, Fs.setInode]
  | iputTest | iputRef =>
    cases hstep
    exact ⟨rfl, rfl⟩
  | iputInvalid | iputUnlock | iputDrop =>
    cases hstep
    simp [goto, setInode, Fs.setInode]
  | iputTrunc | iputType | iputUpdate => cases hsole
  | _ => cases hl

end InodeRun

open InodeRun

def inodeSystem (sb : FsSuperblock) (devsw : Devsw) : System InodeRun InodeEvent where
  init s := (s.fs.content.image sb).WellFormed sb ∧
    (∀ ip, (s.fs.icache ip).ref = 0 ∧ (s.fs.icache ip).lock = none) ∧ (∀ p, s.pc p = .idle) ∧ s.refs = 0 ∧
    ∀ i, s.born i = none
  step := InodeRun.step sb devsw

variable {sb : FsSuperblock} {devsw : Devsw} {s : InodeRun}

lemma inodeInv_of_reach (hs : Reach (inodeSystem sb devsw) Named s) : Inv sb s := by
  apply Reach.invariant (Inv sb) _ (fun s e s' h hnamed hstep => h.step devsw hnamed hstep) hs
  rintro s ⟨hwf, hempty, hpc, hrefs, hborn⟩
  have hzero : ∀ {ip}, ¬ 0 < (s.fs.icache ip).ref := by
    intro ip
    rw [(hempty ip).1]
    exact Nat.lt_irrefl 0
  have hidle : ∀ {p m}, s.pc p = m → m = .idle := fun hp => hp.symm.trans (hpc _)
  constructor
  · exact hwf
  · intro ip
    rw [hrefs, (hempty ip).1]
    rfl
  · exact fun ip _ hip => absurd hip hzero
  · exact fun ip hip => absurd hip hzero
  · exact fun ip hip => absurd hip hzero
  · intro ip p hlock
    rw [(hempty ip).2] at hlock
    cases hlock
  · exact fun p ip l hp => nomatch hidle hp
  · exact fun p ip l hp => nomatch hidle hp
  · exact fun p ip l hp => nomatch hidle hp
  · exact fun ip hip => absurd hip hzero
  · intro i q type h
    rw [hborn] at h
    cases h
  · exact fun p i hp => nomatch hidle hp
  · exact fun p type i hp => nomatch hidle hp

/-- `iput` and `ialloc` of one inode, if nobody puts or writes an inode that had no links when they got it: references are counted and
keep their entry, the process that allocates an inode reads what it wrote, and an `iput` that writes is of an inode without another
user, so that it reaches nothing of a new one. -/
theorem iput_ialloc_separate (hs : Reach (inodeSystem sb devsw) Named s) :
    (∀ ip, (s.fs.icache ip).ref = s.refs.countP (·.ip = ip)) ∧
    (∀ e s', InodeRun.step sb devsw e s = some s' → ∀ ip, (s'.fs.icache ip).inum ≠ (s.fs.icache ip).inum →
      ∀ r ∈ s.refs, r.ip ≠ ip) ∧
    (∀ i q type, s.born i = some (q, type) → s.fs.content.dinode sb i = fresh type) ∧
    (∀ p ip l type, s.pc p = .inside ip l → l = .ilockValid ∨ l = .ilockReturn →
      s.born (s.fs.icache ip).inum = some (p, type) →
      (s.fs.icache ip).lock = some p ∧ (s.fs.icache ip).toDinode = fresh type ∧ type ≠ 0) ∧
    ∀ p ip l s', s.pc p = .inside ip l → l.puts = true → InodeRun.step sb devsw (.step p) s = some s' →
      (s'.fs.content = s.fs.content ∧ (s'.fs.icache ip).toDinode = (s.fs.icache ip).toDinode) ∨
      ((∀ r ∈ s.refs, r.ip = ip → r.named = true → r.pid = p) ∧ s.born (s.fs.icache ip).inum = none ∧
        (s.fs.content.dinode sb (s.fs.icache ip).inum).type ≠ 0 ∧
        (∀ j < sb.ninodes, j ≠ (s.fs.icache ip).inum → s'.fs.content.dinode sb j = s.fs.content.dinode sb j) ∧
        ∀ b, sb.IsData b → s'.fs.content b = s.fs.content b) := by
  have h := inodeInv_of_reach hs
  refine ⟨h.count, ?_, ?_, ?_, ?_⟩
  · rintro e s' hstep ip hne r hr rfl
    have hpos := h.ref_pos hr
    obtain hsame | hzero := inum_of_step hstep r.ip
    · exact hne hsame
    · omega
  · intro i q type hi
    have hborn := h.born i q type hi
    rw [← hborn.disk]
    exact (Content.image_inode hborn.range).symm
  · intro p ip l type hpc hl hi
    have hborn := h.born _ _ _ hi
    obtain ⟨b, hb, -⟩ := h.holds p ip l hpc
    obtain rfl | rfl := hl
    · exact ⟨h.critical p ip _ hpc rfl, hborn.read ip (h.ref_pos hb) rfl hpc, hborn.type_ne⟩
    · obtain ⟨hlock, -, hcopy, -⟩ := h.inside_locked hpc rfl
      exact ⟨hlock, hcopy.trans hborn.disk, hborn.type_ne⟩
  · intro p ip l s' hpc hl hstep
    rw [InodeRun.step, hpc] at hstep
    cases hsole : l.sole with
    | true => exact .inr (h.iput_writes hpc hsole hstep)
    | false => exact .inl (iput_reads hl hsole hstep)

def oneInode (d : Dinode) : InodeRun where
  fs := ⟨smallImage d, fun _ => ⟨Dinode.zero, 0, 0, none, false⟩⟩
  pc := fun _ => .idle
  refs := 0
  born := fun _ => none

lemma oneInode_init (devsw : Devsw) (d : Dinode) (hsize : d.size = 0) (haddrs : ∀ k, d.addrs k = 0) :
    (inodeSystem smallSuperblock devsw).init (oneInode d) := by
  refine ⟨?_, fun _ => ⟨rfl, rfl⟩, fun _ => rfl, rfl, fun _ => rfl⟩
  exact smallImage_wellFormed d hsize haddrs

/-- Process 0 removes inode 1, process 1 allocates it while the first is between the update of the
disk and the drop of its reference. -/
theorem iput_ialloc_separate_overlapping :
    ∃ s, Reach (inodeSystem smallSuperblock ⟨fun _ => none, fun _ => none⟩) Named s ∧
      s.pc 0 = .inside 0 .iputDrop ∧ s.pc 1 = .inside 0 .ilockReturn ∧ s.born 1 = some (1, T_FILE) ∧
      (s.fs.icache 0).toDinode = fresh T_FILE := by
  have hrun : ∃ s ∈ run ((inodeSystem smallSuperblock ⟨fun _ => none, fun _ => none⟩).restrict Named)
      ([.call 0 (.iget 1), .call 0 (.ilock 0)] ++ List.replicate 5 (.step 0) ++
        [.call 0 (.update 0 0 0 0), .call 0 (.iunlock 0), .call 0 (.iput 0)] ++ List.replicate 8 (.step 0) ++
        [.call 1 (.ialloc T_FILE), .step 1, .step 1, .call 1 (.ilock 0)] ++ List.replicate 4 (.step 1))
      (oneInode ⟨T_FILE, 0, 0, 1, 0, fun _ => 0⟩), s.pc 0 = .inside 0 .iputDrop ∧ s.pc 1 = .inside 0 .ilockReturn ∧
        s.born 1 = some (1, T_FILE) ∧ (s.fs.icache 0).inum = 1 := by
    decide +kernel
  obtain ⟨s, hs, hput, hlock, hborn, hinum⟩ := hrun
  have hreach : Reach (inodeSystem smallSuperblock ⟨fun _ => none, fun _ => none⟩) Named s :=
    reach_of_restrict (Reachable.run (.init (oneInode_init ⟨fun _ => none, fun _ => none⟩ _ rfl (fun _ => rfl))) hs)
  have hnew : s.born (s.fs.icache 0).inum = some (1, T_FILE) := by
    rw [hinum, hborn]
  obtain ⟨-, -, -, hread, -⟩ := iput_ialloc_separate hreach
  exact ⟨s, hreach, hput, hlock, hborn, (hread 1 0 _ T_FILE hlock (.inr rfl) hnew).2.1⟩

/-- Process 1 allocates inode 1. Before it gets an entry, process 0 follows an entry that still names the number, such as `".."` in a
directory that has been removed; its `iput` frees the inode again, and the `ilock` of process 1 finds no type. -/
theorem iput_frees_new_inode :
    ∃ s, Reachable (inodeSystem smallSuperblock ⟨fun _ => none, fun _ => none⟩) s ∧ s.pc 1 = .inside 0 .ilockValid ∧
      s.born 1 = some (1, T_FILE) ∧ (s.fs.icache 0).inum = 1 ∧ (s.fs.icache 0).type = 0 ∧
      InodeRun.step smallSuperblock ⟨fun _ => none, fun _ => none⟩ (.step 1) s = none := by
  have hrun : ∃ s ∈ run (inodeSystem smallSuperblock ⟨fun _ => none, fun _ => none⟩)
      ([.call 1 (.ialloc T_FILE), .step 1, .call 0 (.iget 1), .call 0 (.ilock 0)] ++ List.replicate 5 (.step 0) ++
        [.call 0 (.iunlock 0), .call 0 (.iput 0)] ++ List.replicate 9 (.step 0) ++
        [.step 1, .call 1 (.ilock 0), .step 1, .step 1, .step 1])
      (oneInode Dinode.zero), s.pc 1 = .inside 0 .ilockValid ∧ s.born 1 = some (1, T_FILE) ∧ (s.fs.icache 0).inum = 1 ∧
        (s.fs.icache 0).type = 0 := by
    decide +kernel
  obtain ⟨s, hs, hpc, hborn, hinum, htype⟩ := hrun
  refine ⟨s, Reachable.run (.init (oneInode_init ⟨fun _ => none, fun _ => none⟩ _ rfl (fun _ => rfl))) hs, hpc, hborn, hinum, htype, ?_⟩
  rw [InodeRun.step, hpc]
  exact if_pos htype

end Xv6Bfs
