import Xv6Bfs.Proofs.RefCalls

/-!
# Reference counts are exact

Between system calls every reference is one that a descriptor, a file or a process has, and
no lock is held.
-/

namespace Xv6Bfs

open Program Outcome Transition Count

section Runs

variable {sb : FsSuperblock} {devsw : Devsw} {image : Fs → Prop} {s s' : Sys}

lemma Sys.Booted.counted (h : s.Booted) : Counted initproc ∅ 0 0 0 s.vfs.outstanding s := by
  obtain ⟨ip, fs, hfree, hget, hcwd⟩ := h.cached
  have hinode : ∀ jp, count (File.inode? ∘ s.ftable) (some jp) = 0 := by
    intro jp
    rw [count, Finset.card_eq_zero, Finset.filter_eq_empty_iff]
    intro f _
    simp [File.inode?, (h.files f).1]
  have hcount : ∀ jp, count s.cwd (some jp) = if jp = ip then 1 else 0 := by
    intro jp
    have hupdate := count_update (fun _ : Slot => (none : Option (Fin NINODE))) initproc (some ip) (some jp)
    have hzero : count (fun _ : Slot => (none : Option (Fin NINODE))) (some jp) = 0 := by
      rw [count, Finset.card_eq_zero, Finset.filter_eq_empty_iff]
      intro q _
      simp
    rw [← hcwd, hzero, if_neg (by simp)] at hupdate
    simpa [eq_comm] using hupdate
  have hstart : Holding (fun _ => 0) initproc 0 0 s.vfs.outstanding { s.vfs with fs := fs } :=
    ⟨fun jp => by simpa using (hfree jp).1, Multiset.nodup_zero, fun jp => by simpa using (hfree jp).2, rfl⟩
  have hheld := hstart.of_iget (fun _ => ⟨rfl, rfl⟩) hget
  refine ⟨?_, fun f _ => (h.files f).2, hheld.rebase ?_, ?_, ?_, ?_⟩
  · intro f
    rw [(h.files f).1, Multiset.count_zero, Nat.add_zero, eq_comm, count, Finset.card_eq_zero,
      Finset.filter_eq_empty_iff]
    rintro ⟨q, fd⟩ _
    simp [Sys.descriptors, h.ofile]
  · intro jp
    rw [Sys.base, hinode, hcount, Multiset.count_cons]
    simp
  · have hnone : ∀ f, (s.ftable f).pipeEnd? = none := by
      intro f
      simp [File.pipeEnd?, (h.files f).1]
    refine ⟨?_, ?_⟩
    · intro f g e hf
      simp [hnone] at hf
    · intro q w
      simp [hnone, h.pipes]
  · intro f hf
    rw [(h.files f).2] at hf
    cases hf
  · intro q _ _ fd
    exact h.ofile q fd

lemma Counted.call (h : Counted initproc ∅ 0 0 0 s.vfs.outstanding s) {p : Slot} {c : Syscall} {r : ℤ}
    (hcall : s.call sb devsw p c = some (.ok r s')) :
    Counted initproc ∅ 0 0 0 s.vfs.outstanding s' := by
  unfold Sys.call at hcall
  cases hcwd : s.cwd p with
  | none =>
    rw [hcwd] at hcall
    cases hcall
  | some cwd =>
    rw [hcwd] at hcall
    dsimp only at hcall
    split at hcall
    · rename_i hvalid
      have henter : Counted p ∅ 0 0 0 s.vfs.outstanding s.enter := by
        have hp := h.ofProc p
        exact ⟨hp.ref, hp.unref, ⟨hp.vfs.ref, hp.vfs.nodup, hp.vfs.lock, hp.vfs.outstanding⟩, hp.pipes, hp.oneEnd,
          hp.unused⟩
      have hvalid' : c.Valid s.enter := by
        cases c <;> exact hvalid
      rw [Option.some.injEq] at hcall
      exact (Returns.of_ok (henter.program hcwd hvalid') hcall).ofProc initproc
    · cases hcall

lemma counted_of_reachable (hs : Reachable (sysSystem sb devsw image) s) :
    Counted initproc ∅ 0 0 0 s.vfs.outstanding s := by
  apply Reach.invariant (fun s => Counted initproc ∅ 0 0 0 s.vfs.outstanding s) _ _ hs
  · rintro s ⟨h, -⟩
    exact h.counted
  · rintro s ⟨p, c⟩ s' h - hstep
    simp only [sysSystem] at hstep
    split at hstep
    · rename_i r s₁ hcall
      cases hstep
      have h' := h.call hcall
      rwa [h'.vfs.outstanding]
    · cases hstep

/-- Between calls a file has as many references as descriptors, an inode as many as open files and
current directories, and an end of a pipe is open if a file is that end; a file without
references is of no type, no lock is held, and a call ends as many transactions as it begins. -/
theorem reference_counts_exact (hs : Reachable (sysSystem sb devsw image) s) :
    (∀ f, (s.ftable f).ref =
      (Finset.univ.filter (fun x : Slot × Fin NOFILE => s.ofile x.1 x.2 = some f)).card) ∧
    (∀ ip, (s.vfs.fs.icache ip).ref =
      (Finset.univ.filter (fun f => 0 < (s.ftable f).ref ∧ (s.ftable f).type = .inode ∧
        (s.ftable f).ip = ip)).card + (Finset.univ.filter (fun q => s.cwd q = some ip)).card) ∧
    (∀ q x, s.pipes q = some x →
      (x.readopen = true ↔ ∃ f, 0 < (s.ftable f).ref ∧ (s.ftable f).type = .pipe ∧ (s.ftable f).pipe = q ∧
        (s.ftable f).readable = true) ∧
      (x.writeopen = true ↔ ∃ f, 0 < (s.ftable f).ref ∧ (s.ftable f).type = .pipe ∧ (s.ftable f).pipe = q ∧
        (s.ftable f).writable = true)) ∧
    (∀ f, (s.ftable f).ref = 0 → (s.ftable f).type = .none) ∧
    (∀ ip, (s.vfs.fs.icache ip).lock = none) ∧
    (∀ p c r s', s.call sb devsw p c = some (.ok r s') → s'.vfs.outstanding = s.vfs.outstanding) := by
  have h := counted_of_reachable hs
  refine ⟨?_, ?_, ?_, h.unref, ?_, ?_⟩
  · intro f
    rw [h.ref, Multiset.count_zero, Nat.add_zero, count]
    rfl
  · intro ip
    have hfiles : Finset.univ.filter (fun f => (File.inode? ∘ s.ftable) f = some ip) =
        Finset.univ.filter (fun f => 0 < (s.ftable f).ref ∧ (s.ftable f).type = .inode ∧ (s.ftable f).ip = ip) := by
      apply Finset.filter_congr
      intro f _
      simp [File.inode?, and_assoc]
    rw [h.vfs.ref, Multiset.count_zero, Nat.add_zero, Sys.base, count, count, hfiles]
  · intro q x hx
    have hend : ∀ w, (x.isOpen w = true ↔ ∃ f, 0 < (s.ftable f).ref ∧ (s.ftable f).type = .pipe ∧
        (s.ftable f).pipe = q ∧ (s.ftable f).writable = w) := by
      intro w
      have hopen := h.pipes.isOpen q w
      simp only [hx, Option.some.injEq, exists_eq_left'] at hopen
      rw [← hopen]
      simp [File.pipeEnd?, and_assoc]
    refine ⟨?_, hend true⟩
    rw [show x.readopen = x.isOpen false from rfl, hend false]
    constructor
    · rintro ⟨f, hpos, htype, hpipe, hw⟩
      exact ⟨f, hpos, htype, hpipe, by rw [h.oneEnd f htype, hw]; rfl⟩
    · rintro ⟨f, hpos, htype, hpipe, hr⟩
      refine ⟨f, hpos, htype, hpipe, ?_⟩
      rw [h.oneEnd f htype] at hr
      simpa using hr
  · intro ip
    rw [h.vfs.lock, if_neg (Multiset.notMem_zero ip)]
  · intro p c r s' hcall
    exact (h.call hcall).vfs.outstanding

def smallSys : Sys where
  vfs := ⟨⟨smallImage ⟨T_DIR, 0, 0, 1, 0, fun _ => 0⟩, Function.update (fun _ => ⟨Dinode.zero, 0, 0, none, false⟩) 0
    ⟨Dinode.zero, ROOTINO, 1, none, false⟩⟩, 0, []⟩
  ftable := fun _ => ⟨.none, 0, false, false, 0, 0, 0⟩
  pipes := fun _ => none
  ofile := fun _ _ => none
  cwd := Function.update (fun _ => none) initproc (some 0)

lemma smallSys_booted : smallSys.Booted := by
  refine ⟨⟨0, ⟨smallImage ⟨T_DIR, 0, 0, 1, 0, fun _ => 0⟩, fun _ => ⟨Dinode.zero, 0, 0, none, false⟩⟩, ?_, ?_, rfl⟩,
    fun _ => ⟨rfl, rfl⟩, fun _ _ => rfl, fun _ => rfl⟩
  · exact fun _ => ⟨rfl, rfl⟩
  · rfl

/-- The root directory is opened, the descriptor is copied, and a child is forked. -/
theorem reference_counts_exact_forked :
    ∃ s, Reachable (sysSystem smallSuperblock ⟨fun _ => none, fun _ => none⟩ (fun _ => True)) s ∧
      (s.vfs.fs.icache 0).ref = 3 ∧
      (Finset.univ.filter (fun x : Slot × Fin NOFILE => s.ofile x.1 x.2 = some 0)).card = 4 := by
  have hrun : ∃ s ∈ run (sysSystem smallSuperblock ⟨fun _ => none, fun _ => none⟩ (fun _ => True))
      [(0, .openPath [47] 0), (0, .dup 0), (0, .nicefork (some 1) true)] smallSys,
      (s.vfs.fs.icache 0).ref = 3 ∧ (s.ftable 0).ref = 4 := by
    decide +kernel
  obtain ⟨s, hs, hinode, hfile⟩ := hrun
  have hreach : Reachable (sysSystem smallSuperblock ⟨fun _ => none, fun _ => none⟩ (fun _ => True)) s :=
    Reachable.run (Reach.init ⟨smallSys_booted, trivial⟩) hs
  exact ⟨s, hreach, hinode, ((reference_counts_exact hreach).1 0).symm.trans hfile⟩

end Runs

end Xv6Bfs
