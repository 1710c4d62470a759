import Xv6Bfs.Proofs.RefTables

/-!
# System calls keep the counts

Each system call takes and gives back the references it uses, whichever way it returns.
-/

namespace Xv6Bfs

open Function Program Outcome Count

/-! ### The programs of `exec` -/

namespace Holding

variable {sb : FsSuperblock} {devsw : Devsw} {base : Fin NINODE → ℕ} {p : Slot}
  {held locked : Multiset (Fin NINODE)} {o : ℕ} {v : Vfs} {ip : Fin NINODE}

lemma readExact (h : Holding base p held (ip ::ₘ locked) o v) (off : BitVec 32) (n : ℕ) :
    Returns (SysM.readExact sb devsw p ip off n) v (fun _ v' => Holding base p held (ip ::ₘ locked) o v') :=
  (h.readi off _).bind (fun _ _ h => h)

lemma loaduvm (offset : BitVec 32) (sz fuel i : ℕ) (h : Holding base p held (ip ::ₘ locked) o v) :
    Returns (SysM.loaduvm sb devsw p ip offset sz fuel i) v
      (fun _ v' => Holding base p held (ip ::ₘ locked) o v') := by
  induction fuel generalizing i v with
  | zero => exact h
  | succ fuel ih =>
    rw [SysM.loaduvm]
    split
    · refine (h.readExact _ _).bind ?_
      rintro (- | bytes) v h
      · exact h
      · exact ih _ h
    · exact h

lemma loadSegments (alloc : ℕ → Bool) (n i : ℕ) (off : BitVec 32)
    (h : Holding base p held (ip ::ₘ locked) o v) :
    Returns (SysM.loadSegments sb devsw p ip alloc n i off) v
      (fun _ v' => Holding base p held (ip ::ₘ locked) o v') := by
  induction n generalizing i off v with
  | zero => exact h
  | succ n ih =>
    rw [SysM.loadSegments]
    refine (h.readExact off 32).bind ?_
    rintro (- | ph) v h
    · exact h
    dsimp only
    split
    · exact ih _ _ h
    split
    · exact h
    split
    · exact h
    split
    · exact h
    refine (loaduvm _ _ _ _ h).bind ?_
    intro loaded v h
    split
    · exact ih _ _ h
    · exact h

lemma loadProgram (h : Holding base p held (ip ::ₘ locked) o v) (setupkvm : Bool) (alloc : ℕ → Bool) :
    Returns (SysM.loadProgram sb devsw p ip setupkvm alloc) v
      (fun _ v' => Holding base p held (ip ::ₘ locked) o v') := by
  refine (h.readExact 0 52).bind ?_
  rintro (- | elf) v h
  · exact h
  dsimp only
  split
  · exact h
  split
  · exact h
  exact loadSegments _ _ _ _ h

lemma exec (h : Holding base p held locked o v) (cwd : Fin NINODE) (path : List (BitVec 8)) (setupkvm : Bool)
    (alloc : ℕ → Bool) (stack : Bool) :
    Returns (SysM.exec sb devsw p cwd path setupkvm alloc stack) v
      (fun _ v' => Holding base p held locked o v') := by
  refine h.beginOp.bind ?_
  rintro - v h
  refine (h.namei cwd path).bind ?_
  rintro (- | ip) v h
  · exact h.endOp.bind (fun _ _ h => h)
  refine (h.ilock ip).bind ?_
  rintro - v h
  refine (h.loadProgram setupkvm alloc).bind ?_
  intro loaded v h
  refine h.iunlockput.bind ?_
  rintro - v h
  exact h.endOp.bind (fun _ _ h => h)

lemma sysCreate (h : Holding base p held locked o v) (cwd : Fin NINODE) (path : Option (List (BitVec 8)))
    (type major minor : BitVec 16) :
    Returns (SysM.sysCreate sb devsw p cwd path type major minor) v
      (fun _ v' => Holding base p held locked o v') := by
  refine h.beginOp.bind ?_
  rintro - v h
  cases path with
  | none => exact h.endOp.bind (fun _ _ h => h)
  | some path =>
    refine (h.create cwd path type major minor).bind ?_
    rintro (- | ip) v h
    · exact h.endOp.bind (fun _ _ h => h)
    · exact h.iunlockput.bind (fun _ _ h => h.endOp.bind (fun _ _ h => h))

end Holding

namespace Counted

variable {sb : FsSuperblock} {devsw : Devsw} {p : Slot} {busy : Finset Slot} {files : Multiset (Fin NFILE)}
  {held locked : Multiset (Fin NINODE)} {o : ℕ} {s : Sys} {f : Fin NFILE} {fd : Fin NOFILE} {ip : Fin NINODE}
  {cwd : Fin NINODE}

/-! ### Reading and writing -/

lemma setPipe (h : Counted p busy files held locked o s) {q : PipeId} {x x' : Pipe} (hx : s.pipes q = some x)
    (hopen : x'.isOpen = x.isOpen) :
    Counted p busy files held locked o { s with pipes := update s.pipes q (some x') } :=
  ⟨h.ref, h.unref, h.vfs, h.pipes.setData hx hopen, h.oneEnd, h.unused⟩

lemma isOpen_pipeTake (n : ℕ) (x : Pipe) : (SysM.pipeTake n x).2.isOpen = x.isOpen := by
  induction n generalizing x with
  | zero => rfl
  | succ n ih =>
    rw [SysM.pipeTake]
    split
    · rfl
    · exact ih _

lemma piperead (h : Counted p busy files held locked o s) (q : PipeId) (n : ℕ) (killed : Bool) :
    Returns (SysM.piperead q n killed) s
      (fun _ s' => s.SameProcs s' ∧ Counted p busy files held locked o s') := by
  unfold SysM.piperead
  simp only [wp_bind, wp_get]
  split
  · exact ⟨⟨rfl, rfl⟩, h⟩
  rename_i x hx
  split
  · split
    · exact ⟨⟨rfl, rfl⟩, h⟩
    · trivial
  · exact ⟨⟨rfl, rfl⟩, h.setPipe hx (isOpen_pipeTake n x)⟩

lemma pipewrite (q : PipeId) (killed : Bool) (addr : List (BitVec 8)) (h : Counted p busy files held locked o s) :
    Returns (SysM.pipewrite q killed addr) s
      (fun _ s' => s.SameProcs s' ∧ Counted p busy files held locked o s') := by
  induction addr generalizing s with
  | nil => exact ⟨⟨rfl, rfl⟩, h⟩
  | cons b addr ih =>
    rw [SysM.pipewrite]
    simp only [wp_bind, wp_get]
    split
    · exact ⟨⟨rfl, rfl⟩, h⟩
    rename_i x hx
    split
    · split
      · exact ⟨⟨rfl, rfl⟩, h⟩
      · trivial
    · have hput : Counted p busy files held locked o { s with
          pipes := update s.pipes q (some { x with
            data := update x.data (Fin.ofNat PIPESIZE x.nwrite.toNat) b
            nwrite := x.nwrite + 1 }) } := h.setPipe hx rfl
      exact ih hput

lemma setOff (h : Counted p busy files held locked o s) (hpos : 0 < (s.ftable f).ref) (c : Prop) [Decidable c]
    (off : BitVec 32) :
    Returns (if c then SysM.setFile f { s.ftable f with off := off } else pure ()) s
      (fun _ s' => s.SameProcs s' ∧ Counted p busy files held locked o s') := by
  split
  · exact ⟨⟨rfl, rfl⟩, h.setFile_quiet rfl (fun _ _ => rfl) rfl hpos (.inl hpos)⟩
  · exact ⟨⟨rfl, rfl⟩, h⟩

lemma fileread (h : Counted p busy files held locked o s) (hfd : s.ofile p fd = some f) (n : BitVec 32)
    (killed : Bool) :
    Returns (SysM.fileread sb devsw p f n killed) s
      (fun _ s' => s.SameProcs s' ∧ Counted p busy files held locked o s') := by
  have hpos := h.ref_pos hfd
  unfold SysM.fileread
  rw [Returns, wp_bind, wp_file]
  split
  · exact ⟨⟨rfl, rfl⟩, h⟩
  cases (s.ftable f).type with
  | none => trivial
  | pipe => exact h.piperead _ _ killed
  | inode =>
    refine Returns.bind (h.runVfs (h.vfs.ilock (s.ftable f).ip)) ?_
    rintro - s₁ ⟨hprocs, htable, h⟩
    rw [Returns, wp_bind, wp_file, htable]
    refine Returns.bind (h.runVfs (h.vfs.readi _ n)) ?_
    rintro bytes s₂ ⟨hprocs₂, htable₂, h⟩
    rw [htable] at htable₂
    have hpos₂ : 0 < (s₂.ftable f).ref := by rwa [htable₂]
    rw [← htable₂] at h ⊢
    refine Returns.bind (h.setOff hpos₂ _ _) ?_
    rintro - s₃ ⟨hprocs₃, h⟩
    refine Returns.bind (h.runVfs h.vfs.iunlock) ?_
    rintro - s₄ ⟨hprocs₄, -, h⟩
    exact ⟨((hprocs.trans hprocs₂).trans hprocs₃).trans hprocs₄, h⟩

lemma writeChunk (h : Counted p busy files held locked o s) (hfd : s.ofile p fd = some f)
    (addr : List (BitVec 8)) (n : ℕ) :
    Returns (SysM.writeChunk sb devsw p f addr n) s
      (fun _ s' => s.SameProcs s' ∧ Counted p busy files held locked o s') := by
  have hpos := h.ref_pos hfd
  unfold SysM.writeChunk
  refine Returns.bind (h.runVfs h.vfs.beginOp) ?_
  rintro - s₁ ⟨hprocs₁, htable₁, h⟩
  rw [Returns, wp_bind, wp_file]
  refine Returns.bind (h.runVfs (h.vfs.ilock _)) ?_
  rintro - s₂ ⟨hprocs₂, htable₂, h⟩
  rw [← htable₂] at h
  rw [htable₁] at htable₂
  rw [Returns, wp_bind, wp_file]
  refine Returns.bind (h.runVfs (h.vfs.writei addr _ _)) ?_
  rintro r s₃ ⟨hprocs₃, htable₃, h⟩
  have hpos₃ : 0 < (s₃.ftable f).ref := by rwa [htable₃, htable₂]
  rw [← htable₃] at h ⊢
  refine Returns.bind (h.setOff hpos₃ _ _) ?_
  rintro - s₄ ⟨hprocs₄, h⟩
  refine Returns.bind (h.runVfs h.vfs.iunlock) ?_
  rintro - s₅ ⟨hprocs₅, -, h⟩
  refine Returns.bind (h.runVfs h.vfs.endOp) ?_
  rintro - s₆ ⟨hprocs₆, -, h⟩
  exact ⟨((((hprocs₁.trans hprocs₂).trans hprocs₃).trans hprocs₄).trans hprocs₅).trans hprocs₆, h⟩

lemma writeRound (h : Counted p busy files held locked o s) (hfd : s.ofile p fd = some f)
    (addr : List (BitVec 8)) (i : ℕ) :
    Returns (SysM.writeRound sb devsw p f addr i) s
      (fun _ s' => s.SameProcs s' ∧ Counted p busy files held locked o s') := by
  unfold SysM.writeRound
  split
  · refine (h.writeChunk hfd _ _).bind ?_
    rintro r s' h
    split
    · exact h
    split
    · trivial
    · exact h
  · exact ⟨⟨rfl, rfl⟩, h⟩

lemma writeLoop (addr : List (BitVec 8)) (fuel i : ℕ) (h : Counted p busy files held locked o s)
    (hfd : s.ofile p fd = some f) :
    Returns (SysM.writeLoop sb devsw p f addr fuel i) s
      (fun _ s' => s.SameProcs s' ∧ Counted p busy files held locked o s') := by
  induction fuel generalizing i s with
  | zero => exact ⟨⟨rfl, rfl⟩, h⟩
  | succ fuel ih =>
    refine (h.writeRound hfd addr i).bind ?_
    rintro (i | r) s₁ ⟨hprocs, h⟩
    · refine (ih i h (by rwa [hprocs.1])).imp ?_
      rintro r s₂ ⟨hprocs₂, h⟩
      exact ⟨hprocs.trans hprocs₂, h⟩
    · exact ⟨hprocs, h⟩

lemma filewrite (h : Counted p busy files held locked o s) (hfd : s.ofile p fd = some f)
    (addr : List (BitVec 8)) (killed : Bool) :
    Returns (SysM.filewrite sb devsw p f addr killed) s
      (fun _ s' => s.SameProcs s' ∧ Counted p busy files held locked o s') := by
  unfold SysM.filewrite
  rw [Returns, wp_bind, wp_file]
  split
  · exact ⟨⟨rfl, rfl⟩, h⟩
  cases (s.ftable f).type with
  | none => trivial
  | pipe =>
    refine Returns.bind (pipewrite _ killed addr h) ?_
    rintro done s' h
    cases done <;> exact h
  | inode => exact writeLoop addr _ 0 h hfd

/-! ### System calls -/

lemma wp_argfd (s : Sys) (p : Slot) (fd : ℤ) {exn : Stop → Sys → Prop} :
    Wp (SysM.argfd p fd) s (fun r s' => s' = s ∧ ∀ fd f, r = some (fd, f) → s.ofile p fd = some f) exn := by
  unfold SysM.argfd
  simp only [wp_bind, wp_get]
  split
  · refine ⟨rfl, ?_⟩
    intro fd f hr
    rw [Option.map_eq_some_iff] at hr
    obtain ⟨g, hg, heq⟩ := hr
    cases heq
    exact hg
  · refine ⟨rfl, ?_⟩
    rintro _ _ ⟨⟩

lemma argfd (s : Sys) (p : Slot) (fd : ℤ) :
    Returns (SysM.argfd p fd) s (fun r s' => s' = s ∧ ∀ fd f, r = some (fd, f) → s.ofile p fd = some f) :=
  wp_argfd s p fd

lemma sysRead (h : Counted p busy files held locked o s) (fd : ℤ) (n : Option (BitVec 32)) (killed : Bool) :
    Returns (SysM.sysRead sb devsw p fd n killed) s (fun _ s' => Counted p busy files held locked o s') := by
  refine (argfd s p fd).bind ?_
  rintro r s' ⟨rfl, hr⟩
  split
  · rename_i fd f n
    refine (h.fileread (hr fd f rfl) n killed).bind ?_
    rintro bytes s' ⟨-, h⟩
    cases bytes <;> exact h
  · exact h

lemma sysWrite (h : Counted p busy files held locked o s) (fd : ℤ) (addr : Option (List (BitVec 8)))
    (killed : Bool) :
    Returns (SysM.sysWrite sb devsw p fd addr killed) s (fun _ s' => Counted p busy files held locked o s') := by
  refine (argfd s p fd).bind ?_
  rintro r s' ⟨rfl, hr⟩
  split
  · rename_i fd f addr
    exact (h.filewrite (hr fd f rfl) addr killed).imp (fun _ _ h => h.2)
  · exact h

lemma sysClose (h : Counted p busy files held locked o s) (fd : ℤ) :
    Returns (SysM.sysClose sb p fd) s (fun _ s' => Counted p busy files held locked o s') := by
  refine (argfd s p fd).bind ?_
  rintro (- | ⟨fd, f⟩) s' ⟨rfl, hr⟩
  · exact h
  refine (h.clearOfile (hr fd f rfl)).bind ?_
  rintro - s' ⟨-, -, -, h⟩
  exact h.fileclose.bind (fun _ _ h => h.2)

lemma sysDup (h : Counted p busy files held locked o s) (hcwd : s.cwd p ≠ none) (fd : ℤ) :
    Returns (SysM.sysDup p fd) s (fun _ s' => Counted p busy files held locked o s') := by
  refine (argfd s p fd).bind ?_
  rintro (- | ⟨fd, f⟩) s' ⟨rfl, hr⟩
  · exact h
  have hpos := h.ref_pos (hr fd f rfl)
  have hdup := h.addRef (.inl hpos)
  unfold SysM.fdalloc SysM.filedup
  simp only [wp_bind, wp_get]
  split
  · exact h
  rename_i fd' hfind
  have hnone := List.find?_some hfind
  rw [Option.isNone_iff_eq_none] at hnone
  simp only [SysM.setOfile, wp_bind, wp_modify, wp_pure, wp_file]
  split
  · trivial
  · refine hdup.setOfile ?_ (fun _ _ => hcwd)
    intro g
    rw [hnone, count_cons_add]
    rfl

lemma attach (h : Counted p busy files (ip ::ₘ held) locked o s) (htype : (s.ftable f).type = .none)
    (hpos : 0 < (s.ftable f).ref) (readable writable : Bool) :
    Returns (SysM.setFile f { s.ftable f with type := .inode, ip := ip, off := 0, readable, writable }) s
      (fun _ s' => Counted p busy files held locked o s') := by
  refine h.setFile (f := f) rfl (fun _ _ => rfl) (fun hzero => absurd hzero hpos.ne') ?_ ?_ nofun
  · intro jp
    rw [Multiset.count_cons]
    simp [File.inode?, hpos, htype, eq_comm]
  · rw [update_pipeEnd (by simp [File.pipeEnd?, htype])]
    exact h.pipes

/-- A call that fails when it has a locked inode. -/
lemma iunlockput_endOp (h : Counted p busy files (ip ::ₘ held) (ip ::ₘ locked) (o + 1) s) :
    Returns (do SysM.vfs (do FsM.iunlockput sb p ip; FsM.endOp); return (-1 : ℤ)) s
      (fun _ s' => Counted p busy files held locked o s') :=
  Returns.bind (h.runVfs (h.vfs.iunlockput.bind (fun _ _ h => h.endOp))) (fun _ _ h => h.2.2)

/-- A call that fails when it has no inode. -/
lemma endOp_fail (h : Counted p busy files held locked (o + 1) s) {v : Vfs}
    (hv : Holding s.base p held locked (o + 1) v) :
    Returns (do SysM.vfs FsM.endOp; return (-1 : ℤ)) { s with vfs := v }
      (fun _ s' => Counted p busy files held locked o s') :=
  Returns.bind ((h.setVfs hv).runVfs hv.endOp) (fun _ _ h => h.2.2)

lemma openInode (h : Counted p busy files (ip ::ₘ held) (ip ::ₘ locked) (o + 1) s) (hcwd : s.cwd p ≠ none)
    (omode : BitVec 32) :
    Returns (SysM.openInode sb p ip omode) s (fun _ s' => Counted p busy files held locked o s') := by
  refine h.filealloc.bind ?_
  rintro (- | f) s₁ ⟨hprocs, h⟩
  · exact h.iunlockput_endOp
  obtain ⟨-, htype, rfl, h⟩ := h
  refine (h.fdalloc hcwd).bind ?_
  rintro (- | fd) s₂ ⟨hcwd₂, htable, hfd⟩
  · obtain rfl := hfd
    refine h.fileclose.bind ?_
    rintro - s₃ ⟨-, h⟩
    exact h.iunlockput_endOp
  obtain ⟨-, h⟩ := hfd
  refine Returns.bind (h.runVfs (h.vfs.iunlock.bind (fun _ _ h => h.endOp))) ?_
  rintro - s₃ ⟨-, htable₃, h⟩
  rw [Returns, wp_bind, wp_file]
  refine Returns.bind (h.attach ?_ ?_ _ _) (fun _ _ h => h)
  · simp [htable₃, htable, htype]
  · simp [htable₃, htable]

lemma sysOpen (h : Counted p busy files held locked o s) (hcwd : s.cwd p ≠ none) (cwd : Fin NINODE)
    (path : List (BitVec 8)) (omode : BitVec 32) :
    Returns (SysM.sysOpen sb devsw p cwd path omode) s
      (fun _ s' => Counted p busy files held locked o s') := by
  refine Returns.bind (h.runVfs h.vfs.beginOp) ?_
  rintro - s₁ ⟨hprocs, -, h⟩
  rw [← hprocs.2] at hcwd
  split
  · rw [Returns, wp_bind, wp_vfs]
    refine (h.vfs.create cwd path T_FILE 0 0).imp ?_
    rintro (- | ip) v hv
    · exact h.endOp_fail hv
    · exact (h.setVfs hv).openInode hcwd omode
  · rw [Returns, wp_bind, wp_vfs]
    refine (h.vfs.namei cwd path).imp ?_
    rintro (- | ip) v hv
    · exact h.endOp_fail hv
    have h := h.setVfs hv
    refine Returns.bind (h.runVfs (h.vfs.ilock ip)) ?_
    rintro - s₂ ⟨hprocs₂, -, h⟩
    rw [← hprocs₂.2] at hcwd
    rw [Returns, wp_bind, wp_vfs, wp_inode]
    split
    · exact h.iunlockput_endOp
    · exact h.openInode hcwd omode

def baseBut (s : Sys) (cwd jp : Fin NINODE) : ℕ :=
  s.base jp - if jp = cwd then 1 else 0

lemma leaveCwd (h : Counted p busy files held locked o s) (hcwd : s.cwd p = some cwd) :
    Holding (baseBut s cwd) p (cwd ::ₘ held) locked o s.vfs := by
  refine h.vfs.rebase ?_
  intro jp
  rw [Multiset.count_cons, baseBut]
  split
  · rename_i hjp
    have hpos := count_pos (g := s.cwd) (a := p) (c := some jp) (by rw [hcwd, hjp])
    simp only [Sys.base]
    omega
  · omega

lemma enterCwd (h : Counted p busy files held locked o s) (hcwd : s.cwd p = some cwd)
    {r : Option (Fin NINODE)} {held' held'' locked' : Multiset (Fin NINODE)} {o' : ℕ} {v : Vfs}
    (hv : Holding (baseBut s cwd) p held' locked' o' v)
    (hheld : ∀ jp, held''.count jp + (if r = some jp then 1 else 0) = held'.count jp)
    (hr : r = none → ∀ fd, s.ofile p fd = none) :
    Counted p busy files held'' locked' o' { s with vfs := v, cwd := update s.cwd p r } := by
  refine ⟨h.ref, h.unref, hv.rebase ?_, h.pipes, h.oneEnd, ?_⟩
  · intro jp
    have hcount := count_update s.cwd p r (some jp)
    have hjp := hheld jp
    simp only [hcwd, Option.some.injEq] at hcount
    have hpos : jp = cwd → 0 < count s.cwd (some jp) := by
      rintro rfl
      exact count_pos hcwd
    rw [baseBut]
    simp only [Sys.base]
    by_cases hjc : jp = cwd
    · have := hpos hjc
      rw [if_pos hjc.symm] at hcount
      rw [if_pos hjc]
      omega
    · rw [if_neg (Ne.symm hjc)] at hcount
      rw [if_neg hjc]
      omega
  · intro q hq hnone fd
    by_cases hqp : q = p
    · subst hqp
      exact hr (by simpa using hnone) fd
    · exact h.unused q hq (by simpa [hqp] using hnone) fd

lemma sysChdir (h : Counted p busy files held locked o s) (hcwd : s.cwd p = some cwd)
    (path : Option (List (BitVec 8))) :
    Returns (SysM.sysChdir sb devsw p cwd path) s (fun _ s' => Counted p busy files held locked o s') := by
  refine Returns.bind (h.runVfs h.vfs.beginOp) ?_
  rintro - s₁ ⟨hprocs, -, h⟩
  rw [← hprocs.2] at hcwd
  cases path with
  | none => exact h.endOp_fail h.vfs
  | some path =>
    dsimp only
    rw [Returns, wp_bind, wp_vfs]
    refine (h.vfs.namei cwd path).imp ?_
    rintro (- | ip) v hv
    · exact h.endOp_fail hv
    have h := h.setVfs hv
    refine Returns.bind (h.runVfs (h.vfs.ilock ip)) ?_
    rintro - s₂ ⟨hprocs₂, -, h⟩
    rw [Returns, wp_bind, wp_vfs, wp_inode]
    split
    · exact h.iunlockput_endOp
    have hcwd₂ : s₂.cwd p = some cwd := by rw [hprocs₂.2, hcwd]
    rw [wp_bind, wp_vfs]
    refine Wp.imp ((h.leaveCwd hcwd₂).iunlock.bind (fun _ _ h => h.iput.bind (fun _ _ h => h.endOp))) ?_
    rintro - v hv
    refine h.enterCwd hcwd₂ hv ?_ (by rintro ⟨⟩)
    exact fun jp => (count_cons_add ip jp held).symm

lemma wp_fileclose_ofile (ofile : Slot → Fin NOFILE → Option (Fin NFILE)) {post : Unit → Sys → Prop}
    (h : Returns (SysM.fileclose sb f) { s with ofile := ofile } post) :
    Returns (SysM.fileclose sb f) s (fun r s' => s'.ofile = s.ofile ∧ post r { s' with ofile := ofile }) := by
  unfold SysM.fileclose at h ⊢
  simp only [wp_bind, wp_file] at h ⊢
  split at h
  · rename_i hzero
    rw [if_pos hzero]
    trivial
  rename_i hpos
  rw [if_neg hpos]
  split at h
  · rename_i hmany
    rw [if_pos hmany]
    exact ⟨rfl, h⟩
  rename_i hlast
  rw [if_neg hlast]
  rw [wp_bind] at h ⊢
  cases htype : (s.ftable f).type with
  | none =>
    simp only [htype] at h
    exact ⟨rfl, h⟩
  | inode =>
    simp only [htype, SysM.setFile, wp_modify, wp_vfs] at h ⊢
    exact h.imp (fun _ _ h => ⟨trivial, h⟩)
  | pipe =>
    simp only [htype] at h
    unfold SysM.pipeclose at h ⊢
    simp only [SysM.setFile, wp_modify, wp_bind, wp_get] at h ⊢
    cases hpipe : s.pipes (s.ftable f).pipe with
    | none | some x =>
      simp only [hpipe] at h
      exact ⟨rfl, h⟩

lemma closeFiles (fds : List (Fin NOFILE)) (h : Counted p busy files held locked o s) :
    Returns (SysM.closeFiles sb p fds) s (fun _ s' => s'.cwd = s.cwd ∧
      (∀ fd, (fd ∈ fds ∨ s.ofile p fd = none) → s'.ofile p fd = none) ∧
      Counted p busy files held locked o s') := by
  induction fds generalizing s with
  | nil =>
    refine ⟨rfl, ?_, h⟩
    rintro fd (hfd | hfd)
    · cases hfd
    · exact hfd
  | cons fd fds ih =>
    unfold SysM.closeFiles
    simp only [wp_bind, wp_get]
    cases hfd : s.ofile p fd with
    | none =>
      refine (ih h).imp ?_
      rintro - s' ⟨hcwd, hnone, h⟩
      refine ⟨hcwd, ?_, h⟩
      rintro fd' (hmem | hfd')
      · rcases List.mem_cons.mp hmem with rfl | hmem
        · exact hnone fd' (.inr hfd)
        · exact hnone fd' (.inl hmem)
      · exact hnone fd' (.inr hfd')
    | some f =>
      obtain ⟨-, -, -, hclear⟩ := h.clearOfile hfd
      refine Returns.bind (wp_fileclose_ofile _ hclear.fileclose) ?_
      rintro - s₁ ⟨hofile, hprocs, h₁⟩
      rw [← hofile] at h₁
      refine (ih h₁).imp ?_
      rintro - s₂ ⟨hcwd, hnone, h₂⟩
      refine ⟨hcwd.trans hprocs.2, ?_, h₂⟩
      rintro fd' (hmem | hfd')
      · rcases List.mem_cons.mp hmem with rfl | hmem
        · exact hnone fd' (.inr (by simp))
        · exact hnone fd' (.inl hmem)
      · refine hnone fd' (.inr ?_)
        by_cases hfd'' : fd' = fd
        · simp [hfd'']
        · simp [hfd'', hofile, hfd']

lemma exit (h : Counted p busy files held locked o s) (hcwd : s.cwd p = some cwd) :
    Returns (SysM.exit sb p cwd) s (fun _ s' => Counted p busy files held locked o s') := by
  unfold SysM.exit
  split
  · trivial
  refine Returns.bind (closeFiles _ h) ?_
  rintro - s₁ ⟨hcwd₁, hnone, h⟩
  rw [← hcwd₁] at hcwd
  rw [Returns, wp_bind, wp_vfs]
  refine Wp.imp ((h.leaveCwd hcwd).beginOp.bind (fun _ _ h => h.iput.bind (fun _ _ h => h.endOp))) ?_
  rintro - v hv
  refine h.enterCwd hcwd hv (fun jp => by simp) ?_
  intro _ fd
  exact hnone fd (.inl (List.mem_finRange fd))

lemma setCwd (h : Counted p busy files held locked o s) {q : Slot} {r : Option (Fin NINODE)}
    {held' : Multiset (Fin NINODE)} {busy' : Finset Slot}
    (hheld : ∀ ip, held'.count ip + (if r = some ip then 1 else 0) =
      held.count ip + (if s.cwd q = some ip then 1 else 0))
    (hunused : ∀ q' ∉ busy', update s.cwd q r q' = none → ∀ fd, s.ofile q' fd = none) :
    Counted p busy' files held' locked o { s with cwd := update s.cwd q r } := by
  refine ⟨h.ref, h.unref, ?_, h.pipes, h.oneEnd, hunused⟩
  refine h.vfs.rebase ?_
  intro ip
  have hcount := count_update s.cwd q r (some ip)
  have hip := hheld ip
  simp only [Sys.base]
  omega

lemma dupFiles {child : Slot} (hbusy : child ∈ busy) (fds : List (Fin NOFILE)) (hnodup : fds.Nodup)
    (h : Counted p busy files held locked o s) (hchild : ∀ fd ∈ fds, s.ofile child fd = none) :
    Returns (SysM.dupFiles p child fds) s
      (fun _ s' => s'.cwd = s.cwd ∧ Counted p busy files held locked o s') := by
  induction fds generalizing s with
  | nil => exact ⟨rfl, h⟩
  | cons fd fds ih =>
    obtain ⟨hnot, hnodup⟩ := List.nodup_cons.mp hnodup
    have hrest : ∀ fd' ∈ fds, s.ofile child fd' = none := fun fd' hfd' => hchild fd' (List.mem_cons_of_mem fd hfd')
    unfold SysM.dupFiles
    simp only [wp_bind, wp_get]
    cases s.ofile p fd with
    | none => exact ih hnodup h hrest
    | some f =>
      refine Returns.bind (h.filedup f) ?_
      rintro r s₁ ⟨rfl, hprocs, h₁⟩
      have hset : Counted p busy files held locked o { s₁ with
          ofile := update s₁.ofile child (update (s₁.ofile child) fd (some r)) } := by
        refine h₁.setOfile ?_ (fun _ hno => absurd hbusy hno)
        intro g
        rw [hprocs.1, hchild fd List.mem_cons_self, count_cons_add]
        rfl
      refine (ih hnodup hset ?_).imp ?_
      · intro fd' hfd'
        have hne : fd' ≠ fd := by
          rintro rfl
          exact hnot hfd'
        simp [hne, hprocs.1, hrest fd' hfd']
      · rintro - s₂ ⟨hcwd, h₂⟩
        exact ⟨hcwd.trans hprocs.2, h₂⟩

lemma nicefork (h : Counted p ∅ files held locked o s) (cwd : Fin NINODE) (child : Option Slot)
    (hchild : ∀ q, child = some q → s.cwd q = none) (copyuvm : Bool) :
    Returns (SysM.nicefork p cwd child copyuvm) s (fun _ s' => Counted p ∅ files held locked o s') := by
  cases child with
  | none => exact h
  | some child =>
    have hnone := hchild child rfl
    unfold SysM.nicefork
    dsimp only
    split
    · exact h
    have hbusy : Counted p {child} files held locked o s := by
      refine ⟨h.ref, h.unref, h.vfs, h.pipes, h.oneEnd, ?_⟩
      intro q _ hq
      exact h.unused q (Finset.notMem_empty q) hq
    refine Returns.bind (dupFiles (Finset.mem_singleton_self child) _ (List.nodup_finRange NOFILE) hbusy ?_) ?_
    · intro fd _
      exact h.unused child (Finset.notMem_empty child) hnone fd
    rintro - s₁ ⟨hcwd, h₁⟩
    rw [Returns, wp_bind, wp_vfs]
    refine (h₁.vfs.idup cwd).imp ?_
    rintro ip v ⟨rfl, hv⟩
    refine (h₁.setVfs hv).setCwd ?_ ?_
    · intro jp
      rw [count_cons_add]
      dsimp only
      rw [hcwd, hnone]
      rfl
    · intro q _ hq
      by_cases hqc : q = child
      · simp [hqc] at hq
      · exact h₁.unused q (by simpa using hqc) (by simpa [hqc] using hq)

lemma makePipe {g : Fin NFILE} {q : PipeId} (h : Counted p busy (f ::ₘ g ::ₘ files) held locked o s) (hne : f ≠ g)
    (hf : (s.ftable f).type = .none) (hg : (s.ftable g).type = .none) (hfpos : 0 < (s.ftable f).ref)
    (hgpos : 0 < (s.ftable g).ref) (hq : s.pipes q = none) :
    Counted p busy (f ::ₘ g ::ₘ files) held locked o { s with
      pipes := update s.pipes q (some ⟨fun _ => 0, 0, 0, true, true⟩)
      ftable := update (update s.ftable f
        { s.ftable f with type := .pipe, readable := true, writable := false, pipe := q }) g
        { s.ftable g with type := .pipe, readable := false, writable := true, pipe := q } } := by
  have hnone : ∀ i, (s.ftable i).type = .none → (s.ftable i).inode? = none ∧ (s.ftable i).pipeEnd? = none := by
    intro i hi
    simp [File.inode?, File.pipeEnd?, hi]
  have hinode : File.inode? ∘ update (update s.ftable f
        { s.ftable f with type := .pipe, readable := true, writable := false, pipe := q }) g
        { s.ftable g with type := .pipe, readable := false, writable := true, pipe := q } =
      File.inode? ∘ s.ftable := by
    funext i
    by_cases hig : i = g
    · subst hig
      simp [hg, File.inode?]
    · by_cases hif : i = f
      · subst hif
        simp [hig, hf, File.inode?]
      · simp [hig, hif]
  refine ⟨?_, ?_, ?_, ?_, ?_, h.unused⟩
  · intro i
    refine Eq.trans ?_ (h.ref i)
    by_cases hig : i = g
    · simp [hig]
    · by_cases hif : i = f
      · simp [hif, hne]
      · simp [hig, hif]
  · intro i
    by_cases hig : i = g
    · simp [hig, hgpos.ne']
    · by_cases hif : i = f
      · simp [hif, hne, hfpos.ne']
      · simpa [hig, hif] using h.unref i
  · refine h.vfs.rebase ?_
    intro ip
    simp only [Sys.base]
    rw [hinode]
  · rw [comp_update, comp_update]
    have hends := h.pipes.alloc (x := ⟨fun _ => 0, 0, 0, true, true⟩) hq (hnone f hf).2 (hnone g hg).2 hne
      (fun w => by cases w <;> rfl)
    simpa [File.pipeEnd?, hfpos, hgpos] using hends
  · intro i
    by_cases hig : i = g
    · simp [hig]
    · by_cases hif : i = f
      · simp [hif, hne]
      · simpa [hig, hif] using h.oneEnd i

lemma pipealloc (h : Counted p busy files held locked o s) (page : Option PipeId)
    (hpage : ∀ q, page = some q → s.pipes q = none) :
    Returns (SysM.pipealloc sb page) s (fun r s' => s.SameProcs s' ∧ match r with
      | none => Counted p busy files held locked o s'
      | some (f, g) => Counted p busy (f ::ₘ g ::ₘ files) held locked o s') := by
  refine h.filealloc.bind ?_
  rintro (- | f) s₁ ⟨hprocs₁, h₁⟩
  · exact ⟨hprocs₁, h₁⟩
  obtain ⟨hzero, htype, rfl, h₁⟩ := h₁
  refine h₁.filealloc.bind ?_
  rintro (- | g) s₂ ⟨hprocs₂, h₂⟩
  · refine h₂.fileclose.bind ?_
    rintro - s₃ ⟨hprocs₃, h₃⟩
    exact ⟨(hprocs₁.trans hprocs₂).trans hprocs₃, h₃⟩
  obtain ⟨hzero₂, htype₂, hs₂, h₂⟩ := h₂
  have hne : f ≠ g := by
    rintro rfl
    simp at hzero₂
  cases page with
  | none =>
    rw [Multiset.cons_swap] at h₂
    refine h₂.fileclose.bind ?_
    rintro - s₃ ⟨hprocs₃, h₃⟩
    refine h₃.fileclose.bind ?_
    rintro - s₄ ⟨hprocs₄, h₄⟩
    exact ⟨((hprocs₁.trans hprocs₂).trans hprocs₃).trans hprocs₄, h₄⟩
  | some q =>
    rw [Multiset.cons_swap] at h₂
    have hq : s₂.pipes q = none := by
      rw [hs₂]
      exact hpage q rfl
    have hpipe := h₂.makePipe hne (by simpa [hs₂, hne] using htype) (by simpa [hs₂] using htype₂)
      (by simp [hs₂, hne]) (by simp [hs₂]) hq
    simp only [SysM.setPipe, SysM.setFile, wp_bind, wp_modify, wp_file, wp_pure]
    rw [update_of_ne hne.symm]
    exact ⟨hprocs₁.trans hprocs₂, hpipe⟩

lemma sysPipe (h : Counted p busy files held locked o s) (hcwd : s.cwd p ≠ none) (page : Option PipeId)
    (hpage : ∀ q, page = some q → s.pipes q = none) :
    Returns (SysM.sysPipe sb p page) s (fun _ s' => Counted p busy files held locked o s') := by
  refine (h.pipealloc page hpage).bind ?_
  rintro (- | ⟨rf, wf⟩) s₁ ⟨hprocs, h⟩
  · exact h
  dsimp only at h
  rw [← hprocs.2] at hcwd
  refine (h.fdalloc hcwd).bind ?_
  rintro (- | fd) s₂ ⟨hcwd₂, -, h₂⟩
  · obtain rfl := h₂
    refine h.fileclose.bind ?_
    rintro - s₃ ⟨-, h⟩
    exact h.fileclose.bind (fun _ _ h => h.2)
  obtain ⟨hfd, h⟩ := h₂
  rw [← hcwd₂] at hcwd
  refine (h.fdalloc hcwd).bind ?_
  rintro (- | fd') s₃ ⟨-, -, h₃⟩
  · obtain rfl := h₃
    refine (h.clearOfile hfd).bind ?_
    rintro - s₄ ⟨-, -, -, h⟩
    refine h.fileclose.bind ?_
    rintro - s₅ ⟨-, h⟩
    exact h.fileclose.bind (fun _ _ h => h.2)
  · exact h₃.2

lemma ofProc (h : Counted p busy files held 0 o s) (q : Slot) : Counted q busy files held 0 o s := by
  refine ⟨h.ref, h.unref, ⟨h.vfs.ref, h.vfs.nodup, ?_, h.vfs.outstanding⟩, h.pipes, h.oneEnd, h.unused⟩
  intro ip
  rw [h.vfs.lock, if_neg (Multiset.notMem_zero ip), if_neg (Multiset.notMem_zero ip)]

lemma program (h : Counted p ∅ 0 0 0 o s) (hcwd : s.cwd p = some cwd) {c : Syscall}
    (hvalid : c.Valid s) :
    Returns (c.program sb devsw p cwd) s (fun _ s' => Counted p ∅ 0 0 0 o s') := by
  have hcwd' : s.cwd p ≠ none := by
    rw [hcwd]
    exact Option.some_ne_none cwd
  have hvfs : ∀ {x : FsM ℤ}, Returns x s.vfs (fun _ v => Holding s.base p 0 0 o v) →
      Returns (SysM.vfs x) s (fun _ s' => Counted p ∅ 0 0 0 o s') := by
    intro x hx
    exact (h.runVfs hx).imp (fun _ _ h => h.2.2)
  cases c with
  | dup fd => exact h.sysDup hcwd' fd
  | read fd n killed => exact h.sysRead fd n killed
  | write fd addr killed => exact h.sysWrite fd addr killed
  | close fd => exact h.sysClose fd
  | link old new => exact hvfs (h.vfs.sysLink cwd old new)
  | unlink path => exact hvfs (h.vfs.sysUnlink cwd path)
  | openPath path omode => exact h.sysOpen hcwd' cwd path omode
  | mkdir path => exact hvfs (h.vfs.sysCreate cwd path T_DIR 0 0)
  | mknod path major minor => exact hvfs (h.vfs.sysCreate cwd path T_DEV major minor)
  | chdir path => exact h.sysChdir hcwd path
  | exec path setupkvm alloc stack => exact hvfs (h.vfs.exec cwd path setupkvm alloc stack)
  | pipe page =>
    refine h.sysPipe hcwd' page ?_
    rintro q rfl
    exact hvalid
  | nicefork child copyuvm =>
    refine h.nicefork cwd child ?_ copyuvm
    rintro q rfl
    exact hvalid
  | exit => exact h.exit hcwd
  | reject => exact h

end Counted

end Xv6Bfs
