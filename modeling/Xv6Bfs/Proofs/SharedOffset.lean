import Xv6Bfs.Proofs.RefCount

/-!
# Shared offsets

Processes that share one `struct file` for a regular file. The inode's lock is held while bytes
are moved and the offset is advanced, and nobody else moves a byte or the offset meanwhile
(`Sharing.step_locked`), so a call of `fileread` is one step, and a call of `filewrite` as many
steps as it has chunks.
-/

namespace Xv6Bfs

open Function List Outcome Program Transition

structure Chunk where
  start : ℕ
  bytes : List (BitVec 8)
  written : Bool
  deriving DecidableEq

structure Sharing where
  sys : Sys
  /-- The `filewrite` that a process is in: the bytes, and how many of them are written. -/
  writing : Slot → Option (List (BitVec 8) × ℕ)
  /-- The chunks in the order of their sections. -/
  chunks : List Chunk

inductive ShareEvent
  | fileread (p : Slot) (n : BitVec 32)
  | filewrite (p : Slot) (addr : List (BitVec 8))
  | writeRound (p : Slot)

namespace Sharing

variable (sb : FsSuperblock) (devsw : Devsw) (f : Fin NFILE)

/-- A section that moves no byte leaves no chunk. -/
def record (chunks : List Chunk) (c : Chunk) : List Chunk :=
  if c.bytes = [] then chunks else chunks ++ [c]

def step (s : Sharing) : ShareEvent → Option Sharing
  | .fileread p n =>
    if s.writing p ≠ none then none
    else match SysM.fileread sb devsw p f n false s.sys with
      | .ok bytes sys =>
        some { s with
          sys := sys
          chunks := record s.chunks ⟨(s.sys.ftable f).off.toNat, bytes.getD [], false⟩ }
      | .error _ _ => none
  | .filewrite p addr =>
    if s.writing p ≠ none ∨ 2 ^ 31 ≤ addr.length then none
    else if (s.sys.ftable f).writable then
      some { s with writing := update s.writing p (some (addr, 0)) }
    else some s
  | .writeRound p =>
    match s.writing p with
    | none => none
    | some (addr, i) =>
      match SysM.writeRound sb devsw p f addr i s.sys with
      | .ok (.inl j) sys =>
        some ⟨sys, update s.writing p (some (addr, j)),
          record s.chunks ⟨(s.sys.ftable f).off.toNat, (addr.drop i).take (j - i), true⟩⟩
      | .ok (.inr _) sys => some { s with sys := sys, writing := update s.writing p none }
      | .error _ _ => none

end Sharing

/-! ### Sections exclude each other -/

section Locked

variable {sb : FsSuperblock} {devsw : Devsw} {f : Fin NFILE} {p : Slot}

lemma ilock_locked {v : Vfs} {ip : Fin NINODE} (hlock : (v.fs.icache ip).lock ≠ none) :
    Returns (FsM.ilock sb p ip) v (fun _ _ => False) := by
  unfold FsM.ilock FsM.acquiresleep
  simp only [wp_bind, wp_inode]
  split
  · trivial
  · simp [hlock]

variable {s : Sys} (hlock : (s.vfs.fs.icache (s.ftable f).ip).lock ≠ none)

include hlock

lemma fileread_locked (htype : (s.ftable f).type = .inode) (n : BitVec 32) :
    Returns (SysM.fileread sb devsw p f n false) s (fun r s' => r = none ∧ s' = s) := by
  unfold SysM.fileread
  rw [Returns, wp_bind, wp_file]
  split
  · exact ⟨rfl, rfl⟩
  · rw [htype]
    dsimp only
    rw [wp_bind, wp_vfs]
    exact (ilock_locked hlock).imp (fun _ _ h => h.elim)

lemma writeRound_locked (addr : List (BitVec 8)) (i : ℕ) :
    Returns (SysM.writeRound sb devsw p f addr i) s (fun r s' => (∃ z, r = .inr z) ∧ s' = s) := by
  unfold SysM.writeRound SysM.writeChunk
  split
  · rw [Returns, wp_bind, wp_bind, wp_vfs]
    unfold FsM.beginOp
    rw [wp_modify, wp_bind, wp_file, wp_bind, wp_vfs]
    exact Wp.imp (ilock_locked (v := { s.vfs with outstanding := s.vfs.outstanding + 1 }) hlock) (fun _ _ h => h.elim)
  · exact ⟨⟨_, rfl⟩, rfl⟩

end Locked

/-- While the inode is locked no step moves a byte or the offset. -/
lemma Sharing.step_locked {sb : FsSuperblock} {devsw : Devsw} {f : Fin NFILE} {s s' : Sharing} {e : ShareEvent}
    (hlock : (s.sys.vfs.fs.icache (s.sys.ftable f).ip).lock ≠ none) (htype : (s.sys.ftable f).type = .inode)
    (hstep : s.step sb devsw f e = some s') : s'.sys = s.sys ∧ s'.chunks = s.chunks := by
  cases e with
  | fileread p n =>
    rw [step] at hstep
    split at hstep
    · cases hstep
    split at hstep
    · rename_i hcall
      obtain ⟨rfl, rfl⟩ := Returns.of_ok (fileread_locked hlock htype n) hcall
      cases hstep
      exact ⟨rfl, by simp [record]⟩
    · cases hstep
  | filewrite p addr =>
    rw [step] at hstep
    split at hstep
    · cases hstep
    split at hstep <;> cases hstep <;> exact ⟨rfl, rfl⟩
  | writeRound p =>
    rw [step] at hstep
    split at hstep
    · cases hstep
    split at hstep
    · rename_i hcall
      obtain ⟨⟨_, ⟨⟩⟩, -⟩ := Returns.of_ok (writeRound_locked hlock _ _) hcall
    · rename_i hcall
      obtain ⟨-, rfl⟩ := Returns.of_ok (writeRound_locked hlock _ _) hcall
      cases hstep
      exact ⟨rfl, rfl⟩
    · cases hstep

/-- The inode is that of a regular file that is open and not locked. -/
structure Regular (sb : FsSuperblock) (ip : Fin NINODE) (fs : Fs) : Prop where
  inv : FsInv sb fs
  ref : 0 < (fs.icache ip).ref
  lock : (fs.icache ip).lock = none
  type : ((fs.content.image sb).inode (fs.icache ip).inum).type = T_FILE

def Fs.fileBytes (sb : FsSuperblock) (fs : Fs) (ip : Fin NINODE) : List (BitVec 8) :=
  let im := fs.content.image sb
  let d := im.inode (fs.icache ip).inum
  d.bytes im.data d.size.toNat

def shareSystem (sb : FsSuperblock) (devsw : Devsw) (f : Fin NFILE) (off : BitVec 32) :
    System Sharing ShareEvent where
  init := fun s => Regular sb (s.sys.ftable f).ip s.sys.vfs.fs ∧ (s.sys.ftable f).type = .inode ∧
    (s.sys.ftable f).off = off ∧ (∀ p, s.writing p = none) ∧ s.chunks = []
  step := fun e s => s.step sb devsw f e

/-! ### The file while it is locked -/

/-- A regular file with the content `bytes`, locked by `p`. -/
structure LockedFile (sb : FsSuperblock) (p : Pid) (ip : Fin NINODE) (bytes : List (BitVec 8)) (fs : Fs) :
    Prop where
  inv : FsInv sb fs
  lock : (fs.icache ip).lock = some p
  type : ((fs.content.image sb).inode (fs.icache ip).inum).type = T_FILE
  bytes : fs.fileBytes sb ip = bytes

section Sections

variable {sb : FsSuperblock} {devsw : Devsw} {p : Pid} {ip : Fin NINODE} {v : Vfs} {bytes : List (BitVec 8)}
  {exn : Stop → Vfs → Prop}

def Fs.SameFile (ip : Fin NINODE) (fs fs' : Fs) : Prop :=
  fs'.content = fs.content ∧ (fs'.icache ip).inum = (fs.icache ip).inum

lemma Regular.wp_ilock (h : Regular sb ip v.fs) (p : Pid) :
    Wp (FsM.ilock sb p ip) v (fun _ v' => LockedFile sb p ip (v.fs.fileBytes sb ip) v'.fs ∧ v.fs.SameFile ip v'.fs) exn := by
  have hspec : Spec (v.fs.ilock sb p ip) _ _ := h.inv.ilock p
  rw [Xv6Bfs.wp_ilock h.ref h.lock]
  rw [h.inv.ilock_eq p h.ref, if_neg (by rw [h.type]; decide)] at hspec ⊢
  refine ⟨⟨hspec, ?_, ?_, ?_⟩, rfl, ?_⟩
  · simp [Fs.setInode]
  · simpa [Fs.setInode] using h.type
  · simp [Fs.fileBytes, Fs.setInode]
  · simp [Fs.setInode]

lemma Regular.ilock (h : Regular sb ip v.fs) (p : Pid) :
    Returns (FsM.ilock sb p ip) v (fun _ v' => LockedFile sb p ip (v.fs.fileBytes sb ip) v'.fs) :=
  (h.wp_ilock p).imp (fun _ _ hv => hv.1)

namespace LockedFile

lemma wp_iunlock (h : LockedFile sb p ip bytes v.fs) :
    Wp (FsM.iunlock p ip) v
      (fun _ v' => (Regular sb ip v'.fs ∧ v'.fs.fileBytes sb ip = bytes) ∧ v.fs.SameFile ip v'.fs) exn := by
  have hspec : Spec (v.fs.iunlock p ip) _ _ := h.inv.iunlock p
  rw [FsM.iunlock, wp_lift, spec_map]
  rw [h.inv.iunlock_eq h.lock] at hspec ⊢
  refine ⟨⟨⟨hspec, ?_, ?_, ?_⟩, ?_⟩, rfl, ?_⟩
  · simpa [Fs.setInode] using (h.inv.of_locked h.lock).1
  · simp [Fs.setInode]
  · simpa [Fs.setInode] using h.type
  · rw [← h.bytes]
    simp [Fs.fileBytes, Fs.setInode]
  · simp [Fs.setInode]

lemma iunlock (h : LockedFile sb p ip bytes v.fs) :
    Returns (FsM.iunlock p ip) v (fun _ v' => Regular sb ip v'.fs ∧ v'.fs.fileBytes sb ip = bytes) :=
  h.wp_iunlock.imp (fun _ _ hv => hv.1)

lemma isFile (h : LockedFile sb p ip bytes v.fs) :
    (v.fs.icache ip).toDinode.IsFile ∧ (v.fs.icache ip).type = T_FILE := by
  have htype := h.type
  rw [(h.inv.of_locked h.lock).2.2.2] at htype
  exact ⟨⟨by rw [htype]; decide, by rw [htype]; decide⟩, htype⟩

lemma console {β : Type} (h : LockedFile sb p ip bytes v.fs) (table : ℕ → Option β) :
    Wp (FsM.console sb p table ip) v (fun _ v' => v' = v) exn := by
  unfold FsM.console
  simp only [wp_bind, wp_inode]
  rw [if_neg]
  · rfl
  · have hne : T_FILE ≠ T_DEV := by decide
    simp [FsM.calls, h.isFile.2, hne]

lemma readi (h : LockedFile sb p ip bytes v.fs) (off n : BitVec 32) :
    Returns (FsM.readi sb devsw p ip off n) v (fun r v' => r = readSlice bytes off n ∧ v' = v) := by
  obtain ⟨-, -, -, hd⟩ := h.inv.of_locked h.lock
  have hread : v.fs.readi sb devsw ip off n = .ok (readSlice bytes off n, v.fs) := by
    unfold Fs.readi
    rw [readi_eq_readSlice devsw h.inv.wellFormed hd h.isFile.1, ← h.bytes, Fs.fileBytes, hd]
    simp only [bind, Except.bind, FsInv.setDinode_self]
  unfold FsM.readi
  simp only [wp_bind, wp_lift, hread]
  refine (h.console devsw.read).imp ?_
  rintro - v' rfl
  exact ⟨rfl, rfl⟩

lemma spec_writei (h : LockedFile sb p ip bytes v.fs) (src : List (BitVec 8)) (off n : BitVec 32) :
    Spec (v.fs.writei sb devsw ip src off n)
      (fun r => r.1 = -1 ∧ LockedFile sb p ip bytes r.2 ∨
        r.1 = n.toNat ∧ off.toNat ≤ bytes.length ∧ off.toNat + n.toNat ≤ MAXFILE * BSIZE ∧
          LockedFile sb p ip (bytes.splice off.toNat (src.take n.toNat)) r.2)
      (fun _ => True) := by
  obtain ⟨hip, -, -, hd⟩ := h.inv.of_locked h.lock
  refine (h.inv.writei_cases devsw h.lock src off n).mono ?_ (fun _ _ => trivial)
  rintro ⟨r, fs'⟩ (⟨rfl, hr⟩ | ⟨hr, hoff, hmax, hinv, hs, hfs'⟩)
  · exact .inl ⟨hr h.isFile.1.2, h⟩
  · dsimp only at hr hinv hs hfs' ⊢
    have hlen : bytes.length = (v.fs.icache ip).size.toNat := by
      rw [← h.bytes, Fs.fileBytes, Dinode.length_bytes, hd]
    have hinum : (fs'.icache ip).inum = (v.fs.icache ip).inum := by
      rw [hfs']
      simp [Fs.setDinode]
    refine .inr ⟨hr, by rw [hlen]; exact hoff, hmax, hinv, ?_, ?_, ?_⟩
    · rw [hfs']
      simpa [Fs.setDinode] using h.lock
    · rw [hinum, hs.inode, update_self, hs.attrs]
      exact h.type
    · rw [Fs.fileBytes, hinum, hs.inode, update_self, hs.bytes, ← h.bytes, Fs.fileBytes]

lemma wp_writei {src : List (BitVec 8)} {off n : BitVec 32} (post : ℤ → Fs → Prop) {exn : FsPanic → Prop}
    (hlocked : Spec (v.fs.writei sb devsw ip src off n) (fun r => post r.1 r.2 ∧ ∃ bytes, LockedFile sb p ip bytes r.2) exn) :
    Wp (FsM.writei sb devsw p ip src off n) v (fun r v' => post r v'.fs)
      (fun e _ => ∃ e', e = .panic (.fs e') ∧ exn e') := by
  unfold FsM.writei
  rw [wp_bind, wp_lift]
  refine hlocked.mono ?_ (fun e he => ⟨e, rfl, he⟩)
  rintro ⟨r, fs'⟩ ⟨hpost, bytes, h'⟩
  refine Wp.bind (LockedFile.console (v := { v with fs := fs' }) h' devsw.write) ?_ (fun _ _ h => h)
  rintro - v' rfl
  exact hpost

lemma writei (h : LockedFile sb p ip bytes v.fs) (src : List (BitVec 8)) (off n : BitVec 32) :
    Returns (FsM.writei sb devsw p ip src off n) v (fun r v' =>
      r = -1 ∧ LockedFile sb p ip bytes v'.fs ∨
        r = n.toNat ∧ off.toNat ≤ bytes.length ∧ off.toNat + n.toNat ≤ MAXFILE * BSIZE ∧
          LockedFile sb p ip (bytes.splice off.toNat (src.take n.toNat)) v'.fs) := by
  refine (wp_writei (fun r fs => r = -1 ∧ LockedFile sb p ip bytes fs ∨
    r = n.toNat ∧ off.toNat ≤ bytes.length ∧ off.toNat + n.toNat ≤ MAXFILE * BSIZE ∧
      LockedFile sb p ip (bytes.splice off.toNat (src.take n.toNat)) fs) ((h.spec_writei src off n).imp ?_)).returns
  rintro ⟨r, fs'⟩ hcases
  exact ⟨hcases, hcases.elim (fun hl => ⟨_, hl.2⟩) (fun hr => ⟨_, hr.2.2.2⟩)⟩

end LockedFile

end Sections

/-! ### Sections -/

/-- A section has advanced the offset of `f` by `n` and left the file with the content `bytes`. -/
structure Advanced (sb : FsSuperblock) (f : Fin NFILE) (s s' : Sys) (n : ℕ) (bytes : List (BitVec 8)) :
    Prop where
  regular : Regular sb (s'.ftable f).ip s'.vfs.fs
  file : s'.ftable f = { s.ftable f with off := (s'.ftable f).off }
  off : (s'.ftable f).off.toNat = (s.ftable f).off.toNat + n
  bytes : s'.vfs.fs.fileBytes sb (s'.ftable f).ip = bytes

section Sections

variable {sb : FsSuperblock} {devsw : Devsw} {f : Fin NFILE} {s : Sys}

lemma Regular.length_le {ip : Fin NINODE} {fs : Fs} (h : Regular sb ip fs) :
    (fs.fileBytes sb ip).length ≤ MAXFILE * BSIZE := by
  have hfile : ((fs.content.image sb).inode (fs.icache ip).inum).IsFile := by
    rw [Dinode.IsFile, h.type]
    decide
  rw [Fs.fileBytes, Dinode.length_bytes]
  exact (h.inv.wellFormed.noHoles _ hfile).size_le

lemma toNat_add_ofNat {off : BitVec 32} {n : ℕ} (h : off.toNat + n ≤ MAXFILE * BSIZE) :
    (off + BitVec.ofNat 32 n).toNat = off.toNat + n := by
  have hfits : MAXFILE * BSIZE < 2 ^ 32 := by decide
  rw [BitVec.toNat_add, BitVec.toNat_ofNat, Nat.add_mod_mod, Nat.mod_eq_of_lt (by omega)]

lemma wp_advance {x : File} {n : ℕ} {post : Unit → Sys → Prop} {exn : Stop → Sys → Prop} (hx : s.ftable f = x)
    (hpost : post () { s with ftable := update s.ftable f { x with off := x.off + BitVec.ofNat 32 n } }) :
    Wp (if 0 < n then SysM.setFile f { x with off := x.off + BitVec.ofNat 32 n } else pure ()) s post exn := by
  split
  · exact hpost
  · rename_i hn
    obtain rfl : n = 0 := by omega
    subst hx
    simpa using hpost

lemma readSlice_getD (bytes : List (BitVec 8)) (off n : BitVec 32) :
    (readSlice bytes off n).getD [] = (bytes.drop off.toNat).take ((readSlice bytes off n).getD []).length ∧
      (((readSlice bytes off n).getD []).length = 0 ∨
        off.toNat + ((readSlice bytes off n).getD []).length ≤ bytes.length) := by
  unfold readSlice
  split
  · exact ⟨rfl, .inl rfl⟩
  · rename_i hcond
    simp only [Option.getD_some, length_take, length_drop]
    refine ⟨?_, .inr (by omega)⟩
    rw [← length_drop, take_eq_take_iff]
    omega

lemma Regular.fileread (h : Regular sb (s.ftable f).ip s.vfs.fs) (htype : (s.ftable f).type = .inode) (p : Slot)
    (n : BitVec 32) (killed : Bool) :
    Returns (SysM.fileread sb devsw p f n killed) s (fun r s' =>
      Advanced sb f s s' (r.getD []).length (s.vfs.fs.fileBytes sb (s.ftable f).ip) ∧
      r.getD [] = ((s.vfs.fs.fileBytes sb (s.ftable f).ip).drop (s.ftable f).off.toNat).take (r.getD []).length) := by
  unfold SysM.fileread
  rw [Returns, wp_bind, wp_file]
  split
  · exact ⟨⟨h, rfl, rfl, rfl⟩, rfl⟩
  rw [htype]
  dsimp only
  rw [wp_bind, wp_vfs]
  refine (h.ilock p).imp ?_
  rintro - v hlocked
  rw [wp_bind, wp_file, wp_bind, wp_vfs]
  refine (hlocked.readi (s.ftable f).off n).imp ?_
  rintro r v' ⟨rfl, rfl⟩
  obtain ⟨hslice, hlen⟩ := readSlice_getD (s.vfs.fs.fileBytes sb (s.ftable f).ip) (s.ftable f).off n
  have hmax := h.length_le
  dsimp only
  rw [wp_bind]
  refine wp_advance rfl ?_
  rw [wp_bind, wp_vfs]
  refine hlocked.iunlock.imp ?_
  rintro - v'' ⟨hregular, hbytes⟩
  simp only [wp_pure]
  refine ⟨⟨?_, ?_, ?_, ?_⟩, hslice⟩
  · simpa using hregular
  · simp
  · simp only [update_self]
    rcases hlen with hzero | hle
    · rw [hzero]
      simp
    · exact toNat_add_ofNat (by omega)
  · simpa using hbytes

lemma Regular.writeChunk (h : Regular sb (s.ftable f).ip s.vfs.fs) (p : Slot) (addr : List (BitVec 8)) {n1 : ℕ}
    (hn1 : n1 < 2 ^ 32) :
    Returns (SysM.writeChunk sb devsw p f addr n1) s (fun r s' =>
      r = -1 ∧ Advanced sb f s s' 0 (s.vfs.fs.fileBytes sb (s.ftable f).ip) ∨
      r = n1 ∧ (s.ftable f).off.toNat ≤ (s.vfs.fs.fileBytes sb (s.ftable f).ip).length ∧
        Advanced sb f s s' n1
          ((s.vfs.fs.fileBytes sb (s.ftable f).ip).splice (s.ftable f).off.toNat (addr.take n1))) := by
  have hn : (BitVec.ofNat 32 n1).toNat = n1 := by
    rw [BitVec.toNat_ofNat, Nat.mod_eq_of_lt hn1]
  unfold SysM.writeChunk
  rw [Returns, wp_bind, wp_vfs]
  unfold FsM.beginOp
  rw [wp_modify, wp_bind, wp_file, wp_bind, wp_vfs]
  refine (Regular.ilock (v := { s.vfs with outstanding := s.vfs.outstanding + 1 }) h p).imp ?_
  rintro - v hlocked
  rw [wp_bind, wp_file, wp_bind, wp_vfs]
  refine (hlocked.writei addr (s.ftable f).off (BitVec.ofNat 32 n1)).imp ?_
  rw [hn]
  rintro r v' (⟨rfl, hlocked⟩ | ⟨rfl, hle, hmax, hlocked⟩)
  · rw [wp_bind, if_neg (by decide), wp_pure, wp_bind, wp_vfs]
    refine hlocked.iunlock.imp ?_
    rintro - v'' ⟨hregular, hbytes⟩
    exact .inl ⟨rfl, hregular, rfl, rfl, hbytes⟩
  · rw [wp_bind]
    simp only [Int.natCast_pos, BitVec.ofInt_natCast]
    refine wp_advance rfl ?_
    rw [wp_bind, wp_vfs]
    refine hlocked.iunlock.imp ?_
    rintro - v'' ⟨hregular, hbytes⟩
    refine .inr ⟨rfl, hle, ?_, ?_, ?_, ?_⟩
    · simpa using hregular
    · simp
    · simp only [update_self]
      exact toNat_add_ofNat hmax
    · simpa using hbytes

lemma Regular.writeRound (h : Regular sb (s.ftable f).ip s.vfs.fs) (p : Slot) (addr : List (BitVec 8)) (i : ℕ) :
    Returns (SysM.writeRound sb devsw p f addr i) s (fun r s' => match r with
      | .inr _ => Advanced sb f s s' 0 (s.vfs.fs.fileBytes sb (s.ftable f).ip)
      | .inl j => ((addr.drop i).take (j - i)).length ≤ 1536 ∧
        (s.ftable f).off.toNat ≤ (s.vfs.fs.fileBytes sb (s.ftable f).ip).length ∧
        Advanced sb f s s' ((addr.drop i).take (j - i)).length
          ((s.vfs.fs.fileBytes sb (s.ftable f).ip).splice (s.ftable f).off.toNat ((addr.drop i).take (j - i)))) := by
  have hmax : SysM.writeMax = 1536 := by decide
  unfold SysM.writeRound
  split
  · rename_i hi
    have hn1 : min (addr.length - i) SysM.writeMax < 2 ^ 32 := by omega
    refine (h.writeChunk p (addr.drop i) hn1).bind ?_
    rintro r s' (⟨rfl, hadv⟩ | ⟨rfl, hle, hadv⟩)
    · rw [if_pos (by decide)]
      exact hadv
    · rw [if_neg (by omega), if_neg (by simp)]
      rw [Returns, wp_pure]
      dsimp only
      rw [Nat.add_sub_cancel_left]
      have hlen : ((addr.drop i).take (min (addr.length - i) SysM.writeMax)).length =
          min (addr.length - i) SysM.writeMax := by
        rw [length_take, length_drop]
        omega
      refine ⟨by omega, hle, ?_⟩
      rw [hlen]
      exact hadv
  · exact ⟨h, rfl, rfl, rfl⟩

end Sections

/-! ### Runs -/

/-- The chunk lies before the offset, and the file has its bytes there. -/
def Chunk.In (c : Chunk) (bytes : List (BitVec 8)) (off : ℕ) : Prop :=
  c.start + c.bytes.length ≤ off ∧ off ≤ bytes.length ∧ (bytes.drop c.start).take c.bytes.length = c.bytes

namespace Sharing

def total (chunks : List Chunk) : ℕ :=
  (chunks.map (·.bytes.length)).sum

structure Inv (sb : FsSuperblock) (f : Fin NFILE) (off : BitVec 32) (s : Sharing) : Prop where
  regular : Regular sb (s.sys.ftable f).ip s.sys.vfs.fs
  type : (s.sys.ftable f).type = .inode
  offset : (s.sys.ftable f).off.toNat = off.toNat + total s.chunks
  start : ∀ k c, s.chunks[k]? = some c → c.start = off.toNat + total (s.chunks.take k)
  length : ∀ c ∈ s.chunks, c.written = true → c.bytes.length ≤ 1536
  bytes : ∀ c ∈ s.chunks, c.In (s.sys.vfs.fs.fileBytes sb (s.sys.ftable f).ip) (s.sys.ftable f).off.toNat

section Runs

variable {sb : FsSuperblock} {devsw : Devsw} {f : Fin NFILE} {off : BitVec 32} {s s' : Sharing}
  {writing : Slot → Option (List (BitVec 8) × ℕ)} {sys : Sys}

lemma total_append (cs : List Chunk) (c : Chunk) : total (cs ++ [c]) = total cs + c.bytes.length := by
  simp [total]

lemma total_take_le {cs : List Chunk} {j k : ℕ} (hj : j < cs.length) (hjk : j < k) :
    total (cs.take j) + (cs.get ⟨j, hj⟩).bytes.length ≤ total (cs.take k) := by
  have hsplit : cs.take k = cs.take j ++ [cs.get ⟨j, hj⟩] ++ (cs.take k).drop (j + 1) := by
    have hprefix : (cs.take k).take (j + 1) = cs.take j ++ [cs.get ⟨j, hj⟩] := by
      rw [take_take, Nat.min_eq_left hjk]
      exact (take_append_getElem hj).symm
    rw [← hprefix, take_append_drop]
  rw [hsplit]
  simp only [total, map_append, sum_append, map_singleton, sum_singleton]
  omega

lemma total_record (cs : List Chunk) (c : Chunk) : total (record cs c) = total cs + c.bytes.length := by
  unfold record
  split
  · rename_i hnil
    rw [hnil]
    rfl
  · exact total_append cs c

lemma mem_record {cs : List Chunk} {c c' : Chunk} (h : c' ∈ record cs c) : c' ∈ cs ∨ c.bytes ≠ [] ∧ c' = c := by
  unfold record at h
  split at h
  · exact .inl h
  · rename_i hne
    rw [mem_append, mem_singleton] at h
    exact h.imp_right (fun hc => ⟨hne, hc⟩)

lemma Inv.advance (h : Inv sb f off s)
    {src bytes : List (BitVec 8)} {written : Bool} (hadv : Advanced sb f s.sys sys src.length bytes)
    (hlen : written = true → src.length ≤ 1536)
    (hkeep : ∀ c : Chunk, c.In (s.sys.vfs.fs.fileBytes sb (s.sys.ftable f).ip) (s.sys.ftable f).off.toNat →
      c.In bytes ((s.sys.ftable f).off.toNat + src.length))
    (hnew : src ≠ [] → Chunk.In ⟨(s.sys.ftable f).off.toNat, src, written⟩ bytes
      ((s.sys.ftable f).off.toNat + src.length)) :
    Inv sb f off ⟨sys, writing, record s.chunks ⟨(s.sys.ftable f).off.toNat, src, written⟩⟩ := by
  refine ⟨hadv.regular, ?_, ?_, ?_, ?_, ?_⟩
  · dsimp only
    rw [hadv.file]
    exact h.type
  · dsimp only
    rw [hadv.off, total_record, h.offset, Nat.add_assoc]
  · intro k c hk
    dsimp only at hk ⊢
    unfold record at hk ⊢
    split at hk
    · rename_i hnil
      rw [if_pos hnil]
      exact h.start k c hk
    · rename_i hne
      rw [if_neg hne]
      rw [getElem?_append] at hk
      split at hk
      · rename_i hlt
        rw [take_append_of_le_length hlt.le]
        exact h.start k c hk
      · obtain ⟨hlt, hc⟩ := List.getElem?_eq_some_iff.mp hk
        rw [length_singleton] at hlt
        rw [take_append_of_le_length (by omega), take_of_length_le (by omega), ← h.offset]
        have hzero : k - s.chunks.length = 0 := by omega
        simp only [hzero, getElem_cons_zero] at hc
        rw [← hc]
  · intro c hc hw
    rcases mem_record hc with hc | ⟨-, rfl⟩
    · exact h.length c hc hw
    · exact hlen hw
  · intro c hc
    dsimp only
    rw [hadv.bytes, hadv.off]
    rcases mem_record hc with hc | ⟨hne, rfl⟩
    · exact hkeep c (h.bytes c hc)
    · exact hnew hne

lemma Inv.idle (h : Inv sb f off s)
    (hadv : Advanced sb f s.sys sys 0 (s.sys.vfs.fs.fileBytes sb (s.sys.ftable f).ip)) :
    Inv sb f off ⟨sys, writing, s.chunks⟩ := by
  have hrecord : record s.chunks ⟨(s.sys.ftable f).off.toNat, [], false⟩ = s.chunks := if_pos rfl
  rw [← hrecord]
  exact h.advance hadv nofun (fun _ hc => hc) (fun hne => absurd rfl hne)

lemma Inv.fileread (h : Inv sb f off s) {p : Slot} {n : BitVec 32} {r : Option (List (BitVec 8))}
    (hcall : SysM.fileread sb devsw p f n false s.sys = .ok r sys) :
    Inv sb f off ⟨sys, s.writing, record s.chunks ⟨(s.sys.ftable f).off.toNat, r.getD [], false⟩⟩ := by
  obtain ⟨hadv, hslice⟩ := Returns.of_ok (h.regular.fileread h.type p n false) hcall
  have hlen := congrArg List.length hslice
  rw [length_take, length_drop] at hlen
  refine h.advance hadv nofun ?_ ?_
  · rintro c ⟨hend, hoff, hbytes⟩
    exact ⟨by omega, by omega, hbytes⟩
  · intro hne
    have hpos := length_pos_iff.mpr hne
    exact ⟨le_rfl, by omega, hslice.symm⟩

lemma Inv.writeRound (h : Inv sb f off s) {p : Slot} {addr : List (BitVec 8)} {i : ℕ} {r : ℕ ⊕ ℤ}
    (hcall : SysM.writeRound sb devsw p f addr i s.sys = .ok r sys)
    :
    match r with
    | .inr _ => Inv sb f off ⟨sys, writing, s.chunks⟩
    | .inl j => Inv sb f off ⟨sys, writing,
        record s.chunks ⟨(s.sys.ftable f).off.toNat, (addr.drop i).take (j - i), true⟩⟩ := by
  have hround := Returns.of_ok (h.regular.writeRound p addr i) hcall
  cases r with
  | inr r => exact h.idle hround
  | inl j =>
    obtain ⟨hmax, hle, hadv⟩ := hround
    refine h.advance hadv (fun _ => hmax) ?_ ?_
    · rintro c ⟨hend, hoff, hbytes⟩
      refine ⟨by omega, by rw [List.length_splice hle]; omega, ?_⟩
      rw [List.take_drop_splice_of_le hle hend]
      exact hbytes
    · intro _
      refine ⟨le_rfl, by rw [List.length_splice hle]; omega, ?_⟩
      exact List.take_drop_splice_self hle

/-- One section appends one chunk. -/
lemma Inv.step (h : Inv sb f off s) {e : ShareEvent} (hstep : s.step sb devsw f e = some s') : Inv sb f off s' := by
  cases e with
  | fileread p n =>
    rw [Sharing.step] at hstep
    split at hstep
    · cases hstep
    split at hstep
    · rename_i bytes sys hcall
      cases hstep
      exact h.fileread hcall
    · cases hstep
  | filewrite p addr =>
    rw [Sharing.step] at hstep
    split at hstep
    · cases hstep
    split at hstep <;> cases hstep
    · exact { h with }
    · exact h
  | writeRound p =>
    rw [Sharing.step] at hstep
    split at hstep
    · cases hstep
    split at hstep
    · rename_i hcall
      cases hstep
      exact h.writeRound hcall
    · rename_i hcall
      cases hstep
      exact h.writeRound hcall
    · cases hstep

lemma inv_of_reachable (hs : Reachable (shareSystem sb devsw f off) s) : Inv sb f off s := by
  apply Reach.invariant _ _ _ hs
  · rintro s ⟨hregular, htype, rfl, -, hnil⟩
    refine ⟨hregular, htype, ?_, ?_, ?_, ?_⟩ <;> simp [hnil, total]
  · intro s e s' h _ hstep
    exact h.step hstep

end Runs

end Sharing

/-- However the calls of the processes interleave, the chunks that are read and written lie one
after the other from the first offset on, the offset is where the last one ends, a chunk that is
written has at most 1536 bytes, and the file holds each chunk in its range. -/
theorem shared_offset_loses_nothing {sb : FsSuperblock} {devsw : Devsw} {f : Fin NFILE} {off : BitVec 32}
    {s : Sharing} (hs : Reachable (shareSystem sb devsw f off) s) :
    (∀ k c, s.chunks[k]? = some c → c.start = off.toNat + ((s.chunks.take k).map (·.bytes.length)).sum) ∧
    s.chunks.Pairwise (fun c c' => c.start + c.bytes.length ≤ c'.start) ∧
    (s.sys.ftable f).off.toNat = off.toNat + (s.chunks.map (·.bytes.length)).sum ∧
    ∀ c ∈ s.chunks, (c.written = true → c.bytes.length ≤ 1536) ∧
      ((s.sys.vfs.fs.fileBytes sb (s.sys.ftable f).ip).drop c.start).take c.bytes.length = c.bytes := by
  have h := Sharing.inv_of_reachable hs
  refine ⟨h.start, ?_, h.offset, fun c hc => ⟨h.length c hc, (h.bytes c hc).2.2⟩⟩
  rw [pairwise_iff_getElem]
  intro j k hj hk hjk
  rw [h.start j _ (getElem?_eq_getElem hj), h.start k _ (getElem?_eq_getElem hk), Nat.add_assoc]
  exact Nat.add_le_add_left (Sharing.total_take_le hj hjk) _

def sharedFile : Sharing where
  sys := {
    vfs := ⟨⟨smallImage ⟨T_FILE, 0, 0, 1, 0, fun _ => 0⟩,
      update (fun _ => ⟨Dinode.zero, 0, 0, none, false⟩) 0 ⟨Dinode.zero, 1, 1, none, false⟩⟩, 0, []⟩
    ftable := fun _ => ⟨.inode, 1, true, true, 0, 0, 0⟩
    pipes := fun _ => none
    ofile := fun _ _ => none
    cwd := fun _ => none }
  writing := fun _ => none
  chunks := []

lemma FsSuperblock.Small.sharedFile {sb : FsSuperblock} (hsb : sb.Small) :
    Regular sb 0 sharedFile.sys.vfs.fs ∧ sharedFile.sys.vfs.fs.fileBytes sb 0 = [] := by
  have hinode : ((Xv6Bfs.sharedFile.sys.vfs.fs.content.image sb).inode 1) = ⟨T_FILE, 0, 0, 1, 0, fun _ => 0⟩ :=
    inode_smallImage hsb _ 1
  have hempty : FsInv sb
      ⟨smallImage ⟨T_FILE, 0, 0, 1, 0, fun _ => 0⟩, fun _ => ⟨Dinode.zero, 0, 0, none, false⟩⟩ := by
    have hwf := hsb.wellFormed ⟨T_FILE, 0, 0, 1, 0, fun _ => 0⟩ rfl (fun _ => rfl)
    refine ⟨hwf, ?_, ?_, ?_, ?_⟩
    · exact fun ip jp hip => absurd hip (Nat.lt_irrefl 0)
    · exact fun ip hip => absurd hip (Nat.lt_irrefl 0)
    · exact fun ip hip => absurd hip (Nat.lt_irrefl 0)
    · exact fun ip hlock => absurd rfl hlock
  have hget : Fs.iget ⟨smallImage ⟨T_FILE, 0, 0, 1, 0, fun _ => 0⟩, fun _ => ⟨Dinode.zero, 0, 0, none, false⟩⟩ 1 =
      .ok (0, Xv6Bfs.sharedFile.sys.vfs.fs) := rfl
  have hrange : 1 < sb.ninodes := by
    rw [hsb.1]
    decide
  refine ⟨⟨(hempty.iget hrange).of_ok hget, by decide, rfl, congrArg Dinode.type hinode⟩, ?_⟩
  apply length_eq_zero_iff.mp
  rw [Fs.fileBytes, Dinode.length_bytes]
  exact congrArg (fun d : Dinode => d.size.toNat) hinode

lemma sharedFile_regular : Regular smallSuperblock 0 sharedFile.sys.vfs.fs :=
  smallSuperblock_small.sharedFile.1

/-- Two processes write by turns, the first in two chunks. -/
theorem shared_offset_loses_nothing_interleaved :
    ∃ s, Reachable (shareSystem smallSuperblock ⟨fun _ => none, fun _ => none⟩ 0 0) s ∧
      s.chunks.map (·.start) = [0, 1536, 1538] ∧
      s.chunks.Pairwise (fun c c' => c.start + c.bytes.length ≤ c'.start) := by
  have hrun : ∃ s ∈ run (shareSystem smallSuperblock ⟨fun _ => none, fun _ => none⟩ 0 0)
      [.filewrite 0 (List.replicate 1540 7), .filewrite 1 [1, 2], .writeRound 0, .writeRound 1, .writeRound 0]
      sharedFile, s.chunks.map (·.start) = [0, 1536, 1538] := by
    decide +kernel
  obtain ⟨s, hs, hstart⟩ := hrun
  have hreach : Reachable (shareSystem smallSuperblock ⟨fun _ => none, fun _ => none⟩ 0 0) s :=
    Reachable.run (Reach.init ⟨sharedFile_regular, rfl, rfl, fun _ => rfl, rfl⟩) hs
  exact ⟨s, hreach, hstart, (shared_offset_loses_nothing hreach).2.1⟩

end Xv6Bfs
