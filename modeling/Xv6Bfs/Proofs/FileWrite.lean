import Xv6Bfs.Proofs.SharedOffset

/-!
# Writing in pieces

`filewrite` cuts a request into pieces and writes each of them with a `writei` of its own.
-/

namespace Xv6Bfs

open List Outcome Program

def Fs.room (sb : FsSuperblock) (fs : Fs) (ip : Fin NINODE) : ℕ :=
  ((fs.content.image sb).free sb).card + blocksFor (fs.fileBytes sb ip).length

lemma Fs.SameFile.room {sb : FsSuperblock} {fs fs' : Fs} {ip : Fin NINODE} (h : fs.SameFile ip fs') :
    fs'.room sb ip = fs.room sb ip := by
  unfold Fs.room Fs.fileBytes
  rw [h.1, h.2]

section Locked

variable {sb : FsSuperblock} {devsw : Devsw} {p : Pid} {ip : Fin NINODE} {v : Vfs} {bytes : List (BitVec 8)}

lemma LockedFile.writei_result (h : LockedFile sb p ip bytes v.fs) (src : List (BitVec 8)) (off n : BitVec 32)
    (hn : n.toNat ≤ src.length) (hoff : off.toNat ≤ bytes.length) (hfits : off.toNat + n.toNat < 2 ^ 32) :
    Spec (v.fs.writei sb devsw ip src off n)
      (fun r => r.2.room sb ip = v.fs.room sb ip ∧
        r.1 = if off.toNat + n.toNat ≤ MAXFILE * BSIZE then (n.toNat : ℤ) else -1)
      (fun e => e = .ballocOutOfBlocks ∧ off.toNat + n.toNat ≤ MAXFILE * BSIZE ∧
        v.fs.room sb ip < blocksFor (max bytes.length (off.toNat + n.toNat))) := by
  obtain ⟨hip, -, -, hd⟩ := h.inv.of_locked h.lock
  have hlen : bytes.length = (v.fs.icache ip).size.toNat := by
    rw [← h.bytes, Fs.fileBytes, Dinode.length_bytes, hd]
  have hroom : v.fs.room sb ip =
      ((v.fs.content.image sb).free sb).card + blocksFor (v.fs.icache ip).size.toNat := by
    rw [Fs.room, h.bytes, hlen]
  unfold Fs.writei
  dsimp only
  by_cases hmax : off.toNat + n.toNat ≤ MAXFILE * BSIZE
  · have hoff' : off ≤ (v.fs.icache ip).size := by
      rw [BitVec.le_def, ← hlen]
      exact hoff
    have htake : (src.take n.toNat).length = n.toNat := by
      rw [length_take, Nat.min_eq_left hn]
    rw [← writei_take]
    refine Spec.bind ((writei_room devsw h.inv.wellFormed (h.inv.range ip hip) hd h.isFile.1 htake.le hoff' hmax).mono
      (fun _ h => h) ?_) ?_
    · rintro e ⟨he, hfull⟩
      rw [htake] at hfull
      refine ⟨he, hmax, ?_⟩
      rw [hroom, hlen]
      exact hfull
    · rintro ⟨r, d, c⟩ ⟨⟨hr, hs⟩, hcard⟩
      refine ⟨?_, by rw [if_pos hmax]; exact hr⟩
      have hinum : ((v.fs.setDinode ip d c).icache ip).inum = (v.fs.icache ip).inum := by
        simp [Fs.setDinode]
      rw [hroom, ← hcard, Fs.room, Fs.fileBytes, hinum, Dinode.length_bytes]
      change _ + blocksFor ((c.image sb).inode (v.fs.icache ip).inum).size.toNat = _
      rw [hs.inode, Function.update_self]
      rfl
  · rw [writei_reject devsw h.isFile.1 src]
    · refine ⟨?_, by rw [if_neg hmax]⟩
      rw [FsInv.setDinode_self]
    · right
      right
      rw [BitVec.toNat_add, Nat.mod_eq_of_lt hfits]
      omega

lemma LockedFile.writei_exact (h : LockedFile sb p ip bytes v.fs) (src : List (BitVec 8)) (off n : BitVec 32)
    (hn : n.toNat ≤ src.length) (hoff : off.toNat ≤ bytes.length) (hfits : off.toNat + n.toNat < 2 ^ 32) :
    Wp (FsM.writei sb devsw p ip src off n) v
      (fun r v' => LockedFile sb p ip (if off.toNat + n.toNat ≤ MAXFILE * BSIZE
          then bytes.splice off.toNat (src.take n.toNat) else bytes) v'.fs ∧ v'.fs.room sb ip = v.fs.room sb ip ∧
        r = if off.toNat + n.toNat ≤ MAXFILE * BSIZE then (n.toNat : ℤ) else -1)
      (fun _ _ => off.toNat + n.toNat ≤ MAXFILE * BSIZE ∧
        v.fs.room sb ip < blocksFor (max bytes.length (off.toNat + n.toNat))) := by
  refine (LockedFile.wp_writei (fun r fs => LockedFile sb p ip (if off.toNat + n.toNat ≤ MAXFILE * BSIZE
      then bytes.splice off.toNat (src.take n.toNat) else bytes) fs ∧ fs.room sb ip = v.fs.room sb ip ∧
      r = if off.toNat + n.toNat ≤ MAXFILE * BSIZE then (n.toNat : ℤ) else -1)
    (((h.writei_result src off n hn hoff hfits).and (h.spec_writei src off n)).imp ?_)).mono
    (fun _ _ h => h) (fun _ _ ⟨_, _, he⟩ => he.2)
  rintro ⟨r, fs'⟩ ⟨⟨hroom, hr⟩, hcases⟩
  dsimp only at hroom hr hcases ⊢
  have hlocked : LockedFile sb p ip (if off.toNat + n.toNat ≤ MAXFILE * BSIZE
      then bytes.splice off.toNat (src.take n.toNat) else bytes) fs' := by
    rcases hcases with ⟨hneg, hlocked⟩ | ⟨hpos, _, hmax, hlocked⟩
    · by_cases hmax : off.toNat + n.toNat ≤ MAXFILE * BSIZE
      · rw [if_pos hmax] at hr
        omega
      · rwa [if_neg hmax]
    · rwa [if_pos hmax]
  exact ⟨⟨hlocked, hroom, hr⟩, _, hlocked⟩

end Locked

/-! ### How far a request comes -/

/-- How many of `n` bytes are written in pieces from `off` on: those in front of the first piece that
passes the largest size. -/
def written (off n : ℕ) : ℕ :=
  if off + n ≤ MAXFILE * BSIZE then n else (MAXFILE * BSIZE - off) / SysM.writeMax * SysM.writeMax

section Written

variable {off n : ℕ}

lemma maxfile_eq : MAXFILE * BSIZE = 71680 := by
  decide

lemma writeMax_eq : SysM.writeMax = 1536 := by
  decide

lemma written_le : written off n ≤ n := by
  unfold written
  split
  · exact le_rfl
  · rw [maxfile_eq, writeMax_eq] at *
    omega

lemma written_of_le (h : off + n ≤ MAXFILE * BSIZE) : written off n = n :=
  if_pos h

lemma written_of_lt (h : MAXFILE * BSIZE < off + min n SysM.writeMax) : written off n = 0 := by
  rw [maxfile_eq, writeMax_eq] at h
  rw [written, maxfile_eq, writeMax_eq, if_neg (by omega), Nat.div_eq_of_lt (by omega), Nat.zero_mul]

lemma written_eq_add (h : off + min n SysM.writeMax ≤ MAXFILE * BSIZE) :
    written off n = min n SysM.writeMax + written (off + min n SysM.writeMax) (n - min n SysM.writeMax) := by
  unfold written
  rw [maxfile_eq, writeMax_eq] at *
  by_cases hn : n ≤ 1536
  · rw [Nat.min_eq_left hn] at *
    rw [if_pos h, if_pos (by omega)]
    omega
  · rw [Nat.min_eq_right (by omega)] at *
    split <;> split <;> omega

end Written

def Writes (sb : FsSuperblock) (f : Fin NFILE) (src : List (BitVec 8)) (w : ℕ) (r : ℤ) (x : SysM ℤ) (s : Sys) : Prop :=
  Wp x s
    (fun r' s' => r' = r ∧
      Advanced sb f s s' w ((s.vfs.fs.fileBytes sb (s.ftable f).ip).splice (s.ftable f).off.toNat (src.take w)) ∧
      s'.vfs.fs.room sb (s.ftable f).ip = s.vfs.fs.room sb (s.ftable f).ip)
    (fun _ _ => s.vfs.fs.room sb (s.ftable f).ip <
      blocksFor (max (s.vfs.fs.fileBytes sb (s.ftable f).ip).length ((s.ftable f).off.toNat + w)))

section Calls

variable {sb : FsSuperblock} {devsw : Devsw} {f : Fin NFILE} {s : Sys}

lemma wp_setFile_if {c : Prop} [Decidable c] {x : File} {post : Unit → Sys → Prop} {exn : Stop → Sys → Prop}
    (hpost : ∀ s₁, s₁.vfs = s.vfs → post () s₁) : Wp (if c then SysM.setFile f x else pure ()) s post exn := by
  split
  · exact hpost _ rfl
  · exact hpost _ rfl

lemma Regular.writes_chunk (h : Regular sb (s.ftable f).ip s.vfs.fs) (devsw : Devsw) (p : Slot) (addr : List (BitVec 8))
    {n1 : ℕ} (hoff : (s.ftable f).off.toNat ≤ (s.vfs.fs.fileBytes sb (s.ftable f).ip).length) (hn1 : n1 ≤ addr.length)
    (hfits : n1 < 2 ^ 31) :
    if (s.ftable f).off.toNat + n1 ≤ MAXFILE * BSIZE
    then Writes sb f addr n1 n1 (SysM.writeChunk sb devsw p f addr n1) s
    else Writes sb f addr 0 (-1) (SysM.writeChunk sb devsw p f addr n1) s := by
  have hn : (BitVec.ofNat 32 n1).toNat = n1 := by
    rw [BitVec.toNat_ofNat, Nat.mod_eq_of_lt (by omega)]
  have hmax := h.length_le
  rw [maxfile_eq] at hmax
  have hresult : Wp (SysM.writeChunk sb devsw p f addr n1) s
      (fun r s' => s'.vfs.fs.room sb (s.ftable f).ip = s.vfs.fs.room sb (s.ftable f).ip ∧
        r = if (s.ftable f).off.toNat + n1 ≤ MAXFILE * BSIZE then (n1 : ℤ) else -1)
      (fun _ _ => (s.ftable f).off.toNat + n1 ≤ MAXFILE * BSIZE ∧ s.vfs.fs.room sb (s.ftable f).ip <
        blocksFor (max (s.vfs.fs.fileBytes sb (s.ftable f).ip).length ((s.ftable f).off.toNat + n1))) := by
    unfold SysM.writeChunk
    rw [wp_bind, wp_vfs]
    unfold FsM.beginOp
    rw [wp_modify, wp_bind, wp_file, wp_bind, wp_vfs]
    refine (Regular.wp_ilock (v := { s.vfs with outstanding := s.vfs.outstanding + 1 }) h p).imp ?_
    rintro - v ⟨hlocked, hsame⟩
    have hroom : v.fs.room sb (s.ftable f).ip = s.vfs.fs.room sb (s.ftable f).ip := hsame.room
    rw [wp_bind, wp_file, wp_bind, wp_vfs]
    refine (hlocked.writei_exact addr (s.ftable f).off (BitVec.ofNat 32 n1) (by omega) hoff (by omega)).mono ?_ ?_
    · rw [hn]
      rintro r v' ⟨hlocked', hroom', rfl⟩
      rw [wp_bind]
      refine wp_setFile_if ?_
      rintro s₁ rfl
      rw [wp_bind, wp_vfs]
      refine hlocked'.wp_iunlock.imp ?_
      rintro - v'' ⟨-, hsame'⟩
      exact ⟨hsame'.room.trans (hroom'.trans hroom), rfl⟩
    · rw [hn, hroom]
      exact fun _ _ he => he
  have hboth := hresult.and_returns (h.writeChunk p addr (show n1 < 2 ^ 32 by omega))
  split
  · rename_i hle
    refine hboth.mono ?_ (fun _ _ he => he.2)
    rintro r s' ⟨⟨hroom, hr⟩, hcases⟩
    rw [if_pos hle] at hr
    obtain ⟨hneg, -⟩ | ⟨-, -, hadv⟩ := hcases
    · omega
    · exact ⟨hr, hadv, hroom⟩
  · rename_i hlt
    refine hboth.mono ?_ (fun _ _ he => absurd he.1 hlt)
    rintro r s' ⟨⟨hroom, hr⟩, hcases⟩
    rw [if_neg hlt] at hr
    obtain ⟨-, hadv⟩ | ⟨hpos, -⟩ := hcases
    · exact ⟨hr, by simpa using hadv, hroom⟩
    · omega

lemma Advanced.trans {s' s'' : Sys} {src : List (BitVec 8)} {n m : ℕ}
    (h : Advanced sb f s s' n
      ((s.vfs.fs.fileBytes sb (s.ftable f).ip).splice (s.ftable f).off.toNat (src.take n)))
    (h' : Advanced sb f s' s'' m
      ((s'.vfs.fs.fileBytes sb (s'.ftable f).ip).splice (s'.ftable f).off.toNat ((src.drop n).take m)))
    (hoff : (s.ftable f).off.toNat ≤ (s.vfs.fs.fileBytes sb (s.ftable f).ip).length) (hn : n ≤ src.length) :
    Advanced sb f s s'' (n + m)
      ((s.vfs.fs.fileBytes sb (s.ftable f).ip).splice (s.ftable f).off.toNat (src.take (n + m))) := by
  refine ⟨h'.regular, ?_, ?_, ?_⟩
  · rw [h'.file, h.file]
  · rw [h'.off, h.off, Nat.add_assoc]
  · have htake : (src.take n).length = n := length_take_of_le hn
    rw [h'.bytes, h.bytes, h.off, take_add, ← List.splice_splice hoff, htake]

lemma Regular.writes_loop (devsw : Devsw) (p : Slot) (addr : List (BitVec 8)) (haddr : addr.length < 2 ^ 31) (fuel : ℕ) :
    ∀ (i : ℕ) (s : Sys), Regular sb (s.ftable f).ip s.vfs.fs →
      (s.ftable f).off.toNat ≤ (s.vfs.fs.fileBytes sb (s.ftable f).ip).length → i ≤ addr.length →
      addr.length - i ≤ fuel →
      Writes sb f (addr.drop i) (written (s.ftable f).off.toNat (addr.length - i))
        (if written (s.ftable f).off.toNat (addr.length - i) = addr.length - i then addr.length else -1)
        (SysM.writeLoop sb devsw p f addr fuel i) s := by
  have hdone : ∀ s : Sys, Regular sb (s.ftable f).ip s.vfs.fs →
      Writes sb f (addr.drop addr.length) (written (s.ftable f).off.toNat (addr.length - addr.length))
        (if written (s.ftable f).off.toNat (addr.length - addr.length) = addr.length - addr.length
          then addr.length else -1) (pure (if addr.length = addr.length then (addr.length : ℤ) else -1)) s := by
    intro s h
    have hzero : written (s.ftable f).off.toNat 0 = 0 := Nat.le_zero.mp written_le
    rw [Nat.sub_self, hzero, if_pos rfl, if_pos rfl]
    exact ⟨rfl, ⟨h, rfl, rfl, by simp⟩, rfl⟩
  induction fuel with
  | zero =>
    intro i s h hoff hi hfuel
    obtain rfl : i = addr.length := by omega
    exact hdone s h
  | succ fuel ih =>
    intro i s h hoff hi hfuel
    unfold SysM.writeLoop
    by_cases hend : i = addr.length
    · subst hend
      have hround : SysM.writeRound sb devsw p f addr addr.length =
          pure (.inr (if addr.length = addr.length then (addr.length : ℤ) else -1)) :=
        if_neg (Nat.lt_irrefl _)
      rw [hround]
      exact hdone s h
    have hlt : i < addr.length := by omega
    have hround : SysM.writeRound sb devsw p f addr i = _ := if_pos hlt
    have hlen : (addr.drop i).length = addr.length - i := length_drop
    have hmax := writeMax_eq
    generalize hn1 : min (addr.length - i) SysM.writeMax = n1 at hround
    have hchunk := h.writes_chunk devsw p (addr.drop i) hoff (show n1 ≤ (addr.drop i).length by omega) (by omega)
    rw [hround]
    unfold Writes
    rw [wp_bind, wp_bind]
    split at hchunk
    · rename_i hle
      rw [← hn1] at hle
      rw [written_eq_add hle, hn1]
      refine hchunk.mono ?_ ?_
      · rintro r s' ⟨rfl, hadv, hroom⟩
        rw [if_neg (by omega), if_neg (by simp), wp_pure]
        have hip : (s'.ftable f).ip = (s.ftable f).ip := by rw [hadv.file]
        have hlen' := congrArg List.length hadv.bytes
        rw [List.length_splice hoff, length_take, Nat.min_eq_left (by omega)] at hlen'
        have hrest := ih (i + n1) s' hadv.regular (by rw [hadv.off, hlen']; omega) (by omega) (by omega)
        rw [hadv.off, ← Nat.sub_sub, ← drop_drop] at hrest
        refine hrest.mono ?_ ?_
        · rintro r s'' ⟨rfl, hadv', hroom'⟩
          rw [hip] at hroom'
          refine ⟨?_, hadv.trans hadv' hoff (by omega), hroom'.trans hroom⟩
          congr 1
          rw [eq_iff_iff]
          omega
        · intro _ _ hfull
          rw [hlen', hadv.off, hip, hroom] at hfull
          refine hfull.trans_eq ?_
          congr 1
          omega
      · intro _ _ hfull
        exact hfull.trans_le (blocksFor_mono (by omega))
    · rename_i hlt
      rw [← hn1] at hlt
      have hzero : written (s.ftable f).off.toNat (addr.length - i) = 0 := written_of_lt (by omega)
      rw [hzero]
      refine hchunk.imp ?_
      rintro r s' ⟨rfl, hadv⟩
      rw [if_pos (by decide), if_neg hend]
      exact ⟨(if_neg (by omega)).symm, hadv⟩

end Calls

/-! ### One write for the whole request -/

def plainWrite (sb : FsSuperblock) (devsw : Devsw) (p : Slot) (f : Fin NFILE) (addr : List (BitVec 8)) : SysM ℤ := do
  let x ← SysM.file f
  if !x.writable then return -1
  else SysM.writeChunk sb devsw p f addr addr.length

def outcome (sb : FsSuperblock) (f : Fin NFILE) (x : SysM ℤ) (s : Sys) : Option (ℤ × List (BitVec 8) × ℕ) :=
  match x s with
  | .ok r s' => some (r, s'.vfs.fs.fileBytes sb (s'.ftable f).ip, (s'.ftable f).off.toNat)
  | .error _ _ => none

/-- The call in pieces and the plain one return the same or panic both, and nothing is written by a call
that returns -1. -/
def AgreesWithPlain (sb : FsSuperblock) (devsw : Devsw) (p : Slot) (f : Fin NFILE) (addr : List (BitVec 8))
    (killed : Bool) (s : Sys) : Prop :=
  outcome sb f (SysM.filewrite sb devsw p f addr killed) s = outcome sb f (plainWrite sb devsw p f addr) s ∧
  ∀ bytes off, outcome sb f (SysM.filewrite sb devsw p f addr killed) s = some (-1, bytes, off) →
    bytes = s.vfs.fs.fileBytes sb (s.ftable f).ip ∧ off = (s.ftable f).off.toNat

def wroteOutcome (sb : FsSuperblock) (f : Fin NFILE) (src : List (BitVec 8)) (s : Sys) (w : ℕ) (r : ℤ) :
    Option (ℤ × List (BitVec 8) × ℕ) :=
  if blocksFor (max (s.vfs.fs.fileBytes sb (s.ftable f).ip).length ((s.ftable f).off.toNat + w)) ≤
      s.vfs.fs.room sb (s.ftable f).ip then
    some (r, (s.vfs.fs.fileBytes sb (s.ftable f).ip).splice (s.ftable f).off.toNat (src.take w),
      (s.ftable f).off.toNat + w)
  else none

section Plain

variable {sb : FsSuperblock} {devsw : Devsw} {f : Fin NFILE} {s : Sys}

lemma wroteOutcome_zero (hoff : (s.ftable f).off.toNat ≤ (s.vfs.fs.fileBytes sb (s.ftable f).ip).length)
    {src : List (BitVec 8)} {r : ℤ} :
    wroteOutcome sb f src s 0 r = some (r, s.vfs.fs.fileBytes sb (s.ftable f).ip, (s.ftable f).off.toNat) := by
  have henough : blocksFor (s.vfs.fs.fileBytes sb (s.ftable f).ip).length ≤ s.vfs.fs.room sb (s.ftable f).ip :=
    Nat.le_add_left _ _
  rw [wroteOutcome, take_zero, List.splice_nil, Nat.add_zero, Nat.max_eq_left hoff, if_pos henough]

lemma Writes.outcome_eq {src : List (BitVec 8)} {w : ℕ} {r : ℤ} {x : SysM ℤ} (h : Writes sb f src w r x s)
    (hoff : (s.ftable f).off.toNat ≤ (s.vfs.fs.fileBytes sb (s.ftable f).ip).length) (hw : w ≤ src.length) :
    outcome sb f x s = wroteOutcome sb f src s w r := by
  unfold Writes Wp at h
  unfold outcome wroteOutcome
  cases hx : x s with
  | ok r' s' =>
    rw [hx] at h
    obtain ⟨rfl, hadv, hroom⟩ := h
    have hip : (s'.ftable f).ip = (s.ftable f).ip := by rw [hadv.file]
    -- the blocks of the file as it is now are among those that there is room for
    have henough : blocksFor (max (s.vfs.fs.fileBytes sb (s.ftable f).ip).length ((s.ftable f).off.toNat + w)) ≤
        s.vfs.fs.room sb (s.ftable f).ip := by
      have hlen := congrArg List.length hadv.bytes
      rw [List.length_splice hoff, length_take_of_le hw, hip] at hlen
      rw [← hroom, ← hlen]
      exact Nat.le_add_left _ _
    rw [if_pos henough]
    dsimp only
    rw [hadv.bytes, hadv.off]
  | error e s' =>
    rw [hx] at h
    rw [if_neg (Nat.not_le.mpr h)]

lemma filewrite_eq (htype : (s.ftable f).type = .inode) (p : Slot) (addr : List (BitVec 8)) (killed : Bool) :
    SysM.filewrite sb devsw p f addr killed s =
      if (s.ftable f).writable then SysM.writeLoop sb devsw p f addr addr.length 0 s else .ok (-1) s := by
  unfold SysM.filewrite
  rw [bind_of_ok (show SysM.file f s = .ok (s.ftable f) s from rfl), htype]
  cases (s.ftable f).writable <;> rfl

lemma plainWrite_eq (p : Slot) (addr : List (BitVec 8)) :
    plainWrite sb devsw p f addr s =
      if (s.ftable f).writable then SysM.writeChunk sb devsw p f addr addr.length s else .ok (-1) s := by
  unfold plainWrite
  rw [bind_of_ok (show SysM.file f s = .ok (s.ftable f) s from rfl)]
  cases (s.ftable f).writable <;> rfl

lemma outcome_filewrite (h : Regular sb (s.ftable f).ip s.vfs.fs) (htype : (s.ftable f).type = .inode)
    (hwritable : (s.ftable f).writable = true)
    (hoff : (s.ftable f).off.toNat ≤ (s.vfs.fs.fileBytes sb (s.ftable f).ip).length) (p : Slot) (addr : List (BitVec 8))
    (haddr : addr.length < 2 ^ 31) (killed : Bool) :
    outcome sb f (SysM.filewrite sb devsw p f addr killed) s =
      wroteOutcome sb f addr s (written (s.ftable f).off.toNat addr.length)
        (if written (s.ftable f).off.toNat addr.length = addr.length then addr.length else -1) := by
  have hloop := Regular.writes_loop devsw p addr haddr addr.length 0 s h hoff (Nat.zero_le _) le_rfl
  rw [Nat.sub_zero, drop_zero] at hloop
  rw [← hloop.outcome_eq hoff written_le, outcome, outcome, filewrite_eq htype, if_pos hwritable]

lemma outcome_plainWrite (h : Regular sb (s.ftable f).ip s.vfs.fs) (hwritable : (s.ftable f).writable = true)
    (hoff : (s.ftable f).off.toNat ≤ (s.vfs.fs.fileBytes sb (s.ftable f).ip).length) (p : Slot) (addr : List (BitVec 8))
    (haddr : addr.length < 2 ^ 31) :
    outcome sb f (plainWrite sb devsw p f addr) s =
      if (s.ftable f).off.toNat + addr.length ≤ MAXFILE * BSIZE then wroteOutcome sb f addr s addr.length addr.length
      else some (-1, s.vfs.fs.fileBytes sb (s.ftable f).ip, (s.ftable f).off.toNat) := by
  have hchunk := h.writes_chunk devsw p addr hoff le_rfl haddr
  have hcall : outcome sb f (plainWrite sb devsw p f addr) s =
      outcome sb f (SysM.writeChunk sb devsw p f addr addr.length) s := by
    rw [outcome, outcome, plainWrite_eq, if_pos hwritable]
  rw [hcall]
  split
  · rename_i hle
    rw [if_pos hle] at hchunk
    exact hchunk.outcome_eq hoff le_rfl
  · rename_i hlt
    rw [if_neg hlt] at hchunk
    rw [hchunk.outcome_eq hoff (Nat.zero_le _), wroteOutcome_zero hoff]

end Plain

/-- A request in pieces agrees with one `writei` if it stays within the largest size, or if already its first
piece passes that size. -/
theorem filewrite_agrees_iff {sb : FsSuperblock} {devsw : Devsw} {f : Fin NFILE} {s : Sys}
    (h : Regular sb (s.ftable f).ip s.vfs.fs) (htype : (s.ftable f).type = .inode)
    (hoff : (s.ftable f).off.toNat ≤ (s.vfs.fs.fileBytes sb (s.ftable f).ip).length) (p : Slot) (addr : List (BitVec 8))
    (haddr : addr.length < 2 ^ 31) (killed : Bool) :
    AgreesWithPlain sb devsw p f addr killed s ↔
      (s.ftable f).writable = false ∨ (s.ftable f).off.toNat + addr.length ≤ MAXFILE * BSIZE ∨
        MAXFILE * BSIZE < (s.ftable f).off.toNat + min addr.length SysM.writeMax := by
  unfold AgreesWithPlain
  cases hwritable : (s.ftable f).writable with
  | false =>
    have hboth : outcome sb f (SysM.filewrite sb devsw p f addr killed) s =
          some (-1, s.vfs.fs.fileBytes sb (s.ftable f).ip, (s.ftable f).off.toNat) ∧
        outcome sb f (plainWrite sb devsw p f addr) s =
          some (-1, s.vfs.fs.fileBytes sb (s.ftable f).ip, (s.ftable f).off.toNat) := by
      rw [outcome, outcome, filewrite_eq htype, plainWrite_eq, hwritable]
      exact ⟨rfl, rfl⟩
    simp [hboth, eq_comm]
  | true =>
    rw [outcome_filewrite h htype hwritable hoff p addr haddr, outcome_plainWrite h hwritable hoff p addr haddr]
    simp only [Bool.true_eq_false, false_or]
    have hsize := h.length_le
    by_cases hle : (s.ftable f).off.toNat + addr.length ≤ MAXFILE * BSIZE
    · rw [written_of_le hle, if_pos rfl, if_pos hle]
      refine ⟨fun _ => .inl hle, fun _ => ⟨rfl, ?_⟩⟩
      intro bytes off hout
      unfold wroteOutcome at hout
      split at hout
      · cases hout
      · cases hout
    by_cases hfirst : MAXFILE * BSIZE < (s.ftable f).off.toNat + min addr.length SysM.writeMax
    · rw [written_of_lt hfirst, if_neg (by omega), if_neg hle, wroteOutcome_zero hoff]
      refine ⟨fun _ => .inr hfirst, fun _ => ⟨rfl, ?_⟩⟩
      intro bytes off hout
      cases hout
      exact ⟨rfl, rfl⟩
    · -- the first piece is written, and a later one is too long
      have hpos : 0 < written (s.ftable f).off.toNat addr.length := by
        rw [written_eq_add (Nat.not_lt.mp hfirst), writeMax_eq]
        omega
      rw [if_neg hle]
      refine ⟨fun hagree => ?_, by omega⟩
      have heq := hagree.1
      unfold wroteOutcome at heq
      split at heq
      · simp only [Option.some.injEq, Prod.mk.injEq] at heq
        omega
      · cases heq

def wideSuperblock : FsSuperblock where
  toSuperblock := smallSuperblock.toSuperblock
  size := 300
  ninodes := 8
  inodestart := 32
  bmapstart := 34
  boot_lt_log := smallSuperblock.boot_lt_log
  log_le_inodes := smallSuperblock.log_le_inodes
  inodes_lt_bitmap := smallSuperblock.inodes_lt_bitmap
  bitmap_lt_data := by decide
  size_fits := by decide

lemma wideSuperblock_small : wideSuperblock.Small :=
  ⟨rfl, rfl, rfl, by decide, by decide⟩

/-- One byte more than the largest file: -1, with 46 pieces in the file and the offset behind them. -/
theorem filewrite_leaves_pieces :
    Regular wideSuperblock 0 sharedFile.sys.vfs.fs ∧
    outcome wideSuperblock 0 (SysM.filewrite wideSuperblock ⟨fun _ => none, fun _ => none⟩ 0 0
      (List.replicate 71681 7) false) sharedFile.sys = some (-1, List.replicate 70656 7, 70656) ∧
    outcome wideSuperblock 0 (plainWrite wideSuperblock ⟨fun _ => none, fun _ => none⟩ 0 0
      (List.replicate 71681 7)) sharedFile.sys = some (-1, [], 0) := by
  obtain ⟨hregular, hbytes⟩ := wideSuperblock_small.sharedFile
  have hoff : (sharedFile.sys.ftable 0).off.toNat ≤
      (sharedFile.sys.vfs.fs.fileBytes wideSuperblock (sharedFile.sys.ftable 0).ip).length :=
    Nat.zero_le _
  have hlen : (List.replicate 71681 (7 : BitVec 8)).length = 71681 := length_replicate
  have hroom : blocksFor 70656 ≤ sharedFile.sys.vfs.fs.room wideSuperblock 0 := by
    refine le_trans ?_ (Nat.le_add_right _ _)
    decide +kernel
  have hwritten : written 0 71681 = 70656 := by
    decide
  refine ⟨hregular, ?_, ?_⟩
  · rw [outcome_filewrite hregular rfl rfl hoff 0 _ (by rw [hlen]; decide), hlen]
    change wroteOutcome wideSuperblock 0 _ _ (written 0 71681) (if written 0 71681 = 71681 then _ else _) = _
    rw [hwritten, if_neg (by decide), wroteOutcome]
    change (if blocksFor (max (sharedFile.sys.vfs.fs.fileBytes wideSuperblock 0).length (0 + 70656)) ≤
        sharedFile.sys.vfs.fs.room wideSuperblock 0 then
      some (-1, (sharedFile.sys.vfs.fs.fileBytes wideSuperblock 0).splice 0 _, 0 + 70656) else none) = _
    rw [hbytes, length_nil, Nat.zero_add, Nat.zero_max, if_pos hroom, take_replicate, List.splice_end length_nil,
      nil_append, Nat.min_eq_left (by decide)]
  · rw [outcome_plainWrite hregular rfl hoff 0 _ (by rw [hlen]; decide), hlen, if_neg (by decide)]
    change some (-1, sharedFile.sys.vfs.fs.fileBytes wideSuperblock 0, 0) = _
    rw [hbytes]

/-- Two bytes at the start of an empty file. -/
theorem filewrite_agrees_iff_two :
    AgreesWithPlain smallSuperblock ⟨fun _ => none, fun _ => none⟩ 0 0 [1, 2] false sharedFile.sys :=
  (filewrite_agrees_iff sharedFile_regular rfl (Nat.zero_le _) 0 [1, 2] (by decide) false).mpr
    (.inr (.inl (by decide)))

end Xv6Bfs
