import Xv6Bfs.Proofs.IcacheInv

/-!
# What holds of the disk between the operations on inodes

Whatever the processes do with the inodes of a well-formed image: blocks have one owner
and the bitmap knows it, files have no holes, and the cache agrees with the disk.
-/

namespace Xv6Bfs

open Transition Outcome Ownership

variable {sb : FsSuperblock} {devsw : Devsw} {fs : Fs}

/-- Every data block stands in at most one slot of one allocated inode, and its bit is set if and
only if it stands in one; the metadata stay in use, and no step frees a free block. -/
theorem block_ownership (hfs : Reachable (fsSystem sb devsw) fs) :
    (∀ p q b, (fs.content.image sb).ref p = some b → (fs.content.image sb).ref q = some b → p = q) ∧
      (∀ p b, (fs.content.image sb).ref p = some b → sb.IsData b) ∧
      (∀ b, sb.IsData b → (fs.content.bit sb b = true ↔ ∃ p, (fs.content.image sb).ref p = some b)) ∧
      (∀ b : Blockno, b.toNat < sb.datastart → fs.content.bit sb b = true) ∧
      (∀ b c, balloc sb fs.content = .ok (b, c) → sb.IsData b) ∧
      ∀ e : FsEvent, e.Enabled sb fs → e.exec sb devsw fs ≠ .error .freeingFreeBlock := by
  have h := fsInv_of_reachable hfs
  have hown := h.wellFormed.owned
  have hbit : ∀ b : Blockno, b.toNat < sb.size →
      ((fs.content.image sb).used b = true ↔ fs.content.bit sb b = true) := by
    intro b hb
    simp [Content.image, hb]
  refine ⟨fun p q b => hown.inj, fun p b => hown.mem_pool, ?_, ?_, ?_, ?_⟩
  · intro b hb
    rw [← hbit b hb.2]
    exact hown.used_iff hb
  · intro b hb
    have hused := h.wellFormed.reserved b hb
    exact (hbit b (Image.used_lt hused)).mp hused
  · intro b c hret
    exact ((balloc_spec h.wellFormed.reserved).of_ok hret).1
  · intro e he hpanic
    exact (h.exec devsw he).of_error hpanic rfl

/-- Two bytes are written to a new file; the block that they are in has its bit set. -/
theorem block_ownership_written :
    ∃ fs, Reachable (fsSystem smallSuperblock ⟨fun _ => none, fun _ => none⟩) fs ∧
      fs.content.bit smallSuperblock 35 = true ∧
      ∃ p, (fs.content.image smallSuperblock).ref p = some 35 := by
  have hrun : ∃ fs ∈ run (fsSystem smallSuperblock ⟨fun _ => none, fun _ => none⟩)
      [.iget 1, .ilock 7 0, .writei 7 0 [1, 2] 0 2, .iunlock 7 0]
      ⟨smallImage ⟨T_FILE, 0, 0, 1, 0, fun _ => 0⟩, fun _ => ⟨Dinode.zero, 0, 0, none, false⟩⟩,
      fs.content.bit smallSuperblock 35 = true := by
    decide +kernel
  obtain ⟨fs, hfs, hbit⟩ := hrun
  have hreach : Reachable (fsSystem smallSuperblock ⟨fun _ => none, fun _ => none⟩) fs := by
    refine Reachable.run (Reach.init ⟨?_, fun _ => ⟨rfl, rfl⟩⟩) hfs
    exact smallImage_wellFormed _ rfl (fun _ => rfl)
  exact ⟨fs, hreach, hbit, ((block_ownership hreach).2.2.1 35 (by decide)).mp hbit⟩

/-- A file or directory has exactly the blocks below its size, so that `readi` finds every block it
asks for and takes none; a valid entry of the cache that nobody holds locked is a copy of the
inode on disk, and an inode has at most one entry. -/
theorem no_holes_and_write_through (hfs : Reachable (fsSystem sb devsw) fs) :
    (∀ i < sb.ninodes, (fs.content.dinode sb i).type = T_FILE ∨ (fs.content.dinode sb i).type = T_DIR →
      (fs.content.dinode sb i).size.toNat ≤ MAXFILE * BSIZE ∧
      (∀ bn < MAXFILE, (fs.content.dinode sb i).ref (fs.content.image sb).data (BlockSlot.of bn) ≠ none ↔
        bn < ((fs.content.dinode sb i).size.toNat + BSIZE - 1) / BSIZE) ∧
      ((fs.content.dinode sb i).addrs (Fin.last _) ≠ 0 ↔
        NDIRECT * BSIZE < (fs.content.dinode sb i).size.toNat)) ∧
      (∀ p ip off n, (fs.icache ip).lock = some p → ∃ bytes, fs.readi sb devsw ip off n = .ok (bytes, fs)) ∧
      (∀ ip, 0 < (fs.icache ip).ref → (fs.icache ip).valid = true → (fs.icache ip).lock = none →
        (fs.icache ip).toDinode = fs.content.dinode sb (fs.icache ip).inum) ∧
      ∀ ip jp, 0 < (fs.icache ip).ref → 0 < (fs.icache jp).ref →
        (fs.icache ip).inum = (fs.icache jp).inum → ip = jp := by
  have h := fsInv_of_reachable hfs
  refine ⟨?_, ?_, ?_, h.unique⟩
  · intro i hi htype
    have hd := Content.image_inode (c := fs.content) hi
    have hfile : (fs.content.dinode sb i).IsFile := by
      obtain htype | htype := htype <;> rw [Dinode.IsFile, htype] <;> decide
    obtain ⟨hsize, hfills⟩ := h.wellFormed.noHoles i (by rwa [hd])
    rw [hd] at hsize hfills
    refine ⟨hsize, ?_, ?_⟩
    · intro bn hbn
      rw [← Option.isSome_iff_ne_none, hfills, BlockSlot.index_of hbn]
      unfold BSIZE
      omega
    · have hind := hfills .indirect
      rw [Option.isSome_iff_ne_none, ne_eq, Dinode.ref, nonzero_eq_none] at hind
      exact hind
  · intro p ip off n hlock
    exact h.readi devsw hlock off n
  · intro ip hip hvalid _
    exact (h.cached ip hip hvalid).1

/-- After the file of two bytes has been written and unlocked, its entry agrees with the disk. -/
theorem no_holes_and_write_through_written :
    ∃ fs, Reachable (fsSystem smallSuperblock ⟨fun _ => none, fun _ => none⟩) fs ∧ (fs.icache 0).size = 2 ∧
      (fs.icache 0).toDinode = fs.content.dinode smallSuperblock 1 := by
  have hrun : ∃ fs ∈ run (fsSystem smallSuperblock ⟨fun _ => none, fun _ => none⟩)
      [.iget 1, .ilock 7 0, .writei 7 0 [1, 2] 0 2, .iunlock 7 0]
      ⟨smallImage ⟨T_FILE, 0, 0, 1, 0, fun _ => 0⟩, fun _ => ⟨Dinode.zero, 0, 0, none, false⟩⟩,
      (fs.icache 0).size = 2 ∧ (fs.icache 0).inum = 1 ∧ 0 < (fs.icache 0).ref ∧
        (fs.icache 0).valid = true ∧ (fs.icache 0).lock = none := by
    decide +kernel
  obtain ⟨fs, hfs, hsize, hinum, href, hvalid, hlock⟩ := hrun
  have hreach : Reachable (fsSystem smallSuperblock ⟨fun _ => none, fun _ => none⟩) fs := by
    refine Reachable.run (Reach.init ⟨?_, fun _ => ⟨rfl, rfl⟩⟩) hfs
    exact smallImage_wellFormed _ rfl (fun _ => rfl)
  have hcopy := (no_holes_and_write_through hreach).2.2.1 0 href hvalid hlock
  rw [hinum] at hcopy
  exact ⟨fs, hreach, hsize, hcopy⟩

end Xv6Bfs
