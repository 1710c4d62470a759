import Xv6Bfs.Proofs.DirMap

/-!
# The directory tree of an image

What a file system looks like to path names: each inode is a node with its type, its link count and, if it is a directory,
its entries.
-/

namespace Xv6Bfs

open Outcome

structure TreeNode where
  type : BitVec 16
  nlink : BitVec 16
  entries : List Dirent

abbrev Tree := ℕ → TreeNode

def Image.node (im : Image) (i : ℕ) : TreeNode where
  type := (im.inode i).type
  nlink := (im.inode i).nlink
  entries :=
    if (im.inode i).type = T_DIR then dirents ((im.inode i).bytes im.data (im.inode i).size.toNat) else []

def Fs.tree (sb : FsSuperblock) (fs : Fs) : Tree :=
  (fs.content.image sb).node

/-- Directories consist of whole entries, which name inodes of the disk. -/
structure Sane (sb : FsSuperblock) (fs : Fs) : Prop where
  inv : FsInv sb fs
  sized : ∀ i, ((fs.content.image sb).inode i).type = T_DIR →
    16 ∣ ((fs.content.image sb).inode i).size.toNat
  range : ∀ i, ∀ de ∈ (fs.tree sb i).entries, de.inum.toNat < sb.ninodes

lemma Sane.of_content {sb : FsSuperblock} {fs fs' : Fs} (h : Sane sb fs) (hinv : FsInv sb fs') (hcontent : fs'.content = fs.content) :
    Sane sb fs' ∧ fs'.tree sb = fs.tree sb := by
  have htree : fs'.tree sb = fs.tree sb := by
    rw [Fs.tree, Fs.tree, hcontent]
  refine ⟨⟨hinv, ?_, ?_⟩, htree⟩
  · rw [hcontent]
    exact h.sized
  · rw [htree]
    exact h.range

namespace Sane

variable {sb : FsSuperblock} {devsw : Devsw} {fs fs' : Fs} {p : Pid} {ip dp : Fin NINODE}

lemma node_eq (h : Sane sb fs) (hlock : (fs.icache ip).lock = some p) :
    (fs.tree sb (fs.icache ip).inum).type = (fs.icache ip).type ∧
      (fs.tree sb (fs.icache ip).inum).nlink = (fs.icache ip).nlink := by
  obtain ⟨-, -, -, hd⟩ := h.inv.of_locked hlock
  simp [Fs.tree, Image.node, hd]

lemma isDir (h : Sane sb fs) (hlock : (fs.icache dp).lock = some p)
    (htype : (fs.tree sb (fs.icache dp).inum).type = T_DIR) :
    IsDir sb fs dp (fs.tree sb (fs.icache dp).inum).entries := by
  obtain ⟨-, -, -, hd⟩ := h.inv.of_locked hlock
  have hdir : (fs.icache dp).type = T_DIR := by rw [← (h.node_eq hlock).1, htype]
  have hentries : (fs.tree sb (fs.icache dp).inum).entries =
      dirents ((fs.icache dp).toDinode.bytes (fs.content.image sb).data (fs.icache dp).size.toNat) := by
    simp [Fs.tree, Image.node, hd, hdir]
  have hsized := h.sized (fs.icache dp).inum
  rw [hd] at hsized
  refine ⟨h.inv, by simp [hlock], hdir, ?_, hentries.symm⟩
  rw [hentries, length_dirents, Dinode.length_bytes, Nat.mul_div_cancel' (hsized hdir)]

end Sane

end Xv6Bfs
