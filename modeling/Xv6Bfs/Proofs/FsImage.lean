import Xv6Bfs.Fs
import Xv6Bfs.Proofs.Bio
import Xv6Bfs.Library.Outcome

/-!
# What the blocks of a file system hold

The bitmap, the inodes and the data blocks lie in regions of their own, so that the
contents of the disk are read as three tables, and each write of the code changes an
entry of one of them.
-/

namespace Xv6Bfs

open BitVec Function Outcome

namespace Block

/-! ### Bits -/

lemma testBit_eq (d : Block) {bi : ℕ} (hbi : bi / 8 < BSIZE) :
    d.testBit bi = (d ⟨bi / 8, hbi⟩).getLsbD (bi % 8) := by
  have hand := and_twoPow (d ⟨bi / 8, hbi⟩) (bi % 8)
  have hne : BitVec.twoPow 8 (bi % 8) ≠ 0 := by
    intro h0
    have hbit := congrArg (fun x => x.getLsbD (bi % 8)) h0
    have hlt : bi % 8 < 8 := Nat.mod_lt _ (by decide)
    simp [hlt] at hbit
  unfold testBit
  rw [byte_eq d hbi, ← twoPow_eq, hand]
  cases (d ⟨bi / 8, hbi⟩).getLsbD (bi % 8) with
  | true => simpa using hne
  | false => simp

lemma div_lt_bsize {bi : ℕ} (hbi : bi < BPB) : bi / 8 < BSIZE := by
  unfold BPB BSIZE at *
  omega

lemma getLsbD_mask {bi bj : ℕ} (hdiv : bj / 8 = bi / 8) :
    (BitVec.twoPow 8 (bi % 8)).getLsbD (bj % 8) = decide (bj = bi) := by
  have hlt : bi % 8 < 8 := Nat.mod_lt _ (by decide)
  rw [getLsbD_twoPow, decide_eq_true hlt, Bool.true_and, decide_eq_decide]
  omega

lemma testBit_setBit (d : Block) {bi bj : ℕ} (hbj : bj < BPB) :
    (d.setBit bi).testBit bj = (decide (bj = bi) || d.testBit bj) := by
  rw [testBit_eq _ (div_lt_bsize hbj), testBit_eq _ (div_lt_bsize hbj)]
  unfold setBit
  by_cases hdiv : bj / 8 = bi / 8
  · rw [if_pos hdiv, ← twoPow_eq, getLsbD_or, getLsbD_mask hdiv, Bool.or_comm]
  · rw [if_neg hdiv, decide_eq_false (by omega), Bool.false_or]

lemma testBit_clearBit (d : Block) {bi bj : ℕ} (hbj : bj < BPB) :
    (d.clearBit bi).testBit bj = (!decide (bj = bi) && d.testBit bj) := by
  rw [testBit_eq _ (div_lt_bsize hbj), testBit_eq _ (div_lt_bsize hbj)]
  have hlt : bj % 8 < 8 := Nat.mod_lt _ (by decide)
  unfold clearBit
  by_cases hdiv : bj / 8 = bi / 8
  · rw [if_pos hdiv, ← twoPow_eq, getLsbD_and, getLsbD_not, getLsbD_mask hdiv,
      decide_eq_true hlt, Bool.true_and, Bool.and_comm]
  · rw [if_neg hdiv, decide_eq_false (by omega), Bool.not_false, Bool.true_and]

/-! ### Inodes in a block -/

lemma byte_setDinode (d : Block) (ip : Dinode) {i j r : ℕ} (hj : j < IPB) (hr : r < 64) :
    (d.setDinode i ip).byte (64 * j + r) = if j = i then ip.byte r else d.byte (64 * j + r) := by
  have hk : 64 * j + r < BSIZE := by
    unfold IPB BSIZE at *
    omega
  rw [byte_eq _ hk, byte_eq _ hk, setDinode]
  have hdiv : (64 * j + r) / 64 = j := by omega
  have hmod : (64 * j + r) % 64 = r := by omega
  simp only [hdiv, hmod]

lemma extract_append_extract (x : BitVec 16) : x.extractLsb' 8 8 ++ x.extractLsb' 0 8 = x :=
  (extractLsb'_append_extractLsb'_eq_extractLsb' (by rfl)).trans extractLsb'_eq_self

lemma extract_append_extract₄ (x : BitVec 32) :
    (x.extractLsb' 24 8 ++ x.extractLsb' 16 8) ++ (x.extractLsb' 8 8 ++ x.extractLsb' 0 8) = x := by
  have hhigh : x.extractLsb' 24 8 ++ x.extractLsb' 16 8 = x.extractLsb' 16 16 :=
    extractLsb'_append_extractLsb'_eq_extractLsb' (by rfl)
  have hlow : x.extractLsb' 8 8 ++ x.extractLsb' 0 8 = x.extractLsb' 0 16 :=
    extractLsb'_append_extractLsb'_eq_extractLsb' (by rfl)
  rw [hhigh, hlow]
  exact (extractLsb'_append_extractLsb'_eq_extractLsb' (by rfl)).trans extractLsb'_eq_self

lemma short_setDinode (d : Block) (ip : Dinode) {i j r : ℕ} (hj : j < IPB) (hr : r + 1 < 64) :
    (d.setDinode i ip).short (64 * j + r) =
      if j = i then ip.byte (r + 1) ++ ip.byte r else d.short (64 * j + r) := by
  unfold short
  rw [Nat.add_assoc, byte_setDinode d ip hj hr, byte_setDinode d ip hj (by omega)]
  split <;> rfl

lemma uint_setDinode (d : Block) (ip : Dinode) {i j r : ℕ} (hj : j < IPB) (hr : r + 3 < 64) :
    (d.setDinode i ip).uint (64 * j + r) =
      if j = i then (ip.byte (r + 3) ++ ip.byte (r + 2)) ++ (ip.byte (r + 1) ++ ip.byte r)
      else d.uint (64 * j + r) := by
  unfold uint
  rw [Nat.add_assoc, short_setDinode d ip hj (r := r + 2) (by omega), short_setDinode d ip hj (by omega)]
  split <;> rfl

lemma byte_addrs (ip : Dinode) (k : Fin (NDIRECT + 1)) {r : ℕ} (hr : r < 4) :
    ip.byte (12 + 4 * k + r) = (ip.addrs k).extractLsb' (8 * r) 8 := by
  have hdiv : (12 + 4 * k.val + r - 12) / 4 = k.val := by omega
  have hmod : (12 + 4 * k.val + r - 12) % 4 = r := by omega
  unfold Dinode.byte
  rw [if_neg (by omega), if_neg (by omega), if_neg (by omega), if_neg (by omega), if_neg (by omega),
    hdiv, hmod]
  congr 2
  exact Fin.ext (Nat.mod_eq_of_lt k.isLt)

lemma dinode_setDinode (d : Block) (ip : Dinode) {i j : ℕ} (hj : j < IPB) :
    (d.setDinode i ip).dinode j = if j = i then ip else d.dinode j := by
  have haddrs : ∀ k : Fin (NDIRECT + 1), (d.setDinode i ip).uint (64 * j + 12 + 4 * k) =
      if j = i then ip.addrs k else d.uint (64 * j + 12 + 4 * k) := by
    intro k
    have hk : 12 + 4 * k.val + 3 < 64 := by
      have := k.isLt
      unfold NDIRECT at this
      omega
    rw [Nat.add_assoc, uint_setDinode d ip hj hk, byte_addrs ip k (by decide), byte_addrs ip k (by decide),
      byte_addrs ip k (by decide)]
    have h0 := byte_addrs ip k (r := 0) (by decide)
    rw [Nat.add_zero] at h0
    rw [h0, extract_append_extract₄]
  unfold dinode
  simp only [haddrs]
  have htype := short_setDinode d ip (i := i) hj (r := 0) (by decide)
  rw [Nat.add_zero] at htype
  rw [htype, short_setDinode d ip hj (by decide), short_setDinode d ip hj (by decide),
    short_setDinode d ip hj (by decide), uint_setDinode d ip hj (by decide)]
  by_cases hji : j = i
  · simp only [if_pos hji]
    ext1
    · exact extract_append_extract ip.type
    · exact extract_append_extract ip.major
    · exact extract_append_extract ip.minor
    · exact extract_append_extract ip.nlink
    · exact extract_append_extract₄ ip.size
    · rfl
  · simp only [if_neg hji]

end Block

/-! ### Regions -/

namespace FsSuperblock

variable (sb : FsSuperblock)

lemma toNat_iblock {i : ℕ} (hi : i < sb.ninodes) :
    (sb.iblock i).toNat = i / IPB + sb.inodestart ∧ i / IPB + sb.inodestart < sb.bmapstart := by
  have hlt := sb.inodes_lt_bitmap
  have hbm := Nat.lt_of_le_of_lt (Nat.le_add_right ..) sb.bitmap_lt_data
  have hsize := sb.size_fits
  have hdiv : i / IPB ≤ sb.ninodes / IPB := Nat.div_le_div_right hi.le
  refine ⟨?_, by omega⟩
  rw [iblock, toNat_ofNat, Nat.mod_eq_of_lt (by omega)]

lemma toNat_bblock {b : ℕ} (hb : b < sb.size) :
    (sb.bblock b).toNat = b / BPB + sb.bmapstart ∧ b / BPB + sb.bmapstart < sb.datastart := by
  have hbm := sb.bitmap_lt_data
  have hsize := sb.size_fits
  have hdiv : b / BPB ≤ sb.size / BPB := Nat.div_le_div_right hb.le
  refine ⟨?_, by unfold datastart; omega⟩
  rw [bblock, toNat_ofNat, Nat.mod_eq_of_lt (by omega)]

lemma bmapstart_lt_datastart : sb.bmapstart < sb.datastart :=
  Nat.lt_succ_of_le (Nat.le_add_right ..)

variable {sb} {b : Blockno} {i k : ℕ}

lemma IsData.ne_zero (hb : sb.IsData b) : b ≠ 0 := by
  rintro rfl
  have hlt := sb.bmapstart_lt_datastart
  have hzero : (0 : Blockno).toNat = 0 := rfl
  have := hb.1
  omega

lemma IsData.ne_iblock (hb : sb.IsData b) (hi : i < sb.ninodes) : b ≠ sb.iblock i := by
  rintro rfl
  have := sb.toNat_iblock hi
  have := sb.bmapstart_lt_datastart
  have := hb.1
  omega

lemma IsData.ne_bblock (hb : sb.IsData b) (hk : k < sb.size) : b ≠ sb.bblock k := by
  rintro rfl
  have := sb.toNat_bblock hk
  have := hb.1
  omega

lemma iblock_ne_bblock (hi : i < sb.ninodes) (hk : k < sb.size) : sb.iblock i ≠ sb.bblock k := by
  intro heq
  obtain ⟨hi', hlt⟩ := sb.toNat_iblock hi
  rw [← hi', heq, (sb.toNat_bblock hk).1] at hlt
  exact absurd hlt (Nat.not_lt.mpr (Nat.le_add_left ..))

lemma iblock_eq_iff {j : ℕ} (hi : i < sb.ninodes) (hj : j < sb.ninodes) :
    sb.iblock i = sb.iblock j ↔ i / IPB = j / IPB := by
  rw [← toNat_inj, (sb.toNat_iblock hi).1, (sb.toNat_iblock hj).1]
  omega

lemma bblock_eq_iff {j : ℕ} (hk : k < sb.size) (hj : j < sb.size) :
    sb.bblock k = sb.bblock j ↔ k / BPB = j / BPB := by
  rw [← toNat_inj, (sb.toNat_bblock hk).1, (sb.toNat_bblock hj).1]
  omega

lemma toNat_ofNat_of_lt_size (hk : k < sb.size) : (BitVec.ofNat 32 k).toNat = k := by
  have := sb.size_fits
  rw [toNat_ofNat, Nat.mod_eq_of_lt (by omega)]

end FsSuperblock

/-! ### The three tables -/

/-- The disk as the file system reads it: bitmap, dinodes and data blocks. -/
@[ext]
structure Image where
  used : Blockno → Bool
  inode : ℕ → Dinode
  data : Blockno → Block

variable {sb : FsSuperblock} {c : Content} {b : Blockno}

namespace Content

def bit (sb : FsSuperblock) (c : Content) (b : Blockno) : Bool :=
  (c (sb.bblock b.toNat)).testBit (b.toNat % BPB)

def image (sb : FsSuperblock) (c : Content) : Image where
  used b := b.toNat < sb.size && c.bit sb b
  inode i := if i < sb.ninodes then c.dinode sb i else Dinode.zero
  data b := if sb.IsData b then c b else fun _ => 0

lemma image_data (hb : sb.IsData b) : (c.image sb).data b = c b :=
  if_pos hb

lemma image_inode {i : ℕ} (hi : i < sb.ninodes) : (c.image sb).inode i = c.dinode sb i :=
  if_pos hi

lemma logWrite_self (f : Block → Block) : c.logWrite b f b = f (c b) :=
  update_self ..

lemma logWrite_of_ne {b' : Blockno} (f : Block → Block) (h : b' ≠ b) : c.logWrite b f b' = c b' :=
  update_of_ne h ..

lemma image_logWrite (hb : sb.IsData b) (f : Block → Block) :
    (c.logWrite b f).image sb = { c.image sb with data := update (c.image sb).data b (f (c b)) } := by
  ext1
  · funext b'
    simp only [image, bit]
    by_cases hb' : b'.toNat < sb.size
    · rw [logWrite_of_ne f (hb.ne_bblock hb').symm]
    · simp [hb']
  · funext i
    simp only [image, dinode]
    by_cases hi : i < sb.ninodes
    · rw [logWrite_of_ne f (hb.ne_iblock hi).symm]
    · simp [hi]
  · funext b'
    by_cases hbb : b' = b
    · subst hbb
      simp [image, hb, logWrite_self]
    · simp [image, update_of_ne hbb, logWrite_of_ne f hbb]

lemma image_bitmap (hb : b.toNat < sb.size) (f : Block → Block) (v : Bool)
    (hf : ∀ d : Block, ∀ bj < BPB, (f d).testBit bj = if bj = b.toNat % BPB then v else d.testBit bj) :
    (c.logWrite (sb.bblock b.toNat) f).image sb =
      { c.image sb with used := update (c.image sb).used b v } := by
  have hmod : ∀ n, n % BPB < BPB := fun n => Nat.mod_lt n (by decide)
  ext1
  · funext b'
    by_cases hb' : b'.toNat < sb.size
    · simp only [image, bit, hb', decide_true, Bool.true_and]
      by_cases hblock : sb.bblock b'.toNat = sb.bblock b.toNat
      · have hdiv := (FsSuperblock.bblock_eq_iff hb' hb).mp hblock
        rw [hblock, logWrite_self, hf _ _ (hmod _)]
        by_cases hbb : b' = b
        · subst hbb
          simp
        · have hne : b'.toNat % BPB ≠ b.toNat % BPB := by
            intro heq
            apply hbb
            apply eq_of_toNat_eq
            rw [← Nat.div_add_mod b'.toNat BPB, ← Nat.div_add_mod b.toNat BPB, hdiv, heq]
          rw [if_neg hne, update_of_ne hbb, hblock]
          simp [hb']
      · have hbb : b' ≠ b := fun h => hblock (by rw [h])
        rw [logWrite_of_ne f hblock, update_of_ne hbb]
        simp [hb']
    · have hbb : b' ≠ b := fun h => hb' (h ▸ hb)
      simp [image, hb', update_of_ne hbb]
  · funext i
    simp only [image, dinode]
    by_cases hi : i < sb.ninodes
    · rw [logWrite_of_ne f (FsSuperblock.iblock_ne_bblock hi hb)]
    · simp [hi]
  · funext b'
    by_cases hb' : sb.IsData b'
    · simp [image, hb', logWrite_of_ne f (hb'.ne_bblock hb)]
    · simp [image, hb']

lemma image_iupdate {i : ℕ} (hi : i < sb.ninodes) (ip : Dinode) :
    (iupdate sb i ip c).image sb = { c.image sb with inode := update (c.image sb).inode i ip } := by
  have hmod : ∀ n, n % IPB < IPB := fun n => Nat.mod_lt n (by decide)
  unfold iupdate
  ext1
  · funext b'
    simp only [image, bit]
    by_cases hb' : b'.toNat < sb.size
    · rw [logWrite_of_ne _ (FsSuperblock.iblock_ne_bblock hi hb').symm]
    · simp [hb']
  · funext j
    by_cases hj : j < sb.ninodes
    · simp only [image, dinode, hj, if_true]
      by_cases hblock : sb.iblock j = sb.iblock i
      · have hdiv := (FsSuperblock.iblock_eq_iff hj hi).mp hblock
        rw [hblock, logWrite_self, Block.dinode_setDinode _ _ (hmod _)]
        by_cases hji : j = i
        · subst hji
          simp
        · have hne : j % IPB ≠ i % IPB := by
            intro heq
            apply hji
            rw [← Nat.div_add_mod j IPB, ← Nat.div_add_mod i IPB, hdiv, heq]
          rw [if_neg hne, update_of_ne hji, hblock]
          simp [hj]
      · have hji : j ≠ i := fun h => hblock (by rw [h])
        rw [logWrite_of_ne _ hblock, update_of_ne hji]
        simp [hj]
    · have hji : j ≠ i := fun h => hj (h ▸ hi)
      simp [image, hj, update_of_ne hji]
  · funext b'
    by_cases hb' : sb.IsData b'
    · simp [image, hb', logWrite_of_ne _ (hb'.ne_iblock hi)]
    · simp [image, hb']

end Content

/-! ### The allocator -/

lemma bit_ofNat {j bi : ℕ} (hbi : bi < BPB) (hlt : j * BPB + bi < sb.size) :
    c.bit sb (BitVec.ofNat 32 (j * BPB + bi)) = (c (sb.bblock (j * BPB))).testBit bi := by
  have hpos : 0 < BPB := by decide
  have hblock : sb.bblock (j * BPB + bi) = sb.bblock (j * BPB) := by
    rw [FsSuperblock.bblock_eq_iff hlt (by omega), Nat.mul_comm j, Nat.mul_add_div hpos,
      Nat.div_eq_of_lt hbi, Nat.mul_div_cancel_left _ hpos, Nat.add_zero]
  have hmod : (j * BPB + bi) % BPB = bi := by
    rw [Nat.mul_comm j, Nat.mul_add_mod, Nat.mod_eq_of_lt hbi]
  unfold Content.bit
  rw [FsSuperblock.toNat_ofNat_of_lt_size hlt, hblock, hmod]

lemma findFree_eq_some {k : ℕ} (h : findFree sb c = some k) :
    k < sb.size ∧ c.bit sb (BitVec.ofNat 32 k) = false := by
  obtain ⟨j, -, hj⟩ := List.exists_of_findSome?_eq_some h
  obtain ⟨bi, hbi, rfl⟩ := Option.map_eq_some_iff.mp hj
  have hp := List.find?_some hbi
  have hmem := List.mem_range.mp (List.mem_of_find?_eq_some hbi)
  simp only [Bool.and_eq_true, decide_eq_true_eq, Bool.not_eq_true'] at hp
  exact ⟨hp.1, by rw [bit_ofNat hmem hp.1, hp.2]⟩

lemma findFree_eq_none (h : findFree sb c = none) (hb : b.toNat < sb.size) : c.bit sb b = true := by
  have hpos : 0 < BPB := by decide
  rw [findFree, List.findSome?_eq_none_iff] at h
  have hj : b.toNat / BPB < (sb.size + BPB - 1) / BPB := by
    unfold BPB BSIZE
    omega
  have hnone := h _ (List.mem_range.mpr hj)
  rw [Option.map_eq_none_iff, List.find?_eq_none] at hnone
  have hbi := hnone _ (List.mem_range.mpr (Nat.mod_lt b.toNat hpos))
  have hsplit : b.toNat / BPB * BPB + b.toNat % BPB = b.toNat := Nat.div_add_mod' ..
  have hbit := bit_ofNat (c := c) (Nat.mod_lt b.toNat hpos) (by rw [hsplit]; exact hb)
  rw [hsplit, ofNat_toNat, setWidth_eq] at hbit
  rw [hbit]
  simpa [hsplit, hb] using hbi

lemma Image.used_lt (h : (c.image sb).used b = true) : b.toNat < sb.size := by
  simp only [Content.image, Bool.and_eq_true, decide_eq_true_eq] at h
  exact h.1

def Image.Reserved (sb : FsSuperblock) (im : Image) : Prop :=
  ∀ b : Blockno, b.toNat < sb.datastart → im.used b = true

/-- `balloc` takes a free data block and clears it, or there is none. -/
lemma balloc_spec (hres : (c.image sb).Reserved sb) :
    Spec (balloc sb c)
      (fun r => sb.IsData r.1 ∧ (c.image sb).used r.1 = false ∧ r.2.image sb = { c.image sb with
          used := update (c.image sb).used r.1 true
          data := update (c.image sb).data r.1 (fun _ => 0) })
      (fun e => e = .ballocOutOfBlocks ∧ ∀ b : Blockno, b.toNat < sb.size → (c.image sb).used b = true) := by
  unfold balloc
  split
  · rename_i k hk
    obtain ⟨hlt, hbit⟩ := findFree_eq_some hk
    have hnat := FsSuperblock.toNat_ofNat_of_lt_size hlt
    have hfree : (c.image sb).used (BitVec.ofNat 32 k) = false := by
      simp [Content.image, hbit]
    have hdata : sb.IsData (BitVec.ofNat 32 k) := by
      refine ⟨?_, by rwa [hnat]⟩
      by_contra hlow
      rw [hres _ (Nat.lt_of_not_le hlow)] at hfree
      cases hfree
    refine ⟨hdata, hfree, ?_⟩
    have hset := Content.image_bitmap (c := c) (b := BitVec.ofNat 32 k) (by rwa [hnat])
      (·.setBit (k % BPB)) true
    rw [hnat] at hset
    dsimp only
    rw [bzero, Content.image_logWrite hdata, hset]
    intro d bj hbj
    rw [Block.testBit_setBit d hbj]
    by_cases hbk : bj = k % BPB <;> simp [hbk]
  · rename_i hnone
    refine ⟨rfl, ?_⟩
    intro b hb
    simp [Content.image, hb, findFree_eq_none hnone hb]

lemma exists_bfree (hb : (c.image sb).used b = true) :
    ∃ c', bfree sb b c = .ok c' ∧
      c'.image sb = { c.image sb with used := update (c.image sb).used b false } := by
  have hlt := Image.used_lt hb
  have hbit : (c (sb.bblock b.toNat)).testBit (b.toNat % BPB) = true := by
    simpa [Content.image, hlt, Content.bit] using hb
  refine ⟨_, if_pos hbit, Content.image_bitmap hlt _ false ?_⟩
  intro d bj hbj
  rw [Block.testBit_clearBit d hbj]
  by_cases hbk : bj = b.toNat % BPB <;> simp [hbk]

end Xv6Bfs
