import Xv6Bfs.Mkfs
import Xv6Bfs.Proofs.Dir

/-!
# The images that `mkfs` builds

While `mkfs` runs, the blocks below `freeblock` are in use and the others are zero. With the bitmap that it writes last put
in its place, each of its steps is a step of the kernel: taking the next block is `balloc`, finding the block of an offset is
`bmap`, and appending to a file is `writei`.
-/

namespace Xv6Bfs

open Function List Outcome Ownership Program

namespace Mkfs

variable {s s' : Mkfs} {b : Blockno} {i : ℕ} {d : Dinode}

/-! ### The bitmap -/

lemma bits_succ (n : ℕ) : bits (n + 1) = (bits n).setBit n := by
  rw [bits, range_succ, foldl_append]
  rfl

lemma testBit_bits {bj : ℕ} (hbj : bj < BPB) (n : ℕ) : (bits n).testBit bj = decide (bj < n) := by
  induction n with
  | zero =>
    rw [Block.testBit_eq _ (Block.div_lt_bsize hbj)]
    simp [bits]
  | succ n ih =>
    rw [bits_succ, Block.testBit_setBit _ hbj, ih, ← Bool.decide_or]
    congr 1
    exact propext (by omega)

def bmapBlock : Blockno := BitVec.ofNat 32 sb.bmapstart

lemma bblock_eq (hb : i < sb.size) : sb.bblock i = bmapBlock := by
  have hsize : sb.size < BPB := by decide
  rw [FsSuperblock.bblock, Nat.div_eq_of_lt (by omega), Nat.zero_add]
  rfl

/-- The image with the bitmap that `balloc` would write now. -/
def content (s : Mkfs) : Content :=
  update s.img bmapBlock (bits s.freeblock)

lemma content_of_ne (hb : b ≠ bmapBlock) : s.content b = s.img b :=
  update_of_ne hb ..

structure Steady (s : Mkfs) : Prop where
  length : s.length = FSSIZE
  meta_le : nmeta ≤ s.freeblock
  le_size : s.freeblock ≤ FSSIZE
  fresh : ∀ b : Blockno, s.freeblock ≤ b.toNat → s.img b = fun _ => 0

namespace Steady

lemma used (b : Blockno) (hs : s.Steady) :
    (s.content.image sb).used b = decide (b.toNat < s.freeblock) := by
  have hle := hs.le_size
  change (decide (b.toNat < FSSIZE) && s.content.bit sb b) = _
  by_cases hb : b.toNat < FSSIZE
  · have hmod : b.toNat % BPB = b.toNat := Nat.mod_eq_of_lt (hb.trans (by decide))
    rw [decide_eq_true hb, Bool.true_and, Content.bit, bblock_eq hb, hmod, content, update_self,
      testBit_bits (hb.trans (by decide))]
  · rw [decide_eq_false hb, Bool.false_and, decide_eq_false (by omega)]

lemma reserved (hs : s.Steady) : (s.content.image sb).Reserved sb := by
  intro b hb
  rw [hs.used, decide_eq_true_iff]
  exact Nat.lt_of_lt_of_le hb hs.meta_le

lemma bmapBlock_lt (hs : s.Steady) : bmapBlock.toNat < s.freeblock := by
  have hmeta : bmapBlock.toNat < nmeta := by decide
  exact hmeta.trans_le hs.meta_le

lemma of_ref (hs : s.Steady)
    (hown : Owned {b | sb.IsData b} {b | (s.content.image sb).used b = true} ((s.content.image sb).patch i d).ref)
    (htype : d.type ≠ 0) {t : BlockSlot} (hb : d.ref (s.content.image sb).data t = some b) :
    sb.IsData b ∧ b.toNat < s.freeblock := by
  rw [← Image.ref_patch_self (i := i) htype] at hb
  have hused := hown.used_of_ref hb
  rw [Set.mem_ofPred_eq, hs.used, decide_eq_true_iff] at hused
  exact ⟨hown.mem_pool hb, hused⟩

lemma write (hs : s.Steady) (hb : b.toNat < s.freeblock) (buf : Block) :
    ({ s with img := update s.img b buf, length := max s.length (b.toNat + 1) } : Mkfs).Steady where
  length := by
    have := hs.le_size
    have := hs.length
    dsimp only
    omega
  meta_le := hs.meta_le
  le_size := hs.le_size
  fresh b' hb' := by
    have hne : b' ≠ b := by
      rintro rfl
      exact absurd hb (Nat.not_lt.mpr hb')
    dsimp only
    rw [update_of_ne hne]
    exact hs.fresh b' hb'

end Steady

lemma isData_ne_bmapBlock (hb : sb.IsData b) : b ≠ bmapBlock := by
  rintro rfl
  exact absurd hb (by decide)

lemma content_write (hb : b ≠ bmapBlock) (buf : Block) (n : ℕ) :
    ({ s with img := update s.img b buf, length := n } : Mkfs).content = update s.content b buf :=
  (update_comm hb.symm ..).symm

/-! ### The next block -/

def advance (s : Mkfs) : Mkfs :=
  { s with freeblock := s.freeblock + 1 }

lemma Steady.advance (hs : s.Steady) (hlt : s.freeblock < FSSIZE) : s.advance.Steady where
  length := hs.length
  meta_le := hs.meta_le.trans (Nat.le_succ _)
  le_size := hlt
  fresh b hb := hs.fresh b ((Nat.le_succ _).trans hb)

lemma Steady.toNat_next (hs : s.Steady) : (BitVec.ofNat 32 s.freeblock).toNat = s.freeblock := by
  have hle : s.freeblock ≤ 2000 := hs.le_size
  rw [BitVec.toNat_ofNat, Nat.mod_eq_of_lt (by omega)]

lemma Steady.findFree (hs : s.Steady) (hlt : s.freeblock < FSSIZE) :
    findFree sb s.content = some s.freeblock := by
  have hbpb : FSSIZE < BPB := by decide
  have hmeta := hs.meta_le
  have hrange : (List.range ((sb.size + BPB - 1) / BPB)) = [0] := by decide
  rw [Xv6Bfs.findFree, hrange, findSome?_singleton, Nat.zero_mul]
  dsimp only
  rw [bblock_eq (by decide : 0 < sb.size), content, update_self, Option.map_eq_some_iff]
  refine ⟨s.freeblock, ?_, Nat.zero_add _⟩
  rw [find?_range_eq_some]
  refine ⟨?_, mem_range.mpr (hlt.trans hbpb), ?_⟩
  · have hsize : s.freeblock < sb.size := hlt
    rw [testBit_bits (hlt.trans hbpb), Nat.zero_add, decide_eq_true hsize]
    simp
  · intro j hj
    rw [testBit_bits (by omega), decide_eq_true hj]
    simp

lemma Steady.balloc_eq (hs : s.Steady) (hlt : s.freeblock < FSSIZE) :
    Xv6Bfs.balloc sb s.content = .ok (BitVec.ofNat 32 s.freeblock, s.advance.content) := by
  have hmod : s.freeblock % BPB = s.freeblock := Nat.mod_eq_of_lt (hlt.trans (by decide))
  have hnat := hs.toNat_next
  have hne : BitVec.ofNat 32 s.freeblock ≠ bmapBlock := by
    intro heq
    have hbmap := hs.bmapBlock_lt
    rw [← heq, hnat] at hbmap
    exact absurd hbmap (lt_irrefl _)
  rw [Xv6Bfs.balloc, hs.findFree hlt]
  dsimp only
  rw [bblock_eq hlt, hmod]
  congr 2
  funext b
  rw [bzero]
  by_cases hb : b = BitVec.ofNat 32 s.freeblock
  · subst hb
    rw [Content.logWrite_self, content_of_ne hne]
    exact (hs.fresh _ hnat.ge).symm
  · rw [Content.logWrite_of_ne _ hb]
    by_cases hbm : b = bmapBlock
    · subst hbm
      rw [Content.logWrite_self, content, content, update_self, update_self]
      exact (bits_succ _).symm
    · rw [Content.logWrite_of_ne _ hbm, content_of_ne hbm, content_of_ne hbm]
      rfl

lemma balloc_error (hfull : ¬ s.freeblock < FSSIZE) :
    Xv6Bfs.balloc sb s.content = .error .ballocOutOfBlocks := by
  have hnone : Xv6Bfs.findFree sb s.content = none := by
    have hrange : (List.range ((sb.size + BPB - 1) / BPB)) = [0] := by decide
    rw [Xv6Bfs.findFree, hrange, findSome?_singleton, Nat.zero_mul]
    dsimp only
    rw [bblock_eq (by decide : 0 < sb.size), content, update_self, Option.map_eq_none_iff,
      find?_eq_none]
    intro j hj
    rw [mem_range] at hj
    rw [testBit_bits hj, Nat.zero_add]
    by_cases hlt : j < sb.size
    · have hused : j < s.freeblock := hlt.trans_le (Nat.le_of_not_lt hfull)
      simp [hused]
    · simp [hlt]
  rw [Xv6Bfs.balloc, hnone]

/-! ### Sectors -/

lemma wsect_eq (hb : b.toNat ≤ FSSIZE) (buf : Block) (s : Mkfs) :
    wsect b buf s = .ok () { s with img := update s.img b buf, length := max s.length (b.toNat + 1) } := by
  rw [wsect, if_neg (Nat.not_lt.mpr hb)]
  rfl

lemma wsect_spec (s : Mkfs) (b : Blockno) (buf : Block) :
    Wp (wsect b buf) s (fun _ s' =>
      s' = { s with img := update s.img b buf, length := max s.length (b.toNat + 1) })
      (fun _ _ => FSSIZE < b.toNat) := by
  unfold wsect
  split
  · rename_i hlt
    exact hlt
  · simp

lemma rsect_spec (s : Mkfs) (b : Blockno) :
    Wp (rsect b) s (fun buf s' => s' = s ∧ buf = s.img b ∧ b.toNat < s.length)
      (fun _ _ => FSSIZE < b.toNat ∨ s.length ≤ b.toNat) := by
  unfold rsect
  split
  · rename_i hlt
    exact .inl hlt
  · simp only [wp_bind, wp_get]
    split
    · rename_i hle
      exact .inr hle
    · rename_i hlt
      exact ⟨rfl, rfl, Nat.lt_of_not_le hlt⟩

lemma Steady.no_stop (hs : s.Steady) (hb : b.toNat < FSSIZE) : ¬ (FSSIZE < b.toNat ∨ s.length ≤ b.toNat) := by
  rw [hs.length]
  omega

/-- What one of the steps of `iappend` may find instead of a block: the first sector past the
image, which cannot be read. -/
def Full (x : Blockno) (s : Mkfs) : Prop :=
  x.toNat = FSSIZE ∧ s.length = FSSIZE

lemma takeIfZero_spec (hs : s.Steady) {addr : Blockno}
    (haddr : addr ≠ 0 → sb.IsData addr ∧ addr.toNat < s.freeblock) :
    Wp (takeIfZero addr) s (fun x s' =>
      Full x s' ∧ s'.img = s.img ∧ allocIfZero sb addr s.content = .error .ballocOutOfBlocks ∨
      s'.Steady ∧ s'.img = s.img ∧ s.freeblock ≤ s'.freeblock ∧ sb.IsData x ∧ x.toNat < s'.freeblock ∧
        allocIfZero sb addr s.content = .ok (x, s'.content)) (fun _ _ => False) := by
  unfold takeIfZero
  split
  · rename_i hzero
    simp only [wp_bind, wp_get, wp_modify, wp_pure]
    have hnat := hs.toNat_next
    by_cases hlt : s.freeblock < FSSIZE
    · right
      refine ⟨hs.advance hlt, trivial, Nat.le_succ _, ⟨?_, ?_⟩, ?_, ?_⟩
      · rw [hnat]
        exact hs.meta_le
      · rwa [hnat]
      · rw [hnat]
        exact Nat.lt_succ_self _
      · rw [allocIfZero, if_pos hzero]
        exact hs.balloc_eq hlt
    · left
      refine ⟨⟨?_, hs.length⟩, trivial, ?_⟩
      · rw [hnat]
        exact le_antisymm hs.le_size (Nat.le_of_not_lt hlt)
      · rw [allocIfZero, if_pos hzero]
        exact balloc_error hlt
  · rename_i hne
    obtain ⟨hdata, hused⟩ := haddr hne
    exact .inr ⟨hs, rfl, le_rfl, hdata, hused, if_neg hne⟩

section Append

variable (hs : s.Steady)
  (hown : Owned {b | sb.IsData b} {b | (s.content.image sb).used b = true} ((s.content.image sb).patch i d).ref)
  (htype : d.type ≠ 0)

include hs hown htype

lemma blockOf_spec {fbn : ℕ} (hfbn : fbn < MAXFILE) :
    Wp (blockOf d fbn) s (fun r s' =>
      Full r.1 s' ∧ bmap sb d fbn s.content = .error .ballocOutOfBlocks ∨
      s'.Steady ∧ bmap sb d fbn s.content = .ok (r.1, r.2, s'.content))
      (fun _ _ => bmap sb d fbn s.content = .error .ballocOutOfBlocks) := by
  unfold blockOf bmap
  by_cases hdir : fbn < NDIRECT
  · rw [if_pos hdir, if_pos hdir]
    refine Wp.bind (takeIfZero_spec hs ?_) ?_ (fun _ _ h => h.elim)
    · intro hne
      have hslot : Fin.ofNat (NDIRECT + 1) fbn = (⟨fbn, hdir⟩ : Fin NDIRECT).castSucc :=
        Fin.ext (Nat.mod_eq_of_lt (by omega))
      rw [hslot] at hne ⊢
      exact hs.of_ref hown htype (t := .direct ⟨fbn, hdir⟩) (nonzero_eq_some.mpr ⟨rfl, hne⟩)
    · rintro x s₁ (⟨hfull, -, halloc⟩ | ⟨hs₁, -, -, -, -, halloc⟩)
      · refine .inl ⟨hfull, ?_⟩
        dsimp only
        rw [halloc]
        rfl
      · refine .inr ⟨hs₁, ?_⟩
        dsimp only
        rw [halloc]
        rfl
  · have hk : fbn - NDIRECT < NINDIRECT := by
      unfold MAXFILE at hfbn
      omega
    rw [if_neg hdir, if_neg hdir, if_pos hk]
    refine Wp.bind (takeIfZero_spec hs ?_) ?_ (fun _ _ h => h.elim)
    · intro hne
      exact hs.of_ref hown htype (t := .indirect) (nonzero_eq_some.mpr ⟨rfl, hne⟩)
    rintro ind s₁ (⟨hfull, -, halloc⟩ | ⟨hs₁, -, -, hdata, hlt, halloc⟩)
    · refine Wp.bind (rsect_spec s₁ ind) ?_ (fun _ _ _ => by rw [halloc]; rfl)
      rintro buf s₂ ⟨-, -, hread⟩
      rw [hfull.1, hfull.2] at hread
      exact absurd hread (lt_irrefl _)
    refine Wp.bind (rsect_spec s₁ ind) ?_ (fun _ _ h => absurd h (hs₁.no_stop hdata.2))
    rintro buf s₁ ⟨rfl, rfl, -⟩
    have hne := isData_ne_bmapBlock hdata
    rw [halloc]
    simp only [bind, Except.bind]
    rw [content_of_ne hne]
    split
    · rename_i hzero
      refine Wp.bind (takeIfZero_spec hs₁ (fun h => absurd rfl h)) ?_ (fun _ _ h => h.elim)
      rintro x s₃ h₃
      have hin : ¬ FSSIZE < ind.toNat := Nat.not_lt.mpr hdata.2.le
      refine Wp.bind (wsect_spec s₃ ind _) ?_ (fun _ _ h => absurd h hin)
      rintro _ s₄ rfl
      obtain ⟨⟨hx, hlen⟩, -, hallocx⟩ | ⟨hs₃, himg, hle, -, -, hallocx⟩ := h₃
      · rw [allocIfZero, if_pos rfl] at hallocx
        refine .inl ⟨⟨hx, ?_⟩, by rw [hallocx]⟩
        have := hdata.2
        change max s₃.length (ind.toNat + 1) = FSSIZE
        rw [hlen]
        exact max_eq_left this
      · rw [allocIfZero, if_pos rfl] at hallocx
        refine .inr ⟨hs₃.write (hlt.trans_le hle) _, ?_⟩
        rw [hallocx]
        dsimp only
        rw [content_write hne, Content.logWrite, content_of_ne hne, himg]
    · exact .inr ⟨hs₁, rfl⟩

end Append

def NoRoom (s : Mkfs) (m n : ℕ) : Prop :=
  MAXFILE * BSIZE < n ∨ ((s.content.image sb).free sb).card + blocksFor m < blocksFor n

lemma iappendLoop_spec : ∀ fuel off p (d : Dinode) (s : Mkfs), s.Steady →
    Owned {b | sb.IsData b} {b | (s.content.image sb).used b = true} ((s.content.image sb).patch i d).ref →
    d.type ≠ 0 → d.Fills (s.content.image sb).data off → off ≤ MAXFILE * BSIZE → p.length ≤ fuel →
    Wp (iappendLoop fuel off p d) s (fun r s' => s'.Steady ∧ r.1 = off + p.length ∧
      r.1 ≤ MAXFILE * BSIZE ∧ Wrote sb i d (s.content.image sb) off off p r.2 (s'.content.image sb))
      (fun _ _ => NoRoom s off (off + p.length)) := by
  intro fuel
  induction fuel with
  | zero =>
    intro off p d s hs hown _ hfills hmax hfuel
    obtain rfl : p = [] := length_eq_zero_iff.mp (by omega)
    exact ⟨hs, rfl, hmax, Wrote.refl hs.reserved hown hfills le_rfl⟩
  | succ fuel ih =>
    intro off p d s hs hown htype hfills hmax hfuel
    rw [iappendLoop]
    split
    · rename_i hp
      subst hp
      exact ⟨hs, rfl, hmax, Wrote.refl hs.reserved hown hfills le_rfl⟩
    rename_i hp
    have hlen : p.length ≠ 0 := by simpa using hp
    dsimp only
    split
    · rename_i hfbn
      have hoff : MAXFILE * BSIZE ≤ off := (Nat.le_div_iff_mul_le (by decide)).mp hfbn
      exact .inl (by omega)
    rename_i hfbn
    have hfbn : off / BSIZE < MAXFILE := Nat.lt_of_not_le hfbn
    obtain ⟨hpos, hle, hblock⟩ := chunk_bounds off hlen
    have hn1 : min p.length ((off / BSIZE + 1) * BSIZE - off) = chunk off p.length := by
      unfold chunk BSIZE
      omega
    have hmod : off - off / BSIZE * BSIZE = off % BSIZE := by
      unfold BSIZE
      omega
    have hoff : off < MAXFILE * BSIZE := (Nat.div_lt_iff_lt_mul (by decide)).mp hfbn
    have hend : off + chunk off p.length ≤ MAXFILE * BSIZE := by
      unfold MAXFILE NDIRECT NINDIRECT BSIZE at *
      omega
    have htake : (p.take (chunk off p.length)).length = chunk off p.length := by
      simpa using hle
    have hdrop : (p.drop (chunk off p.length)).length = p.length - chunk off p.length :=
      length_drop
    have hspec := bmap_spec hs.reserved hown htype hfbn
    -- a `bmap` without a free block
    have hstop : bmap sb d (off / BSIZE) s.content = .error .ballocOutOfBlocks →
        NoRoom s off (off + p.length) := by
      intro herr
      rw [herr] at hspec
      have hmissing := blocksFor_add_missing_le hfills hfbn (Nat.pos_of_ne_zero hlen)
      rw [max_eq_right (Nat.le_add_right _ _)] at hmissing
      exact .inr (by have := hspec.2; omega)
    rw [hn1, hmod]
    refine Wp.bind (blockOf_spec hs hown htype hfbn) ?_ (fun _ _ => hstop)
    rintro ⟨x, d₁⟩ s₁ (⟨hfull, herr⟩ | ⟨hs₁, hbmap⟩)
    · refine Wp.bind (rsect_spec s₁ x) ?_ (fun _ _ _ => hstop herr)
      rintro buf s₂ ⟨-, -, hread⟩
      dsimp only at hfull
      rw [hfull.1, hfull.2] at hread
      exact absurd hread (lt_irrefl _)
    obtain ⟨hg, hx⟩ := hspec.of_ok hbmap
    dsimp only at hg hx
    have htype₁ : d₁.type ≠ 0 := by
      rwa [hg.attrs]
    obtain ⟨hdata, hused⟩ := hs₁.of_ref hg.owned htype₁ hx
    have hne := isData_ne_bmapBlock hdata
    have hin : ¬ FSSIZE < x.toNat := Nat.not_lt.mpr hdata.2.le
    have hw := hg.round (p.take (chunk off p.length)) hown htype hx hfills hmax le_rfl (by omega) (by omega)
      (by omega)
    refine Wp.bind (rsect_spec s₁ x) ?_ (fun _ _ h => absurd h (hs₁.no_stop hdata.2))
    rintro buf s₁ ⟨rfl, rfl, -⟩
    refine Wp.bind (wsect_spec s₁ x _) ?_ (fun _ _ h => absurd h hin)
    rintro _ s₃ rfl
    have hs₃ := hs₁.write hused ((s₁.img x).store (off % BSIZE) (p.take (chunk off p.length)))
    have hcontent := content_write (s := s₁) hne ((s₁.img x).store (off % BSIZE) (p.take (chunk off p.length)))
      (max s₁.length (x.toNat + 1))
    rw [Content.logWrite, content_of_ne hne, ← hcontent] at hw
    have hfills₃ := hw.fills
    have hcard := hw.card
    rw [max_eq_right (Nat.le_add_right _ _), htake] at hfills₃ hcard
    have hsum : off + chunk off p.length + (p.drop (chunk off p.length)).length = off + p.length := by
      omega
    refine (ih (off + chunk off p.length) (p.drop (chunk off p.length)) d₁ _ hs₃ hw.owned htype₁ hfills₃ hend
      (by omega)).mono ?_ ?_
    · rintro ⟨off', d₂⟩ s₄ ⟨hs₄, hoff', hmax', hw₄⟩
      dsimp only at hoff' hmax' hw₄ ⊢
      have hall : Wrote sb i d (s.content.image sb) off off
          (p.take (chunk off p.length) ++ p.drop (chunk off p.length)) d₂ (s₄.content.image sb) := by
        apply hw.trans le_rfl
        rwa [htake, max_eq_right (Nat.le_add_right _ _)]
      rw [take_append_drop] at hall
      exact ⟨hs₄, by omega, hmax', hall⟩
    · intro _ _ hroom
      rw [hsum] at hroom
      exact hroom.imp id (fun hfew => by omega)

/-! ### Inodes -/

lemma iblock_lt (hi : i < sb.ninodes) : (sb.iblock i).toNat < bmapBlock.toNat := by
  obtain ⟨hblock, hlt⟩ := FsSuperblock.toNat_iblock sb hi
  rw [hblock]
  exact hlt.trans_eq (by decide)

lemma iblock_lt_size (hi : i < sb.ninodes) : (sb.iblock i).toNat < FSSIZE :=
  (iblock_lt hi).trans (by decide)

lemma rinode_spec (hs : s.Steady) (hi : i < sb.ninodes) :
    Wp (rinode i) s (fun d s' => s' = s ∧ (s.content.image sb).inode i = d) (fun _ _ => False) := by
  refine Wp.bind (rsect_spec s _) ?_ (fun _ _ => hs.no_stop (iblock_lt_size hi))
  rintro buf s' ⟨rfl, rfl, -⟩
  refine ⟨rfl, ?_⟩
  rw [Content.image_inode hi, Content.dinode, content_of_ne]
  intro heq
  exact absurd (congrArg BitVec.toNat heq) (iblock_lt hi).ne

lemma winode_spec (hs : s.Steady) (hi : i < sb.ninodes) (d : Dinode) :
    Wp (winode i d) s (fun _ s' => s'.Steady ∧ s'.freeinode = s.freeinode ∧ s'.freeblock = s.freeblock ∧
      s'.content = iupdate sb i d s.content) (fun _ _ => False) := by
  have hlt := iblock_lt hi
  have hne : sb.iblock i ≠ bmapBlock := fun heq => absurd (congrArg BitVec.toNat heq) hlt.ne
  refine Wp.bind (rsect_spec s _) ?_ (fun _ _ => hs.no_stop (iblock_lt_size hi))
  rintro buf s' ⟨rfl, rfl, -⟩
  refine (wsect_spec s' _ _).mono ?_ (fun _ _ => Nat.not_lt.mpr (iblock_lt_size hi).le)
  rintro _ s'' rfl
  refine ⟨hs.write (hlt.trans hs.bmapBlock_lt) _, rfl, rfl, ?_⟩
  rw [content_write hne, iupdate, Content.logWrite, content_of_ne hne]

lemma ialloc_spec (hs : s.Steady) (hn : s.freeinode < sb.ninodes) (type : BitVec 16) :
    Wp (ialloc type) s (fun inum s' => inum = s.freeinode ∧ s'.Steady ∧ s'.freeinode = s.freeinode + 1 ∧
      s'.content.image sb = (s.content.image sb).patch s.freeinode { Dinode.zero with type := type, nlink := 1 })
      (fun _ _ => False) := by
  have hs' : ({ s with freeinode := s.freeinode + 1 } : Mkfs).Steady := ⟨hs.1, hs.2, hs.3, hs.4⟩
  simp only [ialloc, wp_bind, wp_get, wp_modify, wp_pure]
  refine (winode_spec hs' hn _).imp ?_
  rintro _ s' ⟨hs', hfreeinode, -, hcontent⟩
  refine ⟨trivial, hs', hfreeinode, ?_⟩
  rw [hcontent, Content.image_iupdate hn]
  rfl

/-- `iappend` puts the bytes at the end of the file, or the image has no room. -/
lemma iappend_spec (hs : s.Steady) (hwf : (s.content.image sb).WellFormed sb) (hi : i < sb.ninodes)
    (hfile : ((s.content.image sb).inode i).IsFile) (p : List (BitVec 8)) :
    Wp (iappend i p) s (fun _ s' => s'.Steady ∧
      (∃ d', Spliced sb i s.content ((s.content.image sb).inode i).size.toNat p d' s'.content) ∧
      ((s'.content.image sb).free sb).card +
          blocksFor (((s.content.image sb).inode i).size.toNat + p.length) =
        ((s.content.image sb).free sb).card + blocksFor ((s.content.image sb).inode i).size.toNat)
      (fun _ _ => NoRoom s ((s.content.image sb).inode i).size.toNat
        (((s.content.image sb).inode i).size.toNat + p.length)) := by
  have hfits : MAXFILE * BSIZE < 2 ^ 32 := by decide
  have hholes := hwf.noHoles i hfile
  refine Wp.bind (rinode_spec hs hi) ?_ (fun _ _ h => h.elim)
  rintro d s' ⟨rfl, hd⟩
  have hown := hwf.owned_patch (i := i)
  rw [hd] at hholes hown hfile ⊢
  refine Wp.bind (iappendLoop_spec p.length d.size.toNat p d s' hs hown hfile.1 hholes.fills hholes.size_le
    le_rfl) ?_ (fun _ _ h => h)
  rintro ⟨off, d₁⟩ s₁ ⟨hs₁, hoff, hmax, hw⟩
  dsimp only at hoff hmax hw ⊢
  refine (winode_spec hs₁ hi _).mono ?_ (fun _ _ h => h.elim)
  rintro _ s₂ ⟨hs₂, -, -, hcontent⟩
  have hnat : (BitVec.ofNat 32 off).toNat = off := by
    rw [BitVec.toNat_ofNat, Nat.mod_eq_of_lt (by omega)]
  have hcard := hw.card
  rw [max_eq_right (Nat.le_add_right _ _)] at hcard
  refine ⟨hs₂, ⟨{ d₁ with size := BitVec.ofNat 32 off }, ?_⟩, ?_⟩
  · rw [hcontent]
    exact hw.spliced hwf hi hd (by omega) (by omega)
  · rw [hcontent, Content.image_iupdate hi]
    exact hcard

/-! ### The number of inodes -/

def Takes {α : Type} (n : ℕ) (x : MkfsM α) : Prop :=
  ∀ s, Returns x s (fun _ s' => s'.freeinode = s.freeinode + n)

section Takes

variable {α β : Type} {m n : ℕ} {x : MkfsM α} {f : α → MkfsM β}

lemma Takes.bind (hx : Takes m x) (hf : ∀ a, Takes n (f a)) : Takes (m + n) (x >>= f) := by
  intro s
  refine Returns.bind (hx s) ?_
  intro a s₁ h₁
  refine (hf a s₁).imp ?_
  intro b s₂ h₂
  rw [h₂, h₁, Nat.add_assoc]

lemma takes_pure (a : α) : Takes 0 (pure a : MkfsM α) := fun _ => rfl

lemma takes_throw (e : MkfsStop) : Takes n (throw e : MkfsM α) := fun _ => trivial

lemma Takes.forM {γ : Type} {g : γ → MkfsM Unit} (hg : ∀ c, Takes n (g c)) (l : List γ) :
    Takes (l.length * n) (l.forM g) := by
  intro s
  refine (Returns.forM (fun k s' => s'.freeinode = s.freeinode + k * n) ?_ (k := 0) (by simp)).imp ?_
  · intro c _ k s₁ h₁
    refine (hg c s₁).imp ?_
    intro _ s₂ h₂
    rw [h₂, h₁, Nat.add_mul, Nat.one_mul, Nat.add_assoc]
  · intro _ s' h
    rwa [Nat.zero_add] at h

lemma takes_wsect (b : Blockno) (buf : Block) : Takes 0 (wsect b buf) := by
  intro s
  refine (wsect_spec s b buf).returns.imp ?_
  rintro _ s' rfl
  rfl

lemma takes_rsect (b : Blockno) : Takes 0 (rsect b) := by
  intro s
  refine (rsect_spec s b).returns.imp ?_
  rintro buf s' ⟨rfl, -⟩
  rfl

lemma takes_winode (inum : ℕ) (ip : Dinode) : Takes 0 (winode inum ip) :=
  (takes_rsect _).bind fun _ => takes_wsect _ _

lemma takes_rinode (inum : ℕ) : Takes 0 (rinode inum) :=
  (takes_rsect _).bind fun _ => takes_pure _

lemma takes_takeIfZero (addr : Blockno) : Takes 0 (takeIfZero addr) := by
  unfold takeIfZero
  split
  · exact fun _ => rfl
  · exact takes_pure _

lemma takes_blockOf (din : Dinode) (fbn : ℕ) : Takes 0 (blockOf din fbn) := by
  unfold blockOf
  split
  · exact (takes_takeIfZero _).bind fun _ => takes_pure _
  · refine (takes_takeIfZero _).bind (n := 0) ?_
    intro ind
    refine (takes_rsect _).bind (n := 0) ?_
    intro buf
    split
    · exact (takes_takeIfZero _).bind fun _ => (takes_wsect _ _).bind fun _ => takes_pure _
    · exact takes_pure _

lemma takes_iappendLoop (fuel off : ℕ) (p : List (BitVec 8)) (din : Dinode) :
    Takes 0 (iappendLoop fuel off p din) := by
  induction fuel generalizing off p din with
  | zero => exact takes_pure _
  | succ fuel ih =>
    rw [iappendLoop]
    split
    · exact takes_pure _
    dsimp only
    split
    · exact takes_throw _
    · exact (takes_blockOf _ _).bind fun _ => (takes_rsect _).bind fun _ =>
        (takes_wsect _ _).bind fun _ => ih _ _ _

lemma takes_iappend (inum : ℕ) (p : List (BitVec 8)) : Takes 0 (iappend inum p) :=
  (takes_rinode _).bind fun _ => (takes_iappendLoop _ _ _ _).bind fun _ => takes_winode _ _

lemma takes_ialloc (type : BitVec 16) : Takes 1 (ialloc type) := by
  intro s
  simp only [ialloc, Returns, wp_bind, wp_get, wp_modify, wp_pure]
  exact (takes_winode _ _ _).imp fun _ _ h => h

lemma takes_addFile (f : InputFile) : Takes 1 (addFile f) := by
  unfold addFile
  split
  · exact takes_throw _
  split
  · exact takes_throw _
  · exact (takes_ialloc _).bind fun _ => (takes_iappend _ _).bind fun _ =>
      Takes.forM (fun _ => takes_iappend _ _) _

end Takes

/-! ### The run -/

/-- The inodes below `n` are files and directories, those from `n` on are free, and the root
directory has `r` entries. -/
structure Built (n r : ℕ) (s : Mkfs) : Prop where
  steady : s.Steady
  freeinode : s.freeinode = n
  wellFormed : (s.content.image sb).WellFormed sb
  unused : ∀ j, n ≤ j → (s.content.image sb).inode j = Dinode.zero
  isFile : ∀ j, 0 < j → j < n → ((s.content.image sb).inode j).IsFile
  root : ((s.content.image sb).inode ROOTINO).size.toNat = 16 * r

namespace Built

variable {n r : ℕ}

lemma ialloc (h : Built n r s) (hpos : 0 < n) (hn : n < sb.ninodes) {type : BitVec 16}
    (htype : type = T_DIR ∨ type = T_FILE) :
    Wp (ialloc type) s (fun inum s' => inum = n ∧ Built (n + 1) r s' ∧
      s'.content.image sb = (s.content.image sb).patch n { Dinode.zero with type := type, nlink := 1 })
      (fun _ _ => False) := by
  have hfree := h.unused n le_rfl
  refine (ialloc_spec h.steady (by rwa [h.freeinode]) type).imp ?_
  rw [h.freeinode]
  rintro inum s' ⟨hinum, hs', hfreeinode, himage⟩
  refine ⟨hinum, ⟨hs', hfreeinode, ?_, ?_, ?_, ?_⟩, himage⟩
  · rw [himage]
    exact h.wellFormed.allocate (by rw [hfree]; rfl) rfl rfl
  · intro j hj
    rw [himage]
    dsimp only [Image.patch]
    rw [update_of_ne (by omega)]
    exact h.unused j (by omega)
  · intro j hj hjn
    rw [himage]
    dsimp only [Image.patch]
    by_cases hjn' : j = n
    · subst hjn'
      rw [update_self]
      obtain rfl | rfl := htype <;> exact ⟨by decide, by decide⟩
    · rw [update_of_ne hjn']
      exact h.isFile j hj (by omega)
  · have hroot := h.root
    rw [himage]
    dsimp only [Image.patch]
    by_cases hr : ROOTINO = n
    · rw [hr, hfree] at hroot
      rw [hr, update_self, ← hroot]
    · rw [update_of_ne hr]
      exact hroot

lemma spliced (h : Built n r s) (hi : i < n) {p : List (BitVec 8)} {off : ℕ} (hs' : s'.Steady)
    (hfreeinode : s'.freeinode = s.freeinode) {d' : Dinode} (hw : Spliced sb i s.content off p d' s'.content)
    {r' : ℕ} (hroot : ((s'.content.image sb).inode ROOTINO).size.toNat = 16 * r') : Built n r' s' := by
  refine ⟨hs', hfreeinode.trans h.freeinode, hw.wellFormed, ?_, ?_, hroot⟩
  · intro j hj
    rw [hw.inode, update_of_ne (by omega)]
    exact h.unused j hj
  · intro j hj hjn
    rw [hw.inode]
    by_cases hji : j = i
    · subst hji
      rw [update_self, hw.attrs]
      exact h.isFile j hj hjn
    · rw [update_of_ne hji]
      exact h.isFile j hj hjn

lemma appendDirent (h : Built n r s) (hroot : ROOTINO < n) (hn : n ≤ sb.ninodes) (name : List (BitVec 8)) (inum : ℕ) :
    Returns (appendDirent name inum) s (fun _ => Built n (r + 1)) := by
  have hfile := h.isFile ROOTINO (by decide) hroot
  refine (Returns.and (iappend_spec h.steady h.wellFormed (hroot.trans_le hn) hfile _).returns
    (takes_iappend ROOTINO _ _)).imp ?_
  rintro _ s' ⟨⟨hs', ⟨d', hw⟩, -⟩, hfreeinode⟩
  refine h.spliced hroot hs' hfreeinode hw ?_
  have hlen : (Dirent.mk (BitVec.ofNat 16 inum) (strncpy name DIRSIZ)).bytes.length = 16 := by
    rw [Dirent.length_bytes, length_strncpy]
    rfl
  rw [hw.inode, update_self, hw.size, hlen, h.root]
  omega

lemma iappend (h : Built n r s) (hroot : ROOTINO < i) (hi : i < n) (hn : n ≤ sb.ninodes) (p : List (BitVec 8)) :
    Returns (iappend i p) s (fun _ => Built n r) := by
  have hfile := h.isFile i (by omega) hi
  refine (Returns.and (iappend_spec h.steady h.wellFormed (hi.trans_le hn) hfile p).returns
    (takes_iappend i p _)).imp ?_
  rintro _ s' ⟨⟨hs', ⟨d', hw⟩, -⟩, hfreeinode⟩
  refine h.spliced hi hs' hfreeinode hw ?_
  rw [hw.inode, update_of_ne hroot.ne]
  exact h.root

lemma addFile (h : Built n r s) (hroot : ROOTINO < n) (hn : n < sb.ninodes) (f : InputFile) :
    Returns (addFile f) s (fun _ => Built (n + 1) (r + 1)) := by
  unfold Mkfs.addFile
  split
  · trivial
  split
  · trivial
  refine Returns.bind (h.ialloc (by omega) hn (.inr rfl)).returns ?_
  rintro inum s₁ ⟨rfl, h₁, -⟩
  refine Returns.bind (h₁.appendDirent (by omega) hn f.base inum) ?_
  intro _ s₂ h₂
  refine (Returns.forM (fun _ => Built (inum + 1) (r + 1)) ?_ (k := 0) h₂)
  intro p _ _ s₃ h₃
  exact h₃.iappend hroot (Nat.lt_succ_self _) hn p

lemma makeRoot (h : Built 1 0 s) : Returns makeRoot s (fun _ => Built 2 2) := by
  refine Returns.bind (h.ialloc Nat.one_pos (by decide) (.inl rfl)).returns ?_
  rintro rootino s₁ ⟨rfl, h₁, -⟩
  rw [if_neg (by decide)]
  refine Returns.bind (h₁.appendDirent (by decide) (by decide) _ _) ?_
  intro _ s₂ h₂
  exact h₂.appendDirent (by decide) (by decide) _ _

end Built

def formatted : Mkfs := ⟨update (fun _ _ => 0) 1 superblock, FSSIZE, 1, nmeta⟩

lemma zero_eq {k : ℕ} (hk : k ≤ FSSIZE) :
    (List.range k).forM (fun i => wsect (BitVec.ofNat 32 i) (fun _ => 0)) start = .ok () { start with length := k } := by
  induction k with
  | zero => rfl
  | succ k ih =>
    have hlt : k < 2000 := hk
    have hnat : (BitVec.ofNat 32 k).toNat = k := by
      rw [BitVec.toNat_ofNat, Nat.mod_eq_of_lt (by omega)]
    have hround : wsect (BitVec.ofNat 32 k) (fun _ => 0) { start with length := k } =
        .ok () { start with length := k + 1 } := by
      rw [wsect_eq (by rw [hnat]; exact hlt.le), hnat]
      congr 2
      · exact update_eq_self ..
      · exact max_eq_right (Nat.le_succ k)
    have happend : (List.range (k + 1)).forM (fun i => wsect (BitVec.ofNat 32 i) (fun _ => 0)) =
        ((List.range k).forM (fun i => wsect (BitVec.ofNat 32 i) (fun _ => 0)) >>= fun _ =>
          [k].forM (fun i => wsect (BitVec.ofNat 32 i) (fun _ => 0))) := by
      rw [range_succ]
      exact forM_append
    rw [happend, bind_of_ok (ih (by omega))]
    exact bind_of_ok hround

lemma format_eq : format start = .ok () formatted := by
  rw [format, bind_of_ok (zero_eq le_rfl), wsect_eq (by decide)]
  rfl

lemma formatted_img (hb : b ≠ 1) : formatted.img b = fun _ => 0 := by
  unfold formatted
  dsimp only
  rw [update_of_ne hb]

lemma dinode_zero (k : ℕ) : Block.dinode (fun _ => 0) k = Dinode.zero := by
  simp [Block.dinode, Block.uint, Block.short, Block.byte, Dinode.zero]

lemma built_formatted : Built 1 0 formatted := by
  have hs : formatted.Steady := by
    refine ⟨rfl, le_rfl, by decide, ?_⟩
    intro b hb
    apply formatted_img
    rintro rfl
    exact absurd hb (by decide)
  have hzero : ∀ j, (formatted.content.image sb).inode j = Dinode.zero := by
    intro j
    by_cases hj : j < sb.ninodes
    · obtain ⟨hblock, -⟩ := FsSuperblock.toNat_iblock sb hj
      have hne : sb.iblock j ≠ bmapBlock := fun heq => absurd (congrArg BitVec.toNat heq) (iblock_lt hj).ne
      have hne' : sb.iblock j ≠ 1 := by
        intro heq
        rw [heq] at hblock
        have hle : sb.inodestart ≤ (1 : Blockno).toNat := hblock ▸ Nat.le_add_left ..
        exact absurd hle (by decide)
      rw [Content.image_inode hj, Content.dinode, content_of_ne hne, formatted_img hne', dinode_zero]
    · exact if_neg hj
  refine ⟨hs, rfl, ⟨hs.reserved, ⟨?_, ?_, ?_⟩, ?_⟩, fun j _ => hzero j, ?_, ?_⟩
  · intro p q b hp _
    simp [Image.ref, hzero, Dinode.zero] at hp
  · intro p b hp
    simp [Image.ref, hzero, Dinode.zero] at hp
  · intro b hb
    have hfree : ¬ b.toNat < formatted.freeblock := Nat.not_lt.mpr hb.1
    simp [Image.ref, hzero, Dinode.zero, hs.used, hfree]
  · intro j hj
    rw [hzero] at hj
    exact absurd rfl hj.1
  · omega
  · rw [hzero]
    rfl

def rootSize (r : ℕ) : BitVec 32 :=
  BitVec.ofNat 32 ((16 * r / BSIZE + 1) * BSIZE)

lemma fixRoot_spec {n r : ℕ} (h : Built n r s) :
    Wp fixRoot s (fun _ s' => s'.Steady ∧ s'.content =
      iupdate sb ROOTINO { (s.content.image sb).inode ROOTINO with size := rootSize r } s.content)
      (fun _ _ => False) := by
  refine Wp.bind (rinode_spec h.steady (by decide)) ?_ (fun _ _ h => h)
  rintro d s₁ ⟨rfl, rfl⟩
  dsimp only
  rw [h.root]
  refine (winode_spec h.steady (by decide) _).imp ?_
  rintro _ s' ⟨hs', -, -, hcontent⟩
  exact ⟨hs', hcontent⟩

lemma balloc_spec (s : Mkfs) (n : ℕ) :
    Wp (balloc n) s (fun _ s' => s'.img = update s.img bmapBlock (bits n)) (fun _ _ => BSIZE * 8 ≤ n) := by
  unfold balloc
  split
  · rename_i hle
    exact hle
  · refine (wsect_spec s _ _).mono ?_ (fun _ _ h => absurd h (by decide))
    rintro _ s' rfl
    rfl

lemma finish_spec {n r : ℕ} (h : Built n r s) :
    Wp (fixRoot >>= fun _ => get >>= fun s => balloc s.freeblock) s (fun _ s' => s'.img =
      iupdate sb ROOTINO { (s.content.image sb).inode ROOTINO with size := rootSize r } s.content)
      (fun _ _ => False) := by
  refine Wp.bind (fixRoot_spec h) ?_ (fun _ _ h => h)
  rintro _ s₁ ⟨hs₁, hcontent⟩
  simp only [wp_bind, wp_get]
  refine (balloc_spec s₁ _).mono (fun _ s₂ himg => himg.trans hcontent) ?_
  intro _ _ hle
  exact absurd (hle.trans hs₁.le_size) (by decide)

lemma takes_build (files : List InputFile) : Takes (1 + (files.length + 0)) (build files) := by
  refine Takes.bind (m := 1) ?_ (fun _ => Takes.bind (m := files.length) ?_ (fun _ => Takes.bind (m := 0) (n := 0) ?_ ?_))
  · refine (takes_ialloc _).bind (n := 0) ?_
    intro rootino
    split
    · exact takes_throw _
    · exact (takes_iappend _ _).bind fun _ => takes_iappend _ _
  · simpa using Takes.forM takes_addFile files
  · exact (takes_rinode _).bind fun _ => takes_winode _ _
  · intro _ s
    simp only [Returns, wp_bind, wp_get]
    unfold balloc
    split
    · trivial
    · exact takes_wsect _ _ s

lemma build_spec {files : List InputFile} (hfiles : files.length + 1 < sb.ninodes) :
    Returns (build files) formatted (fun _ s' => ∃ s, Built (files.length + 2) (files.length + 2) s ∧
      s'.img = iupdate sb ROOTINO
        { (s.content.image sb).inode ROOTINO with size := rootSize (files.length + 2) } s.content) := by
  refine Returns.bind built_formatted.makeRoot ?_
  intro _ s₁ h₁
  have hloop := Returns.forM (l := files) (g := addFile)
    (fun k s => k + 1 < sb.ninodes → Built (k + 2) (k + 2) s) ?_ (k := 0) (fun _ => h₁)
  · refine Returns.bind hloop ?_
    intro _ s₂ h₂
    rw [Nat.zero_add] at h₂
    replace h₂ := h₂ hfiles
    exact (finish_spec h₂).returns.imp fun _ s₄ himg => ⟨s₂, h₂, himg⟩
  · intro f _ k s h
    by_cases hk : k + 1 + 1 < sb.ninodes
    · refine ((h (by omega)).addFile (Nat.lt_add_left k (by decide)) hk f).imp ?_
      intro _ s' h' _
      exact h'
    · exact (takes_addFile f s).imp fun _ _ _ h => absurd h hk

lemma main_eq (files : List InputFile) : main files start = build files formatted :=
  bind_of_ok format_eq

/-! ### The result -/

/-- What the kernel relies on in an image. -/
structure Mountable (s : Mkfs) : Prop where
  inodes : ∀ i, 0 < i → i < s.freeinode → i < sb.ninodes
  addresses : ∀ p b, (s.img.image sb).ref p = some b → nmeta ≤ b.toNat ∧ b.toNat < sb.size
  once : ∀ p q b, (s.img.image sb).ref p = some b → (s.img.image sb).ref q = some b → p = q
  bitmap : ∀ b : Blockno, b.toNat < sb.size →
    (s.img.bit sb b = true ↔ b.toNat < nmeta ∨ ∃ p, (s.img.image sb).ref p = some b)
  blocks : ∀ i, 0 < i → i < s.freeinode → (s.img.dinode sb i).size.toNat ≤ MAXFILE * BSIZE ∧
    ∀ off < (s.img.dinode sb i).size.toNat,
      ∃ b, (s.img.dinode sb i).ref (s.img.image sb).data (BlockSlot.of (off / BSIZE)) = some b
  reads : ∀ i, 0 < i → i < s.freeinode → ∀ devsw off n,
    ∃ bytes, readi sb devsw (s.img.dinode sb i) off n s.img = .ok (bytes, s.img.dinode sb i, s.img)

lemma Mountable.of_wellFormed (hwf : (s.img.image sb).WellFormed sb) (hn : s.freeinode ≤ sb.ninodes)
    (hfile : ∀ i, 0 < i → i < s.freeinode → ((s.img.image sb).inode i).IsFile) : s.Mountable := by
  have hinode : ∀ i, i < s.freeinode → (s.img.image sb).inode i = s.img.dinode sb i := by
    intro i hi
    exact Content.image_inode (hi.trans_le hn)
  have hholes : ∀ i, 0 < i → i < s.freeinode → (s.img.dinode sb i).NoHoles (s.img.image sb).data := by
    intro i hpos hi
    rw [← hinode i hi]
    exact hwf.noHoles i (hfile i hpos hi)
  refine ⟨fun i _ hi => hi.trans_le hn, fun p b => hwf.owned.mem_pool, fun p q b => hwf.owned.inj, ?_, ?_, ?_⟩
  · intro b hb
    have hused : (s.img.image sb).used b = s.img.bit sb b := by
      simp [Content.image, hb]
    rw [← hused]
    by_cases hdata : nmeta ≤ b.toNat
    · rw [or_iff_right (Nat.not_lt.mpr hdata)]
      exact hwf.owned.used_iff ⟨hdata, hb⟩
    · have hmeta := Nat.lt_of_not_le hdata
      exact iff_of_true (hwf.reserved b hmeta) (.inl hmeta)
  · intro i hpos hi
    obtain ⟨hsize, hfills⟩ := hholes i hpos hi
    exact ⟨hsize, fun off hoff => hfills.exists_ref hoff hsize⟩
  · intro i hpos hi devsw off n
    have hown := hwf.owned_patch (i := i)
    rw [hinode i hi] at hown
    exact ⟨_, readi_eq devsw hown (hinode i hi ▸ hfile i hpos hi) (hholes i hpos hi) off n⟩

section Root

variable {n r : ℕ} (h : Built n r s) (hn : ROOTINO < n)

include h hn

lemma Built.root_noHoles : 16 * r ≤ MAXFILE * BSIZE ∧
    ((s.content.image sb).inode ROOTINO).Fills (s.content.image sb).data (16 * r) := by
  have hholes := h.wellFormed.noHoles ROOTINO (h.isFile ROOTINO (by decide) hn)
  rw [← h.root]
  exact ⟨hholes.size_le, hholes.fills⟩

lemma Built.toNat_rootSize : (rootSize r).toNat = (16 * r / BSIZE + 1) * BSIZE := by
  have hle := (h.root_noHoles hn).1
  unfold MAXFILE NDIRECT NINDIRECT BSIZE at hle
  unfold rootSize BSIZE
  rw [BitVec.toNat_ofNat, Nat.mod_eq_of_lt (by omega)]

lemma Built.fixed (hr : 16 * r % BSIZE ≠ 0) :
    ((s.content.image sb).patch ROOTINO
      { (s.content.image sb).inode ROOTINO with size := rootSize r }).WellFormed sb := by
  obtain ⟨hle, hfills⟩ := h.root_noHoles hn
  have hnat := h.toNat_rootSize hn
  apply h.wellFormed.patch
  · intro t
    rw [Image.ref_patch_size, Image.patch_inode]
  · intro _
    refine ⟨?_, ?_⟩
    · dsimp only
      rw [hnat]
      unfold MAXFILE NDIRECT NINDIRECT BSIZE at *
      omega
    · intro t
      dsimp only
      rw [Dinode.ref_size, hfills t, hnat]
      unfold BSIZE at *
      omega

end Root

section Result

variable {files : List InputFile} (h : build files formatted = .ok () s)

include h

lemma freeinode_eq : s.freeinode = files.length + 2 := by
  have hcount := Returns.of_ok (takes_build files formatted) h
  change s.freeinode = 1 + (1 + (files.length + 0)) at hcount
  omega

lemma Mountable.few (hm : s.Mountable) : files.length + 1 < NINODES := by
  by_contra hmany
  have hlt := hm.inodes NINODES (by decide) (by rw [freeinode_eq h]; omega)
  exact absurd hlt (lt_irrefl _)

lemma exists_built (hfew : files.length + 1 < NINODES) :
    ∃ s₀, Built (files.length + 2) (files.length + 2) s₀ ∧ s.img.image sb = (s₀.content.image sb).patch ROOTINO
      { (s₀.content.image sb).inode ROOTINO with size := rootSize (files.length + 2) } := by
  obtain ⟨s₀, hbuilt, himg⟩ := Returns.of_ok (build_spec hfew) h
  refine ⟨s₀, hbuilt, ?_⟩
  rw [himg, Content.image_iupdate (by decide)]
  rfl

/-- With the last block of the directory full, the block that its new size adds is missing. -/
lemma Mountable.partial_block (hm : s.Mountable) : 16 * (files.length + 2) % BSIZE ≠ 0 := by
  intro hmod
  have hroot : ROOTINO < files.length + 2 := Nat.lt_add_left _ (by decide)
  obtain ⟨s₀, hbuilt, himage⟩ := exists_built h (hm.few h)
  obtain ⟨-, hfills⟩ := hbuilt.root_noHoles hroot
  have hdinode : s.img.dinode sb ROOTINO =
      { (s₀.content.image sb).inode ROOTINO with size := rootSize (files.length + 2) } := by
    rw [← Content.image_inode (by decide), himage]
    simp only [Image.patch, update_self]
  obtain ⟨hmax, hblocks⟩ := hm.blocks ROOTINO (by decide) (by rwa [freeinode_eq h])
  rw [hdinode] at hmax hblocks
  dsimp only at hmax hblocks
  rw [hbuilt.toNat_rootSize hroot] at hmax hblocks
  obtain ⟨b, hb⟩ := hblocks (16 * (files.length + 2)) (Nat.lt_mul_of_div_lt (Nat.lt_succ_self _) (by decide))
  have hbn : 16 * (files.length + 2) / BSIZE < MAXFILE :=
    Nat.lt_of_succ_le (Nat.le_of_mul_le_mul_right hmax (by decide))
  have hsome : (((s₀.content.image sb).inode ROOTINO).ref (s₀.content.image sb).data
      (BlockSlot.of (16 * (files.length + 2) / BSIZE))).isSome := by
    rw [Dinode.ref_size, himage] at hb
    exact Option.isSome_iff_exists.mpr ⟨b, hb⟩
  rw [hfills, BlockSlot.index_of hbn, Nat.div_mul_cancel (Nat.dvd_of_mod_eq_zero hmod)] at hsome
  exact absurd hsome (lt_irrefl _)

lemma mountable (hfew : files.length + 1 < NINODES) (hmod : 16 * (files.length + 2) % BSIZE ≠ 0) : s.Mountable := by
  have hroot : ROOTINO < files.length + 2 := Nat.lt_add_left _ (by decide)
  obtain ⟨s₀, hbuilt, himage⟩ := exists_built h hfew
  apply Mountable.of_wellFormed
  · rw [himage]
    exact hbuilt.fixed hroot hmod
  · rw [freeinode_eq h]
    exact hfew
  · intro i hpos hi
    have hfile := hbuilt.isFile i hpos (by rwa [← freeinode_eq h])
    rw [himage]
    by_cases hir : i = ROOTINO
    · subst hir
      simp only [Image.patch, update_self]
      exact hfile
    · simp only [Image.patch, update_of_ne hir]
      exact hfile

end Result

/-- If `mkfs` ends with `exit(0)`, the kernel can mount the image if and only if the inode table was
large enough for the files and the root directory does not end at the end of a block. -/
theorem mkfs_mountable_iff {files : List InputFile} (h : main files start = .ok () s) :
    s.Mountable ↔ files.length + 1 < NINODES ∧ 16 * (files.length + 2) % BSIZE ≠ 0 := by
  rw [main_eq] at h
  constructor
  · intro hm
    exact ⟨hm.few h, hm.partial_block h⟩
  · rintro ⟨hfew, hmod⟩
    exact mountable h hfew hmod

def succeeds (files : List InputFile) : Bool :=
  match build files formatted with
  | .ok _ _ => true
  | .error _ _ => false

lemma exists_of_succeeds (files : List InputFile) (h : succeeds files = true) :
    ∃ s, build files formatted = .ok () s := by
  unfold succeeds at h
  split at h
  · rename_i s hs
    exact ⟨s, hs⟩
  · cases h

/-- A file of three bytes. -/
theorem mkfs_mountable_iff_oneFile :
    ∃ s, main [⟨[0x61], some [[1, 2, 3]]⟩] start = .ok () s ∧ s.Mountable := by
  obtain ⟨s, hs⟩ := exists_of_succeeds [⟨[0x61], some [[1, 2, 3]]⟩] (by decide +kernel)
  rw [← main_eq] at hs
  exact ⟨s, hs, (mkfs_mountable_iff hs).mpr (by decide)⟩

/-- With thirty empty files the root directory has 32 entries, which fill one block, and it gets
the size of two. -/
theorem mkfs_not_mountable :
    ∃ s, main (List.replicate 30 ⟨[0x61], some []⟩) start = .ok () s ∧ ¬ s.Mountable := by
  obtain ⟨s, hs⟩ := exists_of_succeeds (List.replicate 30 ⟨[0x61], some []⟩) (by decide +kernel)
  refine ⟨s, (main_eq _).trans hs, ?_⟩
  intro hm
  exact hm.partial_block hs (by decide)

end Mkfs

end Xv6Bfs
