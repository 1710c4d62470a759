import Xv6Bfs.Proofs.FsFile

/-!
# Reading and writing a file

A call of `writei` splices its bytes into the contents of the inode and keeps the image
well formed; a later `readi` returns a slice of the result.
-/

namespace Xv6Bfs

open Function Outcome Ownership

variable {sb : FsSuperblock} {c c' : Content} {i : ℕ} {d d' : Dinode} {im im' : Image} {n off : ℕ}
  {src : List (BitVec 8)}

lemma Image.WellFormed.owned_patch (hwf : im.WellFormed sb) :
    Owned {b | sb.IsData b} {b | im.used b = true} (im.patch i (im.inode i)).ref := by
  rw [Image.patch_inode]
  exact hwf.owned

lemma Dinode.ref_size (data : Blockno → Block) (d : Dinode) (size : BitVec 32) :
    ({ d with size := size } : Dinode).ref data = d.ref data := by
  funext s
  cases s <;> rfl

lemma Dinode.bytes_size (data : Blockno → Block) (d : Dinode) (size : BitVec 32) (m : ℕ) :
    ({ d with size := size } : Dinode).bytes data m = d.bytes data m := by
  unfold bytes byteAt
  rw [ref_size]

lemma Image.ref_patch_size (im : Image) (i : ℕ) (d : Dinode) (size : BitVec 32) :
    (im.patch i { d with size := size }).ref = (im.patch i d).ref := by
  funext ⟨j, s⟩
  by_cases hj : j = i
  · subst hj
    simp only [Image.ref, Image.patch, update_self, Dinode.ref_size]
  · rw [Image.ref_patch_of_ne hj, Image.ref_patch_of_ne hj]

lemma Wrote.wellFormed (hw : Wrote sb i d im n off src d' im') (hwf : im.WellFormed sb)
    (size : BitVec 32) (hsize : size.toNat = max n (off + src.length)) (hmax : size.toNat ≤ MAXFILE * BSIZE) :
    (im'.patch i { d' with size := size }).WellFormed sb := by
  refine ⟨hw.reserved, ?_, ?_⟩
  · rw [Image.ref_patch_size]
    exact hw.owned
  · intro j hj
    by_cases hji : j = i
    · subst hji
      simp only [Image.patch, update_self]
      refine ⟨hmax, ?_⟩
      intro s
      rw [Dinode.ref_size, hw.fills s, hsize]
    · simp only [Image.patch, update_of_ne hji, hw.inode] at hj ⊢
      obtain ⟨hle, hfills⟩ := hwf.noHoles j hj
      refine ⟨hle, ?_⟩
      intro s
      have hsame := hw.others j s hji
      simp only [Image.ref, hw.inode, if_neg hj.1] at hsame
      rw [hsame]
      exact hfills s

structure Spliced (sb : FsSuperblock) (i : ℕ) (c : Content) (off : ℕ) (src : List (BitVec 8)) (d' : Dinode)
    (c' : Content) : Prop where
  wellFormed : (c'.image sb).WellFormed sb
  inode : (c'.image sb).inode = update (c.image sb).inode i d'
  attrs : d' = { (c.image sb).inode i with size := d'.size, addrs := d'.addrs }
  size : d'.size.toNat = max ((c.image sb).inode i).size.toNat (off + src.length)
  bytes : d'.bytes (c'.image sb).data d'.size.toNat =
    (((c.image sb).inode i).bytes (c.image sb).data ((c.image sb).inode i).size.toNat).splice off src
  files : ∀ j m, j ≠ i → ((c.image sb).inode j).type ≠ 0 →
    ((c.image sb).inode j).bytes (c'.image sb).data m = ((c.image sb).inode j).bytes (c.image sb).data m

lemma Wrote.spliced {size : BitVec 32} {c₁ : Content} {d₁ : Dinode}
    (hw : Wrote sb i d (c.image sb) d.size.toNat off src d₁ (c₁.image sb)) (hwf : (c.image sb).WellFormed sb)
    (hi : i < sb.ninodes) (hd : (c.image sb).inode i = d)
    (hsize : size.toNat = max d.size.toNat (off + src.length)) (hmax : size.toNat ≤ MAXFILE * BSIZE) :
    Spliced sb i c off src { d₁ with size := size } (iupdate sb i { d₁ with size := size } c₁) := by
  have himage := Content.image_iupdate (c := c₁) hi { d₁ with size := size }
  refine ⟨?_, ?_, ?_, ?_, ?_, ?_⟩
  · rw [himage]
    exact hw.wellFormed hwf _ hsize hmax
  · rw [himage, ← hw.inode]
  · rw [hd, hw.attrs]
  · rw [hd]
    exact hsize
  · rw [himage, hd, ← hw.bytes, ← hsize, Dinode.bytes_size]
  · rw [himage]
    exact hw.files

lemma writei_room (devsw : Devsw) (hwf : (c.image sb).WellFormed sb) (hi : i < sb.ninodes)
    (hd : (c.image sb).inode i = d) (hfile : d.IsFile) {off n : BitVec 32} (hsrc : src.length ≤ n.toNat)
    (hoff : off ≤ d.size) (hmax : off.toNat + n.toNat ≤ MAXFILE * BSIZE) :
    Spec (writei sb devsw i d src off n c)
      (fun r => (r.1 = n.toNat ∧ Spliced sb i c off.toNat src r.2.1 r.2.2) ∧
        ((r.2.2.image sb).free sb).card + blocksFor r.2.1.size.toNat =
          ((c.image sb).free sb).card + blocksFor d.size.toNat)
      (fun e => e = .ballocOutOfBlocks ∧ ((c.image sb).free sb).card + blocksFor d.size.toNat <
        blocksFor (max d.size.toNat (off.toNat + src.length))) := by
  have hfits : MAXFILE * BSIZE < 2 ^ 32 := by decide
  have hsum : (off + n).toNat = off.toNat + n.toNat := by
    rw [BitVec.toNat_add, Nat.mod_eq_of_lt (by omega)]
  have hholes := hwf.noHoles i (by rwa [hd])
  have hown := hwf.owned_patch (i := i)
  rw [hd] at hholes hown
  have hle : off.toNat ≤ d.size.toNat := by bv_omega
  have hpast : ¬ (d.size < off ∨ off + n < off) := by
    rw [not_or]
    constructor <;> bv_omega
  rw [writei, if_neg hfile.2, if_neg hpast, if_neg (by omega), List.take_of_length_le hsrc]
  refine Spec.bind (writeLoop_spec hholes.size_le n.toNat off.toNat src d c hfile.1 hwf.reserved hown
    hholes.fills hle (by omega) hsrc) ?_
  rintro ⟨off', d₁, c₁⟩ ⟨hoff', hw⟩
  dsimp only at hoff' hw ⊢
  subst hoff'
  have hsize₁ : d₁.size = d.size := by
    rw [hw.attrs]
  split
  · rename_i hgrow
    rw [hsize₁] at hgrow
    have hnat : (BitVec.ofNat 32 (off.toNat + src.length)).toNat =
        max d.size.toNat (off.toNat + src.length) := by
      rw [BitVec.toNat_ofNat, Nat.mod_eq_of_lt (by omega)]
      omega
    refine ⟨⟨rfl, hw.spliced hwf hi hd hnat (by omega)⟩, ?_⟩
    dsimp only
    rw [hnat, Content.image_iupdate hi]
    exact hw.card
  · rename_i hsmall
    have hinside : off.toNat + src.length ≤ d.size.toNat := by
      rw [hsize₁, not_and_or] at hsmall
      obtain hzero | hle' := hsmall
      · have : n.toNat = 0 := by bv_omega
        omega
      · omega
    have hmax' : max d.size.toNat (off.toNat + src.length) = d.size.toNat := by
      omega
    obtain rfl := hw.inside hinside
    have hpatch : (c₁.image sb).patch i d₁ = c₁.image sb := by
      rw [← hd, ← hw.inode, Image.patch_inode]
    have hcard := hw.card
    rw [hmax'] at hcard
    refine ⟨⟨rfl, ?_, ?_, ?_, ?_, ?_, hw.files⟩, hcard⟩
    · have := hw.wellFormed hwf d₁.size hmax'.symm hholes.size_le
      rwa [hpatch] at this
    · rw [hw.inode, ← hd, update_eq_self]
    · rw [hd]
    · rw [hd, hmax']
    · rw [hd, ← hw.bytes, hmax']

/-- On the file as a list of bytes `writei` is `splice`. -/
lemma writei_spec (devsw : Devsw) (hwf : (c.image sb).WellFormed sb) (hi : i < sb.ninodes)
    (hd : (c.image sb).inode i = d) (hfile : d.IsFile) {off n : BitVec 32} (hsrc : src.length ≤ n.toNat)
    (hoff : off ≤ d.size) (hmax : off.toNat + n.toNat ≤ MAXFILE * BSIZE) :
    Spec (writei sb devsw i d src off n c)
      (fun r => r.1 = n.toNat ∧ Spliced sb i c off.toNat src r.2.1 r.2.2)
      (fun e => e = .ballocOutOfBlocks ∧ ((c.image sb).free sb).card + blocksFor d.size.toNat <
        blocksFor (max d.size.toNat (off.toNat + src.length))) :=
  (writei_room devsw hwf hi hd hfile hsrc hoff hmax).imp (fun _ h => h.1)

/-- What `readi` returns for a file with these contents; `none` is -1. -/
def readSlice (contents : List (BitVec 8)) (off n : BitVec 32) : Option (List (BitVec 8)) :=
  if contents.length < off.toNat ∨ 2 ^ 32 ≤ off.toNat + n.toNat then none
  else some ((contents.drop off.toNat).take n.toNat)

lemma readi_readSlice (devsw : Devsw)
    (hown : Owned {b | sb.IsData b} {b | (c.image sb).used b = true} ((c.image sb).patch i d).ref)
    (hfile : d.IsFile) (hholes : d.NoHoles (c.image sb).data) (off n : BitVec 32) :
    readi sb devsw d off n c = .ok (readSlice (d.bytes (c.image sb).data d.size.toNat) off n, d, c) := by
  have hwrap : off + n < off ↔ 2 ^ 32 ≤ off.toNat + n.toNat := by
    rw [BitVec.lt_def, BitVec.toNat_add]
    omega
  rw [readi_eq devsw hown hfile hholes, readSlice]
  simp only [hwrap, BitVec.lt_def, Dinode.length_bytes]

lemma readi_eq_readSlice (devsw : Devsw) (hwf : (c.image sb).WellFormed sb)
    (hd : (c.image sb).inode i = d) (hfile : d.IsFile) (off n : BitVec 32) :
    readi sb devsw d off n c = .ok (readSlice (d.bytes (c.image sb).data d.size.toNat) off n, d, c) := by
  have hown := hwf.owned_patch (i := i)
  have hholes := hwf.noHoles i (by rwa [hd])
  rw [hd] at hown hholes
  exact readi_readSlice devsw hown hfile hholes off n

lemma writei_take (devsw : Devsw) (src : List (BitVec 8)) (off n : BitVec 32) :
    writei sb devsw i d (src.take n.toNat) off n c = writei sb devsw i d src off n c := by
  unfold writei
  rw [List.take_take, Nat.min_self]

lemma writei_reject (devsw : Devsw) (hfile : d.IsFile) (src : List (BitVec 8)) {off n : BitVec 32}
    (h : d.size < off ∨ off + n < off ∨ MAXFILE * BSIZE < (off + n).toNat) :
    writei sb devsw i d src off n c = .ok (-1, d, c) := by
  rw [writei, if_neg hfile.2]
  by_cases hpast : d.size < off ∨ off + n < off
  · rw [if_pos hpast]
  · rw [if_neg hpast, if_pos (by tauto)]

lemma writei_cases (devsw : Devsw) (hwf : (c.image sb).WellFormed sb) (hi : i < sb.ninodes)
    (hd : (c.image sb).inode i = d) (htype : d.type ≠ 0) (src : List (BitVec 8)) (off n : BitVec 32) :
    Spec (writei sb devsw i d src off n c)
      (fun r => (r.2 = (d, c) ∧ (d.type ≠ T_DEV → r.1 = -1)) ∨
        (r.1 = n.toNat ∧ off ≤ d.size ∧ off.toNat + n.toNat ≤ MAXFILE * BSIZE ∧
          Spliced sb i c off.toNat (src.take n.toNat) r.2.1 r.2.2))
      (fun e => e = .ballocOutOfBlocks) := by
  by_cases hdev : d.type = T_DEV
  · unfold writei
    rw [if_pos hdev]
    split
    · exact .inl ⟨rfl, fun hne => absurd hdev hne⟩
    · split <;> exact .inl ⟨rfl, fun hne => absurd hdev hne⟩
  have hfile : d.IsFile := ⟨htype, hdev⟩
  by_cases hreject : d.size < off ∨ off + n < off ∨ MAXFILE * BSIZE < (off + n).toNat
  · rw [writei_reject devsw hfile src hreject]
    exact .inl ⟨rfl, fun _ => rfl⟩
  rw [not_or, not_or] at hreject
  have hoff : off ≤ d.size := by
    have := hreject.1
    bv_omega
  have hmax : off.toNat + n.toNat ≤ MAXFILE * BSIZE := by
    have := hreject.2
    bv_omega
  rw [← writei_take]
  refine (writei_spec devsw hwf hi hd hfile (List.length_take_le ..) hoff hmax).mono ?_ (fun _ he => he.1)
  rintro r ⟨hr, hs⟩
  exact .inr ⟨hr, hoff, hmax, hs⟩

lemma Spliced.dinode (hs : Spliced sb i c off src d' c') {j : ℕ} (hj : j < sb.ninodes) :
    c'.dinode sb j = if j = i then d' else c.dinode sb j := by
  rw [← Content.image_inode hj, hs.inode, ← Content.image_inode hj]
  by_cases hji : j = i
  · subst hji
    simp
  · simp [hji]

/-- A file is an array of bytes: `readi` gives slices of it and fails outside, `writei`
splices its bytes in, keeps to this one file and fails without a change when it would
leave a gap, wrap around or pass the maximal size. -/
theorem file_is_byte_array (devsw : Devsw) (hwf : (c.image sb).WellFormed sb) (hi : i < sb.ninodes)
    (hfile : (c.dinode sb i).IsFile) :
    ∃ old : List (BitVec 8), old.length = (c.dinode sb i).size.toNat ∧
      readi sb devsw (c.dinode sb i) 0 (c.dinode sb i).size c = .ok (some old, c.dinode sb i, c) ∧
      (∀ off n, readi sb devsw (c.dinode sb i) off n c = .ok (readSlice old off n, c.dinode sb i, c)) ∧
      (∀ src off n, src.length = n.toNat → off ≤ (c.dinode sb i).size →
        off.toNat + n.toNat ≤ MAXFILE * BSIZE →
        (∀ r ip' c', writei sb devsw i (c.dinode sb i) src off n c = .ok (r, ip', c') →
          r = n.toNat ∧ c'.dinode sb i = ip' ∧
          ip'.size.toNat = max old.length (off.toNat + n.toNat) ∧
          readi sb devsw ip' 0 ip'.size c' = .ok (some (old.splice off.toNat src), ip', c') ∧
          (∀ off' n', readi sb devsw ip' off' n' c' =
            .ok (readSlice (old.splice off.toNat src) off' n', ip', c')) ∧
          ∀ j < sb.ninodes, j ≠ i → c'.dinode sb j = c.dinode sb j ∧
            ((c.dinode sb j).IsFile → ∀ off' n', ∃ bytes,
              readi sb devsw (c.dinode sb j) off' n' c = .ok (bytes, c.dinode sb j, c) ∧
              readi sb devsw (c'.dinode sb j) off' n' c' = .ok (bytes, c'.dinode sb j, c'))) ∧
        (blocksFor (max old.length (off.toNat + n.toNat)) ≤
            blocksFor old.length + ((c.image sb).free sb).card →
          ∃ ip' c', writei sb devsw i (c.dinode sb i) src off n c = .ok (n.toNat, ip', c'))) ∧
      ∀ src off n, (c.dinode sb i).size < off ∨ off + n < off ∨ MAXFILE * BSIZE < (off + n).toNat →
        writei sb devsw i (c.dinode sb i) src off n c = .ok (-1, c.dinode sb i, c) := by
  have hd := Content.image_inode (c := c) hi
  have hread := readi_eq_readSlice devsw hwf hd hfile
  have hwhole : ∀ contents : List (BitVec 8), ∀ size : BitVec 32, contents.length = size.toNat →
      readSlice contents 0 size = some contents := by
    intro contents size hlen
    have hlt := size.isLt
    have hzero : (0 : BitVec 32).toNat = 0 := rfl
    rw [readSlice, hzero, if_neg (by omega), List.drop_zero, List.take_of_length_le hlen.le]
  refine ⟨(c.dinode sb i).bytes (c.image sb).data (c.dinode sb i).size.toNat, Dinode.length_bytes, ?_,
    hread, ?_, ?_⟩
  · rw [hread, hwhole _ _ Dinode.length_bytes]
  · intro src off n hsrc hoff hmax
    have hspec := writei_spec devsw hwf hi hd hfile hsrc.le hoff hmax
    rw [hsrc] at hspec
    rw [Dinode.length_bytes]
    constructor
    · intro r ip' c' hret
      obtain ⟨hr, hs⟩ := hspec.of_ok hret
      dsimp only at hr hs
      have hd' : (c'.image sb).inode i = ip' := by
        rw [hs.inode, update_self]
      have hfile' : ip'.IsFile := by
        rw [hs.attrs, hd]
        exact hfile
      have hsize := hs.size
      have hbytes := hs.bytes
      rw [hd, hsrc] at hsize
      rw [hd] at hbytes
      have hread' := readi_eq_readSlice devsw hs.wellFormed hd' hfile'
      rw [hbytes] at hread'
      refine ⟨hr, ?_, hsize, ?_, hread', ?_⟩
      · rw [hs.dinode hi, if_pos rfl]
      · rw [hread', hwhole]
        rw [← hbytes, Dinode.length_bytes]
      · intro j hj hji
        have hdj : c'.dinode sb j = c.dinode sb j := by
          rw [hs.dinode hj, if_neg hji]
        refine ⟨hdj, ?_⟩
        intro hfilej off' n'
        have hcj := Content.image_inode (c := c) hj
        have hcj' := Content.image_inode (c := c') hj
        have hsame := hs.files j (c.dinode sb j).size.toNat hji (by rw [hcj]; exact hfilej.1)
        rw [hcj] at hsame
        rw [hdj] at hcj' ⊢
        refine ⟨_, readi_eq_readSlice devsw hwf hcj hfilej off' n', ?_⟩
        rw [readi_eq_readSlice devsw hs.wellFormed hcj' hfilej, hsame]
    · intro henough
      obtain ⟨⟨r, ip', c'⟩, hret, hr, -⟩ := (hspec.mono (fun _ h => h) (by
        rintro e ⟨-, hfew⟩
        omega)).exists_ok
      dsimp only at hr
      rw [hr] at hret
      exact ⟨ip', c', hret⟩
  · intro src off n h
    exact writei_reject devsw hfile src h

lemma Image.WellFormed.of_no_blocks (hused : ∀ b, im.used b = true ↔ b.toNat < sb.datastart)
    (href : ∀ i s, (im.inode i).type ≠ 0 → (im.inode i).ref im.data s = none)
    (hsize : ∀ i, (im.inode i).IsFile → (im.inode i).size = 0) : im.WellFormed sb := by
  have hnone : ∀ p, im.ref p = none := by
    rintro ⟨i, s⟩
    unfold Image.ref
    split
    · rfl
    · rename_i htype
      exact href i s htype
  refine ⟨fun b hb => (hused b).mpr hb, ⟨?_, ?_, ?_⟩, ?_⟩
  · intro p q r hp
    simp [hnone] at hp
  · intro p r hp
    simp [hnone] at hp
  · intro b hb
    simp only [Set.mem_ofPred_eq, hused, hnone, reduceCtorEq, exists_false, iff_false]
    exact Nat.not_lt.mpr hb.1
  · intro i hi
    refine ⟨by simp [hsize i hi], ?_⟩
    intro s
    simp [href i s hi.1, hsize i hi]

def smallSuperblock : FsSuperblock where
  logstart := 2
  nlog := 30
  nlog_pos := by decide
  log_fits := by decide
  size := 40
  ninodes := 8
  inodestart := 32
  bmapstart := 34
  boot_lt_log := by decide
  log_le_inodes := by decide
  inodes_lt_bitmap := by decide
  bitmap_lt_data := by decide
  size_fits := by decide

def smallBitmap : Block :=
  fun k => if k.val < 4 then 255 else if k.val = 4 then 7 else 0

def smallImage (d : Dinode) : Content := fun b =>
  if b = 34 then smallBitmap
  else if b = 32 then Block.setDinode (fun _ => 0) 1 d
  else fun _ => 0

def FsSuperblock.Small (sb : FsSuperblock) : Prop :=
  sb.ninodes = IPB ∧ sb.inodestart = 32 ∧ sb.bmapstart = 34 ∧ sb.datastart = 35 ∧ sb.size ≤ 300

section Small

variable {sb : FsSuperblock}

lemma used_smallImage (hsb : sb.Small) (d : Dinode) (b : Blockno) :
    ((smallImage d).image sb).used b = true ↔ b.toNat < sb.datastart := by
  obtain ⟨-, -, hbmap, hstart, hsize⟩ := hsb
  have hbits : ∀ k < 300, smallBitmap.testBit k = decide (k < 35) := by
    decide +kernel
  have hbit : b.toNat < 300 → (smallImage d).bit sb b = decide (b.toNat < 35) := by
    intro hlt
    have hblock : sb.bblock b.toNat = 34 := by
      rw [FsSuperblock.bblock, hbmap, Nat.div_eq_of_lt (hlt.trans (by decide))]
      rfl
    rw [Content.bit, hblock, Nat.mod_eq_of_lt (hlt.trans (by decide))]
    exact hbits _ hlt
  have hdata : 35 ≤ sb.size := by
    rw [← hstart]
    exact sb.bitmap_lt_data
  simp only [Content.image, hstart, Bool.and_eq_true, decide_eq_true_eq]
  constructor
  · rintro ⟨hlt, hused⟩
    simpa [hbit (hlt.trans_le hsize)] using hused
  · intro hlt
    exact ⟨by omega, by simpa [hbit (hlt.trans (by decide))] using hlt⟩

lemma inode_smallImage (hsb : sb.Small) (d : Dinode) (i : ℕ) :
    ((smallImage d).image sb).inode i = if i = 1 then d else Dinode.zero := by
  obtain ⟨hninodes, hstart, -⟩ := hsb
  by_cases hi : i < sb.ninodes
  · have hblock : sb.iblock i = 32 := by
      rw [FsSuperblock.iblock, hstart, Nat.div_eq_of_lt (by omega)]
      rfl
    have hinode : smallImage d 32 = Block.setDinode (fun _ => 0) 1 d := rfl
    have hzero : Block.dinode (fun _ => 0) i = Dinode.zero := by
      simp [Block.dinode, Block.short, Block.uint, Block.byte, Dinode.zero]
    rw [Content.image_inode hi, Content.dinode, hblock, Nat.mod_eq_of_lt (by omega), hinode,
      Block.dinode_setDinode _ d (by omega), hzero]
  · have hne : i ≠ 1 := by
      rintro rfl
      exact hi (by rw [hninodes]; decide)
    rw [if_neg hne]
    exact if_neg hi

lemma FsSuperblock.Small.wellFormed (hsb : sb.Small) (d : Dinode) (hsize : d.size = 0) (haddrs : ∀ k, d.addrs k = 0) :
    ((smallImage d).image sb).WellFormed sb := by
  apply Image.WellFormed.of_no_blocks (used_smallImage hsb d)
  · intro i s htype
    rw [inode_smallImage hsb] at htype ⊢
    by_cases hi : i = 1
    · rw [if_pos hi]
      cases s with
      | direct k => exact nonzero_eq_none.mpr (haddrs _)
      | indirect => exact nonzero_eq_none.mpr (haddrs _)
      | entry k => exact if_pos (haddrs _)
    · rw [if_neg hi] at htype
      exact absurd rfl htype
  · intro i hfile
    rw [inode_smallImage hsb] at hfile ⊢
    by_cases hi : i = 1
    · rwa [if_pos hi]
    · rw [if_neg hi] at hfile
      exact absurd rfl hfile.1

end Small

lemma smallSuperblock_small : smallSuperblock.Small :=
  ⟨rfl, rfl, rfl, by decide, by decide⟩

lemma smallImage_wellFormed (d : Dinode) (hsize : d.size = 0) (haddrs : ∀ k, d.addrs k = 0) :
    ((smallImage d).image smallSuperblock).WellFormed smallSuperblock :=
  smallSuperblock_small.wellFormed d hsize haddrs

/-- Two bytes written to an empty file and read back. -/
theorem file_is_byte_array_small :
    ∃ ip c, writei smallSuperblock ⟨fun _ => none, fun _ => none⟩ 1
        ((smallImage ⟨T_FILE, 0, 0, 1, 0, fun _ => 0⟩).dinode smallSuperblock 1) [1, 2] 0 2
        (smallImage ⟨T_FILE, 0, 0, 1, 0, fun _ => 0⟩) = .ok (2, ip, c) ∧
      readi smallSuperblock ⟨fun _ => none, fun _ => none⟩ ip 0 ip.size c = .ok (some [1, 2], ip, c) := by
  have hwf := smallImage_wellFormed ⟨T_FILE, 0, 0, 1, 0, fun _ => 0⟩ rfl (fun _ => rfl)
  have hd : (smallImage ⟨T_FILE, 0, 0, 1, 0, fun _ => 0⟩).dinode smallSuperblock 1 =
      ⟨T_FILE, 0, 0, 1, 0, fun _ => 0⟩ := by
    rw [← Content.image_inode (by decide), inode_smallImage smallSuperblock_small]
    rfl
  have hfile : ((smallImage ⟨T_FILE, 0, 0, 1, 0, fun _ => 0⟩).dinode smallSuperblock 1).IsFile := by
    rw [hd]
    exact ⟨by decide, by decide⟩
  have hfree : blocksFor 2 ≤ blocksFor 0 +
      (((smallImage ⟨T_FILE, 0, 0, 1, 0, fun _ => 0⟩).image smallSuperblock).free smallSuperblock).card := by
    decide +kernel
  obtain ⟨old, hlen, -, -, hwrite, -⟩ :=
    file_is_byte_array ⟨fun _ => none, fun _ => none⟩ hwf (i := 1) (by decide) hfile
  obtain rfl : old = [] := by
    apply List.length_eq_zero_iff.mp
    rw [hlen, hd]
    rfl
  obtain ⟨hresult, henough⟩ := hwrite [1, 2] 0 2 rfl (by rw [hd]; decide) (by decide)
  obtain ⟨ip, c, hret⟩ := henough hfree
  obtain ⟨-, -, -, hread, -⟩ := hresult _ _ _ hret
  exact ⟨ip, c, hret, hread⟩

end Xv6Bfs
