import Xv6Bfs.Proofs.FsInode
import Xv6Bfs.Library.Splice

/-!
# Files are byte arrays

The contents of an inode are the bytes of its blocks up to its size. `readi` returns a
slice of them, and each round of the loop of `writei` splices its bytes in and leaves the
contents of every other inode alone.
-/

namespace Xv6Bfs

open Function Outcome Ownership

namespace Dinode

def byteAt (data : Blockno → Block) (d : Dinode) (o : ℕ) : BitVec 8 :=
  match d.ref data (BlockSlot.of (o / BSIZE)) with
  | some b => (data b).byte (o % BSIZE)
  | none => 0

def bytes (data : Blockno → Block) (d : Dinode) (n : ℕ) : List (BitVec 8) :=
  (List.range n).map (d.byteAt data)

variable {data data' : Blockno → Block} {d d' : Dinode} {n o : ℕ} {b : Blockno}

@[simp]
lemma length_bytes : (d.bytes data n).length = n := by
  simp [bytes]

lemma getElem?_bytes : (d.bytes data n)[o]? = if o < n then some (d.byteAt data o) else none := by
  by_cases ho : o < n <;> simp [bytes, ho]

lemma byteAt_of_ref (hb : d.ref data (BlockSlot.of (o / BSIZE)) = some b) :
    d.byteAt data o = (data b).byte (o % BSIZE) := by
  simp only [byteAt, hb]

lemma byteAt_congr (href : d'.ref data' (BlockSlot.of (o / BSIZE)) = d.ref data (BlockSlot.of (o / BSIZE)))
    (hdata : ∀ b, d.ref data (BlockSlot.of (o / BSIZE)) = some b → data' b = data b) :
    d'.byteAt data' o = d.byteAt data o := by
  unfold byteAt
  rw [href]
  split
  · rename_i b hb
    rw [hdata b hb]
  · rfl

lemma Fills.exists_ref (hfills : d.Fills data n) (ho : o < n) (hn : n ≤ MAXFILE * BSIZE) :
    ∃ b, d.ref data (BlockSlot.of (o / BSIZE)) = some b := by
  have hlt : o / BSIZE < MAXFILE := by
    rw [Nat.div_lt_iff_lt_mul (by decide)]
    omega
  apply Option.isSome_iff_exists.mp
  rw [hfills, BlockSlot.index_of hlt]
  exact (Nat.div_mul_le_self o BSIZE).trans_lt ho

end Dinode

/-! ### `readi` -/

section Read

variable {sb : FsSuperblock} {c : Content} {i n : ℕ} {d : Dinode}

lemma chunk_bounds (off : ℕ) {rest : ℕ} (hrest : rest ≠ 0) :
    0 < chunk off rest ∧ chunk off rest ≤ rest ∧ off % BSIZE + chunk off rest ≤ BSIZE := by
  have := Nat.mod_lt off (show 0 < BSIZE by decide)
  unfold chunk
  omega

lemma div_mod_chunk (off : ℕ) {k : ℕ} (hk : off % BSIZE + k < BSIZE) :
    (off + k) / BSIZE = off / BSIZE ∧ (off + k) % BSIZE = off % BSIZE + k := by
  unfold BSIZE at *
  omega

lemma readLoop_eq
    (hown : Owned {b | sb.IsData b} {b | (c.image sb).used b = true} ((c.image sb).patch i d).ref)
    (htype : d.type ≠ 0) (hfills : d.Fills (c.image sb).data n) (hn : n ≤ MAXFILE * BSIZE) :
    ∀ fuel off rest, rest ≤ fuel → off + rest ≤ n → readLoop sb d fuel off rest c =
        .ok (((d.bytes (c.image sb).data n).drop off).take rest, d, c) := by
  intro fuel
  induction fuel with
  | zero =>
    intro off rest hfuel _
    obtain rfl : rest = 0 := by omega
    simp [readLoop]
  | succ fuel ih =>
    intro off rest hfuel hoff
    by_cases hrest : rest = 0
    · simp [readLoop, hrest]
    · obtain ⟨hpos, hle, hblock⟩ := chunk_bounds off hrest
      have hlt : off / BSIZE < MAXFILE := by
        rw [Nat.div_lt_iff_lt_mul (by decide)]
        omega
      obtain ⟨b, hb⟩ := hfills.exists_ref (o := off) (by omega) hn
      have hdata : sb.IsData b := by
        rw [← Image.ref_patch_self (i := i) htype] at hb
        exact hown.mem_pool hb
      have hslice : (c b).slice (off % BSIZE) (chunk off rest) =
          ((d.bytes (c.image sb).data n).drop off).take (chunk off rest) := by
        apply List.ext_getElem?
        intro k
        rw [List.getElem?_take, List.getElem?_drop, Dinode.getElem?_bytes]
        by_cases hk : k < chunk off rest
        · obtain ⟨hdiv, hmod⟩ := div_mod_chunk off (k := k) (by omega)
          have hbk : d.ref (c.image sb).data (BlockSlot.of ((off + k) / BSIZE)) = some b := by
            rw [hdiv, hb]
          rw [if_pos hk, if_pos (by omega), Dinode.byteAt_of_ref hbk, hmod, Content.image_data hdata]
          simp [Block.slice, hk]
        · rw [if_neg hk]
          simp [Block.slice, hk]
      rw [readLoop, if_neg hrest, bmap_of_ref hown htype hlt hb]
      simp only [bind, Except.bind]
      rw [ih (off + chunk off rest) (rest - chunk off rest) (by omega) (by omega)]
      simp only [hslice]
      rw [← List.drop_drop, ← List.take_add, Nat.add_sub_cancel' hle]

lemma readi_eq (devsw : Devsw)
    (hown : Owned {b | sb.IsData b} {b | (c.image sb).used b = true} ((c.image sb).patch i d).ref)
    (hfile : d.IsFile) (hholes : d.NoHoles (c.image sb).data) (off n : BitVec 32) :
    readi sb devsw d off n c = .ok
      (if d.size < off ∨ off + n < off then none
        else some (((d.bytes (c.image sb).data d.size.toNat).drop off.toNat).take n.toNat), d, c) := by
  unfold readi
  rw [if_neg hfile.2]
  split
  · rfl
  · rename_i hok
    rw [not_or] at hok
    have hoff : off.toNat ≤ d.size.toNat := by
      have := hok.1
      bv_omega
    have hsum : (off + n).toNat = off.toNat + n.toNat := by
      have := hok.2
      bv_omega
    split
    · rename_i hcut
      have hrest : (d.size - off).toNat = d.size.toNat - off.toNat := by
        bv_omega
      have hle : d.size.toNat - off.toNat ≤ n.toNat := by
        bv_omega
      simp only [hrest]
      rw [readLoop_eq hown hfile.1 hholes.fills hholes.size_le _ _ _ le_rfl (by omega)]
      simp only [bind, Except.bind]
      rw [List.take_of_length_le (by simp), List.take_of_length_le (by simpa using hle)]
    · rename_i hcut
      have hle : off.toNat + n.toNat ≤ d.size.toNat := by
        bv_omega
      dsimp only
      rw [readLoop_eq hown hfile.1 hholes.fills hholes.size_le _ _ _ le_rfl hle]
      rfl

lemma readi_of_fills (devsw : Devsw)
    (hown : Owned {b | sb.IsData b} {b | (c.image sb).used b = true} ((c.image sb).patch i d).ref)
    (hfile : d.IsFile) (hfills : d.Fills (c.image sb).data n) (hn : n ≤ MAXFILE * BSIZE) (hsize : n ≤ d.size.toNat)
    {off m : BitVec 32} (hoff : off.toNat + m.toNat ≤ n) :
    readi sb devsw d off m c =
      .ok (some (((d.bytes (c.image sb).data n).drop off.toNat).take m.toNat), d, c) := by
  have hfits : MAXFILE * BSIZE < 2 ^ 32 := by decide
  have hsum : (off + m).toNat = off.toNat + m.toNat := by
    rw [BitVec.toNat_add, Nat.mod_eq_of_lt (by omega)]
  have hok : ¬ (d.size < off ∨ off + m < off) := by
    rw [BitVec.lt_def, BitVec.lt_def]
    omega
  have hcut : ¬ d.size < off + m := by
    rw [BitVec.lt_def]
    omega
  unfold readi
  rw [if_neg hfile.2, if_neg hok]
  dsimp only
  rw [if_neg hcut, readLoop_eq hown hfile.1 hfills hn _ _ _ le_rfl hoff]
  rfl

end Read

/-! ### `writei` -/

def blocksFor (n : ℕ) : ℕ :=
  (Finset.univ.filter (fun s : BlockSlot => s.index * BSIZE < n)).card

lemma blocksFor_mono {m n : ℕ} (h : m ≤ n) : blocksFor m ≤ blocksFor n := by
  apply Finset.card_le_card
  intro t
  simp only [Finset.mem_filter, Finset.mem_univ, true_and]
  omega

lemma blocksFor_zero : blocksFor 0 = 0 := by
  simp [blocksFor]

/-- What `writei` leaves: `src` spliced in at `off`, other files as they were. -/
structure Wrote (sb : FsSuperblock) (i : ℕ) (d : Dinode) (im : Image) (n off : ℕ) (src : List (BitVec 8))
    (d' : Dinode) (im' : Image) : Prop where
  inode : im'.inode = im.inode
  attrs : d' = { d with addrs := d'.addrs }
  reserved : im'.Reserved sb
  owned : Owned {b | sb.IsData b} {b | im'.used b = true} (im'.patch i d').ref
  fills : d'.Fills im'.data (max n (off + src.length))
  bytes : d'.bytes im'.data (max n (off + src.length)) = (d.bytes im.data n).splice off src
  others : ∀ j s, j ≠ i → im'.ref (j, s) = im.ref (j, s)
  files : ∀ j m, j ≠ i → (im.inode j).type ≠ 0 → (im.inode j).bytes im'.data m = (im.inode j).bytes im.data m
  card : (im'.free sb).card + blocksFor (max n (off + src.length)) = (im.free sb).card + blocksFor n
  inside : off + src.length ≤ n → d' = d

section Write

variable {sb : FsSuperblock} {i n off bn : ℕ} {d d₁ d₂ d' : Dinode} {im im₁ im₂ im' : Image} {b : Blockno}
  {src src₁ src₂ : List (BitVec 8)} {new : Finset BlockSlot}

lemma Wrote.refl (hres : im.Reserved sb)
    (hown : Owned {b | sb.IsData b} {b | im.used b = true} (im.patch i d).ref)
    (hfills : d.Fills im.data n) (hoff : off ≤ n) : Wrote sb i d im n off [] d im := by
  have hmax : max n (off + ([] : List (BitVec 8)).length) = n := by
    simpa using hoff
  refine ⟨rfl, rfl, hres, hown, ?_, ?_, fun _ _ _ => rfl, fun _ _ _ _ => rfl, ?_, fun _ => rfl⟩
  · rwa [hmax]
  · rw [hmax, List.splice_nil]
  · rw [hmax]

lemma Wrote.trans (h₁ : Wrote sb i d im n off src₁ d₁ im₁) (hoff : off ≤ n)
    (h₂ : Wrote sb i d₁ im₁ (max n (off + src₁.length)) (off + src₁.length) src₂ d₂ im₂) :
    Wrote sb i d im n off (src₁ ++ src₂) d₂ im₂ := by
  have hmax : max (max n (off + src₁.length)) (off + src₁.length + src₂.length) =
      max n (off + (src₁ ++ src₂).length) := by
    rw [List.length_append]
    omega
  refine ⟨h₂.inode.trans h₁.inode, ?_, h₂.reserved, h₂.owned, ?_, ?_, ?_, ?_, ?_, ?_⟩
  · rw [h₂.attrs, h₁.attrs]
  · rw [← hmax]
    exact h₂.fills
  · rw [← hmax, h₂.bytes, h₁.bytes, List.splice_splice (by simpa using hoff)]
  · intro j s hj
    rw [h₂.others j s hj, h₁.others j s hj]
  · intro j m hj htype
    rw [← h₁.files j m hj htype, ← h₁.inode, h₂.files j m hj (by rwa [h₁.inode])]
  · rw [← hmax]
    have := h₁.card
    have := h₂.card
    omega
  · intro hle
    rw [List.length_append] at hle
    rw [h₂.inside (by omega), h₁.inside (by omega)]

lemma Grows.files {j : ℕ} (hg : Grows sb i d im new d' im')
    (hown : Owned {b | sb.IsData b} {b | im.used b = true} (im.patch i d).ref) (htype : d.type ≠ 0)
    (hj : j ≠ i) (htypej : (im.inode j).type ≠ 0) (m : ℕ) :
    (im.inode j).bytes im'.data m = (im.inode j).bytes im.data m := by
  have hrefj : ∀ s, (im.inode j).ref im'.data s = (im.inode j).ref im.data s := by
    intro s
    have := hg.others j s hj
    simpa only [Image.ref, hg.inode, if_neg htypej] using this
  unfold Dinode.bytes
  apply List.map_congr_left
  intro o _
  apply Dinode.byteAt_congr (hrefj _)
  intro b hb
  have hb' : (im.patch i d).ref (j, BlockSlot.of (o / BSIZE)) = some b := by
    rw [Image.ref_patch_of_ne hj]
    simpa only [Image.ref, if_neg htypej] using hb
  apply hg.keep b (hown.used_of_ref hb')
  intro hind
  rw [← Image.ref_patch_self (i := i) htype] at hind
  exact hj (congrArg Prod.fst (hown.inj hb' hind))

lemma BlockSlot.of_ne_indirect : BlockSlot.of bn ≠ .indirect := by
  unfold BlockSlot.of
  split <;> simp

lemma Grows.byteAt {o : ℕ} (hg : Grows sb i d im new d' im')
    (hown : Owned {b | sb.IsData b} {b | im.used b = true} (im.patch i d).ref) (htype : d.type ≠ 0)
    (hs : BlockSlot.of (o / BSIZE) ∉ new) : d'.byteAt im'.data o = d.byteAt im.data o := by
  apply Dinode.byteAt_congr (hg.old _ hs)
  intro b hb
  rw [← Image.ref_patch_self (i := i) htype] at hb
  apply hg.keep b (hown.used_of_ref hb)
  intro hind
  rw [← Image.ref_patch_self (i := i) htype] at hind
  exact BlockSlot.of_ne_indirect (congrArg Prod.snd (hown.inj hb hind))

lemma Grows.isSome_iff {s : BlockSlot} (hg : Grows sb i d im new d' im') :
    (d'.ref im'.data s).isSome ↔ (d.ref im.data s).isSome ∨ s ∈ new := by
  by_cases hs : s ∈ new
  · obtain ⟨b, hb, -⟩ := hg.fresh s hs
    simp [hs, hb]
  · rw [hg.old s hs]
    simp [hs]

lemma Grows.fills (hg : Grows sb i d im (d.missing im.data (off / BSIZE)) d' im')
    (hfills : d.Fills im.data n) (hoff : off ≤ n) (hmax : off + src.length ≤ MAXFILE * BSIZE)
    (hpos : 0 < src.length) (hchunk : off % BSIZE + src.length ≤ BSIZE) :
    d'.Fills im'.data (max n (off + src.length)) := by
  have hbn : off / BSIZE < MAXFILE := by
    rw [Nat.div_lt_iff_lt_mul (by decide)]
    omega
  have hsplit := Nat.div_add_mod' off BSIZE
  intro s
  rw [hg.isSome_iff, hfills s, lt_max_iff]
  constructor
  · rintro (h | h)
    · exact .inl h
    · right
      have hle := BlockSlot.index_le_of_mem_path hbn (Finset.mem_filter.mp h).1
      have := Nat.mul_le_mul_right BSIZE hle
      omega
  · rintro (h | h)
    · exact .inl h
    · by_cases hn : s.index * BSIZE < n
      · exact .inl hn
      · -- the slot is the first one after the end of the file
        have hindex : s.index = off / BSIZE := by
          unfold BSIZE at *
          omega
        right
        refine Finset.mem_filter.mpr ⟨hindex ▸ BlockSlot.mem_path_of_index, ?_⟩
        rw [← Option.not_isSome_iff_eq_none, hfills s]
        exact hn

lemma Grows.blocksFor_eq (hg : Grows sb i d im (d.missing im.data bn) d' im') {n' : ℕ}
    (hfills : d.Fills im.data n) (hfills' : d'.Fills im'.data n') :
    blocksFor n' = blocksFor n + (d.missing im.data bn).card := by
  unfold blocksFor
  rw [← Finset.card_union_of_disjoint]
  · congr 1
    ext s
    rw [Finset.mem_union, Finset.mem_filter, Finset.mem_filter, ← hfills s, ← hfills' s, hg.isSome_iff]
    simp
  · rw [Finset.disjoint_left]
    intro s hs hmissing
    rw [Finset.mem_filter, ← hfills s] at hs
    simp [(Finset.mem_filter.mp hmissing).2] at hs

lemma nonzero_injective {a a' : Blockno} (h : nonzero a = nonzero a') : a = a' := by
  unfold nonzero at h
  split at h <;> split at h <;> simp_all

lemma Grows.eq_of_fills (hg : Grows sb i d im (d.missing im.data (off / BSIZE)) d' im')
    (hfills : d.Fills im.data n) (hn : n ≤ MAXFILE * BSIZE) (hoff : off < n) : d' = d := by
  have hbn : off / BSIZE < MAXFILE := by
    rw [Nat.div_lt_iff_lt_mul (by decide)]
    omega
  have hempty : ∀ s, s ∉ d.missing im.data (off / BSIZE) := by
    intro s hs
    obtain ⟨hpath, hnone⟩ := Finset.mem_filter.mp hs
    have hmul := Nat.mul_le_mul_right BSIZE (BlockSlot.index_le_of_mem_path hbn hpath)
    have hdiv := Nat.div_mul_le_self off BSIZE
    have hsome := (hfills s).mpr (by omega)
    rw [hnone] at hsome
    cases hsome
  have haddrs : d'.addrs = d.addrs := by
    funext k
    refine Fin.lastCases ?_ ?_ k
    · exact nonzero_injective (hg.old .indirect (hempty _))
    · intro k
      exact nonzero_injective (hg.old (.direct k) (hempty _))
  rw [hg.attrs, haddrs]

lemma Block.byte_store (blk : Block) {k o : ℕ} (ho : o < BSIZE) :
    (blk.store k src).byte o = if k ≤ o ∧ o < k + src.length then src.getD (o - k) 0 else blk.byte o := by
  rw [byte_eq _ ho, byte_eq _ ho]
  rfl

section Store

variable {x : Block} {s : BlockSlot}
  (hown : Owned {b | sb.IsData b} {b | im.used b = true} (im.patch i d).ref) (htype : d.type ≠ 0)

include hown htype

lemma ref_update_data (hb : d.ref im.data s = some b) (hs : s ≠ .indirect) (p : ℕ × BlockSlot) :
    (({ im with data := update im.data b x } : Image).patch i d).ref p = (im.patch i d).ref p := by
  obtain ⟨j, t⟩ := p
  refine Image.ref_congr rfl ?_
  intro b' hb'
  apply update_of_ne
  rintro rfl
  rw [← Image.ref_patch_self (i := i) htype] at hb
  exact hs (congrArg Prod.snd (hown.inj hb hb'))

lemma ref_update_data_self (hb : d.ref im.data s = some b) (hs : s ≠ .indirect) (t : BlockSlot) :
    d.ref (update im.data b x) t = d.ref im.data t := by
  have := ref_update_data (x := x) hown htype hb hs (i, t)
  rwa [Image.ref_patch_self htype, Image.ref_patch_self htype] at this

lemma byteAt_store {o : ℕ} (hb : d.ref im.data (BlockSlot.of (off / BSIZE)) = some b)
    (hoff : off < MAXFILE * BSIZE) (ho : o < MAXFILE * BSIZE) (hchunk : off % BSIZE + src.length ≤ BSIZE) :
    d.byteAt (update im.data b ((im.data b).store (off % BSIZE) src)) o =
      if off ≤ o ∧ o < off + src.length then src.getD (o - off) 0 else d.byteAt im.data o := by
  have href := ref_update_data_self (x := (im.data b).store (off % BSIZE) src) hown htype hb
    BlockSlot.of_ne_indirect
  by_cases hdiv : o / BSIZE = off / BSIZE
  · have hbo : d.ref im.data (BlockSlot.of (o / BSIZE)) = some b := by
      rw [hdiv, hb]
    rw [Dinode.byteAt_of_ref (b := b) (by rw [href, hbo]), Dinode.byteAt_of_ref hbo, update_self,
      Block.byte_store _ (Nat.mod_lt _ (by decide))]
    have hdo := Nat.div_add_mod o BSIZE
    have hdoff := Nat.div_add_mod off BSIZE
    rw [hdiv] at hdo
    have hiff : (off % BSIZE ≤ o % BSIZE ∧ o % BSIZE < off % BSIZE + src.length) ↔
        (off ≤ o ∧ o < off + src.length) := by
      omega
    have hsub : o % BSIZE - off % BSIZE = o - off := by
      omega
    simp only [hiff, hsub]
  · have hout : ¬ (off ≤ o ∧ o < off + src.length) := by
      rintro ⟨hle, hlt⟩
      obtain ⟨k, rfl⟩ := Nat.exists_eq_add_of_le hle
      exact hdiv (div_mod_chunk off (by omega)).1
    rw [if_neg hout]
    apply Dinode.byteAt_congr (href _)
    intro b' hb'
    apply update_of_ne
    rintro rfl
    rw [← Image.ref_patch_self (i := i) htype] at hb hb'
    have hslot : BlockSlot.of (o / BSIZE) = BlockSlot.of (off / BSIZE) :=
      congrArg Prod.snd (hown.inj hb' hb)
    apply hdiv
    have hindex : ∀ {x}, x < MAXFILE * BSIZE → (BlockSlot.of (x / BSIZE)).index = x / BSIZE := by
      intro x hx
      exact BlockSlot.index_of (by rwa [Nat.div_lt_iff_lt_mul (by decide)])
    rw [← hindex ho, hslot, hindex hoff]

lemma bytes_update_data {j : ℕ} (hb : d.ref im.data s = some b) (hs : s ≠ .indirect) (hj : j ≠ i)
    (htypej : (im.inode j).type ≠ 0) (m : ℕ) :
    (im.inode j).bytes (update im.data b x) m = (im.inode j).bytes im.data m := by
  have href : ∀ t, (im.inode j).ref (update im.data b x) t = (im.inode j).ref im.data t := by
    intro t
    have := ref_update_data (x := x) hown htype hb hs (j, t)
    rw [Image.ref_patch_of_ne hj, Image.ref_patch_of_ne hj] at this
    simpa only [Image.ref, if_neg htypej] using this
  unfold Dinode.bytes
  apply List.map_congr_left
  intro o _
  apply Dinode.byteAt_congr (href _)
  intro b' hb'
  apply update_of_ne
  rintro rfl
  have hj' : (im.patch i d).ref (j, BlockSlot.of (o / BSIZE)) = some b' := by
    rw [Image.ref_patch_of_ne hj]
    simpa only [Image.ref, if_neg htypej] using hb'
  rw [← Image.ref_patch_self (i := i) htype] at hb
  exact hj (congrArg Prod.fst (hown.inj hj' hb))

end Store

lemma Grows.wrote (src : List (BitVec 8)) (hg : Grows sb i d im (d.missing im.data (off / BSIZE)) d₁ im₁)
    (hown : Owned {b | sb.IsData b} {b | im.used b = true} (im.patch i d).ref) (htype : d.type ≠ 0)
    (hb : d₁.ref im₁.data (BlockSlot.of (off / BSIZE)) = some b)
    (hfills : d.Fills im.data n) (hn : n ≤ MAXFILE * BSIZE) (hoff : off ≤ n)
    (hmax : off + src.length ≤ MAXFILE * BSIZE) (hpos : 0 < src.length)
    (hchunk : off % BSIZE + src.length ≤ BSIZE) :
    Wrote sb i d im n off src d₁
      { im₁ with data := update im₁.data b ((im₁.data b).store (off % BSIZE) src) } := by
  have htype₁ : d₁.type ≠ 0 := by
    rwa [hg.attrs]
  have hfills₁ := hg.fills hfills hoff hmax hpos hchunk
  have hind : BlockSlot.of (off / BSIZE) ≠ .indirect := BlockSlot.of_ne_indirect
  refine ⟨hg.inode, hg.attrs, hg.reserved, ?_, ?_, ?_, ?_, ?_, ?_, ?_⟩
  · rw [funext (ref_update_data hg.owned htype₁ hb hind)]
    exact hg.owned
  · intro s
    rw [ref_update_data_self hg.owned htype₁ hb hind]
    exact hfills₁ s
  · apply List.ext_getElem?
    intro o
    dsimp only
    rw [List.getElem?_splice (by simpa using hoff), Dinode.getElem?_bytes, Dinode.getElem?_bytes]
    by_cases ho : o < max n (off + src.length)
    · rw [if_pos ho, byteAt_store hg.owned htype₁ hb (by omega) (by omega) hchunk]
      by_cases hin : off ≤ o ∧ o < off + src.length
      · have hlt : o - off < src.length := by omega
        simp [hin, hlt]
      · have hon : o < n := by omega
        have hold : BlockSlot.of (o / BSIZE) ∉ d.missing im.data (off / BSIZE) := by
          intro hmem
          obtain ⟨b', hb'⟩ := hfills.exists_ref hon hn
          rw [(Finset.mem_filter.mp hmem).2] at hb'
          cases hb'
        rw [if_neg hin, if_neg hin, if_pos hon, hg.byteAt hown htype hold]
    · rw [if_neg ho, if_neg (by omega), if_neg (by omega)]
  · intro j s hj
    rw [← hg.others j s hj]
    have := ref_update_data (x := (im₁.data b).store (off % BSIZE) src) hg.owned htype₁ hb hind (j, s)
    rwa [Image.ref_patch_of_ne hj, Image.ref_patch_of_ne hj] at this
  · intro j m hj htypej
    rw [← hg.files hown htype hj htypej m, ← hg.inode]
    exact bytes_update_data hg.owned htype₁ hb hind hj (by rwa [hg.inode]) m
  · rw [hg.blocksFor_eq hfills hfills₁]
    have := hg.card
    change (im₁.free sb).card + _ = _
    omega
  · intro hle
    exact hg.eq_of_fills hfills hn (by omega)

lemma Grows.round {c c₁ : Content} (src : List (BitVec 8))
    (hg : Grows sb i d (c.image sb) (d.missing (c.image sb).data (off / BSIZE)) d₁ (c₁.image sb))
    (hown : Owned {b | sb.IsData b} {b | (c.image sb).used b = true} ((c.image sb).patch i d).ref)
    (htype : d.type ≠ 0) (hb : d₁.ref (c₁.image sb).data (BlockSlot.of (off / BSIZE)) = some b)
    (hfills : d.Fills (c.image sb).data n) (hn : n ≤ MAXFILE * BSIZE) (hoff : off ≤ n)
    (hmax : off + src.length ≤ MAXFILE * BSIZE) (hpos : 0 < src.length)
    (hchunk : off % BSIZE + src.length ≤ BSIZE) :
    Wrote sb i d (c.image sb) n off src d₁ ((c₁.logWrite b (·.store (off % BSIZE) src)).image sb) := by
  have hdata := hg.isData htype hb
  rw [Content.image_logWrite hdata, ← Content.image_data (c := c₁) hdata]
  exact Grows.wrote src hg hown htype hb hfills hn hoff hmax hpos hchunk

lemma blocksFor_add_missing_le (hfills : d.Fills im.data n) (hbn : off / BSIZE < MAXFILE)
    (hpos : 0 < src.length) :
    blocksFor n + (d.missing im.data (off / BSIZE)).card ≤ blocksFor (max n (off + src.length)) := by
  unfold blocksFor
  rw [← Finset.card_union_of_disjoint]
  · apply Finset.card_le_card
    apply Finset.union_subset
    · intro s hs
      rw [Finset.mem_filter] at hs ⊢
      exact ⟨hs.1, lt_max_of_lt_left hs.2⟩
    · intro s hs
      have hle := BlockSlot.index_le_of_mem_path hbn (Finset.mem_filter.mp hs).1
      have hmul := Nat.mul_le_mul_right BSIZE hle
      have hoff := Nat.div_mul_le_self off BSIZE
      rw [Finset.mem_filter]
      exact ⟨Finset.mem_univ s, lt_max_of_lt_right (by omega)⟩
  · rw [Finset.disjoint_left]
    intro s hs hmissing
    rw [Finset.mem_filter, ← hfills s] at hs
    simp [(Finset.mem_filter.mp hmissing).2] at hs

/-- The loop of `writei` writes all of `src`, or there are too few free blocks. -/
lemma writeLoop_spec (hn : n ≤ MAXFILE * BSIZE) :
    ∀ fuel off src (d : Dinode) (c : Content), d.type ≠ 0 → (c.image sb).Reserved sb →
      Owned {b | sb.IsData b} {b | (c.image sb).used b = true} ((c.image sb).patch i d).ref →
      d.Fills (c.image sb).data n → off ≤ n → off + src.length ≤ MAXFILE * BSIZE → src.length ≤ fuel →
      Spec (writeLoop sb d fuel off src c)
        (fun r => r.1 = off + src.length ∧ Wrote sb i d (c.image sb) n off src r.2.1 (r.2.2.image sb))
        (fun e => e = .ballocOutOfBlocks ∧
          ((c.image sb).free sb).card + blocksFor n < blocksFor (max n (off + src.length))) := by
  intro fuel
  induction fuel generalizing n with
  | zero =>
    intro off src d c _ hres hown hfills hoff _ hfuel
    obtain rfl : src = [] := List.length_eq_zero_iff.mp (by omega)
    exact ⟨rfl, Wrote.refl hres hown hfills hoff⟩
  | succ fuel ih =>
    intro off src d c htype hres hown hfills hoff hmax hfuel
    by_cases hsrc : src = []
    · subst hsrc
      exact ⟨rfl, Wrote.refl hres hown hfills hoff⟩
    · have hlen : src.length ≠ 0 := by simpa using hsrc
      obtain ⟨hpos, hle, hblock⟩ := chunk_bounds off hlen
      have hbn : off / BSIZE < MAXFILE := by
        rw [Nat.div_lt_iff_lt_mul (by decide)]
        omega
      have htake : (src.take (chunk off src.length)).length = chunk off src.length := by
        simpa using hle
      have hdrop : (src.drop (chunk off src.length)).length = src.length - chunk off src.length := by
        simp
      rw [writeLoop, if_neg hsrc]
      refine Spec.bind ((bmap_spec hres hown htype hbn).mono (fun _ h => h) ?_) ?_
      · rintro e ⟨rfl, hfew⟩
        have := blocksFor_add_missing_le hfills hbn (Nat.pos_of_ne_zero hlen)
        exact ⟨rfl, by omega⟩
      · rintro ⟨addr, d₁, c₁⟩ ⟨hg, hb⟩
        dsimp only at hg hb ⊢
        have hw := hg.round (src.take (chunk off src.length)) hown htype hb hfills hn hoff (by omega)
          (by omega) (by omega)
        have hmax' : max (max n (off + chunk off src.length))
            (off + chunk off src.length + (src.drop (chunk off src.length)).length) =
              max n (off + src.length) := by
          omega
        have hcard := hw.card
        have hfills' := hw.fills
        rw [htake] at hcard hfills'
        have hrest := ih (n := max n (off + chunk off src.length)) (by omega) (off + chunk off src.length)
          (src.drop (chunk off src.length)) d₁ _ (by rwa [hg.attrs]) hw.reserved hw.owned hfills' (by omega)
          (by omega) (by omega)
        rw [hmax'] at hrest
        refine hrest.mono ?_ ?_
        · rintro ⟨off', d₂, c₂⟩ ⟨hoff', hw'⟩
          dsimp only at hoff' hw' ⊢
          have hall : Wrote sb i d (c.image sb) n off
              (src.take (chunk off src.length) ++ src.drop (chunk off src.length)) d₂ (c₂.image sb) :=
            hw.trans hoff (by rwa [htake])
          rw [List.take_append_drop] at hall
          exact ⟨by omega, hall⟩
        · rintro e ⟨rfl, hfew⟩
          exact ⟨rfl, by omega⟩

end Write

end Xv6Bfs
