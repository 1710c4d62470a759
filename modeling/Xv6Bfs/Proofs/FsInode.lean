import Xv6Bfs.Proofs.FsImage
import Xv6Bfs.Library.Ownership
import Mathlib.Tactic.DeriveFintype
import Mathlib.Data.Fintype.Sum

/-!
# The blocks of an inode

An inode has a slot for each block address: the direct ones, the indirect pointer and the
entries of the indirect block. In a well-formed image every data block in use stands in
one slot of one inode, and a file fills its slots from the first on.
-/

namespace Xv6Bfs

open Function List Outcome Ownership

instance : NeZero NINDIRECT := ⟨by decide⟩

inductive BlockSlot
  | direct (k : Fin NDIRECT)
  | indirect
  | entry (k : Fin NINDIRECT)
  deriving DecidableEq, Fintype

/-- The first block of a file that needs the slot. -/
def BlockSlot.index : BlockSlot → ℕ
  | direct k => k
  | indirect => NDIRECT
  | entry k => NDIRECT + k

def BlockSlot.of (bn : ℕ) : BlockSlot :=
  if h : bn < NDIRECT then .direct ⟨bn, h⟩ else .entry (Fin.ofNat _ (bn - NDIRECT))

lemma BlockSlot.of_entry {bn : ℕ} (h : ¬ bn < NDIRECT) (hk : bn - NDIRECT < NINDIRECT) : of bn = .entry ⟨bn - NDIRECT, hk⟩ := by
  rw [of, dif_neg h]
  exact congrArg _ (Fin.ext (Nat.mod_eq_of_lt hk))

def nonzero (a : Blockno) : Option Blockno :=
  if a = 0 then none else some a

lemma nonzero_eq_some {a b : Blockno} : nonzero a = some b ↔ a = b ∧ b ≠ 0 := by
  unfold nonzero
  by_cases ha : a = 0
  · rw [if_pos ha]
    constructor
    · exact nofun
    · rintro ⟨rfl, hb⟩
      exact absurd ha hb
  · rw [if_neg ha, Option.some.injEq]
    constructor
    · rintro rfl
      exact ⟨rfl, ha⟩
    · exact And.left

lemma nonzero_eq_none {a : Blockno} : nonzero a = none ↔ a = 0 := by
  unfold nonzero
  split <;> simp_all

namespace Dinode

def ref (data : Blockno → Block) (d : Dinode) : BlockSlot → Option Blockno
  | .direct k => nonzero (d.addrs k.castSucc)
  | .indirect => nonzero (d.addrs (Fin.last _))
  | .entry k =>
    if d.addrs (Fin.last _) = 0 then none else nonzero ((data (d.addrs (Fin.last _))).word k)

/-- The inode has the blocks of a file of `n` bytes and no others. -/
def Fills (data : Blockno → Block) (d : Dinode) (n : ℕ) : Prop :=
  ∀ s, (d.ref data s).isSome ↔ s.index * BSIZE < n

structure NoHoles (data : Blockno → Block) (d : Dinode) : Prop where
  size_le : d.size.toNat ≤ MAXFILE * BSIZE
  fills : d.Fills data d.size.toNat

def IsFile (d : Dinode) : Prop :=
  d.type ≠ 0 ∧ d.type ≠ T_DEV

variable {data data' : Blockno → Block} {d d' : Dinode}

lemma ref_entry {k : Fin NINDIRECT} {ind : Blockno} (hind : d.ref data .indirect = some ind) :
    d.ref data (.entry k) = nonzero ((data ind).word k) := by
  obtain ⟨haddr, hne⟩ := nonzero_eq_some.mp hind
  simp only [ref]
  rw [haddr, if_neg hne]

lemma ref_entry_eq_none {k : Fin NINDIRECT} (hind : d.ref data .indirect = none) :
    d.ref data (.entry k) = none := by
  simp only [ref]
  rw [if_pos (nonzero_eq_none.mp hind)]

lemma ref_congr (haddrs : d'.addrs = d.addrs)
    (hdata : ∀ b, d.ref data .indirect = some b → data' b = data b) : d'.ref data' = d.ref data := by
  funext s
  cases s with
  | direct k => simp only [ref, haddrs]
  | indirect => simp only [ref, haddrs]
  | entry k =>
    cases hind : d.ref data .indirect with
    | none =>
      rw [ref_entry_eq_none hind, ref_entry_eq_none]
      simpa only [ref, haddrs] using hind
    | some ind =>
      have hind' : d'.ref data' .indirect = some ind := by
        simpa only [ref, haddrs] using hind
      rw [ref_entry hind, ref_entry hind', hdata ind hind]

end Dinode

namespace Image

def patch (im : Image) (i : ℕ) (d : Dinode) : Image :=
  { im with inode := update im.inode i d }

def ref (im : Image) (p : ℕ × BlockSlot) : Option Blockno :=
  if (im.inode p.1).type = 0 then none else (im.inode p.1).ref im.data p.2

/-- Each used data block belongs to one place of one inode, and files have no holes. -/
structure WellFormed (sb : FsSuperblock) (im : Image) : Prop where
  reserved : im.Reserved sb
  owned : Owned {b | sb.IsData b} {b | im.used b = true} im.ref
  noHoles : ∀ i, (im.inode i).IsFile → (im.inode i).NoHoles im.data

variable {sb : FsSuperblock} {im im' : Image} {i j : ℕ} {d d' : Dinode} {s : BlockSlot} {b : Blockno}

lemma ref_patch_self (hd : d.type ≠ 0) : (im.patch i d).ref (i, s) = d.ref im.data s := by
  simp only [ref, patch, update_self]
  exact if_neg hd

lemma ref_patch_of_ne (hj : j ≠ i) : (im.patch i d).ref (j, s) = im.ref (j, s) := by
  simp [ref, patch, update_of_ne hj]

@[simp]
lemma patch_inode (im : Image) (i : ℕ) : im.patch i (im.inode i) = im := by
  simp [patch]

lemma ref_congr (hinode : im'.inode j = im.inode j)
    (hdata : ∀ b, im.ref (j, .indirect) = some b → im'.data b = im.data b) :
    im'.ref (j, s) = im.ref (j, s) := by
  simp only [ref, hinode]
  split
  · rfl
  · rename_i htype
    apply congrFun
    apply Dinode.ref_congr rfl
    intro b hb
    apply hdata b
    simp only [ref]
    rw [if_neg htype, hb]

def free (sb : FsSuperblock) (im : Image) : Finset ℕ :=
  (Finset.range sb.size).filter (fun k => im.used (BitVec.ofNat 32 k) = false)

lemma card_free_take (hb : sb.IsData b) (hfree : im.used b = false)
    (hused : im'.used = update im.used b true) :
    (im'.free sb).card + 1 = (im.free sb).card := by
  have hmem : b.toNat ∈ im.free sb := by
    simp [free, hb.2, hfree]
  have herase : im'.free sb = (im.free sb).erase b.toNat := by
    ext k
    simp only [free, hused, Finset.mem_filter, Finset.mem_range, Finset.mem_erase]
    by_cases hk : k < sb.size
    · have hnat := FsSuperblock.toNat_ofNat_of_lt_size hk
      by_cases hkb : BitVec.ofNat 32 k = b
      · simp [← hkb, hnat]
      · have hne : k ≠ b.toNat := by
          rintro rfl
          simp at hkb
        simp [hk, hne, update_of_ne hkb]
    · simp [hk]
  rw [herase, Finset.card_erase_add_one hmem]

end Image

/-! ### Taking blocks -/

/-- Between two calls of `balloc` for inode `i`: the slots in `new` have got a block each, and
no other block in use has changed, except the indirect block of the inode. -/
structure Grows (sb : FsSuperblock) (i : ℕ) (d : Dinode) (im : Image) (new : Finset BlockSlot) (d' : Dinode)
    (im' : Image) : Prop where
  inode : im'.inode = im.inode
  attrs : d' = { d with addrs := d'.addrs }
  reserved : im'.Reserved sb
  owned : Owned {b | sb.IsData b} {b | im'.used b = true} (im'.patch i d').ref
  used : ∀ b, im.used b = true → im'.used b = true
  others : ∀ j s, j ≠ i → im'.ref (j, s) = im.ref (j, s)
  old : ∀ s, s ∉ new → d'.ref im'.data s = d.ref im.data s
  fresh : ∀ s ∈ new, ∃ b, d'.ref im'.data s = some b ∧ im.used b = false
  keep : ∀ b, im.used b = true → d.ref im.data .indirect ≠ some b → im'.data b = im.data b
  card : (im'.free sb).card + new.card = (im.free sb).card

namespace Grows

variable {sb : FsSuperblock} {i : ℕ} {d d₁ d₂ d' : Dinode} {im im₁ im₂ im' : Image} {new new₁ new₂ : Finset BlockSlot}
  {b : Blockno} {s : BlockSlot}

lemma refl (hres : im.Reserved sb)
    (hown : Owned {b | sb.IsData b} {b | im.used b = true} (im.patch i d).ref) : Grows sb i d im ∅ d im where
  inode := rfl
  attrs := rfl
  reserved := hres
  owned := hown
  used _ h := h
  others _ _ _ := rfl
  old _ _ := rfl
  fresh := by simp
  keep _ _ _ := rfl
  card := by simp

lemma trans (h₁ : Grows sb i d im new₁ d₁ im₁) (h₂ : Grows sb i d₁ im₁ new₂ d₂ im₂)
    (hdisj : Disjoint new₁ new₂) : Grows sb i d im (new₁ ∪ new₂) d₂ im₂ where
  inode := h₂.inode.trans h₁.inode
  attrs := by rw [h₂.attrs, h₁.attrs]
  reserved := h₂.reserved
  owned := h₂.owned
  used b hb := h₂.used b (h₁.used b hb)
  others j s hj := (h₂.others j s hj).trans (h₁.others j s hj)
  old s hs := by
    rw [Finset.mem_union, not_or] at hs
    exact (h₂.old s hs.2).trans (h₁.old s hs.1)
  fresh s hs := by
    by_cases hs₂ : s ∈ new₂
    · obtain ⟨b, hb, hfree⟩ := h₂.fresh s hs₂
      refine ⟨b, hb, ?_⟩
      by_contra hused
      rw [h₁.used b (by simpa using hused)] at hfree
      cases hfree
    · have hs₁ : s ∈ new₁ := (Finset.mem_union.mp hs).resolve_right hs₂
      obtain ⟨b, hb, hfree⟩ := h₁.fresh s hs₁
      exact ⟨b, (h₂.old s hs₂).trans hb, hfree⟩
  keep b hb hind := by
    rw [h₂.keep b (h₁.used b hb), h₁.keep b hb hind]
    intro hind₁
    by_cases hs : BlockSlot.indirect ∈ new₁
    · -- the indirect block is a new one then, and `b` is not
      obtain ⟨b', hb', hfree⟩ := h₁.fresh _ hs
      rw [hind₁, Option.some.injEq] at hb'
      rw [← hb', hb] at hfree
      cases hfree
    · rw [h₁.old _ hs] at hind₁
      exact hind hind₁
  card := by
    rw [Finset.card_union_of_disjoint hdisj]
    have := h₁.card
    have := h₂.card
    omega

lemma take (hres : im.Reserved sb)
    (hown : Owned {b | sb.IsData b} {b | im.used b = true} (im.patch i d).ref) (htype : d.type ≠ 0)
    (hb : sb.IsData b) (hfree : im.used b = false) (hnone : d.ref im.data s = none)
    (hinode : im'.inode = im.inode) (hattrs : d' = { d with addrs := d'.addrs })
    (hused : im'.used = update im.used b true) (hs : d'.ref im'.data s = some b)
    (hold : ∀ t, t ≠ s → d'.ref im'.data t = d.ref im.data t)
    (hkeep : ∀ b', b' ≠ b → d.ref im.data .indirect ≠ some b' → im'.data b' = im.data b') :
    Grows sb i d im {s} d' im' := by
  have htype' : d'.type ≠ 0 := by
    rwa [hattrs]
  have hmono : ∀ b', im.used b' = true → im'.used b' = true := by
    intro b' hb'
    rw [hused]
    by_cases hbb : b' = b
    · simp [hbb]
    · rwa [update_of_ne hbb]
  have hothers : ∀ j t, j ≠ i → im'.ref (j, t) = im.ref (j, t) := by
    intro j t hj
    apply Image.ref_congr (by rw [hinode])
    intro b' hb'
    have hb'' : (im.patch i d).ref (j, .indirect) = some b' := by
      rwa [Image.ref_patch_of_ne hj]
    apply hkeep b'
    · rintro rfl
      have := hown.used_of_ref hb''
      rw [Set.mem_ofPred_eq, hfree] at this
      cases this
    · intro hind
      rw [← Image.ref_patch_self (i := i) htype] at hind
      exact hj (congrArg Prod.fst (hown.inj hb'' hind))
  refine ⟨hinode, hattrs, fun b' hb' => hmono b' (hres b' hb'), ?_, hmono, hothers, ?_, ?_, ?_, ?_⟩
  · have hset : {b' | im'.used b' = true} = insert b {b' | im.used b' = true} := by
      ext b'
      rw [Set.mem_insert_iff, Set.mem_ofPred_eq, Set.mem_ofPred_eq, hused]
      by_cases hbb : b' = b
      · simp [hbb]
      · simp [hbb]
    have href : (im'.patch i d').ref = update (im.patch i d).ref (i, s) (some b) := by
      funext ⟨j, t⟩
      by_cases hj : j = i
      · subst hj
        by_cases hts : t = s
        · subst hts
          rw [update_self, Image.ref_patch_self htype', hs]
        · have hne : (j, t) ≠ (j, s) := fun h => hts (congrArg Prod.snd h)
          rw [update_of_ne hne, Image.ref_patch_self htype', Image.ref_patch_self htype, hold t hts]
      · have hne : (j, t) ≠ (i, s) := fun h => hj (congrArg Prod.fst h)
        rw [update_of_ne hne, Image.ref_patch_of_ne hj, Image.ref_patch_of_ne hj, hothers j t hj]
    rw [hset, href]
    apply hown.take _ hb (by simp [hfree])
    rw [Image.ref_patch_self htype, hnone]
  · intro t ht
    exact hold t (by simpa using ht)
  · intro t ht
    obtain rfl : t = s := by simpa using ht
    exact ⟨b, hs, hfree⟩
  · intro b' hb' hind
    apply hkeep b' _ hind
    rintro rfl
    rw [hfree] at hb'
    cases hb'
  · rw [Finset.card_singleton]
    exact Image.card_free_take hb hfree hused

lemma indirect_ne (hown : Owned {b | sb.IsData b} {b | im.used b = true} (im.patch i d).ref)
    (htype : d.type ≠ 0) (hfree : im.used b = false) : d.ref im.data .indirect ≠ some b := by
  intro hind
  rw [← Image.ref_patch_self (i := i) htype] at hind
  have hused := hown.used_of_ref hind
  rw [Set.mem_ofPred_eq, hfree] at hused
  cases hused

section Slots

variable (hres : im.Reserved sb)
  (hown : Owned {b | sb.IsData b} {b | im.used b = true} (im.patch i d).ref) (htype : d.type ≠ 0)
  (hb : sb.IsData b) (hfree : im.used b = false)

include hres hown htype hb hfree

lemma direct {k : Fin NDIRECT} (hnone : d.ref im.data (.direct k) = none) :
    Grows sb i d im {.direct k} { d with addrs := update d.addrs k.castSucc b }
      { im with used := update im.used b true
                data := update im.data b (fun _ => 0) } := by
  have hind := indirect_ne hown htype hfree
  have hlast : Fin.last NDIRECT ≠ k.castSucc := k.castSucc_ne_last.symm
  refine take hres hown htype hb hfree hnone rfl rfl rfl ?_ ?_ ?_
  · simpa [Dinode.ref, nonzero] using hb.ne_zero
  · intro t ht
    cases t with
    | direct k' =>
      have hne : k'.castSucc ≠ k.castSucc := by
        intro h
        exact ht (congrArg BlockSlot.direct (Fin.castSucc_injective _ h))
      simp [Dinode.ref, update_of_ne hne]
    | indirect => simp [Dinode.ref, update_of_ne hlast]
    | entry k' =>
      simp only [Dinode.ref, update_of_ne hlast]
      split
      · rfl
      · rename_i hne
        have : d.addrs (Fin.last _) ≠ b := by
          intro h
          exact hind (nonzero_eq_some.mpr ⟨h, hb.ne_zero⟩)
        rw [update_of_ne this]
  · intro b' hb' _
    exact update_of_ne hb' ..

lemma indirect (hnone : d.ref im.data .indirect = none) :
    Grows sb i d im {.indirect} { d with addrs := update d.addrs (Fin.last _) b }
      { im with used := update im.used b true
                data := update im.data b (fun _ => 0) } := by
  refine take hres hown htype hb hfree hnone rfl rfl rfl ?_ ?_ ?_
  · simpa [Dinode.ref, nonzero] using hb.ne_zero
  · intro t ht
    cases t with
    | direct k' => simp [Dinode.ref]
    | indirect => exact absurd rfl ht
    | entry k' =>
      rw [Dinode.ref_entry_eq_none hnone]
      simp [Dinode.ref, nonzero, Block.word, Block.byte]
  · intro b' hb' _
    exact update_of_ne hb' ..

lemma entry {k : Fin NINDIRECT} {ind : Blockno} (hind : d.ref im.data .indirect = some ind)
    (hnone : d.ref im.data (.entry k) = none) :
    Grows sb i d im {.entry k} d
      { im with used := update im.used b true
                data := update (update im.data b (fun _ => 0)) ind
                  ((im.data ind).setWord k b) } := by
  have hind' : ∀ data : Blockno → Block, d.ref data .indirect = some ind := fun _ => hind
  refine take hres hown htype hb hfree hnone rfl rfl rfl ?_ ?_ ?_
  · rw [Dinode.ref_entry (hind' _)]
    simp only [update_self]
    rw [Block.word_setWord _ _ k.isLt, if_pos rfl]
    exact nonzero_eq_some.mpr ⟨rfl, hb.ne_zero⟩
  · intro t ht
    cases t with
    | direct k' => rfl
    | indirect => rfl
    | entry k' =>
      have hne : k'.val ≠ k.val := by
        intro h
        exact ht (congrArg BlockSlot.entry (Fin.ext h))
      rw [Dinode.ref_entry (hind' _), Dinode.ref_entry hind]
      simp only [update_self]
      rw [Block.word_setWord _ _ k'.isLt, if_neg hne]
  · intro b' hb' hne
    have hb'' : b' ≠ ind := fun h => hne (h ▸ hind)
    simp only [update_of_ne hb'', update_of_ne hb']

end Slots

end Grows

/-! ### `bmap` -/

def BlockSlot.path (bn : ℕ) : Finset BlockSlot :=
  if bn < NDIRECT then {BlockSlot.of bn} else {.indirect, BlockSlot.of bn}

def Dinode.missing (data : Blockno → Block) (d : Dinode) (bn : ℕ) : Finset BlockSlot :=
  (BlockSlot.path bn).filter (fun s => d.ref data s = none)

namespace BlockSlot

lemma index_of {bn : ℕ} (hbn : bn < MAXFILE) : (BlockSlot.of bn).index = bn := by
  unfold BlockSlot.of
  split
  · rfl
  · rename_i h
    have hlt : bn - NDIRECT < NINDIRECT := by
      unfold MAXFILE at hbn
      omega
    simp only [index, Fin.val_ofNat, Nat.mod_eq_of_lt hlt]
    omega

lemma index_le_of_mem_path {bn : ℕ} {s : BlockSlot} (hbn : bn < MAXFILE) (hs : s ∈ path bn) : s.index ≤ bn := by
  unfold path at hs
  split at hs
  · obtain rfl := Finset.mem_singleton.mp hs
    exact (index_of hbn).le
  · rename_i h
    obtain rfl | hs := Finset.mem_insert.mp hs
    · exact Nat.le_of_not_lt h
    · obtain rfl := Finset.mem_singleton.mp hs
      exact (index_of hbn).le

lemma mem_path_of_index {s : BlockSlot} : s ∈ path s.index := by
  cases s with
  | direct k => simp [path, BlockSlot.of, index]
  | indirect => simp [path, index]
  | entry k =>
    have hk : ¬ NDIRECT + k.val < NDIRECT := by omega
    simp [path, BlockSlot.of, index, hk]

end BlockSlot

section Bmap

variable {sb : FsSuperblock} {c : Content} {i bn : ℕ} {d : Dinode}

lemma free_eq_empty (hall : ∀ b : Blockno, b.toNat < sb.size → (c.image sb).used b = true) :
    (c.image sb).free sb = ∅ := by
  apply Finset.filter_false_of_mem
  intro n hn
  have hlt := Finset.mem_range.mp hn
  rw [hall _ (by rwa [FsSuperblock.toNat_ofNat_of_lt_size hlt])]
  decide

lemma allocIfZero_spec {k : Fin (NDIRECT + 1)} {s : BlockSlot} (hres : (c.image sb).Reserved sb)
    (hs : ∀ data d, Dinode.ref data d s = nonzero (d.addrs k))
    (hown : Owned {b | sb.IsData b} {b | (c.image sb).used b = true} ((c.image sb).patch i d).ref)
    (hgrow : ∀ b, sb.IsData b → (c.image sb).used b = false → d.ref (c.image sb).data s = none →
      Grows sb i d (c.image sb) {s} { d with addrs := update d.addrs k b }
        { c.image sb with used := update (c.image sb).used b true
                          data := update (c.image sb).data b (fun _ => 0) }) :
    Spec (allocIfZero sb (d.addrs k) c)
      (fun r => Grows sb i d (c.image sb) (({s} : Finset BlockSlot).filter (d.ref (c.image sb).data · = none))
          { d with addrs := update d.addrs k r.1 } (r.2.image sb) ∧ r.1 ≠ 0)
      (fun e => e = .ballocOutOfBlocks ∧ (c.image sb).free sb = ∅ ∧ d.ref (c.image sb).data s = none) := by
  unfold allocIfZero
  by_cases haddr : d.addrs k = 0
  · have hnone : d.ref (c.image sb).data s = none := by
      rw [hs, nonzero_eq_none, haddr]
    rw [if_pos haddr, Finset.filter_true_of_mem (by simpa using hnone)]
    refine (balloc_spec hres).mono ?_ ?_
    · rintro r ⟨hb, hfree, himage⟩
      rw [himage]
      exact ⟨hgrow r.1 hb hfree hnone, hb.ne_zero⟩
    · rintro e ⟨rfl, hall⟩
      exact ⟨rfl, free_eq_empty hall, hnone⟩
  · rw [if_neg haddr]
    have hsome : d.ref (c.image sb).data s ≠ none := by
      rwa [hs, ne_eq, nonzero_eq_none]
    rw [spec_ok, Finset.filter_false_of_mem (by simpa using hsome)]
    dsimp only
    rw [update_eq_self]
    exact ⟨Grows.refl hres hown, haddr⟩

lemma Grows.isData {new : Finset BlockSlot} {d' : Dinode} {im im' : Image} {s : BlockSlot} {b : Blockno}
    (hg : Grows sb i d im new d' im') (htype : d.type ≠ 0) (hs : d'.ref im'.data s = some b) : sb.IsData b := by
  have htype' : d'.type ≠ 0 := by
    rwa [hg.attrs]
  rw [← Image.ref_patch_self (i := i) htype'] at hs
  exact hg.owned.mem_pool hs

lemma bmap_entry_spec {ind : Blockno} {k : Fin NINDIRECT} (hres : (c.image sb).Reserved sb)
    (hown : Owned {b | sb.IsData b} {b | (c.image sb).used b = true} ((c.image sb).patch i d).ref)
    (htype : d.type ≠ 0) (hind : d.ref (c.image sb).data .indirect = some ind) :
    Spec
      (if (c ind).word k = 0 then do
          let (addr, c) ← balloc sb c
          .ok (addr, d, c.logWrite ind (·.setWord k addr))
        else .ok ((c ind).word k, d, c))
      (fun r => Grows sb i d (c.image sb)
          (({.entry k} : Finset BlockSlot).filter (d.ref (c.image sb).data · = none)) r.2.1 (r.2.2.image sb) ∧
        r.2.1.ref (r.2.2.image sb).data (.entry k) = some r.1)
      (fun e => e = .ballocOutOfBlocks ∧ (c.image sb).free sb = ∅ ∧
        d.ref (c.image sb).data (.entry k) = none) := by
  have hdata : sb.IsData ind := (Grows.refl hres hown).isData htype hind
  have hword : d.ref (c.image sb).data (.entry k) = nonzero ((c ind).word k) := by
    rw [Dinode.ref_entry hind, Content.image_data hdata]
  split
  · rename_i hzero
    have hnone : d.ref (c.image sb).data (.entry k) = none := by
      rw [hword, nonzero_eq_none, hzero]
    rw [Finset.filter_true_of_mem (by simpa using hnone)]
    refine Spec.bind ((balloc_spec hres).mono (fun _ h => h) ?_) ?_
    · rintro e ⟨rfl, hall⟩
      exact ⟨rfl, free_eq_empty hall, hnone⟩
    · rintro ⟨b, c'⟩ ⟨hb, hfree, himage⟩
      have hne : ind ≠ b := by
        rintro rfl
        exact Grows.indirect_ne hown htype hfree hind
      have hcind : c' ind = (c.image sb).data ind := by
        rw [← Content.image_data (c := c') hdata, himage]
        exact update_of_ne hne ..
      have hg := Grows.entry hres hown htype hb hfree hind hnone
      rw [← hcind] at hg
      have himage' : (c'.logWrite ind (·.setWord k b)).image sb = { c.image sb with
            used := update (c.image sb).used b true
            data := update (update (c.image sb).data b (fun _ => 0)) ind
              ((c' ind).setWord k b) } := by
        rw [Content.image_logWrite hdata, himage]
      rw [← himage'] at hg
      refine ⟨hg, ?_⟩
      obtain ⟨b', hb', -⟩ := hg.fresh _ (Finset.mem_singleton_self _)
      dsimp only
      rw [hb']
      have hind' : d.ref ((c'.logWrite ind (·.setWord k b)).image sb).data .indirect = some ind := hind
      rw [Dinode.ref_entry hind', Content.image_data hdata, Content.logWrite_self,
        Block.word_setWord _ _ k.isLt, if_pos rfl] at hb'
      rw [(nonzero_eq_some.mp hb').1]
  · rename_i hne
    have hsome : d.ref (c.image sb).data (.entry k) ≠ none := by
      rwa [hword, ne_eq, nonzero_eq_none]
    rw [Finset.filter_false_of_mem (by simpa using hsome)]
    refine ⟨Grows.refl hres hown, ?_⟩
    rw [hword]
    exact nonzero_eq_some.mpr ⟨rfl, hne⟩

/-- `bmap` allocates what is missing on the way to the block, or there are too few free blocks. -/
lemma bmap_spec (hres : (c.image sb).Reserved sb)
    (hown : Owned {b | sb.IsData b} {b | (c.image sb).used b = true} ((c.image sb).patch i d).ref)
    (htype : d.type ≠ 0) (hbn : bn < MAXFILE) :
    Spec (bmap sb d bn c)
      (fun r => Grows sb i d (c.image sb) (d.missing (c.image sb).data bn) r.2.1 (r.2.2.image sb) ∧
        r.2.1.ref (r.2.2.image sb).data (BlockSlot.of bn) = some r.1)
      (fun e => e = .ballocOutOfBlocks ∧
        ((c.image sb).free sb).card < (d.missing (c.image sb).data bn).card) := by
  unfold bmap
  by_cases hdir : bn < NDIRECT
  · have hof : BlockSlot.of bn = .direct ⟨bn, hdir⟩ := dif_pos hdir
    have hslot : Fin.ofNat (NDIRECT + 1) bn = (⟨bn, hdir⟩ : Fin NDIRECT).castSucc :=
      Fin.ext (Nat.mod_eq_of_lt (by omega))
    have hmissing : d.missing (c.image sb).data bn =
        ({.direct ⟨bn, hdir⟩} : Finset BlockSlot).filter (d.ref (c.image sb).data · = none) := by
      rw [Dinode.missing, BlockSlot.path, if_pos hdir, hof]
    rw [if_pos hdir, hslot, hof, hmissing]
    have hall := allocIfZero_spec (k := (⟨bn, hdir⟩ : Fin NDIRECT).castSucc) (s := .direct ⟨bn, hdir⟩) hres
      (fun _ _ => rfl) hown (fun b hb hfree hnone => Grows.direct hres hown htype hb hfree hnone)
    refine Spec.bind (hall.mono (fun _ h => h) ?_) ?_
    · rintro e ⟨rfl, hempty, hnone⟩
      refine ⟨rfl, ?_⟩
      rw [hempty, Finset.filter_true_of_mem (by simpa using hnone)]
      simp
    · rintro ⟨addr, c'⟩ ⟨hg, hne⟩
      refine ⟨hg, ?_⟩
      simp only [Dinode.ref, update_self]
      exact nonzero_eq_some.mpr ⟨rfl, hne⟩
  · have hk : bn - NDIRECT < NINDIRECT := by
      unfold MAXFILE at hbn
      omega
    have hof := BlockSlot.of_entry hdir hk
    have hmissing : d.missing (c.image sb).data bn =
        ({.indirect} : Finset BlockSlot).filter (d.ref (c.image sb).data · = none) ∪
          ({.entry ⟨bn - NDIRECT, hk⟩} : Finset BlockSlot).filter (d.ref (c.image sb).data · = none) := by
      rw [Dinode.missing, BlockSlot.path, if_neg hdir, hof, Finset.insert_eq, Finset.filter_union]
    have hdisj : Disjoint (({.indirect} : Finset BlockSlot).filter (d.ref (c.image sb).data · = none))
        (({.entry ⟨bn - NDIRECT, hk⟩} : Finset BlockSlot).filter (d.ref (c.image sb).data · = none)) :=
      Finset.disjoint_filter_filter (by simp)
    rw [if_neg hdir, if_pos hk, hof, hmissing, Finset.card_union_of_disjoint hdisj]
    have hall := allocIfZero_spec (k := Fin.last _) (s := .indirect) hres (fun _ _ => rfl) hown
      (fun b hb hfree hnone => Grows.indirect hres hown htype hb hfree hnone)
    refine Spec.bind (hall.mono (fun _ h => h) ?_) ?_
    · rintro e ⟨rfl, hempty, hnone⟩
      refine ⟨rfl, ?_⟩
      rw [hempty, Finset.filter_true_of_mem (s := {BlockSlot.indirect}) (by simpa using hnone)]
      simp only [Finset.card_empty, Finset.card_singleton]
      omega
    · rintro ⟨ind, c'⟩ ⟨hg, hne⟩
      have hind : ({ d with addrs := update d.addrs (Fin.last _) ind } : Dinode).ref
          (c'.image sb).data .indirect = some ind := by
        simp only [Dinode.ref, update_self]
        exact nonzero_eq_some.mpr ⟨rfl, hne⟩
      have hentry := hg.old (.entry ⟨bn - NDIRECT, hk⟩) (by simp)
      have hrest := bmap_entry_spec (k := ⟨bn - NDIRECT, hk⟩) hg.reserved hg.owned htype hind
      simp only [Finset.filter_singleton, hentry] at hg hrest hdisj ⊢
      refine hrest.mono ?_ ?_
      · rintro ⟨addr, d', c''⟩ ⟨hg', hs⟩
        exact ⟨hg.trans hg' hdisj, hs⟩
      · rintro e ⟨rfl, hempty, hnone⟩
        refine ⟨rfl, ?_⟩
        have hcard := hg.card
        rw [hempty, Finset.card_empty] at hcard
        rw [if_pos hnone, Finset.card_singleton]
        omega

lemma bmap_of_ref {b : Blockno}
    (hown : Owned {b | sb.IsData b} {b | (c.image sb).used b = true} ((c.image sb).patch i d).ref)
    (htype : d.type ≠ 0) (hbn : bn < MAXFILE) (hb : d.ref (c.image sb).data (BlockSlot.of bn) = some b) :
    bmap sb d bn c = .ok (b, d, c) := by
  unfold bmap
  by_cases hdir : bn < NDIRECT
  · have hslot : Fin.ofNat (NDIRECT + 1) bn = (⟨bn, hdir⟩ : Fin NDIRECT).castSucc :=
      Fin.ext (Nat.mod_eq_of_lt (by omega))
    rw [BlockSlot.of, dif_pos hdir] at hb
    obtain ⟨haddr, hne⟩ := nonzero_eq_some.mp hb
    rw [if_pos hdir, hslot]
    dsimp only
    rw [haddr, allocIfZero, if_neg hne]
    simp only [bind, Except.bind]
    rw [← haddr, update_eq_self]
  · have hk : bn - NDIRECT < NINDIRECT := by
      unfold MAXFILE at hbn
      omega
    have hof := BlockSlot.of_entry hdir hk
    rw [hof] at hb
    cases hind : d.ref (c.image sb).data .indirect with
    | none =>
      rw [Dinode.ref_entry_eq_none hind] at hb
      cases hb
    | some ind =>
      have hdata : sb.IsData ind := by
        rw [← Image.ref_patch_self (i := i) htype] at hind
        exact hown.mem_pool hind
      obtain ⟨haddr, hne⟩ := nonzero_eq_some.mp hind
      rw [Dinode.ref_entry hind, Content.image_data hdata] at hb
      obtain ⟨hword, hbne⟩ := nonzero_eq_some.mp hb
      rw [if_neg hdir, if_pos hk, haddr, allocIfZero, if_neg hne]
      simp only [bind, Except.bind]
      simp only [hword, if_neg hbne]
      simp only [← haddr, update_eq_self]

end Bmap

/-! ### `itrunc` -/

def Image.without (im : Image) (freed : List Blockno) : Image :=
  { im with used := fun b => im.used b && decide (b ∉ freed) }

section Itrunc

variable {sb : FsSuperblock} {c : Content} {i : ℕ} {d : Dinode} {im : Image} {s : BlockSlot} {b : Blockno}
  {done : List BlockSlot}

lemma exists_bfree_without {freed : List Blockno} (hc : c.image sb = im.without freed)
    (hb : im.used b = true) (hfreed : b ∉ freed) :
    ∃ c', bfree sb b c = .ok c' ∧ c'.image sb = im.without (freed ++ [b]) := by
  have hused : (c.image sb).used b = true := by
    simp [hc, Image.without, hb, hfreed]
  obtain ⟨c', hc', himage⟩ := exists_bfree hused
  refine ⟨c', hc', ?_⟩
  rw [himage, hc]
  ext1
  · funext b'
    by_cases hbb : b' = b
    · simp [Image.without, hbb]
    · simp [Image.without, hbb]
  · rfl
  · rfl

lemma exists_bfree_slot
    (hown : Owned {b | sb.IsData b} {b | im.used b = true} (im.patch i d).ref) (htype : d.type ≠ 0)
    (hc : c.image sb = im.without (done.filterMap (d.ref im.data))) (hs : s ∉ done)
    (hb : d.ref im.data s = some b) :
    ∃ c', bfree sb b c = .ok c' ∧ c'.image sb = im.without ((done ++ [s]).filterMap (d.ref im.data)) := by
  have href : ∀ {t}, d.ref im.data t = some b → (im.patch i d).ref (i, t) = some b := by
    intro t ht
    rw [Image.ref_patch_self htype, ht]
  rw [filterMap_append, filterMap_cons_some hb, filterMap_nil]
  apply exists_bfree_without hc (hown.used_of_ref (href hb))
  intro hmem
  obtain ⟨t, ht, htb⟩ := mem_filterMap.mp hmem
  have hst : s = t := congrArg Prod.snd (hown.inj (href hb) (href htb))
  exact hs (hst ▸ ht)

lemma filterMap_append_none (hs : d.ref im.data s = none) :
    (done ++ [s]).filterMap (d.ref im.data) = done.filterMap (d.ref im.data) := by
  rw [filterMap_append, filterMap_cons_none hs, filterMap_nil, append_nil]

lemma truncDirect_spec
    (hown : Owned {b | sb.IsData b} {b | (c.image sb).used b = true} ((c.image sb).patch i d).ref)
    (htype : d.type ≠ 0) :
    Spec ((List.finRange NDIRECT).foldlM (truncDirect sb) (d, c))
      (fun r => r.1 = { d with addrs := fun k => if k ∈ (List.finRange NDIRECT).map Fin.castSucc then 0 else d.addrs k } ∧
        r.2.image sb = (c.image sb).without
          (((List.finRange NDIRECT).map BlockSlot.direct).filterMap (d.ref (c.image sb).data)))
      (fun _ => False) := by
  apply Spec.foldlM (fun done (r : Dinode × Content) =>
    r.1 = { d with addrs := fun k => if k ∈ done.map Fin.castSucc then 0 else d.addrs k } ∧
      r.2.image sb = (c.image sb).without ((done.map BlockSlot.direct).filterMap (d.ref (c.image sb).data)))
  · rintro done k rest ⟨d', c'⟩ hl ⟨hd', hc'⟩
    dsimp only at hd' hc'
    have hk : k ∉ done := by
      have hnodup := nodup_finRange NDIRECT
      rw [hl] at hnodup
      intro hmem
      exact (nodup_append.mp hnodup).2.2 k hmem k mem_cons_self rfl
    have hkaddr : d'.addrs k.castSucc = d.addrs k.castSucc := by
      rw [hd']
      simp [hk]
    have haddrs : ∀ k', (if k' ∈ (done ++ [k]).map Fin.castSucc then (0 : Blockno) else d.addrs k') =
        update d'.addrs k.castSucc 0 k' := by
      intro k'
      rw [hd']
      by_cases hkk : k' = k.castSucc
      · simp [hkk]
      · simp [hkk]
    have hslot : BlockSlot.direct k ∉ done.map BlockSlot.direct := by
      simpa using hk
    unfold truncDirect
    dsimp only
    rw [hkaddr]
    split
    · rename_i hzero
      have hnone : d.ref (c.image sb).data (.direct k) = none := nonzero_eq_none.mpr hzero
      refine ⟨?_, ?_⟩
      · simp only [haddrs]
        rw [← hzero, ← hkaddr, update_eq_self, hd']
      · rw [map_append, map_singleton, filterMap_append_none hnone]
        exact hc'
    · rename_i hne
      obtain ⟨c'', hfree, himage⟩ := exists_bfree_slot hown htype hc' hslot
        (nonzero_eq_some.mpr ⟨rfl, hne⟩)
      rw [hfree]
      refine ⟨?_, ?_⟩
      · simp only [haddrs]
        rw [hd']
      · rw [map_append, map_singleton]
        exact himage
  · simp [Image.without]

lemma truncIndirect_spec {c' : Content} {a : Block}
    (hown : Owned {b | sb.IsData b} {b | im.used b = true} (im.patch i d).ref) (htype : d.type ≠ 0)
    (ha : ∀ k : Fin NINDIRECT, d.ref im.data (.entry k) = nonzero (a.word k))
    (hdone : ∀ k, BlockSlot.entry k ∉ done)
    (hc : c'.image sb = im.without (done.filterMap (d.ref im.data))) :
    Spec (truncIndirect sb a c')
      (fun r => r.image sb =
        im.without ((done ++ (List.finRange NINDIRECT).map BlockSlot.entry).filterMap (d.ref im.data)))
      (fun _ => False) := by
  unfold truncIndirect
  apply Spec.foldlM (fun part (r : Content) => r.image sb =
    im.without ((done ++ part.map BlockSlot.entry).filterMap (d.ref im.data)))
  · intro part k rest r hl hr
    have hk : BlockSlot.entry k ∉ done ++ part.map BlockSlot.entry := by
      have hnodup := nodup_finRange NINDIRECT
      rw [hl] at hnodup
      rw [mem_append, not_or]
      refine ⟨hdone k, ?_⟩
      intro hmem
      obtain ⟨k', hk', heq⟩ := mem_map.mp hmem
      cases heq
      exact (nodup_append.mp hnodup).2.2 k hk' k mem_cons_self rfl
    rw [map_append, map_singleton, ← append_assoc]
    split
    · rename_i hzero
      rw [spec_ok, filterMap_append_none (by rw [ha, nonzero_eq_none, hzero])]
      exact hr
    · rename_i hne
      obtain ⟨r', hfree, himage⟩ := exists_bfree_slot hown htype hr hk
        (by rw [ha, nonzero_eq_some]; exact ⟨rfl, hne⟩)
      rw [hfree]
      exact himage
  · simpa using hc

def Image.truncate (im : Image) (i : ℕ) (d : Dinode) : Image where
  used b := im.used b && decide (∀ s, d.ref im.data s ≠ some b)
  inode := update im.inode i { d with addrs := fun _ => 0, size := 0 }
  data := im.data

lemma without_all {slots : List BlockSlot} (hall : ∀ s, d.ref im.data s ≠ none → s ∈ slots) :
    (im.without (slots.filterMap (d.ref im.data))).used =
      fun b => im.used b && decide (∀ s, d.ref im.data s ≠ some b) := by
  funext b
  simp only [Image.without, mem_filterMap, not_exists, not_and]
  congr 1
  rw [decide_eq_decide]
  constructor
  · intro h s hs
    exact h s (hall s (by simp [hs])) hs
  · intro h s _
    exact h s

lemma exists_itrunc (hi : i < sb.ninodes)
    (hown : Owned {b | sb.IsData b} {b | (c.image sb).used b = true} ((c.image sb).patch i d).ref)
    (htype : d.type ≠ 0) :
    ∃ c', itrunc sb i d c = .ok ({ d with addrs := fun _ => 0, size := 0 }, c') ∧
      c'.image sb = (c.image sb).truncate i d := by
  obtain ⟨⟨d₁, c₁⟩, hdirect, hd₁, hc₁⟩ := (truncDirect_spec hown htype).exists_ok
  dsimp only at hd₁ hc₁
  have hlast : d₁.addrs (Fin.last _) = d.addrs (Fin.last _) := by
    rw [hd₁]
    have hne : ∀ k : Fin NDIRECT, k.castSucc ≠ Fin.last NDIRECT := fun k => k.castSucc_ne_last
    simp [hne]
  have haddrs : ∀ k, update d₁.addrs (Fin.last _) 0 k = 0 := by
    intro k
    refine Fin.lastCases ?_ ?_ k
    · simp
    · intro k
      rw [update_of_ne k.castSucc_ne_last, hd₁]
      simp
  have hfinal : ({ d₁ with addrs := update d₁.addrs (Fin.last _) 0, size := 0 } : Dinode) =
      { d with addrs := fun _ => 0, size := 0 } := by
    rw [funext haddrs, hd₁]
  have hend : ∀ {c' : Content} {slots : List BlockSlot},
      c'.image sb = (c.image sb).without (slots.filterMap (d.ref (c.image sb).data)) →
      (∀ s, d.ref (c.image sb).data s ≠ none → s ∈ slots) →
      (iupdate sb i { d with addrs := fun _ => 0, size := 0 } c').image sb = (c.image sb).truncate i d := by
    intro c' slots hc' hall
    rw [Content.image_iupdate hi, hc', Image.truncate, ← without_all hall]
    rfl
  simp only [itrunc, hdirect, bind, Except.bind, hlast, hfinal]
  by_cases hind : d.addrs (Fin.last _) = 0
  · rw [if_pos hind]
    refine ⟨_, rfl, hend hc₁ ?_⟩
    intro s hs
    cases s with
    | direct k => simp
    | indirect => exact absurd (nonzero_eq_none.mpr hind) hs
    | entry k => exact absurd (Dinode.ref_entry_eq_none (nonzero_eq_none.mpr hind)) hs
  · rw [if_neg hind]
    have href : d.ref (c.image sb).data .indirect = some (d.addrs (Fin.last _)) :=
      nonzero_eq_some.mpr ⟨rfl, hind⟩
    have hdata : sb.IsData (d.addrs (Fin.last _)) := by
      rw [← Image.ref_patch_self (i := i) htype] at href
      exact hown.mem_pool href
    have ha : ∀ k : Fin NINDIRECT, d.ref (c.image sb).data (.entry k) =
        nonzero ((c₁ (d.addrs (Fin.last _))).word k) := by
      intro k
      rw [Dinode.ref_entry href, ← Content.image_data (c := c₁) hdata, hc₁]
      rfl
    obtain ⟨c₂, hindirect, hc₂⟩ := (truncIndirect_spec hown htype ha (by simp) hc₁).exists_ok
    obtain ⟨c₃, hfree, hc₃⟩ := exists_bfree_slot hown htype hc₂ (by simp) href
    simp only [hindirect, hfree]
    refine ⟨_, rfl, hend hc₃ ?_⟩
    intro s _
    cases s <;> simp

end Itrunc

end Xv6Bfs
